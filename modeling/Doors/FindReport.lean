import Doors.FindCommand

/-! What `find` reports. The lines are those of the entries that match, in slot order and
depth first, when the path buffer starts empty, has room and takes every name as it is. -/

namespace Doors.Shell

open PointerTree Fat32 FileSystem

variable {s : FileSystem} {d c : Nat} {name : Name} {ext : Ext} {text : List UInt8}
  {stack : Nat → UInt8}

abbrev Match := Place Nat (Fin entryCount) (Nat × Fin entryCount)

def homeText : List UInt8 := ['~'.toUInt8, slash]

/-- The line that a match should have: the folders above it, and its own name. -/
def matchLine (s : FileSystem) (name : Name) (ext : Ext) (v : Match) : List UInt8 :=
  homeText ++ spread (folderText s) v.path ++ entryText (s.table v.node v.pos) name ext

/-- One line for each entry of that name and extension, ordered by the slots that lead to it. -/
structure Reports (s : FileSystem) (name : Name) (ext : Ext)
    (result : Except Fault (List (Option (List UInt8)))) : Prop where
  lines : ∃ places : List Match,
    result = .ok (places.map fun v => some (matchLine s name ext v)) ∧
    places.Pairwise (fun v w => v.address Prod.snd < w.address Prod.snd) ∧
    ∀ v, v ∈ places ↔ SlotPath s rootClusterNumber v.path v.node ∧ EntryAt s v.node name ext v.pos
  found : ∃ lines, result = .ok lines ∧
    (lines ≠ [] ↔ ∃ d i, LiveDir s d ∧ EntryAt s d name ext i)

/-- The name ends within its 8 bytes, or the extension behind it is empty. -/
def PlainName (e : FAT32DirectoryEntry) : Prop := (∃ k, e.name k = 0) ∨ e.ext 0 = 0

structure Reportable (s : FileSystem) (name : Name) (ext : Ext) (stack : Nat → UInt8) : Prop where
  room : (∀ i, folderChild s rootClusterNumber i = none) ∨
    ∃ text, CString.Holds (startPath stack) text ∧ PathRoom s rootClusterNumber text
  plain : ∀ path d i, SlotPath s rootClusterNumber path d → EntryAt s d name ext i →
    stack 2 = 0 ∧ ∀ k ∈ path, PlainName (s.table k.1 k.2)

section Names

theorem put_entry (t : DirectoryTable) (i : Fin entryCount) {k : Nat} (hk : k < 32) :
    directoryTableCodec.put t (32 * i.val + k) = FAT32DirectoryEntry.codec.put (t i) k := by
  have hdiv : (32 * i.val + k) / 32 = i.val := by omega
  have hmod : (32 * i.val + k) % 32 = k := by omega
  change (if h : (32 * i.val + k) / 32 < entryCount then
    FAT32DirectoryEntry.codec.put (t ⟨(32 * i.val + k) / 32, h⟩) ((32 * i.val + k) % 32) else 0) = _
  simp only [hdiv, hmod, i.isLt, dif_pos]

theorem put_name (e : FAT32DirectoryEntry) (k : Fin 8) :
    FAT32DirectoryEntry.codec.put e k.val = e.name k := by
  match k with
  | 0 | 1 | 2 | 3 | 4 | 5 | 6 | 7 => rfl

theorem put_ext (e : FAT32DirectoryEntry) : FAT32DirectoryEntry.codec.put e 8 = e.ext 0 := rfl

theorem tableBytes_split (t : DirectoryTable) (i : Fin entryCount) :
    ∃ rest, tableBytes t i = List.ofFn (t i).name ++ (t i).ext 0 :: rest := by
  have hi := i.isLt
  obtain ⟨m, hm⟩ : ∃ m, clusterSize - 32 * i.val = 8 + (m + 1) := by
    refine ⟨clusterSize - 32 * i.val - 9, ?_⟩
    simp only [clusterSize, blockSize, clusterBlockCount, entryCount] at *
    omega
  have hname : (List.range' (32 * i.val) 8).map (directoryTableCodec.put t) =
      List.ofFn (t i).name := by
    refine List.ext_getElem (by simp) fun k hk _ => ?_
    rw [List.length_map, List.length_range'] at hk
    rw [List.getElem_map, List.getElem_range', Nat.one_mul, put_entry t i (by omega),
      put_name _ ⟨k, hk⟩, List.getElem_ofFn]
  refine ⟨(List.range' (32 * i.val + 9) m).map (directoryTableCodec.put t), ?_⟩
  rw [tableBytes, hm, ← List.range'_append_1, List.map_append, hname, List.range'_succ,
    List.map_cons, put_entry t i (by omega), put_ext]

theorem nameText_full {n : Name} (h : ∀ k, n k ≠ 0) : nameText n = List.ofFn n := by
  refine List.takeWhile_eq_self_iff.mpr fun b hb => ?_
  obtain ⟨k, rfl⟩ := List.mem_ofFn.mp hb
  simpa using h k

/-- The name that is taken begins with the folder's name, and is it where that name is plain. -/
theorem storedName_spec {i : Fin entryCount} (h : (rawName (s.table d) i).isSome) :
    (folderText s d i).length ≤ (storedName s d i).length ∧
      (storedName s d i = folderText s d i ↔ PlainName (s.table d i)) := by
  obtain ⟨rest, hbytes⟩ := tableBytes_split (s.table d) i
  have hstored : storedName s d i =
      (List.ofFn (s.table d i).name ++ (s.table d i).ext 0 :: rest).takeWhile (· ≠ 0) := by
    unfold rawName at h
    split_ifs at h with hz
    · rw [storedName, rawName, if_pos hz, Option.getD_some, hbytes]
    · simp at h
  rw [hstored, folderText]
  by_cases hzero : ∃ k, (s.table d i).name k = 0
  · have hcut : (List.ofFn (s.table d i).name ++ (s.table d i).ext 0 :: rest).takeWhile (· ≠ 0) =
        nameText (s.table d i).name := by
      obtain ⟨k, hk⟩ := hzero
      rw [List.takeWhile_append, if_neg]
      · rfl
      · intro hall
        have hself := (List.takeWhile_prefix _).eq_of_length hall
        have hmem : (s.table d i).name k ∈ List.ofFn (s.table d i).name :=
          List.mem_ofFn.mpr ⟨k, rfl⟩
        rw [← hself] at hmem
        simpa [hk] using List.mem_takeWhile_imp hmem
    rw [hcut]
    exact ⟨Nat.le_refl _, iff_of_true rfl (.inl hzero)⟩
  · have hfull := nameText_full (not_exists.mp hzero)
    have hall : ∀ b ∈ List.ofFn (s.table d i).name, decide (b ≠ 0) = true :=
      List.takeWhile_eq_self_iff.mp hfull
    rw [List.takeWhile_append_of_pos hall, hfull, List.takeWhile_cons]
    by_cases hext : (s.table d i).ext 0 = 0
    · simp [hext, PlainName]
    · simp [hext, PlainName, not_exists.mp hzero]

theorem length_spread_le {f f' : Nat → Fin entryCount → List UInt8}
    {path : List (Nat × Fin entryCount)} (h : ∀ k ∈ path, (f k.1 k.2).length ≤ (f' k.1 k.2).length) :
    (spread f path).length ≤ (spread f' path).length := by
  induction path with
  | nil => simp [spread]
  | cons k path ih =>
    have hk := h k List.mem_cons_self
    have hrest := ih fun k hk => h k (List.mem_cons_of_mem _ hk)
    simp only [spread_cons, List.length_append, List.length_cons]
    omega

/-- Texts in front and longer names are seen in the length. -/
theorem spread_eq_iff {f f' : Nat → Fin entryCount → List UInt8} {g : List UInt8}
    {path : List (Nat × Fin entryCount)} (h : ∀ k ∈ path, (f k.1 k.2).length ≤ (f' k.1 k.2).length) :
    g ++ spread f' path = spread f path ↔ g = [] ∧ ∀ k ∈ path, f' k.1 k.2 = f k.1 k.2 := by
  induction path generalizing g with
  | nil => simp [spread]
  | cons k path ih =>
    have hrest : ∀ k ∈ path, (f k.1 k.2).length ≤ (f' k.1 k.2).length :=
      fun k hk => h k (List.mem_cons_of_mem _ hk)
    simp only [spread_cons, List.forall_mem_cons]
    constructor
    · intro heq
      have hk := h k List.mem_cons_self
      have hle := length_spread_le hrest
      have hlen := congrArg List.length heq
      simp only [List.length_append, List.length_cons] at hlen
      obtain rfl : g = [] := List.eq_nil_of_length_eq_zero (by omega)
      rw [List.length_nil] at hlen
      rw [List.nil_append] at heq
      obtain ⟨hname, hcons⟩ := List.append_inj heq (by omega)
      have hbelow := (ih (g := []) hrest).mp (List.cons.inj hcons).2
      exact ⟨rfl, hname, hbelow.2⟩
    · rintro ⟨rfl, hname, hbelow⟩
      have heq := (ih (g := []) hrest).mpr ⟨rfl, hbelow⟩
      rw [List.nil_append] at heq
      rw [hname, heq, List.nil_append]

end Names

section Start

/-- What the array held behind the first two bytes comes to the text. -/
theorem startPath_text (h : CString.Holds (startPath stack) text) :
    ∃ g, text = homeText ++ g ∧ (g = [] ↔ stack 2 = 0) := by
  match text, h with
  | [], h => exact absurd (show '~'.toUInt8 = 0 from h.ended) (by decide)
  | [a], h => exact absurd (show slash = 0 from h.ended) (by decide)
  | a :: b :: g, h =>
    have ha : a = '~'.toUInt8 := by simpa [startPath] using (h.begins 0 (by simp)).symm
    have hb : b = slash := by simpa [startPath] using (h.begins 1 (by simp)).symm
    refine ⟨g, by rw [ha, hb]; rfl, ?_⟩
    cases g with
    | nil => simpa [startPath] using h.ended
    | cons c g =>
      have hc : c = stack 2 := by simpa [startPath] using (h.begins 2 (by simp)).symm
      have hne : c ≠ 0 := fun hz => h.string (by simp [hz])
      simpa [← hc] using hne

theorem startPath_ended (h : stack 2 = 0) : CString.Holds (startPath stack) homeText where
  length := by decide
  string := by decide
  begins k hk := by
    match k, hk with
    | 0, _ | 1, _ => rfl
  ended := by simpa [startPath, homeText] using h

end Start

section Lines

theorem slotPath_mem {path : List (Nat × Fin entryCount)} {x : Nat} (h : SlotPath s d path x)
    {k : Nat × Fin entryCount} (hk : k ∈ path) :
    ∃ before b, SlotPath s d before k.1 ∧ folderChild s k.1 k.2 = some b := by
  obtain ⟨before, behind, rfl⟩ := List.append_of_mem hk
  obtain ⟨y, hy, hrest⟩ := h.split
  cases hrest with
  | step hb _ => exact ⟨before, _, hy, hb⟩

theorem placeLine_iff (htext : CString.Holds (startPath stack) text)
    (hroom : PathRoom s rootClusterNumber text) {v : Match}
    (hv : SlotPath s rootClusterNumber v.path v.node) :
    placeLine s name ext text v = some (matchLine s name ext v) ↔
      stack 2 = 0 ∧ ∀ k ∈ v.path, PlainName (s.table k.1 k.2) := by
  obtain ⟨g, rfl, hg⟩ := startPath_text htext
  have hended : ∀ k ∈ v.path, (rawName (s.table k.1) k.2).isSome := fun k hk => by
    obtain ⟨before, b, hbefore, hb⟩ := slotPath_mem hv hk
    exact hroom.ended before _ _ b hbefore hb
  have heq : placeLine s name ext (homeText ++ g) v = some (matchLine s name ext v) ↔
      g ++ spread (storedName s) v.path = spread (folderText s) v.path := by
    simp only [placeLine, matchLine, Option.some.injEq, List.append_assoc,
      List.append_cancel_left_eq]
    rw [← List.append_assoc, List.append_left_inj]
  rw [heq, spread_eq_iff fun k hk => (storedName_spec (hended k hk)).1, hg]
  exact and_congr_right fun _ => forall₂_congr fun k hk => (storedName_spec (hended k hk)).2

end Lines

section Matches

theorem selects_iff {i : Fin entryCount} : selects s name ext d i = true ↔ EntryAt s d name ext i := by
  simp [selects, EntryAt, LiveSlot, and_assoc]

theorem slotPath_depth (hw : WellFormed s) {path : List (Nat × Fin entryCount)}
    (h : SlotPath s rootClusterNumber path d) : path.length < clusterMapSize := by
  have hdepth := hw.dir_depth_lt (h.reachIn .root)
  rwa [Nat.zero_add] at hdepth

theorem mem_matchesBelow (hw : WellFormed s) {v : Match} :
    v ∈ matchesBelow s name ext clusterMapSize rootClusterNumber ↔
      SlotPath s rootClusterNumber v.path v.node ∧ EntryAt s v.node name ext v.pos := by
  rw [matchesBelow, mem_preorder (fun d i c h => mem_slotsFrom.mpr (folderChild_eq_some.mp h).1.1)
    fun d i h => mem_slotsFrom.mpr (selects_iff.mp h).1.1]
  constructor
  · rintro ⟨-, hdown, hhold⟩
    exact ⟨hdown, selects_iff.mp hhold⟩
  · rintro ⟨hdown, hhold⟩
    exact ⟨slotPath_depth hw hdown, hdown, selects_iff.mpr hhold⟩

theorem matchesBelow_sorted (s : FileSystem) (name : Name) (ext : Ext) (fuel d : Nat) :
    (matchesBelow s name ext fuel d).Pairwise fun v w => v.address Prod.snd < w.address Prod.snd :=
  preorder_sorted (fun _ _ => rfl) (slotsFrom_sorted 2) fuel d

theorem reports_of_places {places : List Match} {result : Except Fault (List (Option (List UInt8)))}
    (hresult : result = .ok (places.map fun v => some (matchLine s name ext v)))
    (hsorted : places.Pairwise fun v w => v.address Prod.snd < w.address Prod.snd)
    (hmem : ∀ v, v ∈ places ↔
      SlotPath s rootClusterNumber v.path v.node ∧ EntryAt s v.node name ext v.pos) :
    Reports s name ext result := by
  refine ⟨⟨places, hresult, hsorted, hmem⟩, _, hresult, ?_⟩
  rw [ne_eq, List.map_eq_nil_iff]
  constructor
  · intro hne
    obtain ⟨v, hv⟩ := List.exists_mem_of_ne_nil _ hne
    obtain ⟨hpath, hentry⟩ := (hmem v).mp hv
    exact ⟨v.node, v.pos, hpath.reach reach_root, hentry⟩
  · rintro ⟨d, i, hd, hentry⟩ rfl
    obtain ⟨path, hpath⟩ : ∃ path, SlotPath s rootClusterNumber path d := Descends.of_reach hd
    simpa using (hmem ⟨path, d, i⟩).mpr ⟨hpath, hentry⟩

end Matches

section Unended

/-- Without an end of the path the first folder stops the search, and the lines have no text. -/
theorem find_unended {mem : Nat → UInt8} (h : CString.strlen mem = none) (fuel : Nat) :
    ((∃ i c, folderChild s d i = some c) →
      find s name ext (fuel + 1) d mem = .error .outOfBounds) ∧
    ((∀ i, folderChild s d i = none) → find s name ext (fuel + 1) d mem = .ok
      ((slotsFrom 2).flatMap fun i => if selects s name ext d i then [none] else [])) := by
  have hplain : ∀ i ∈ slotsFrom 2, folderChild s d i = none →
      findAt name ext (find s name ext fuel) (s.table d) mem i =
        .ok (if selects s name ext d i then [none] else []) := fun i hi hc => by
    have hi := mem_slotsFrom.mp hi
    rw [findAt, selects, findLine, h]
    by_cases hl : (s.table d i).live = true
    · have hk : (s.table d i).isSubdirectory ≠ true := fun hk => by
        rw [folderChild, if_pos ⟨hi, hl, hk⟩] at hc
        cases hc
      simp [hl, hk, hi]
    · simp [hl]
  have hfolder : ∀ i c, folderChild s d i = some c →
      findAt name ext (find s name ext fuel) (s.table d) mem i = .error .outOfBounds :=
    fun i c hc => findAt_error hc (by
      rw [findBelow]
      cases rawName (s.table d) i with
      | none => rfl
      | some text => simp [CString.strcat, h, bind, Except.bind])
  constructor
  · rintro ⟨i, c, hc⟩
    rw [find]
    refine findLoop_error (fun j hj => ?_)
      ⟨i, mem_slotsFrom.mpr (folderChild_eq_some.mp hc).1.1, hfolder i c hc⟩
    cases hb : folderChild s d j with
    | none => exact .inr ⟨_, hplain j hj hb⟩
    | some b => exact .inl (hfolder j b hb)
  · intro hnone
    rw [find]
    exact findLoop_ok fun i hi => hplain i hi (hnone i)

theorem slotPath_leaf (h : ∀ i, folderChild s d i = none) {path : List (Nat × Fin entryCount)}
    {x : Nat} (hp : SlotPath s d path x) : path = [] ∧ x = d := by
  cases hp with
  | here => exact ⟨rfl, rfl⟩
  | step hb _ => simp [h] at hb

end Unended

section Find

theorem find_ok (hw : WellFormed s) (hm : CString.Holds (startPath stack) text)
    (hroom : PathRoom s rootClusterNumber text) :
    find s name ext clusterMapSize rootClusterNumber (startPath stack) =
      .ok ((matchesBelow s name ext clusterMapSize rootClusterNumber).map
        (placeLine s name ext text)) :=
  (find_spec hm fun _ _ hp => slotPath_depth hw hp).1 hroom

theorem find_full (hw : WellFormed s) (hm : CString.Holds (startPath stack) text)
    (hroom : ¬ PathRoom s rootClusterNumber text) :
    find s name ext clusterMapSize rootClusterNumber (startPath stack) = .error .outOfBounds :=
  (find_spec hm fun _ _ hp => slotPath_depth hw hp).2 hroom

/-- Where the path has an end, room for it is room for every path below. -/
theorem pathRoom_of_room (hm : CString.Holds (startPath stack) text)
    (h : (∀ i, folderChild s rootClusterNumber i = none) ∨
      ∃ text, CString.Holds (startPath stack) text ∧ PathRoom s rootClusterNumber text) :
    PathRoom s rootClusterNumber text := by
  obtain hnone | ⟨text', hm', hroom⟩ := h
  · exact pathRoom_iff.mpr ⟨hm.length, fun i c hc => by simp [hnone] at hc⟩
  · rwa [hm.unique hm']

/-- Without an end there is room only where no folder is. -/
theorem no_folder_of_room (hm : CString.strlen (startPath stack) = none)
    (h : (∀ i, folderChild s rootClusterNumber i = none) ∨
      ∃ text, CString.Holds (startPath stack) text ∧ PathRoom s rootClusterNumber text) :
    ∀ i, folderChild s rootClusterNumber i = none := by
  obtain hnone | ⟨text, hm', -⟩ := h
  · exact hnone
  · simp [hm'.strlen] at hm

theorem find_reports_held (hw : WellFormed s) (hm : CString.Holds (startPath stack) text) :
    Reports s name ext (find s name ext clusterMapSize rootClusterNumber (startPath stack)) ↔
      Reportable s name ext stack := by
  constructor
  · intro h
    obtain ⟨places, hresult, hsorted, hmem⟩ := h.lines
    have hroom : PathRoom s rootClusterNumber text := by
      by_contra hfull
      rw [find_full hw hm hfull] at hresult
      cases hresult
    rw [find_ok hw hm hroom] at hresult
    obtain rfl : places = matchesBelow s name ext clusterMapSize rootClusterNumber :=
      listing_unique hsorted (matchesBelow_sorted s name ext _ _) fun v =>
        (hmem v).trans (mem_matchesBelow hw).symm
    refine ⟨.inr ⟨text, hm, hroom⟩, fun path d i hpath hentry => ?_⟩
    have hline := List.map_inj_left.mp (Except.ok.inj hresult) ⟨path, d, i⟩
      ((hmem _).mpr ⟨hpath, hentry⟩)
    exact (placeLine_iff hm hroom hpath).mp hline
  · intro h
    have hroom := pathRoom_of_room hm h.room
    refine reports_of_places ?_ (matchesBelow_sorted s name ext clusterMapSize rootClusterNumber)
      fun v => mem_matchesBelow hw
    rw [find_ok hw hm hroom]
    refine congrArg _ (List.map_congr_left fun v hv => ?_)
    obtain ⟨hpath, hentry⟩ := (mem_matchesBelow hw).mp hv
    exact (placeLine_iff hm hroom hpath).mpr (h.plain _ _ _ hpath hentry)

theorem find_reports_unended (hm : CString.strlen (startPath stack) = none) :
    Reports s name ext (find s name ext clusterMapSize rootClusterNumber (startPath stack)) ↔
      Reportable s name ext stack := by
  obtain ⟨hfolder, hplain⟩ := @find_unended s rootClusterNumber name ext _ hm 511
  constructor
  · intro h
    obtain ⟨places, hresult, -, hmem⟩ := h.lines
    have hnone : ∀ i, folderChild s rootClusterNumber i = none := fun i => by
      cases hc : folderChild s rootClusterNumber i with
      | none => rfl
      | some c =>
        have herror := hresult.symm.trans (hfolder ⟨i, c, hc⟩)
        cases herror
    refine ⟨.inl hnone, fun path d i hpath hentry => ?_⟩
    have hv := (hmem ⟨path, d, i⟩).mpr ⟨hpath, hentry⟩
    have hlines := Except.ok.inj (hresult.symm.trans (hplain hnone))
    have hline := List.mem_map_of_mem (f := fun v => some (matchLine s name ext v)) hv
    rw [hlines, List.mem_flatMap] at hline
    obtain ⟨j, -, hj⟩ := hline
    split at hj <;> simp at hj
  · intro h
    have hnone := no_folder_of_room hm h.room
    have hmatch : ∀ d i path, SlotPath s rootClusterNumber path d → ¬ EntryAt s d name ext i :=
      fun d i path hpath hentry => by
        have hheld := startPath_ended (h.plain path d i hpath hentry).1
        simp [hheld.strlen] at hm
    refine reports_of_places ?_ .nil fun v => ?_
    · refine (hplain hnone).trans (congrArg _ ?_)
      refine List.flatMap_eq_nil_iff.mpr fun i _ => if_neg fun hsel => ?_
      exact hmatch _ i [] (.here _) (selects_iff.mp hsel)
    · simp only [List.not_mem_nil, false_iff, not_and]
      exact fun hpath => hmatch _ _ _ hpath

/-- The search ends, and its report is right under the condition and not otherwise. -/
theorem find_reports_iff (hw : WellFormed s) (name : Name) (ext : Ext) (stack : Nat → UInt8) :
    find s name ext clusterMapSize rootClusterNumber (startPath stack) ≠ .error .diverges ∧
    (Reports s name ext (find s name ext clusterMapSize rootClusterNumber (startPath stack)) ↔
      Reportable s name ext stack) := by
  cases hm : CString.strlen (startPath stack) with
  | none =>
    obtain ⟨hfolder, hplain⟩ := @find_unended s rootClusterNumber name ext _ hm 511
    refine ⟨fun hend => ?_, find_reports_unended hm⟩
    by_cases h : ∃ i c, folderChild s rootClusterNumber i = some c
    · cases hend.symm.trans (hfolder h)
    · simp only [not_exists, ← Option.eq_none_iff_forall_ne_some] at h
      cases hend.symm.trans (hplain h)
  | some n =>
    have hheld := CString.holds_of_strlen hm
    refine ⟨fun hend => ?_, find_reports_held hw hheld⟩
    by_cases hroom : PathRoom s rootClusterNumber ((List.range n).map (startPath stack))
    · cases hend.symm.trans (find_ok hw hheld hroom)
    · cases hend.symm.trans (find_full hw hheld hroom)

theorem loneFile_exists : ∃ s i, WellFormed s ∧
    EntryAt s rootClusterNumber byteRequest.name byteRequest.ext i ∧
    ∀ j, folderChild s rootClusterNumber j = none := by
  obtain ⟨s, i, cs, -, hw, hwr⟩ :=
    createFat32_written (fun _ => 0) zeroBytes byteRequest rfl (by decide)
  have hfile := hwr.fileSlot (by decide)
  refine ⟨s, i, hw, entryAt_written hwr rfl, fun j => ?_⟩
  refine Option.eq_none_iff_forall_ne_some.mpr fun c hc => ?_
  obtain rfl := createFat32_only _ _ hwr rfl (folderChild_eq_some.mp hc).1
  exact nomatch (folderChild_of_fileSlot hfile).symm.trans hc

/-- With zeros behind "~/" the file is reported. -/
theorem find_reports_file : ∃ s i, EntryAt s rootClusterNumber byteRequest.name byteRequest.ext i ∧
    Reports s byteRequest.name byteRequest.ext
      (find s byteRequest.name byteRequest.ext clusterMapSize rootClusterNumber
        (startPath fun _ => 0)) := by
  obtain ⟨s, i, hw, hi, hnone⟩ := loneFile_exists
  refine ⟨s, i, hi, (find_reports_iff hw _ _ _).2.mpr ⟨.inl hnone, fun path d j hpath _ => ?_⟩⟩
  obtain ⟨rfl, -⟩ := slotPath_leaf hnone hpath
  exact ⟨rfl, by simp⟩

/-- The array still holds a letter behind "~/", and the line has it. -/
theorem leftover_printed : ¬ ∀ (s : FileSystem) (name : Name) (ext : Ext) (stack : Nat → UInt8),
    WellFormed s →
    Reports s name ext (find s name ext clusterMapSize rootClusterNumber (startPath stack)) := by
  intro h
  obtain ⟨s, i, hw, hi, -⟩ := loneFile_exists
  have hreport := h s byteRequest.name byteRequest.ext (fun k => if k = 2 then 88 else 0) hw
  have hplain : (88 : UInt8) = 0 := by
    cases hm : CString.strlen (startPath fun k => if k = 2 then 88 else 0) with
    | none => exact (((find_reports_unended hm).mp hreport).plain [] _ i (.here _) hi).1
    | some n =>
      have hheld := CString.holds_of_strlen hm
      exact (((find_reports_held hw hheld).mp hreport).plain [] _ i (.here _) hi).1
  exact absurd hplain (by decide)

end Find

end Doors.Shell
