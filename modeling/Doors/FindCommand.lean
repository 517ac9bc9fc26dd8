import Doors.PromptPath
import Doors.Preorder

/-! `find` of the shell. It goes through the directories depth first and carries the path in
an array of 256 bytes, which `strcat` extends by the names as they lie in the tables. -/

namespace Doors.Shell

open PointerTree Fat32 FileSystem

/-- The bytes of the table from the name of entry `i` on. -/
def tableBytes (t : DirectoryTable) (i : Fin entryCount) : List UInt8 :=
  (List.range' (32 * i.val) (clusterSize - 32 * i.val)).map (directoryTableCodec.put t)

/-- The string at the name of entry `i`; `none` when it does not end inside the table. -/
def rawName (t : DirectoryTable) (i : Fin entryCount) : Option (List UInt8) :=
  if 0 ∈ tableBytes t i then some ((tableBytes t i).takeWhile (· ≠ 0)) else none

def extText (ext : Ext) : List UInt8 := (List.ofFn ext).takeWhile (· ≠ 0)

def entryText (e : FAT32DirectoryEntry) (name : Name) (ext : Ext) : List UInt8 :=
  nameText name ++ if !e.isSubdirectory && e.ext ≠ noExt then dot :: extText ext else []

/-- The line for a match; `none` when the scan for the end of the path leaves its array. -/
def findLine (currPath : Nat → UInt8) (e : FAT32DirectoryEntry) (name : Name) (ext : Ext) :
    Option (List UInt8) :=
  (CString.strlen currPath).map fun n => puts currPath n ++ entryText e name ext

/-- The folder at entry `i` is searched with its name and a slash behind the path. -/
def findBelow (find : Nat → (Nat → UInt8) → Except Fault (List (Option (List UInt8))))
    (t : DirectoryTable) (currPath : Nat → UInt8) (i : Fin entryCount) :
    Except Fault (List (Option (List UInt8))) :=
  match rawName t i with
  | none => .error .outOfBounds
  | some text => do
    let newPath ← CString.strcat currPath text
    let newPath ← CString.strcat newPath [slash]
    find (t i).clusterNumber newPath

/-- The body of the loop for entry `i`. -/
def findAt (name : Name) (ext : Ext)
    (find : Nat → (Nat → UInt8) → Except Fault (List (Option (List UInt8))))
    (t : DirectoryTable) (currPath : Nat → UInt8) (i : Fin entryCount) :
    Except Fault (List (Option (List UInt8))) :=
  let e := t i
  let found := if e.name = name && e.ext = ext then [findLine currPath e name ext] else []
  if !e.live then .ok []
  else if e.isSubdirectory then (findBelow find t currPath i).map (found ++ ·)
  else .ok found

def findLoop (name : Name) (ext : Ext)
    (find : Nat → (Nat → UInt8) → Except Fault (List (Option (List UInt8))))
    (t : DirectoryTable) (currPath : Nat → UInt8) :
    List (Fin entryCount) → Except Fault (List (Option (List UInt8)))
  | [] => .ok []
  | i :: is => do
    let lines ← findAt name ext find t currPath i
    let rest ← findLoop name ext find t currPath is
    return lines ++ rest

/-- The lines that are printed; `isFound` is set with the first of them. -/
def find (s : FileSystem) (name : Name) (ext : Ext) :
    Nat → Nat → (Nat → UInt8) → Except Fault (List (Option (List UInt8)))
  | 0, _, _ => .error .diverges
  | fuel + 1, clusterNumber, currPath =>
    findLoop name ext (find s name ext fuel) (readTable s clusterNumber) currPath (slotsFrom 2)

/-- `char curr_path[256]` with "~/" copied to its start; the rest was there before. -/
def startPath (stack : Nat → UInt8) : Nat → UInt8 :=
  fun k => if k = 0 then '~'.toUInt8 else if k = 1 then slash else stack k

/-- The branch of `run_command`: the lines, and whether there is one. -/
def runFind (s : FileSystem) (stack : Nat → UInt8) (arg : List UInt8) :
    Except Fault (List (Option (List UInt8)) × Bool) := do
  let rows ← strsplit arg dot
  let name := toName (rows.getD 0 [])
  let ext := toExt (rows.getD 1 [])
  let lines ← find s name ext clusterMapSize rootClusterNumber (startPath stack)
  return (lines, !lines.isEmpty)

variable {s : FileSystem} {d c : Nat} {name : Name} {ext : Ext} {text : List UInt8}
  {mem : Nat → UInt8} {fuel : Nat}

/-- What `strcat` takes for the name of a folder. -/
def storedName (s : FileSystem) (d : Nat) (i : Fin entryCount) : List UInt8 :=
  (rawName (s.table d) i).getD []

/-- The texts of the folders on a path, each with a slash behind it. -/
def spread (text : Nat → Fin entryCount → List UInt8) (path : List (Nat × Fin entryCount)) :
    List UInt8 := path.flatMap fun k => text k.1 k.2 ++ [slash]

/-- The slots through which directory `c` is reached from `d`. -/
abbrev SlotPath (s : FileSystem) (d : Nat) (path : List (Nat × Fin entryCount)) (c : Nat) : Prop :=
  Descends (folderChild s) Prod.mk d path c

/-- A live entry of that name and extension. -/
def selects (s : FileSystem) (name : Name) (ext : Ext) (d : Nat) (i : Fin entryCount) : Bool :=
  2 ≤ i.val && (s.table d i).live && ((s.table d i).name = name && (s.table d i).ext = ext)

/-- The paths that `find` writes below `d` end where they should and fit their arrays. -/
structure PathRoom (s : FileSystem) (d : Nat) (text : List UInt8) : Prop where
  ended : ∀ path x i c, SlotPath s d path x → folderChild s x i = some c →
    (rawName (s.table x) i).isSome
  fits : ∀ path x, SlotPath s d path x → (text ++ spread (storedName s) path).length < 256

def matchesBelow (s : FileSystem) (name : Name) (ext : Ext) (fuel d : Nat) :
    List (Place Nat (Fin entryCount) (Nat × Fin entryCount)) :=
  preorder (folderChild s) Prod.mk (selects s name ext) (slotsFrom 2) fuel d

/-- The line for a place, with the path text in front. -/
def placeLine (s : FileSystem) (name : Name) (ext : Ext) (text : List UInt8)
    (v : Place Nat (Fin entryCount) (Nat × Fin entryCount)) : Option (List UInt8) :=
  some (text ++ spread (storedName s) v.path ++ entryText (s.table v.node v.pos) name ext)

section Room

theorem spread_cons (names : Nat → Fin entryCount → List UInt8) (k : Nat × Fin entryCount)
    (path : List (Nat × Fin entryCount)) :
    spread names (k :: path) = names k.1 k.2 ++ slash :: spread names path := by
  simp [spread]

theorem pathRoom_iff : PathRoom s d text ↔ text.length < 256 ∧ ∀ i c, folderChild s d i = some c →
    (rawName (s.table d) i).isSome ∧ PathRoom s c (text ++ storedName s d i ++ [slash]) := by
  constructor
  · intro h
    refine ⟨by simpa [spread] using h.fits [] d (.here d), fun i c hc => ⟨h.ended [] d i c (.here d) hc,
      fun path x j b hp hb => h.ended _ x j b (.step hc hp) hb, fun path x hp => ?_⟩⟩
    have hfit := h.fits _ x (.step hc hp)
    rw [spread_cons] at hfit
    simpa [List.append_assoc] using hfit
  · rintro ⟨hlen, h⟩
    refine ⟨fun path x i c hp hc => ?_, fun path x hp => ?_⟩
    · cases hp with
      | here => exact (h i c hc).1
      | step hb hp => exact (h _ _ hb).2.ended _ _ _ _ hp hc
    · cases hp with
      | here => simpa [spread] using hlen
      | step hb hp =>
        have hfit := (h _ _ hb).2.fits _ _ hp
        rw [spread_cons]
        simpa [List.append_assoc] using hfit

end Room

section Loop

theorem puts_holds (h : CString.Holds mem text) : puts mem text.length = text := by
  have hbytes : (List.range text.length).map mem = text := by
    refine List.ext_getElem (by simp) fun k hk hk' => ?_
    simp [h.begins k hk', hk']
  have hne : ∀ b ∈ text, decide (b ≠ 0) = true := fun b hb =>
    decide_eq_true fun hz : b = 0 => h.string (hz ▸ hb)
  rw [puts, hbytes, List.takeWhile_eq_self_iff.mpr hne]

theorem findLine_holds (h : CString.Holds mem text) (e : FAT32DirectoryEntry) :
    findLine mem e name ext = some (text ++ entryText e name ext) := by
  rw [findLine, h.strlen, Option.map_some, puts_holds h]

theorem rawName_string {t : DirectoryTable} {i : Fin entryCount} (h : rawName t i = some text) :
    0 ∉ text := by
  unfold rawName at h
  split_ifs at h
  cases h
  exact fun hz => by simpa using List.mem_takeWhile_imp hz

variable {rec : Nat → (Nat → UInt8) → Except Fault (List (Option (List UInt8)))}
  {t : DirectoryTable} {is : List (Fin entryCount)}

theorem findLoop_ok {lines : Fin entryCount → List (Option (List UInt8))}
    (h : ∀ i ∈ is, findAt name ext rec t mem i = .ok (lines i)) :
    findLoop name ext rec t mem is = .ok (is.flatMap lines) := by
  induction is with
  | nil => rfl
  | cons i is ih =>
    rw [findLoop, h i List.mem_cons_self, ih fun j hj => h j (List.mem_cons_of_mem _ hj)]
    rfl

theorem findLoop_error {f : Fault} (h : ∀ i ∈ is, findAt name ext rec t mem i = .error f ∨
      ∃ lines, findAt name ext rec t mem i = .ok lines)
    (hfail : ∃ i ∈ is, findAt name ext rec t mem i = .error f) :
    findLoop name ext rec t mem is = .error f := by
  induction is with
  | nil => simp at hfail
  | cons i is ih =>
    rw [findLoop]
    obtain hi | ⟨lines, hi⟩ := h i List.mem_cons_self
    · rw [hi]
      rfl
    · obtain ⟨j, hj, hfail⟩ := hfail
      obtain rfl | hj := List.mem_cons.mp hj
      · rw [hi] at hfail
        cases hfail
      · rw [hi, ih (fun k hk => h k (List.mem_cons_of_mem _ hk)) ⟨j, hj, hfail⟩]
        rfl

/-- The name and the slash behind a path that is held, or a store outside. -/
theorem strcat_folder (h : CString.Holds mem text) {raw : List UInt8} (hraw : 0 ∉ raw) :
    ((text ++ raw ++ [slash]).length < 256 → ∃ mem' newPath, CString.strcat mem raw = .ok mem' ∧
      CString.strcat mem' [slash] = .ok newPath ∧ CString.Holds newPath (text ++ raw ++ [slash])) ∧
    (256 ≤ (text ++ raw ++ [slash]).length →
      (CString.strcat mem raw >>= fun p => CString.strcat p [slash]) = .error .outOfBounds) := by
  have hlen : (text ++ raw ++ [slash]).length = text.length + raw.length + 1 := by
    simp [Nat.add_assoc]
  obtain ⟨hfit, hover⟩ := h.strcat hraw
  rw [hlen]
  refine ⟨fun hroom => ?_, fun hfull => ?_⟩
  · obtain ⟨mem', hcat, hm'⟩ := hfit (by omega)
    obtain ⟨newPath, hcat', hnew⟩ := (hm'.strcat (show (0 : UInt8) ∉ [slash] by decide)).1
      (by rw [List.length_append, List.length_singleton]; omega)
    exact ⟨mem', newPath, hcat, hcat', hnew⟩
  · by_cases hname : text.length + raw.length < 256
    · obtain ⟨mem', hcat, hm'⟩ := hfit hname
      rw [hcat]
      exact (hm'.strcat (show (0 : UInt8) ∉ [slash] by decide)).2
        (by rw [List.length_append, List.length_singleton]; omega)
    · rw [hover (by omega)]
      rfl

end Loop

section Search

/-- The lines for one slot. -/
def slotLines (s : FileSystem) (name : Name) (ext : Ext) (text : List UInt8) (d : Nat)
    (below : Nat → List (Option (List UInt8))) (i : Fin entryCount) :
    List (Option (List UInt8)) :=
  (if selects s name ext d i then [some (text ++ entryText (s.table d i) name ext)] else []) ++
    match folderChild s d i with
    | none => []
    | some c => below c

theorem placeLine_below (i : Fin entryCount)
    (v : Place Nat (Fin entryCount) (Nat × Fin entryCount)) :
    placeLine s name ext text (v.below (d, i)) =
      placeLine s name ext (text ++ storedName s d i ++ [slash]) v := by
  simp [placeLine, Place.below, spread_cons]

theorem matchesBelow_succ : (matchesBelow s name ext (fuel + 1) d).map (placeLine s name ext text) =
    (slotsFrom 2).flatMap fun i => slotLines s name ext text d (fun c =>
      (matchesBelow s name ext fuel c).map
        (placeLine s name ext (text ++ storedName s d i ++ [slash]))) i := by
  rw [matchesBelow, preorder, List.map_flatMap]
  refine List.flatMap_congr fun i _ => ?_
  rw [slotLines, List.map_append]
  congr 1
  · by_cases hsel : selects s name ext d i = true
    · simp [hsel, placeLine, spread]
    · simp [hsel]
  · cases folderChild s d i with
    | none => rfl
    | some c =>
      simp only [List.map_map]
      exact List.map_congr_left fun v _ => placeLine_below i v

theorem findAt_ok (hm : CString.Holds mem text)
    {rec : Nat → (Nat → UInt8) → Except Fault (List (Option (List UInt8)))}
    {below : Nat → List (Option (List UInt8))} {i : Fin entryCount} (hi : 2 ≤ i.val)
    (h : ∀ c, folderChild s d i = some c → findBelow rec (s.table d) mem i = .ok (below c)) :
    findAt name ext rec (s.table d) mem i = .ok (slotLines s name ext text d below i) := by
  rw [findAt, slotLines, selects, findLine_holds hm]
  by_cases hl : (s.table d i).live = true
  · by_cases hk : (s.table d i).isSubdirectory = true
    · have hc := folderChild_eq_some.mpr ⟨⟨hi, hl⟩, hk, rfl⟩
      simp [hl, hk, hc, h _ hc, hi, Except.map]
    · have hc : folderChild s d i = none := by
        rw [folderChild, if_neg fun h => hk h.2.2]
      simp [hl, hk, hc, hi]
  · have hc : folderChild s d i = none := by
      rw [folderChild, if_neg fun h => hl h.2.1]
    simp [hl, hc]

theorem findAt_error {rec : Nat → (Nat → UInt8) → Except Fault (List (Option (List UInt8)))}
    {i : Fin entryCount} (hc : folderChild s d i = some c) {f : Fault}
    (h : findBelow rec (s.table d) mem i = .error f) :
    findAt name ext rec (s.table d) mem i = .error f := by
  obtain ⟨⟨-, hl⟩, hk, -⟩ := folderChild_eq_some.mp hc
  simp [findAt, hl, hk, h, Except.map]

/-- The folder at `i` can be searched. -/
def SlotRoom (s : FileSystem) (d : Nat) (text : List UInt8) (i : Fin entryCount) (c : Nat) : Prop :=
  (rawName (s.table d) i).isSome ∧ PathRoom s c (text ++ storedName s d i ++ [slash])

theorem findBelow_spec (hm : CString.Holds mem text) {i : Fin entryCount}
    {rec : Nat → (Nat → UInt8) → Except Fault (List (Option (List UInt8)))}
    {lines : List (Option (List UInt8))} (hc : folderChild s d i = some c)
    (hrec : ∀ {mem'}, CString.Holds mem' (text ++ storedName s d i ++ [slash]) →
      (PathRoom s c (text ++ storedName s d i ++ [slash]) → rec c mem' = .ok lines) ∧
      (¬ PathRoom s c (text ++ storedName s d i ++ [slash]) →
        rec c mem' = .error .outOfBounds)) :
    (SlotRoom s d text i c → findBelow rec (s.table d) mem i = .ok lines) ∧
    (¬ SlotRoom s d text i c → findBelow rec (s.table d) mem i = .error .outOfBounds) := by
  have hcl : (s.table d i).clusterNumber = c := (folderChild_eq_some.mp hc).2.2
  rw [findBelow, SlotRoom]
  rw [storedName] at hrec ⊢
  cases hraw : rawName (s.table d) i with
  | none => simp
  | some raw =>
    rw [hraw, Option.getD_some] at hrec
    obtain ⟨hfit, hover⟩ := strcat_folder hm (rawName_string hraw)
    simp only [Option.isSome_some, true_and, Option.getD_some, hcl]
    by_cases hroom : (text ++ raw ++ [slash]).length < 256
    · obtain ⟨mem', newPath, hcat, hcat', hnew⟩ := hfit hroom
      simp only [bind, Except.bind, hcat, hcat']
      exact hrec hnew
    · have hfull := hover (Nat.le_of_not_lt hroom)
      refine ⟨fun h => absurd (pathRoom_iff.mp h).1 hroom, fun _ => ?_⟩
      cases hcat : CString.strcat mem raw with
      | error f =>
        rw [hcat] at hfull
        exact congrArg Except.error (Except.error.inj hfull)
      | ok mem' =>
        rw [hcat] at hfull
        have hfull : CString.strcat mem' [slash] = .error .outOfBounds := hfull
        simp only [bind, Except.bind, hfull]

/-- The search below a node, with room for every path or without. -/
theorem find_spec (hm : CString.Holds mem text)
    (hdepth : ∀ path x, SlotPath s d path x → path.length < fuel) :
    (PathRoom s d text → find s name ext fuel d mem =
      .ok ((matchesBelow s name ext fuel d).map (placeLine s name ext text))) ∧
    (¬ PathRoom s d text → find s name ext fuel d mem = .error .outOfBounds) := by
  induction fuel generalizing d text mem with
  | zero => exact absurd (hdepth [] d (.here d)) (Nat.not_lt_zero _)
  | succ fuel ih =>
    have hbelow := fun i c (hc : folderChild s d i = some c) =>
      findBelow_spec hm hc fun hnew => ih hnew fun path x hp =>
        Nat.lt_of_succ_lt_succ (hdepth _ x (.step hc hp))
    have hslot : ∀ i ∈ slotsFrom 2, (∀ c, folderChild s d i = some c → SlotRoom s d text i c) →
        findAt name ext (find s name ext fuel) (s.table d) mem i =
          .ok (slotLines s name ext text d (fun c => (matchesBelow s name ext fuel c).map
            (placeLine s name ext (text ++ storedName s d i ++ [slash]))) i) :=
      fun i hi hroom => findAt_ok hm (mem_slotsFrom.mp hi) fun c hc =>
        (hbelow i c hc).1 (hroom c hc)
    rw [pathRoom_iff, and_iff_right hm.length]
    refine ⟨fun hroom => ?_, fun hroom => ?_⟩
    · rw [matchesBelow_succ, find]
      exact findLoop_ok fun i hi => hslot i hi (hroom i)
    · obtain ⟨i, hi⟩ := not_forall.mp hroom
      obtain ⟨c, hc⟩ := not_forall.mp hi
      obtain ⟨hc, hfail⟩ := Classical.not_imp.mp hc
      rw [find]
      refine findLoop_error (fun j hj => ?_) ⟨i, mem_slotsFrom.mpr (folderChild_eq_some.mp hc).1.1,
        findAt_error hc ((hbelow i c hc).2 hfail)⟩
      by_cases h : ∀ b, folderChild s d j = some b → SlotRoom s d text j b
      · exact .inr ⟨_, hslot j hj h⟩
      · obtain ⟨b, hb⟩ := not_forall.mp h
        obtain ⟨hb, hbad⟩ := Classical.not_imp.mp hb
        exact .inl (findAt_error hb ((hbelow j b hb).2 hbad))

end Search

end Doors.Shell
