import Doors.Shell
import Doors.ReservedClusters
import Doors.TreeCopy

/-! The shell's working directory over runs of its file commands. It stays a directory
of the tree as long as no command removes it or a directory above it. -/

namespace Doors.Shell

open PointerTree Fat32 FileSystem

variable {Fits : UInt32 → Nat → Prop}

section Lookup

variable {s : FileSystem} {d : Nat}

theorem parent_entry (hw : Formed Fits s) (hd : LiveDir s d) :
    LiveDir s (s.table d 1).clusterNumber ∧ (s.table d 1).name = dotDot ∧
      (s.table d 1).live = true := by
  obtain ⟨n, hn⟩ := hd
  cases hn with
  | root =>
    rw [hw.root_header.parent_cluster]
    exact ⟨reach_root, hw.root_header.parent_name, hw.root_header.parent_kind.1⟩
  | child hp hc =>
    have hh := (hw.header ⟨_, hp⟩ hc).1
    rw [hh.parent_cluster]
    exact ⟨⟨_, hp⟩, hh.parent_name, hh.parent_kind.1⟩

theorem findEntry_some {t : DirectoryTable} {name : Name} {ext : Ext} {e : FAT32DirectoryEntry}
    (h : findEntry t name ext = some e) :
    ∃ i : Fin entryCount, 1 ≤ i.val ∧ t i = e ∧ e.live = true ∧ e.name = name ∧ e.ext = ext := by
  obtain ⟨i, hi, rfl⟩ := Option.map_eq_some_iff.mp h
  have hm := mem_slotsFrom.mp (List.mem_of_find?_eq_some hi)
  have hp := List.find?_some hi
  simp only [Bool.and_eq_true, decide_eq_true_eq] at hp
  exact ⟨i, hm, rfl, hp.1, hp.2.1, hp.2.2⟩

theorem findEntry_liveDir (hw : Formed Fits s) (hd : LiveDir s d) {name : Name} {ext : Ext}
    {e : FAT32DirectoryEntry} (h : findEntry (readTable s d) name ext = some e)
    (hk : e.isSubdirectory = true) : LiveDir s e.clusterNumber := by
  obtain ⟨i, hi, rfl, hl, -, -⟩ := findEntry_some h
  by_cases hone : i = 1
  · subst hone
    exact (parent_entry hw hd).1
  · have h2 : 2 ≤ i.val := by
      have : i.val ≠ 1 := fun hh => hone (Fin.ext hh)
      omega
    exact hd.step (folderChild_eq_some.mpr ⟨⟨h2, hl⟩, hk, rfl⟩)

/-- A name without a dot is not the parent's. -/
theorem findEntry_slot (hw : Formed Fits s) (hd : LiveDir s d) {row : List UInt8} {ext : Ext}
    (hdot : dot ∉ row) {e : FAT32DirectoryEntry}
    (h : findEntry (readTable s d) (toName row) ext = some e) :
    ∃ i, LiveSlot s d i ∧ s.table d i = e ∧ e.name = toName row ∧ e.ext = ext := by
  obtain ⟨i, hi, he, hl, hn, hx⟩ := findEntry_some h
  have hone : i ≠ 1 := by
    rintro rfl
    have hname : (s.table d 1).name 0 = toName row 0 := by
      rw [← hn, ← he]
      rfl
    rw [(parent_entry hw hd).2.1] at hname
    cases row with
    | nil => exact absurd hname (by decide)
    | cons b row => exact hdot (List.mem_cons.mpr (.inl hname))
  have h2 : 2 ≤ i.val := by
    have : i.val ≠ 1 := fun hh => hone (Fin.ext hh)
    omega
  refine ⟨i, ⟨h2, ?_⟩, he, hn, hx⟩
  exact (congrArg FAT32DirectoryEntry.live he).trans hl

theorem findEntry_parent (hw : Formed Fits s) (hd : LiveDir s d) (hx : (s.table d 1).ext = noExt) :
    findEntry (readTable s d) dotDot noExt = some (s.table d 1) := by
  obtain ⟨-, hname, hlive⟩ := parent_entry hw hd
  have hone : readTable s d 1 = s.table d 1 := rfl
  rw [findEntry, slotsFrom_one, List.find?_cons_of_pos (by simp [hone, hname, hlive, hx])]
  rfl

theorem findEntry_found (hw : Formed Fits s) (hd : LiveDir s d) {i : Fin entryCount}
    (hi : LiveSlot s d i) (hdot : (s.table d i).name ≠ dotDot) :
    findEntry (readTable s d) (s.table d i).name (s.table d i).ext = some (s.table d i) := by
  cases hf : findEntry (readTable s d) (s.table d i).name (s.table d i).ext with
  | none =>
    have hnone := List.find?_eq_none.mp (Option.map_eq_none_iff.mp hf) i
      (mem_slotsFrom.mpr (Nat.le_of_succ_le hi.1))
    have hit : readTable s d i = s.table d i := rfl
    simp [hit, hi.2] at hnone
  | some e =>
    obtain ⟨j, hj, rfl, hl, hn, hx⟩ := findEntry_some hf
    by_cases hone : j = 1
    · subst hone
      exact absurd (hn.symm.trans (parent_entry hw hd).2.1) hdot
    · have h2 : 2 ≤ j.val := by
        have : j.val ≠ 1 := fun hh => hone (Fin.ext hh)
        omega
      obtain rfl := hw.names_unique hd ⟨h2, hl⟩ hi hn hx
      rfl

end Lookup

theorem mem_splitOn {b : UInt8} {str row : List UInt8} (h : row ∈ str.splitOn b) : b ∉ row := by
  induction str generalizing row with
  | nil =>
    rw [List.splitOn_nil, List.mem_singleton] at h
    simp [h]
  | cons c str ih =>
    rw [List.splitOn, List.splitOnP_cons_eq_if_modifyHead] at h
    have ih : ∀ row ∈ str.splitOnP (· == b), b ∉ row := fun row hr => ih hr
    split_ifs at h with hc
    · rcases List.mem_cons.mp h with rfl | h
      · simp
      · exact ih row h
    · cases hs : str.splitOnP (· == b) with
      | nil => exact absurd hs (List.splitOnP_ne_nil _ _)
      | cons r rs =>
        rw [hs] at h ih
        rcases List.mem_cons.mp h with rfl | h
        · intro hm
          rcases List.mem_cons.mp hm with hbc | hm
          · simp [hbc] at hc
          · exact ih r (by simp) hm
        · exact ih row (List.mem_cons_of_mem r h)

theorem strsplit_head {str : List UInt8} {delim : UInt8} {rows : List (List UInt8)}
    (h : strsplit str delim = .ok rows) : delim ∉ rows.getD 0 [] := by
  unfold strsplit at h
  dsimp only at h
  split_ifs at h <;> cases h
  all_goals
    cases hs : str.splitOn delim with
    | nil => simp
    | cons r rs => exact mem_splitOn (by rw [hs]; simp)

theorem parentLoop_liveDir {s : FileSystem} (hw : Formed Fits s) {rows : List (List UInt8)}
    {d c : Nat} {last : List UInt8} (hd : LiveDir s d)
    (h : parentLoop s rows d = .ok (some (c, last))) : LiveDir s c := by
  induction rows generalizing d with
  | nil => cases h
  | cons row rows ih =>
    cases rows with
    | nil => cases h
    | cons next rows =>
      unfold parentLoop at h
      split_ifs at h with h₁ h₂
      · cases h
        exact hd
      · cases h
      · cases hf : findEntry (readTable s d) (toName row) noExt with
        | none => simp [hf] at h
        | some e =>
          simp only [hf] at h
          split_ifs at h with hk
          · cases h
          · have hk' : e.isSubdirectory = true := by simpa using hk
            exact ih (findEntry_liveDir hw hd hf hk') h

/-- A path is refused, or its last name is looked up in a directory of the tree. -/
theorem resolved_cases {s : FileSystem} {path : List UInt8} {d : Nat} {r : Resolved}
    (hw : Formed Fits s) (hd : LiveDir s d) (h : getCurrAndParentCluster s path d = .ok r) :
    LiveDir s r.parentCluster ∧ ((r.code = 3 ∨ r.code = 4 ∨ r.code = 5) ∨
      r.code = 2 ∧ findEntry (readTable s r.parentCluster) r.filename r.ext = none ∨
      ∃ i, LiveSlot s r.parentCluster i ∧ (s.table r.parentCluster i).name = r.filename ∧
        (s.table r.parentCluster i).ext = r.ext ∧
        (s.table r.parentCluster i).clusterNumber = r.currentCluster ∧
        r.code = if (s.table r.parentCluster i).isSubdirectory then 1 else 0) := by
  obtain ⟨rows, -, h⟩ := bind_ok h
  obtain ⟨result, hloop, h⟩ := bind_ok h
  cases result with
  | none =>
    cases h
    exact ⟨hd, .inl (.inl rfl)⟩
  | some result =>
    obtain ⟨p, last⟩ := result
    have hp := parentLoop_liveDir hw hd hloop
    obtain ⟨fileRows, hsplit, h⟩ := bind_ok h
    have hdot := strsplit_head hsplit
    dsimp only at h
    split_ifs at h with h₁ h₂
    · cases h
      exact ⟨hp, .inl (.inr (.inl rfl))⟩
    · cases h
      exact ⟨hp, .inl (.inr (.inr rfl))⟩
    · cases hf : findEntry (readTable s p) (toName (fileRows.getD 0 []))
          (toExt (fileRows.getD 1 [])) with
      | none =>
        rw [hf] at h
        cases h
        exact ⟨hp, .inr (.inl ⟨rfl, hf⟩)⟩
      | some e =>
        rw [hf] at h
        cases h
        obtain ⟨i, hi, rfl, hname, hext⟩ := findEntry_slot hw hp hdot hf
        exact ⟨hp, .inr (.inr ⟨i, hi, hname, hext, rfl, rfl⟩)⟩

/-- The directory of a resolved path is live, and what is at its end is an entry of it. -/
theorem resolved_liveDir {s : FileSystem} {path : List UInt8} {d : Nat} {r : Resolved}
    (hw : Formed Fits s) (hd : LiveDir s d) (h : getCurrAndParentCluster s path d = .ok r) :
    LiveDir s r.parentCluster ∧
      (r.code = 1 → ∃ i, folderChild s r.parentCluster i = some r.currentCluster) ∧
      (r.code = 0 → ∃ i, FileSlot s r.parentCluster i ∧
        (s.table r.parentCluster i).name = r.filename ∧
        (s.table r.parentCluster i).ext = r.ext) := by
  obtain ⟨hp, hcases⟩ := resolved_cases hw hd h
  refine ⟨hp, fun hcode => ?_, fun hcode => ?_⟩
  all_goals
    rcases hcases with hcodes | ⟨hcode', -⟩ | ⟨i, hi, hname, hext, hcluster, hkind⟩
  · omega
  · omega
  · refine ⟨i, folderChild_eq_some.mpr ⟨hi, ?_, hcluster⟩⟩
    by_contra hk
    simp [hk, hcode] at hkind
  · omega
  · omega
  · refine ⟨i, ⟨hi, ?_⟩, hname, hext⟩
    by_contra hk
    simp [hk, hcode] at hkind

/-- The folders on the path from the root to `w` keep their entries. -/
structure KeepsPath (s s' : FileSystem) (w : Nat) : Prop where
  loose : Loose s'
  above : ∀ d i a, LiveDir s d → folderChild s d i = some a → Below (folderChild s) a w →
    s'.table d i = s.table d i

namespace KeepsPath

variable {s s' s'' : FileSystem} {w : Nat}

theorem child (h : KeepsPath s s' w) {d a : Nat} {i : Fin entryCount} (hd : LiveDir s d)
    (ha : folderChild s d i = some a) (hb : Below (folderChild s) a w) :
    folderChild s' d i = some a := by
  rw [folderChild_congr (h.above d i a hd ha hb), ha]

theorem liveDir (h : KeepsPath s s' w) {d : Nat} (hd : LiveDir s d)
    (hb : Below (folderChild s) d w) : LiveDir s' d := by
  obtain ⟨n, hn⟩ := hd
  induction hn with
  | root => exact reach_root
  | child hd hc ih => exact (ih (.head ⟨_, hc⟩ hb)).step (h.child ⟨_, hd⟩ hc hb)

theorem below (h : KeepsPath s s' w) {d : Nat} (hd : LiveDir s d)
    (hb : Below (folderChild s) d w) : Below (folderChild s') d w := by
  induction hb using Relation.ReflTransGen.head_induction_on with
  | refl => exact .refl
  | head he hb ih =>
    obtain ⟨i, hi⟩ := he
    exact .head ⟨i, h.child hd hi hb⟩ (ih (hd.step hi))

theorem trans (h : KeepsPath s s' w) (h' : KeepsPath s' s'' w) : KeepsPath s s'' w where
  loose := h'.loose
  above d i a hd ha hb := by
    have hda := h.liveDir hd (.head ⟨i, ha⟩ hb)
    rw [h'.above d i a hda (h.child hd ha hb) (h.below (hd.step ha) hb), h.above d i a hd ha hb]

end KeepsPath

section Steps

variable {s s' : FileSystem} {req : Request} {code : Int} {w : Nat}

/-- A directory survives or its cluster is free. -/
def Source (s : FileSystem) (a : Nat) : Prop := LiveDir s a ∨ a < 512 ∧ s.next a = fatEmptyEntry

theorem Pruned.source {p : Nat} {i : Fin entryCount} (h : Pruned s s' p i) (hw : Loose s) {a : Nat}
    (ha : LiveDir s a) : Source s' a := by
  by_cases hr : EntryRegion s p i a
  · exact .inr ⟨(hw.dir_range ha).2, h.next_in a (hw.dir_range ha).2 hr⟩
  · exact .inl ((h.liveDir_iff hw).mpr ⟨ha, hr⟩)

/-- The calls of `copyInto`: a refused write, or the folder is made, looked up and filled. -/
theorem copyInto_calls {src : Nat} {copied : Bool} (h : copyInto s req src = .ok (copied, s')) :
    (∃ res, res ≠ 0 ∧ write s req = .ok (res, s') ∧ copied = false) ∨
      ∃ s₁ c s₂ code, write s req = .ok (0, s₁) ∧ getClusterNumber s₁ req = .ok (c, s₂) ∧
        copyFolder clusterMapSize s₂ src c = .ok (code, s') ∧ copied = decide (code = 0) := by
  obtain ⟨⟨res, s₁⟩, hwrite, h⟩ := bind_ok h
  dsimp only at h
  split_ifs at h with hres
  · cases h
    exact .inl ⟨res, hres, hwrite, rfl⟩
  · rw [not_not.mp hres] at hwrite
    obtain ⟨⟨c, s₂⟩, hnumber, h⟩ := bind_ok h
    obtain ⟨⟨code, s₃⟩, hcopy, h⟩ := bind_ok h
    cases h
    exact .inr ⟨s₁, c, s₂, code, hwrite, hnumber, hcopy, rfl⟩

theorem copyIntoExisting_calls {src : Nat} {copied : Bool}
    (h : copyIntoExisting s req src = .ok (copied, s')) :
    (∃ res, res ≠ 0 ∧ write s req = .ok (res, s')) ∨
      ∃ s₁ c s₂, write s req = .ok (0, s₁) ∧ getClusterNumber s₁ req = .ok (c, s₂) ∧
        (c = 0 ∧ s' = s₂ ∨ ∃ code, copyFolder clusterMapSize s₂ src c = .ok (code, s')) := by
  obtain ⟨⟨res, s₁⟩, hwrite, h⟩ := bind_ok h
  dsimp only at h
  split_ifs at h with hres
  · cases h
    exact .inl ⟨res, hres, hwrite⟩
  · rw [not_not.mp hres] at hwrite
    obtain ⟨⟨c, s₂⟩, hnumber, h⟩ := bind_ok h
    dsimp only at h
    split_ifs at h with hc0
    · cases h
      exact .inr ⟨s₁, c, s', hwrite, hnumber, .inl ⟨hc0, rfl⟩⟩
    · obtain ⟨⟨code, s₃⟩, hcopy, h⟩ := bind_ok h
      cases h
      exact .inr ⟨s₁, c, s₂, hwrite, hnumber, .inr ⟨code, hcopy⟩⟩

theorem request_parent {name : Name} {ext : Ext} {p : Nat} (hw : Loose s) (hp : LiveDir s p) :
    (request name ext p).parent = p := ofNat_parent (hw.dir_range hp).2

end Steps

section Commands

variable {state : ShellState} {s s' : FileSystem}

/-- Both places that `cp` and `mv` choose from are directories. -/
theorem fileTarget_liveDir {d : Nat} {path : List UInt8} {source target : Resolved} (hw : Loose s)
    (hd : LiveDir s d) (ht : getCurrAndParentCluster s path d = .ok target) :
    LiveDir s (fileTarget source target).parent := by
  obtain ⟨htp, htc, -⟩ := resolved_liveDir hw hd ht
  unfold fileTarget
  split_ifs with hcode
  · obtain ⟨i, hi⟩ := htc hcode
    rw [request_parent hw (htp.step hi)]
    exact htp.step hi
  · rw [request_parent hw htp]
    exact htp

end Commands

theorem map_ok {α β : Type} {x : Except Fault α} {f : α → β} {b : β} (h : x.map f = .ok b) :
    ∃ a, x = .ok a ∧ f a = b := by
  cases x with
  | error e => cases h
  | ok a => exact ⟨a, rfl, Except.ok.inj h⟩

end Doors.Shell
