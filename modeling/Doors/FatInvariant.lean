import Doors.FatState
import Doors.ClusterWalk
import Doors.PointerTree

/-! Well-formed file systems. The folders reachable from the root form a tree, and
every allocated cluster has exactly one owner: the root, or a live directory slot. -/

namespace Doors.Fat32

open PointerTree

def LiveSlot (s : FileSystem) (d : Nat) (i : Fin entryCount) : Prop :=
  2 ≤ i.val ∧ (s.table d i).live = true

theorem liveSlot_of_find {s : FileSystem} {d : Nat} {i : Fin entryCount}
    {p : Fin entryCount → Bool}
    (h : (slotsFrom 2).find? (fun i => (s.table d i).live && p i) = some i) :
    LiveSlot s d i ∧ p i = true := by
  have hi := List.find?_some h
  rw [Bool.and_eq_true] at hi
  exact ⟨⟨mem_slotsFrom.mp (List.mem_of_find?_eq_some h), hi.1⟩, hi.2⟩

def FileSlot (s : FileSystem) (d : Nat) (i : Fin entryCount) : Prop :=
  LiveSlot s d i ∧ (s.table d i).isSubdirectory = false

theorem not_live {s : FileSystem} {d : Nat} {i : Fin entryCount} (hi : 2 ≤ i.val)
    (h : ¬ LiveSlot s d i) : (s.table d i).live = false :=
  Bool.eq_false_iff.mpr fun hl => h ⟨hi, hl⟩

theorem dead_of_only {s : FileSystem} {d : Nat} {i : Fin entryCount}
    (h : ∀ j, LiveSlot s d j → j = i) : ∃ j : Fin entryCount, 2 ≤ j.val ∧
      (s.table d j).live = false := by
  obtain ⟨j, hj, hji⟩ : ∃ j : Fin entryCount, 2 ≤ j.val ∧ j ≠ i := by
    by_cases hi : i = 2
    · exact ⟨3, by decide, by rw [hi]; decide⟩
    · exact ⟨2, by decide, Ne.symm hi⟩
  exact ⟨j, hj, not_live hj fun hl => hji (h j hl)⟩

/-- The cluster of the folder in slot `i` of directory `d`. -/
def folderChild (s : FileSystem) (d : Nat) (i : Fin entryCount) : Option Nat :=
  if 2 ≤ i.val ∧ (s.table d i).live = true ∧ (s.table d i).isSubdirectory = true then
    some (s.table d i).clusterNumber
  else none

/-- The directories currently in the tree. -/
abbrev LiveDir (s : FileSystem) (c : Nat) : Prop := Reach (folderChild s) rootClusterNumber c

inductive Owns (s : FileSystem) : Option (Nat × Fin entryCount) → Nat → Prop
  | root : Owns s none rootClusterNumber
  | folder {d c : Nat} {i : Fin entryCount} :
    LiveDir s d → folderChild s d i = some c → Owns s (some (d, i)) c
  | file {d c : Nat} {i : Fin entryCount} {l : List Nat} :
    LiveDir s d → FileSlot s d i → Walk s.next fatEndOfFile (s.table d i).clusterNumber l →
    c ∈ l → Owns s (some (d, i)) c

def dotDot : Name := fun k => if k = 0 ∨ k = 1 then '.'.toUInt8 else 0

/-- Entry 0 names the directory itself, entry 1 its parent. -/
structure Header (t : DirectoryTable) (own parent : Nat) : Prop where
  self_cluster : (t 0).clusterNumber = own
  self_kind : (t 0).live = true ∧ (t 0).isSubdirectory = true
  parent_cluster : (t 1).clusterNumber = parent
  parent_name : (t 1).name = dotDot
  parent_kind : (t 1).live = true ∧ (t 1).isSubdirectory = true

theorem Header.congr {t t' : DirectoryTable} {own parent : Nat} (h : Header t own parent)
    (h₀ : t' 0 = t 0) (h₁ : t' 1 = t 1) : Header t' own parent where
  self_cluster := by rw [h₀, h.self_cluster]
  self_kind := by
    rw [h₀]
    exact h.self_kind
  parent_cluster := by rw [h₁, h.parent_cluster]
  parent_name := by rw [h₁, h.parent_name]
  parent_kind := by
    rw [h₁]
    exact h.parent_kind

/-- `Fits` relates the size recorded for a file to the number of its clusters. -/
structure Formed (Fits : UInt32 → Nat → Prop) (s : FileSystem) : Prop where
  reserved0 : s.next 0 = cluster0Value
  reserved1 : s.next 1 = cluster1Value
  slot_clear : ∀ {d : Nat} {i : Fin entryCount}, LiveDir s d → 2 ≤ i.val →
    (s.table d i).live = false → s.table d i = .zero
  dir_range : ∀ {d : Nat}, LiveDir s d → 2 ≤ d ∧ d < 512
  dir_mark : ∀ {d : Nat}, LiveDir s d → s.next d = fatEndOfFile
  root_header : Header (s.table rootClusterNumber) rootClusterNumber rootClusterNumber
  header : ∀ {d c : Nat} {i : Fin entryCount}, LiveDir s d → folderChild s d i = some c →
    Header (s.table c) c d ∧ (s.table c 0).name = (s.table d i).name
  folder_size : ∀ {d c : Nat} {i : Fin entryCount}, LiveDir s d → folderChild s d i = some c →
    (s.table d i).filesize = 0
  file_chain : ∀ {d : Nat} {i : Fin entryCount}, LiveDir s d → FileSlot s d i →
    ∃ l, Walk s.next fatEndOfFile (s.table d i).clusterNumber l ∧ l.Nodup ∧
      Fits (s.table d i).filesize l.length ∧ 1 ≤ l.length ∧
      ∀ c ∈ l, 3 ≤ c ∧ c < 512
  owner_unique : ∀ {o o' : Option (Nat × Fin entryCount)} {c : Nat}, Owns s o c → Owns s o' c → o = o'
  used_iff : ∀ {c : Nat}, 2 ≤ c → c < 512 → (s.next c ≠ fatEmptyEntry ↔ ∃ o, Owns s o c)
  mirrored : s.cluster fatClusterNumber = s.fatImage
  names_unique : ∀ {d : Nat} {i j : Fin entryCount}, LiveDir s d → LiveSlot s d i → LiveSlot s d j →
    (s.table d i).name = (s.table d j).name → (s.table d i).ext = (s.table d j).ext → i = j

/-- A file has exactly the clusters its size takes. -/
abbrev WellFormed (s : FileSystem) : Prop := Formed (fun size n => n = clusterCount size.toNat) s

/-- The part of the invariant that speaks of directories only. -/
structure Directories (s : FileSystem) : Prop where
  range : ∀ {d : Nat}, LiveDir s d → 2 ≤ d ∧ d < 512
  mark : ∀ {d : Nat}, LiveDir s d → s.next d = fatEndOfFile
  clear : ∀ {d : Nat} {i : Fin entryCount}, LiveDir s d → 2 ≤ i.val →
    (s.table d i).live = false → s.table d i = .zero
  unique : ∀ {d : Nat} {i j : Fin entryCount}, LiveDir s d → LiveSlot s d i → LiveSlot s d j →
    (s.table d i).name = (s.table d j).name → (s.table d i).ext = (s.table d j).ext → i = j

theorem Formed.directories {Fits : UInt32 → Nat → Prop} {s : FileSystem} (hw : Formed Fits s) :
    Directories s :=
  ⟨hw.dir_range, hw.dir_mark, hw.slot_clear, hw.names_unique⟩

theorem folderChild_eq_some {s : FileSystem} {d c : Nat} {i : Fin entryCount} :
    folderChild s d i = some c ↔ LiveSlot s d i ∧ (s.table d i).isSubdirectory = true ∧
      (s.table d i).clusterNumber = c := by
  simp only [folderChild, LiveSlot]
  split_ifs with h
  · simp [h]
  · simp only [false_iff]
    rintro ⟨⟨h₁, h₂⟩, h₃, _⟩
    exact h ⟨h₁, h₂, h₃⟩

theorem folderChild_of_fileSlot {s : FileSystem} {d : Nat} {i : Fin entryCount}
    (h : FileSlot s d i) : folderChild s d i = none := by
  simp [folderChild, h.2]

theorem folderChild_of_not_live {s : FileSystem} {d : Nat} {i : Fin entryCount}
    (h : (s.table d i).live = false) : folderChild s d i = none := by
  simp [folderChild, h]

theorem folderChild_congr {s s' : FileSystem} {d d' : Nat} {i : Fin entryCount}
    (h : s'.table d' i = s.table d i) : folderChild s' d' i = folderChild s d i := by
  simp only [folderChild, h]

theorem LiveSlot.kind {s : FileSystem} {d : Nat} {i : Fin entryCount} (h : LiveSlot s d i) :
    FileSlot s d i ∨ folderChild s d i = some (s.table d i).clusterNumber := by
  cases hk : (s.table d i).isSubdirectory with
  | false => exact .inl ⟨h, hk⟩
  | true => exact .inr (folderChild_eq_some.mpr ⟨h, hk, rfl⟩)

theorem Owns.slot {s : FileSystem} {d c : Nat} {i : Fin entryCount} (h : Owns s (some (d, i)) c) :
    LiveDir s d ∧ LiveSlot s d i := by
  cases h with
  | folder hd hc => exact ⟨hd, (folderChild_eq_some.mp hc).1⟩
  | file hd hf _ _ => exact ⟨hd, hf.1⟩

theorem FileSlot.owns_iff {s : FileSystem} {d c : Nat} {i : Fin entryCount} {l : List Nat}
    (hf : FileSlot s d i) (hd : LiveDir s d)
    (hl : Walk s.next fatEndOfFile (s.table d i).clusterNumber l) :
    Owns s (some (d, i)) c ↔ c ∈ l := by
  refine ⟨fun h => ?_, .file hd hf hl⟩
  cases h with
  | folder _ hc => simp [folderChild_of_fileSlot hf] at hc
  | file _ _ hl' hc => rwa [hl.unique hl']

namespace Formed

variable {Fits : UInt32 → Nat → Prop} {s : FileSystem}

theorem tree (hw : Formed Fits s) : IsTree (folderChild s) rootClusterNumber where
  parent_unique hd hd' hc hc' := by
    have he := hw.owner_unique (.folder hd hc) (.folder hd' hc')
    simpa using he
  root_orphan hd hc := by
    have he := hw.owner_unique .root (.folder hd hc)
    simp at he

theorem owned_range (hw : Formed Fits s) {o : Option (Nat × Fin entryCount)} {c : Nat}
    (h : Owns s o c) : 2 ≤ c ∧ c < 512 := by
  cases h with
  | root => decide
  | folder hd hc => exact hw.dir_range (hd.step hc)
  | file hd hf hl hc =>
    obtain ⟨l', hl', -, -, -, hr⟩ := hw.file_chain hd hf
    rw [hl.unique hl'] at hc
    have := hr _ hc
    omega

theorem owned_used (hw : Formed Fits s) {o : Option (Nat × Fin entryCount)} {c : Nat}
    (h : Owns s o c) : s.next c ≠ fatEmptyEntry := by
  have hr := hw.owned_range h
  exact (hw.used_iff hr.1 hr.2).mpr ⟨o, h⟩

theorem dir_owned (hw : Formed Fits s) {d : Nat} (hd : LiveDir s d) : ∃ o, Owns s o d := by
  have hr := hw.dir_range hd
  refine (hw.used_iff hr.1 hr.2).mp ?_
  rw [hw.dir_mark hd]
  decide

/-- A directory is owned by the folder slot that points to it, never by a file. -/
theorem folderChild_of_owns (hw : Formed Fits s) {d c : Nat} {i : Fin entryCount}
    (hc : LiveDir s c) (ho : Owns s (some (d, i)) c) : folderChild s d i = some c := by
  obtain ⟨n, hn⟩ := hc
  cases hn with
  | root => exact absurd (hw.owner_unique .root ho) (by simp)
  | child hd' hc' =>
    have he := hw.owner_unique ho (.folder ⟨_, hd'⟩ hc')
    simp only [Option.some.injEq, Prod.mk.injEq] at he
    rw [he.1, he.2, hc']

/-- The clusters of files are neither that of the map nor those of directories. -/
theorem owned_by_file_ne (hw : Formed Fits s) {d p c : Nat} {i : Fin entryCount}
    (hf : FileSlot s d i) (ho : Owns s (some (d, i)) c) (hc : 3 ≤ c) (hp : LiveDir s p) :
    c ≠ fatClusterNumber ∧ c ≠ p := by
  refine ⟨?_, ?_⟩
  · simp only [fatClusterNumber]
    omega
  · rintro rfl
    have hchild := hw.folderChild_of_owns hp ho
    simp [folderChild_of_fileSlot hf] at hchild

theorem dir_depth_lt (hw : Formed Fits s) {n c : Nat}
    (h : ReachIn (folderChild s) rootClusterNumber n c) : n < 512 := by
  have hh := h.depth_lt hw.tree (L := List.range 512)
    (fun c hc => List.mem_range.mpr (hw.dir_range hc).2)
  simpa using hh

theorem file_range (hw : Formed Fits s) {d : Nat} {i : Fin entryCount} {l : List Nat}
    (hd : LiveDir s d) (hf : FileSlot s d i)
    (hl : Walk s.next fatEndOfFile (s.table d i).clusterNumber l) : ∀ c ∈ l, 3 ≤ c ∧ c < 512 := by
  obtain ⟨l', hl', -, -, -, hr⟩ := hw.file_chain hd hf
  rwa [hl.unique hl']

theorem file_start (hw : Formed Fits s) {d : Nat} {i : Fin entryCount} (hd : LiveDir s d)
    (hf : FileSlot s d i) : 3 ≤ (s.table d i).clusterNumber ∧ (s.table d i).clusterNumber < 512 := by
  obtain ⟨l, hl, -, -, hpos, hr⟩ := hw.file_chain hd hf
  exact hr _ (hl.start_mem hpos)

theorem mono {Fits' : UInt32 → Nat → Prop} (hw : Formed Fits s)
    (h : ∀ size n, Fits size n → Fits' size n) : Formed Fits' s where
  __ := hw
  file_chain hd hf := by
    obtain ⟨l, hl, hnd, hfits, hrest⟩ := hw.file_chain hd hf
    exact ⟨l, hl, hnd, h _ _ hfits, hrest⟩

/-- The invariant does not speak about the buffer. -/
theorem loadDir (hw : Formed Fits s) (d : Nat) : Formed Fits (s.loadDir d) := by
  have hown : ∀ {o c}, Owns (s.loadDir d) o c ↔ Owns s o c := by
    intro o c
    constructor
    · intro h
      cases h with
      | root => exact .root
      | folder hd hc => exact .folder hd hc
      | file hd hf hl hc => exact .file hd hf hl hc
    · intro h
      cases h with
      | root => exact .root
      | folder hd hc => exact .folder hd hc
      | file hd hf hl hc => exact .file hd hf hl hc
  exact { hw with
    owner_unique := fun h h' => hw.owner_unique (hown.mp h) (hown.mp h')
    used_iff := fun h₂ hc => (hw.used_iff h₂ hc).trans (exists_congr fun _ => hown.symm) }

theorem dir_ne_fat (hw : Formed Fits s) {d : Nat} (hd : LiveDir s d) : d ≠ fatClusterNumber := by
  have := hw.dir_range hd
  simp only [fatClusterNumber]
  omega

end Formed

theorem filesize_ne_zero {s : FileSystem} (hw : WellFormed s) {p : Nat} {i : Fin entryCount}
    (hp : LiveDir s p) (hf : FileSlot s p i) : (s.table p i).filesize ≠ 0 := by
  intro h
  obtain ⟨l, -, -, hlen, hpos, -⟩ := hw.file_chain hp hf
  rw [hlen, h] at hpos
  simp [clusterCount] at hpos

end Doors.Fat32
