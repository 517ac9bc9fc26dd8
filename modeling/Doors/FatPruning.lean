import Doors.FatInvariant

/-! Clearing a slot together with everything it leads to keeps a file system well
formed. The freed clusters are those owned by the slot or by a slot below it. -/

namespace Doors.Fat32

open PointerTree

/-- The clusters that the entry in slot `i` of `p` leads to: a file's chain, or a
folder's cluster with all that the directories below it own. -/
def EntryRegion (s : FileSystem) (p : Nat) (i : Fin entryCount) (c : Nat) : Prop :=
  Owns s (some (p, i)) c ∨ ∃ a d j, folderChild s p i = some a ∧ Below (folderChild s) a d ∧
    Owns s (some (d, j)) c

section Region

variable {Fits : UInt32 → Nat → Prop} {s : FileSystem} {p : Nat} {i : Fin entryCount}

theorem region_live {c : Nat} (h : EntryRegion s p i c) : LiveSlot s p i := by
  rcases h with h | ⟨_, _, _, h, _⟩
  · exact h.slot.2
  · exact (folderChild_eq_some.mp h).1

theorem region_range (hw : Formed Fits s) {c : Nat} (h : EntryRegion s p i c) : 2 ≤ c ∧ c < 512 := by
  rcases h with h | ⟨a, d, j, -, -, h⟩
  · exact hw.owned_range h
  · exact hw.owned_range h

theorem region_dir_iff (hw : Formed Fits s) (hp : LiveDir s p) {d : Nat} (hd : LiveDir s d) :
    EntryRegion s p i d ↔ ∃ a, folderChild s p i = some a ∧ Below (folderChild s) a d := by
  constructor
  · rintro (h | ⟨a, d', j, ha, hb, h⟩)
    · exact ⟨d, hw.folderChild_of_owns hd h, .refl⟩
    · exact ⟨a, ha, hb.tail ⟨j, hw.folderChild_of_owns hd h⟩⟩
  · rintro ⟨a, ha, hb⟩
    cases hb with
    | refl => exact .inl (.folder hp ha)
    | tail hb he =>
      obtain ⟨j, hj⟩ := he
      exact .inr ⟨a, _, j, ha, hb, .folder (below_reach hb (hp.step ha)) hj⟩

theorem region_owner_iff (hw : Formed Fits s) (hp : LiveDir s p) {d c : Nat} {j : Fin entryCount}
    (ho : Owns s (some (d, j)) c) :
    EntryRegion s p i c ↔ (d = p ∧ j = i) ∨ EntryRegion s p i d := by
  rw [region_dir_iff hw hp ho.slot.1]
  constructor
  · rintro (h | ⟨a, d', j', ha, hb, h⟩)
    · have he := hw.owner_unique ho h
      simp only [Option.some.injEq, Prod.mk.injEq] at he
      exact .inl he
    · have he := hw.owner_unique ho h
      simp only [Option.some.injEq, Prod.mk.injEq] at he
      rw [he.1]
      exact .inr ⟨a, ha, hb⟩
  · rintro (⟨rfl, rfl⟩ | ⟨a, ha, hb⟩)
    · exact .inl ho
    · exact .inr ⟨a, d, j, ha, hb, ho⟩

theorem region_not_root (hw : Formed Fits s) : ¬ EntryRegion s p i rootClusterNumber := by
  rintro (h | ⟨a, d, j, -, -, h⟩)
  · exact absurd (hw.owner_unique .root h) (by simp)
  · exact absurd (hw.owner_unique .root h) (by simp)

theorem region_not_parent (hw : Formed Fits s) (hp : LiveDir s p) : ¬ EntryRegion s p i p := by
  intro h
  obtain ⟨a, ha, hb⟩ := (region_dir_iff hw hp hp).mp h
  exact not_below_child hw.tree hp ha hb

end Region

/-- The state `s'` is `s` without the entry in slot `i` of `p` and all it led to. -/
structure Pruned (s s' : FileSystem) (p : Nat) (i : Fin entryCount) : Prop where
  parent : LiveDir s p
  slot : LiveSlot s p i
  next_in : ∀ c < 512, EntryRegion s p i c → s'.next c = fatEmptyEntry
  next_eq : ∀ c < 512, ¬ EntryRegion s p i c → s'.next c = s.next c
  table_eq : s'.table p = Function.update (s.table p) i .zero
  cluster_eq : ∀ c < 512, c ≠ fatClusterNumber → c ≠ p → ¬ EntryRegion s p i c →
    s'.cluster c = s.cluster c
  mirrored : s'.cluster fatClusterNumber = s'.fatImage

namespace Pruned

variable {Fits : UInt32 → Nat → Prop} {s s' : FileSystem} {p : Nat} {i : Fin entryCount}

theorem entry_eq (hg : Pruned s s' p i) (hw : Formed Fits s) {d : Nat} {j : Fin entryCount}
    (hd : LiveDir s d) (hr : ¬ EntryRegion s p i d) (hne : d = p → j ≠ i) :
    s'.table d j = s.table d j := by
  by_cases he : d = p
  · subst d
    rw [hg.table_eq, Function.update_of_ne (hne rfl)]
  · rw [FileSystem.table, hg.cluster_eq d (hw.dir_range hd).2 (hw.dir_ne_fat hd) he hr,
      FileSystem.table]

theorem entry_cleared (hg : Pruned s s' p i) : s'.table p i = .zero := by
  rw [hg.table_eq, Function.update_self]

theorem child_cleared (hg : Pruned s s' p i) : folderChild s' p i = none := by
  refine folderChild_of_not_live ?_
  rw [hg.entry_cleared, FAT32DirectoryEntry.zero_live]

/-- The directories that remain are those outside the region. -/
theorem liveDir_iff (hg : Pruned s s' p i) (hw : Formed Fits s) {c : Nat} :
    LiveDir s' c ↔ LiveDir s c ∧ ¬ EntryRegion s p i c := by
  cases ha : folderChild s p i with
  | some a =>
    have hb : ∀ d, LiveDir s d → (EntryRegion s p i d ↔ Below (folderChild s) a d) := by
      intro d hd
      rw [region_dir_iff hw hg.parent hd]
      simp [ha]
    have hh := reach_prune_iff (c := c) hw.tree hg.parent ha hg.child_cleared fun d j hd hn hne =>
      folderChild_congr (hg.entry_eq hw hd (mt (hb d hd).mp hn) hne)
    exact hh.trans (and_congr_right fun hc => not_congr (hb c hc).symm)
  | none =>
    have hno : ∀ d, LiveDir s d → ¬ EntryRegion s p i d := by
      intro d hd h
      obtain ⟨a, ha', _⟩ := (region_dir_iff hw hg.parent hd).mp h
      simp [ha] at ha'
    have hsame : ∀ d, LiveDir s d → folderChild s' d = folderChild s d := by
      intro d hd
      funext j
      by_cases he : d = p ∧ j = i
      · rw [he.1, he.2, hg.child_cleared, ha]
      · exact folderChild_congr (hg.entry_eq hw hd (hno d hd) fun h h' => he ⟨h, h'⟩)
    exact (reach_congr_iff hsame).trans ⟨fun h => ⟨h, hno c h⟩, fun h => h.1⟩

theorem liveSlot_cases (hg : Pruned s s' p i) (hw : Formed Fits s) {d : Nat} {j : Fin entryCount}
    (hd : LiveDir s' d) (hl : LiveSlot s' d j) :
    LiveDir s d ∧ ¬ EntryRegion s p i d ∧ (d = p → j ≠ i) ∧ LiveSlot s d j ∧
      s'.table d j = s.table d j := by
  obtain ⟨hd, hr⟩ := (hg.liveDir_iff hw).mp hd
  have hne : d = p → j ≠ i := by
    rintro rfl rfl
    rw [LiveSlot, hg.entry_cleared] at hl
    simp at hl
  have hh := hg.entry_eq hw hd hr hne
  exact ⟨hd, hr, hne, ⟨hl.1, hh ▸ hl.2⟩, hh⟩

theorem walk_kept (hg : Pruned s s' p i) (hw : Formed Fits s) {d : Nat} {j : Fin entryCount}
    {l : List Nat} (hd : LiveDir s d) (hr : ¬ EntryRegion s p i d) (hne : d = p → j ≠ i)
    (hf : FileSlot s d j) (hl : Walk s.next fatEndOfFile (s.table d j).clusterNumber l) :
    Walk s'.next fatEndOfFile (s.table d j).clusterNumber l := by
  refine hl.congr fun x hx => ?_
  have ho : Owns s (some (d, j)) x := .file hd hf hl hx
  refine hg.next_eq x (hw.owned_range ho).2 fun h => ?_
  rcases (region_owner_iff hw hg.parent ho).mp h with ⟨h, h'⟩ | h
  · exact hne h h'
  · exact hr h

theorem owns_iff (hg : Pruned s s' p i) (hw : Formed Fits s)
    {o : Option (Nat × Fin entryCount)} {c : Nat} :
    Owns s' o c ↔ Owns s o c ∧ ¬ EntryRegion s p i c := by
  constructor
  · intro h
    cases h with
    | root => exact ⟨.root, region_not_root hw⟩
    | @folder d c j hd hc =>
      have hs := (folderChild_eq_some.mp hc).1
      have hr := ((hg.liveDir_iff hw).mp (hd.step hc)).2
      obtain ⟨hd, _, _, _, he⟩ := hg.liveSlot_cases hw hd hs
      rw [folderChild_congr he] at hc
      exact ⟨.folder hd hc, hr⟩
    | @file d c j l hd hf hl hc =>
      obtain ⟨hd, hr, hne, hs, he⟩ := hg.liveSlot_cases hw hd hf.1
      have hf' : FileSlot s d j := ⟨hs, he ▸ hf.2⟩
      obtain ⟨l', hl', _⟩ := hw.file_chain hd hf'
      rw [he] at hl
      rw [hl.unique (hg.walk_kept hw hd hr hne hf' hl')] at hc
      have ho : Owns s (some (d, j)) c := .file hd hf' hl' hc
      refine ⟨ho, fun h => ?_⟩
      rcases (region_owner_iff hw hg.parent ho).mp h with ⟨h, h'⟩ | h
      · exact hne h h'
      · exact hr h
  · rintro ⟨h, hn⟩
    cases h with
    | root => exact .root
    | @folder d c j hd hc =>
      have ho : Owns s (some (d, j)) c := .folder hd hc
      rw [region_owner_iff hw hg.parent ho, not_or, not_and] at hn
      refine .folder ((hg.liveDir_iff hw).mpr ⟨hd, hn.2⟩) ?_
      rw [folderChild_congr (hg.entry_eq hw hd hn.2 hn.1), hc]
    | @file d c j l hd hf hl hc =>
      have ho : Owns s (some (d, j)) c := .file hd hf hl hc
      rw [region_owner_iff hw hg.parent ho, not_or, not_and] at hn
      have he := hg.entry_eq hw hd hn.2 hn.1
      refine .file ((hg.liveDir_iff hw).mpr ⟨hd, hn.2⟩) ⟨⟨hf.1.1, ?_⟩, ?_⟩ ?_ hc
      · rw [he, hf.1.2]
      · rw [he, hf.2]
      · rw [he]
        exact hg.walk_kept hw hd hn.2 hn.1 hf hl

theorem next_reserved (hg : Pruned s s' p i) (hw : Formed Fits s) {c : Nat} (hc : c < 2) :
    s'.next c = s.next c := by
  refine hg.next_eq c (by omega) fun h => ?_
  have := region_range hw h
  omega

theorem header_eq (hg : Pruned s s' p i) (hw : Formed Fits s) {d : Nat} (hd : LiveDir s d)
    (hr : ¬ EntryRegion s p i d) : s'.table d 0 = s.table d 0 ∧ s'.table d 1 = s.table d 1 := by
  have hi := hg.slot.1
  refine ⟨hg.entry_eq hw hd hr fun _ he => ?_, hg.entry_eq hw hd hr fun _ he => ?_⟩
  · rw [← he] at hi
    exact absurd hi (by decide)
  · rw [← he] at hi
    exact absurd hi (by decide)

theorem wellFormed (hg : Pruned s s' p i) (hw : Formed Fits s) : Formed Fits s' where
  reserved0 := (hg.next_reserved hw (by decide)).trans hw.reserved0
  reserved1 := (hg.next_reserved hw (by decide)).trans hw.reserved1
  slot_clear := by
    intro d j hd hj hl
    obtain ⟨hd, hr⟩ := (hg.liveDir_iff hw).mp hd
    by_cases he : d = p ∧ j = i
    · rw [he.1, he.2, hg.entry_cleared]
    · have hh := hg.entry_eq hw hd hr fun h h' => he ⟨h, h'⟩
      rw [hh] at hl ⊢
      exact hw.slot_clear hd hj hl
  dir_range hd := hw.dir_range ((hg.liveDir_iff hw).mp hd).1
  dir_mark := by
    intro d hd
    obtain ⟨hd, hr⟩ := (hg.liveDir_iff hw).mp hd
    rw [hg.next_eq d (hw.dir_range hd).2 hr, hw.dir_mark hd]
  root_header := by
    have hh := hg.header_eq hw reach_root (region_not_root hw)
    exact hw.root_header.congr hh.1 hh.2
  header := by
    intro d c j hd hc
    have hr := (hg.liveDir_iff hw).mp (hd.step hc)
    obtain ⟨hd, _, _, _, he⟩ := hg.liveSlot_cases hw hd (folderChild_eq_some.mp hc).1
    rw [folderChild_congr he] at hc
    have hh := hg.header_eq hw hr.1 hr.2
    rw [hh.1, he]
    exact ⟨(hw.header hd hc).1.congr hh.1 hh.2, (hw.header hd hc).2⟩
  folder_size := by
    intro d c j hd hc
    obtain ⟨hd, _, _, _, he⟩ := hg.liveSlot_cases hw hd (folderChild_eq_some.mp hc).1
    rw [folderChild_congr he] at hc
    rw [he]
    exact hw.folder_size hd hc
  file_chain := by
    intro d j hd hf
    obtain ⟨hd, hr, hne, hs, he⟩ := hg.liveSlot_cases hw hd hf.1
    have hf' : FileSlot s d j := ⟨hs, he ▸ hf.2⟩
    obtain ⟨l, hl, hrest⟩ := hw.file_chain hd hf'
    rw [he]
    exact ⟨l, hg.walk_kept hw hd hr hne hf' hl, hrest⟩
  owner_unique h h' := hw.owner_unique ((hg.owns_iff hw).mp h).1 ((hg.owns_iff hw).mp h').1
  used_iff := by
    intro c h₂ hc
    by_cases hr : EntryRegion s p i c
    · refine iff_of_false (not_not.mpr (hg.next_in c hc hr)) ?_
      rintro ⟨o, ho⟩
      exact ((hg.owns_iff hw).mp ho).2 hr
    · rw [hg.next_eq c hc hr, hw.used_iff h₂ hc]
      refine exists_congr fun o => ?_
      rw [hg.owns_iff hw]
      simp [hr]
  mirrored := hg.mirrored
  names_unique := by
    intro d j k hd hj hk hn he
    obtain ⟨hd', _, _, hsj, hej⟩ := hg.liveSlot_cases hw hd hj
    obtain ⟨_, _, _, hsk, hek⟩ := hg.liveSlot_cases hw hd hk
    rw [hej, hek] at hn he
    exact hw.names_unique hd' hsj hsk hn he

end Pruned

end Doors.Fat32
