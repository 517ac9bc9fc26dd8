import Doors.FatInvariant

/-! Hanging a new file or folder into a free slot keeps a file system well formed.
The slot becomes the owner of the clusters that were free. -/

namespace Doors.Fat32

open PointerTree

/-- The state `s'` is `s` with entry `e` in slot `i` of directory `p`, on the clusters `cs`. -/
structure Grown (s s' : FileSystem) (p : Nat) (i : Fin entryCount) (e : FAT32DirectoryEntry)
    (cs : List Nat) : Prop where
  parent : LiveDir s p
  slot_range : 2 ≤ i.val
  slot_free : (s.table p i).live = false
  live : e.live = true
  fresh : ∀ c ∈ cs, 3 ≤ c ∧ c < 512 ∧ s.next c = fatEmptyEntry
  nodup : cs.Nodup
  chain : Walk s'.next fatEndOfFile e.clusterNumber cs
  next_eq : ∀ c < 512, c ∉ cs → s'.next c = s.next c
  table_eq : s'.table p = Function.update (s.table p) i e
  cluster_eq : ∀ c < 512, c ≠ fatClusterNumber → c ≠ p → c ∉ cs → s'.cluster c = s.cluster c
  mirrored : s'.cluster fatClusterNumber = s'.fatImage
  folder : e.isSubdirectory = true → cs = [e.clusterNumber] ∧ e.filesize = 0 ∧
    Header (s'.table e.clusterNumber) e.clusterNumber p ∧
    (s'.table e.clusterNumber 0).name = e.name ∧
    ∀ j : Fin entryCount, 2 ≤ j.val → s'.table e.clusterNumber j = .zero
  file : e.isSubdirectory = false → 1 ≤ cs.length

namespace Grown

variable {Fits : UInt32 → Nat → Prop} {s s' : FileSystem} {p : Nat} {i : Fin entryCount}
  {e : FAT32DirectoryEntry} {cs : List Nat}

theorem owned_notMem (hg : Grown s s' p i e cs) (hw : Formed Fits s)
    {o : Option (Nat × Fin entryCount)} {c : Nat} (ho : Owns s o c) : c ∉ cs :=
  fun hm => hw.owned_used ho (hg.fresh c hm).2.2

theorem dir_notMem (hg : Grown s s' p i e cs) (hw : Formed Fits s) {d : Nat} (hd : LiveDir s d) :
    d ∉ cs := by
  obtain ⟨o, ho⟩ := hw.dir_owned hd
  exact hg.owned_notMem hw ho

theorem entry_eq (hg : Grown s s' p i e cs) (hw : Formed Fits s) {d : Nat} {j : Fin entryCount}
    (hd : LiveDir s d) (hne : d = p → j ≠ i) : s'.table d j = s.table d j := by
  by_cases he : d = p
  · subst d
    rw [hg.table_eq, Function.update_of_ne (hne rfl)]
  · rw [FileSystem.table, hg.cluster_eq d (hw.dir_range hd).2 (hw.dir_ne_fat hd) he
      (hg.dir_notMem hw hd), FileSystem.table]

theorem entry_new (hg : Grown s s' p i e cs) : s'.table p i = e := by
  rw [hg.table_eq, Function.update_self]

theorem child_eq (hg : Grown s s' p i e cs) (hw : Formed Fits s) {d : Nat} {j : Fin entryCount}
    (hd : LiveDir s d) (hne : d = p → j ≠ i) : folderChild s' d j = folderChild s d j :=
  folderChild_congr (hg.entry_eq hw hd hne)

theorem child_free (hg : Grown s s' p i e cs) : folderChild s p i = none :=
  folderChild_of_not_live hg.slot_free

theorem liveSlot_new (hg : Grown s s' p i e cs) : LiveSlot s' p i := by
  refine ⟨hg.slot_range, ?_⟩
  rw [hg.entry_new]
  exact hg.live

theorem child_new (hg : Grown s s' p i e cs) (hk : e.isSubdirectory = true) :
    folderChild s' p i = some e.clusterNumber := by
  refine folderChild_eq_some.mpr ⟨hg.liveSlot_new, ?_, ?_⟩
  · rw [hg.entry_new, hk]
  · rw [hg.entry_new]

theorem leaf (hg : Grown s s' p i e cs) (hk : e.isSubdirectory = true) (j : Fin entryCount) :
    folderChild s' e.clusterNumber j = none := by
  by_cases hj : 2 ≤ j.val
  · exact folderChild_of_not_live (by rw [(hg.folder hk).2.2.2.2 j hj, FAT32DirectoryEntry.zero_live])
  · simp [folderChild, hj]

theorem liveDir_iff (hg : Grown s s' p i e cs) (hw : Formed Fits s) {c : Nat} :
    LiveDir s' c ↔ LiveDir s c ∨ (e.isSubdirectory = true ∧ c = e.clusterNumber) := by
  cases hk : e.isSubdirectory with
  | true =>
    simpa using reach_graft_iff hg.parent hg.child_free (hg.child_new hk) (hg.leaf hk)
      (fun d j hd hne => hg.child_eq hw hd hne)
  | false =>
    have hsame : ∀ d, LiveDir s d → folderChild s' d = folderChild s d := by
      intro d hd
      funext j
      by_cases he : d = p ∧ j = i
      · rw [he.1, he.2, hg.child_free, folderChild_of_fileSlot]
        refine ⟨hg.liveSlot_new, ?_⟩
        rw [hg.entry_new, hk]
      · exact hg.child_eq hw hd fun h h' => he ⟨h, h'⟩
    simpa using reach_congr_iff hsame

theorem chain_used (hg : Grown s s' p i e cs) {c : Nat} (hc : c ∈ cs) :
    s'.next c ≠ fatEmptyEntry := by
  rcases hg.chain.next_mem hc with h | h
  · rw [h]
    decide
  · have := (hg.fresh _ h).1
    intro he
    rw [he] at this
    exact absurd this (by decide)

theorem walk_old (hg : Grown s s' p i e cs) (hw : Formed Fits s) {d : Nat} {j : Fin entryCount}
    {l : List Nat} (hd : LiveDir s d) (hf : FileSlot s d j)
    (hl : Walk s.next fatEndOfFile (s.table d j).clusterNumber l) :
    Walk s'.next fatEndOfFile (s.table d j).clusterNumber l := by
  refine hl.congr fun x hx => ?_
  have ho : Owns s (some (d, j)) x := .file hd hf hl hx
  exact hg.next_eq x (hw.owned_range ho).2 (hg.owned_notMem hw ho)

theorem liveSlot_cases (hg : Grown s s' p i e cs) (hw : Formed Fits s) {d : Nat}
    {j : Fin entryCount} (hd : LiveDir s' d) (hl : LiveSlot s' d j) :
    (d = p ∧ j = i) ∨
      LiveDir s d ∧ LiveSlot s d j ∧ s'.table d j = s.table d j ∧ (d = p → j ≠ i) := by
  by_cases he : d = p ∧ j = i
  · exact .inl he
  · have hne : d = p → j ≠ i := fun h h' => he ⟨h, h'⟩
    rcases (hg.liveDir_iff hw).mp hd with hd | ⟨hk, rfl⟩
    · have hh := hg.entry_eq hw hd hne
      exact .inr ⟨hd, ⟨hl.1, hh ▸ hl.2⟩, hh, hne⟩
    · rw [LiveSlot, (hg.folder hk).2.2.2.2 j hl.1] at hl
      simp at hl

theorem liveSlot_old (hg : Grown s s' p i e cs) (hw : Formed Fits s) {d : Nat}
    {j : Fin entryCount} (hd : LiveDir s d) (hl : LiveSlot s d j) :
    LiveSlot s' d j ∧ s'.table d j = s.table d j := by
  have hne : d = p → j ≠ i := by
    rintro rfl rfl
    simp [LiveSlot, hg.slot_free] at hl
  have hh := hg.entry_eq hw hd hne
  exact ⟨⟨hl.1, hh ▸ hl.2⟩, hh⟩

theorem owns_iff (hg : Grown s s' p i e cs) (hw : Formed Fits s)
    {o : Option (Nat × Fin entryCount)} {c : Nat} :
    Owns s' o c ↔ Owns s o c ∨ (o = some (p, i) ∧ c ∈ cs) := by
  constructor
  · intro h
    cases h with
    | root => exact .inl .root
    | @folder d c j hd hc =>
      have hs := folderChild_eq_some.mp hc
      rcases hg.liveSlot_cases hw hd hs.1 with ⟨rfl, rfl⟩ | ⟨hd, _, _, hne⟩
      · right
        rw [hg.entry_new] at hs
        rw [(hg.folder hs.2.1).1, ← hs.2.2]
        simp
      · exact .inl (.folder hd (by rw [← hg.child_eq hw hd hne, hc]))
    | @file d c j l hd hf hl hc =>
      rcases hg.liveSlot_cases hw hd hf.1 with ⟨rfl, rfl⟩ | ⟨hd, hs, he, hne⟩
      · rw [hg.entry_new] at hl
        rw [hg.chain.unique hl]
        exact .inr ⟨rfl, hc⟩
      · have hf' : FileSlot s d j := ⟨hs, he ▸ hf.2⟩
        obtain ⟨l', hl', _⟩ := hw.file_chain hd hf'
        rw [he] at hl
        rw [hl.unique (hg.walk_old hw hd hf' hl')] at hc
        exact .inl (.file hd hf' hl' hc)
  · rintro (h | ⟨rfl, hc⟩)
    · cases h with
      | root => exact .root
      | @folder d c j hd hc =>
        have hs := hg.liveSlot_old hw hd (folderChild_eq_some.mp hc).1
        exact .folder ((hg.liveDir_iff hw).mpr (.inl hd)) (by rw [folderChild_congr hs.2, hc])
      | @file d c j l hd hf hl hc =>
        have hs := hg.liveSlot_old hw hd hf.1
        refine .file ((hg.liveDir_iff hw).mpr (.inl hd)) ⟨hs.1, ?_⟩ ?_ hc
        · rw [hs.2, hf.2]
        · rw [hs.2]
          exact hg.walk_old hw hd hf hl
    · have hp := (hg.liveDir_iff hw).mpr (.inl hg.parent)
      cases hk : e.isSubdirectory with
      | true =>
        rw [(hg.folder hk).1, List.mem_singleton] at hc
        exact .folder hp (by rw [hg.child_new hk, hc])
      | false =>
        refine .file hp ⟨hg.liveSlot_new, ?_⟩ ?_ hc
        · rw [hg.entry_new, hk]
        · rw [hg.entry_new]
          exact hg.chain

theorem next_reserved (hg : Grown s s' p i e cs) {c : Nat} (hc : c < 3) : s'.next c = s.next c := by
  refine hg.next_eq c (by omega) fun hm => ?_
  have := (hg.fresh c hm).1
  omega

theorem header_eq (hg : Grown s s' p i e cs) (hw : Formed Fits s) {d : Nat} (hd : LiveDir s d) :
    s'.table d 0 = s.table d 0 ∧ s'.table d 1 = s.table d 1 := by
  have hi := hg.slot_range
  refine ⟨hg.entry_eq hw hd fun _ he => ?_, hg.entry_eq hw hd fun _ he => ?_⟩
  · rw [← he] at hi
    exact absurd hi (by decide)
  · rw [← he] at hi
    exact absurd hi (by decide)

/-- Every clause of the invariant survives the new entry. -/
theorem wellFormed (hg : Grown s s' p i e cs) (hw : Formed Fits s)
    (hfits : e.isSubdirectory = false → Fits e.filesize cs.length)
    (hnew : ∀ j, LiveSlot s p j → (s.table p j).name = e.name → (s.table p j).ext ≠ e.ext) :
    Formed Fits s' where
  reserved0 := (hg.next_reserved (by decide)).trans hw.reserved0
  reserved1 := (hg.next_reserved (by decide)).trans hw.reserved1
  slot_clear := by
    intro d j hd hj hl
    rcases (hg.liveDir_iff hw).mp hd with hd | ⟨hk, rfl⟩
    · have hne : d = p → j ≠ i := by
        rintro rfl rfl
        rw [hg.entry_new, hg.live] at hl
        simp at hl
      rw [hg.entry_eq hw hd hne] at hl ⊢
      exact hw.slot_clear hd hj hl
    · exact (hg.folder hk).2.2.2.2 j hj
  dir_range := by
    intro d hd
    rcases (hg.liveDir_iff hw).mp hd with hd | ⟨hk, rfl⟩
    · exact hw.dir_range hd
    · have hf := hg.fresh e.clusterNumber (by rw [(hg.folder hk).1]; simp)
      omega
  dir_mark := by
    intro d hd
    rcases (hg.liveDir_iff hw).mp hd with hd | ⟨hk, rfl⟩
    · rw [hg.next_eq d (hw.dir_range hd).2 (hg.dir_notMem hw hd), hw.dir_mark hd]
    · have hch := hg.chain
      rw [(hg.folder hk).1] at hch
      exact hch.singleton.2
  root_header := by
    have hh := hg.header_eq hw reach_root
    exact hw.root_header.congr hh.1 hh.2
  header := by
    intro d c j hd hc
    have hs := folderChild_eq_some.mp hc
    rcases hg.liveSlot_cases hw hd hs.1 with ⟨rfl, rfl⟩ | ⟨hd, _, he, hne⟩
    · rw [hg.entry_new] at hs ⊢
      rw [← hs.2.2]
      exact ⟨(hg.folder hs.2.1).2.2.1, (hg.folder hs.2.1).2.2.2.1⟩
    · rw [hg.child_eq hw hd hne] at hc
      have hh := hg.header_eq hw (hd.step hc)
      rw [hh.1, he]
      exact ⟨(hw.header hd hc).1.congr hh.1 hh.2, (hw.header hd hc).2⟩
  folder_size := by
    intro d c j hd hc
    have hs := folderChild_eq_some.mp hc
    rcases hg.liveSlot_cases hw hd hs.1 with ⟨rfl, rfl⟩ | ⟨hd, _, he, hne⟩
    · rw [hg.entry_new] at hs ⊢
      exact (hg.folder hs.2.1).2.1
    · rw [hg.child_eq hw hd hne] at hc
      rw [he]
      exact hw.folder_size hd hc
  file_chain := by
    intro d j hd hf
    rcases hg.liveSlot_cases hw hd hf.1 with ⟨rfl, rfl⟩ | ⟨hd, hs, he, hne⟩
    · have hk := hf.2
      rw [hg.entry_new] at hk ⊢
      exact ⟨cs, hg.chain, hg.nodup, hfits hk, hg.file hk,
        fun c hc => ⟨(hg.fresh c hc).1, (hg.fresh c hc).2.1⟩⟩
    · have hf' : FileSlot s d j := ⟨hs, he ▸ hf.2⟩
      obtain ⟨l, hl, hnd, hlen, hpos, hr⟩ := hw.file_chain hd hf'
      rw [he]
      exact ⟨l, hg.walk_old hw hd hf' hl, hnd, hlen, hpos, hr⟩
  owner_unique := by
    intro o o' c h h'
    rcases (hg.owns_iff hw).mp h with h | ⟨rfl, hc⟩ <;>
      rcases (hg.owns_iff hw).mp h' with h' | ⟨rfl, hc'⟩
    · exact hw.owner_unique h h'
    · exact absurd hc' (hg.owned_notMem hw h)
    · exact absurd hc (hg.owned_notMem hw h')
    · rfl
  used_iff := by
    intro c h₂ hc
    by_cases hm : c ∈ cs
    · refine iff_of_true (hg.chain_used hm) ⟨some (p, i), ?_⟩
      exact (hg.owns_iff hw).mpr (.inr ⟨rfl, hm⟩)
    · rw [hg.next_eq c hc hm, hw.used_iff h₂ hc]
      refine exists_congr fun o => ?_
      rw [hg.owns_iff hw]
      simp [hm]
  mirrored := hg.mirrored
  names_unique := by
    intro d j k hd hj hk hn he
    rcases hg.liveSlot_cases hw hd hj with ⟨rfl, rfl⟩ | ⟨hd', hsj, hej, _⟩ <;>
      rcases hg.liveSlot_cases hw hd hk with ⟨hp, hik⟩ | ⟨_, hsk, hek, _⟩
    · exact hik.symm
    · rw [hg.entry_new, hek] at hn he
      exact absurd he.symm (hnew k hsk hn.symm)
    · subst hp hik
      rw [hg.entry_new, hej] at hn he
      exact absurd he (hnew j hsj hn)
    · rw [hej, hek] at hn he
      exact hw.names_unique hd' hsj hsk hn he

end Grown

end Doors.Fat32
