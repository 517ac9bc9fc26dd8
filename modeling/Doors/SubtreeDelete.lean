import Doors.FatReadBack

/-! Recursive deletion. It frees the clusters of the folder, of the directories below
it and of their files, and nothing else. -/

namespace Doors.Fat32

open PointerTree FileSystem

variable {Fits : UInt32 → Nat → Prop}

/-- The clusters of the directories at and below `a` and of the files in them. -/
def InSubtree (s : FileSystem) (a c : Nat) : Prop :=
  ∃ d, Below (folderChild s) a d ∧ (c = d ∨ ∃ j l, FileSlot s d j ∧
    Walk s.next fatEndOfFile (s.table d j).clusterNumber l ∧ c ∈ l)

theorem inSubtree_iff_region {s : FileSystem} {p a c : Nat} {i : Fin entryCount}
    (hp : LiveDir s p) (ha : folderChild s p i = some a) :
    InSubtree s a c ↔ EntryRegion s p i c := by
  have hda := hp.step ha
  constructor
  · rintro ⟨d, hb, rfl | ⟨j, l, hf, hl, hc⟩⟩
    · cases hb with
      | refl => exact .inl (.folder hp ha)
      | tail hb he =>
        obtain ⟨j, hj⟩ := he
        exact .inr ⟨a, _, j, ha, hb, .folder (below_reach hb hda) hj⟩
    · exact .inr ⟨a, d, j, ha, hb, .file (below_reach hb hda) hf hl hc⟩
  · rintro (h | ⟨a', d, j, ha', hb, h⟩)
    · cases h with
      | folder _ hc => exact ⟨c, by rw [Option.some.inj (ha.symm.trans hc)], .inl rfl⟩
      | file _ hf _ _ =>
        rw [folderChild_of_fileSlot hf] at ha
        simp at ha
    · obtain rfl := Option.some.inj (ha.symm.trans ha')
      cases h with
      | folder _ hc => exact ⟨c, hb.tail ⟨j, hc⟩, .inl rfl⟩
      | file _ hf hl hc => exact ⟨d, hb, .inr ⟨j, _, hf, hl, hc⟩⟩

namespace Pruned

variable {s s' : FileSystem} {p : Nat} {i : Fin entryCount}

theorem freed_iff (hg : Pruned s s' p i) (hw : Formed Fits s) {c : Nat} :
    s.next c ≠ fatEmptyEntry ∧ s'.next c = fatEmptyEntry ↔ EntryRegion s p i c := by
  constructor
  · rintro ⟨hu, he⟩
    by_contra hr
    by_cases hc : c < 512
    · exact hu ((hg.next_eq c hc hr).symm.trans he)
    · exact hu (by rw [next, dif_neg hc])
  · intro hr
    have hc := (region_range hw hr).2
    refine ⟨?_, hg.next_in c hc hr⟩
    rcases hr with h | ⟨_, _, _, _, _, h⟩
    · exact hw.owned_used h
    · exact hw.owned_used h

theorem freeClusters_le (hg : Pruned s s' p i) :
    s.freeClusters.length ≤ s'.freeClusters.length := by
  refine ((freeClusters_nodup s).subperm fun c hc => ?_).length_le
  obtain ⟨hr, he⟩ := mem_freeClusters.mp hc
  refine mem_freeClusters.mpr ⟨hr, ?_⟩
  by_cases hreg : EntryRegion s p i c
  · exact hg.next_in c hr.2 hreg
  · rw [hg.next_eq c hr.2 hreg, he]

theorem keepsFile (hg : Pruned s s' p i) (hw : Formed Fits s) {d : Nat} {j : Fin entryCount}
    (hd : LiveDir s d) (hr : ¬ EntryRegion s p i d) (hne : d = p → j ≠ i)
    (hf : FileSlot s d j) : ∃ l, KeepsFile s s' d j l := by
  obtain ⟨l, hl, -⟩ := hw.file_chain hd hf
  refine ⟨l, hg.entry_eq hw hd hr hne, hl, hg.walk_kept hw hd hr hne hf hl, fun c hc => ?_⟩
  have ho : Owns s (some (d, j)) c := .file hd hf hl hc
  have hrange := hw.file_range hd hf hl c hc
  obtain ⟨hfat, hparent⟩ := hw.owned_by_file_ne hf ho hrange.1 hg.parent
  refine hg.cluster_eq c hrange.2 hfat hparent fun h => ?_
  rcases (region_owner_iff hw hg.parent ho).mp h with ⟨h, h'⟩ | h
  · exact hne h h'
  · exact hr h

end Pruned

/-- A folder goes with its whole subtree; an absent name or a file is refused. -/
theorem deleteFolderRec_exact {s : FileSystem} (hw : WellFormed s) {request : Request}
    (hp : LiveDir s request.parent) :
    (∀ i a, folderChild s request.parent i = some a →
      request.names (s.table request.parent i) = true →
      ∃ s', deleteFolderRec s request = .ok (0, s') ∧
        (∀ c, s.next c ≠ fatEmptyEntry ∧ s'.next c = fatEmptyEntry ↔ InSubtree s a c) ∧
        (∀ c < 512, ¬ InSubtree s a c → s'.next c = s.next c) ∧
        s'.table request.parent i = .zero ∧
        (∀ j, j ≠ i → s'.table request.parent j = s.table request.parent j) ∧
        (∀ d, LiveDir s d → ¬ Below (folderChild s) a d → LiveDir s' d ∧
          s'.next d = s.next d ∧ (d ≠ request.parent → s'.cluster d = s.cluster d) ∧
          ∀ j, FileSlot s d j → ∃ l, KeepsFile s s' d j l) ∧
        s'.cluster fatClusterNumber = s'.fatImage) ∧
    (∀ i, FileSlot s request.parent i → request.names (s.table request.parent i) = true →
      ∃ s', deleteFolderRec s request = .ok (1, s') ∧ s'.clusterMap = s.clusterMap ∧
        s'.disk = s.disk) ∧
    ((∀ i, LiveSlot s request.parent i → request.names (s.table request.parent i) = false) →
      ∃ s', deleteFolderRec s request = .ok (2, s') ∧ s'.clusterMap = s.clusterMap ∧
        s'.disk = s.disk) := by
  refine ⟨fun i a ha hn => ?_, fun i hf hn => ?_, fun hn => ?_⟩
  · obtain ⟨s', hs, hpr⟩ := deleteFolderRec_folder hw hp ha hn
    have hregion : ∀ c, InSubtree s a c ↔ EntryRegion s request.parent i c :=
      fun c => inSubtree_iff_region hp ha
    refine ⟨s', hs, fun c => ?_, fun c hc hr => ?_, hpr.entry_cleared, fun j hj => ?_, ?_,
      hpr.mirrored⟩
    · rw [hpr.freed_iff hw, hregion]
    · exact hpr.next_eq c hc (mt (hregion c).mpr hr)
    · rw [hpr.table_eq, Function.update_of_ne hj]
    · intro d hd hb
      have hr : ¬ EntryRegion s request.parent i d := by
        rw [region_dir_iff hw hp hd]
        rintro ⟨a', ha', hb'⟩
        exact hb (Option.some.inj (ha.symm.trans ha') ▸ hb')
      refine ⟨(hpr.liveDir_iff hw).mpr ⟨hd, hr⟩, hpr.next_eq d (hw.dir_range hd).2 hr,
        fun hne => ?_, fun j hf => ?_⟩
      · exact hpr.cluster_eq d (hw.dir_range hd).2 (hw.dir_ne_fat hd) hne hr
      · refine hpr.keepsFile hw hd hr ?_ hf
        rintro rfl rfl
        rw [folderChild_of_fileSlot hf] at ha
        simp at ha
  · refine ⟨s.loadDir request.parent, ?_, rfl, rfl⟩
    rw [deleteFolderRec_eq hw.directories hp, find_named hw.directories hp hf.1 hn]
    simp [hf.2]
  · refine ⟨s.loadDir request.parent, ?_, rfl, rfl⟩
    rw [deleteFolderRec_eq hw.directories hp, find_unnamed hn]

/-- A folder made in the root of a new disk and removed again. -/
theorem deleteFolderRec_exact_mkdir : ∃ s s' a,
    write (createFat32 (fun _ => 0) (boot zeroBytes))
      ⟨zeroBytes, fun _ => 'a'.toUInt8, fun _ => 0, 2, 0⟩ = .ok (0, s) ∧
    deleteFolderRec s ⟨zeroBytes, fun _ => 'a'.toUInt8, fun _ => 0, 2, 0⟩ = .ok (0, s') ∧
    InSubtree s a a ∧ s'.next a = fatEmptyEntry := by
  obtain ⟨s, i, cs, hs, hw, hwr⟩ := createFat32_written (fun _ => 0) zeroBytes
    ⟨zeroBytes, fun _ => 'a'.toUInt8, fun _ => 0, 2, 0⟩ rfl (by decide)
  have hg := hwr.grown
  have hp : LiveDir s (⟨zeroBytes, fun _ => 'a'.toUInt8, fun _ => 0, 2, 0⟩ : Request).parent :=
    (hg.liveDir_iff (createFat32_wellFormed _ _)).mpr (.inl hg.parent)
  obtain ⟨a, hc⟩ : ∃ a, folderChild s 2 i = some a :=
    ⟨_, hg.child_new (by rw [newEntry_isSubdirectory]; rfl)⟩
  obtain ⟨s', hs', hfreed, -⟩ := (deleteFolderRec_exact hw hp).1 i a hc
    (by rw [hg.entry_new, FAT32DriverRequest.names_iff]; exact ⟨rfl, rfl⟩)
  have ha : InSubtree s a a := ⟨a, .refl, .inl rfl⟩
  exact ⟨s, s', a, hs, hs', ha, ((hfreed a).mpr ha).2⟩

end Doors.Fat32
