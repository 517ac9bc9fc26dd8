import Doors.FatDelete

/-! The outcomes of `delete` and `delete_folder_rec` on a well-formed file system. -/

namespace Doors.Fat32

open PointerTree FileSystem

variable {Fits : UInt32 → Nat → Prop}

/-- `delete` at the slot it has found. -/
def deleteAt (s : FileSystem) (request : Request) (i : Fin entryCount) :
    Except Fault (Int × FileSystem) :=
  if (s.dirTableBuf i).isSubdirectory then
    if (slotsFrom 2).any fun j => (s.table (s.dirTableBuf i).clusterNumber j).live then return (2, s)
    else do
      let s' := s.writeClusters zeroBytes (s.dirTableBuf i).clusterNumber
      let s' ← s'.assign (s.dirTableBuf i).clusterNumber fatEmptyEntry
      return (0, clearSlot s' request.parent i)
  else do
    let s' ← freeChain clusterMapSize s (s.dirTableBuf i).clusterNumber
    return (0, clearSlot s' request.parent i)

theorem deleteLoop_eq (request : Request) (is : List (Fin entryCount)) (s : FileSystem) :
    deleteLoop request is s =
      match is.find? fun i => (s.dirTableBuf i).live && request.names (s.dirTableBuf i) with
      | none => .ok (1, s)
      | some i => deleteAt s request i := by
  induction is with
  | nil => rfl
  | cons i is ih =>
    cases hl : (s.dirTableBuf i).live with
    | false => simp [deleteLoop, hl, ih]
    | true =>
      cases hm : request.names (s.dirTableBuf i) with
      | false =>
        have hm' := hm
        simp only [FAT32DriverRequest.names] at hm'
        simp [deleteLoop, hl, hm, hm', ih]
      | true =>
        have hm' := hm
        simp only [FAT32DriverRequest.names] at hm'
        simp only [deleteLoop, hl, hm', List.find?_cons, hm]
        rfl

theorem deleteAt_nonempty {s : FileSystem} {request : Request} {i : Fin entryCount} {a : Nat}
    (ha : folderChild s request.parent i = some a) {j : Fin entryCount} (hj : LiveSlot s a j) :
    deleteAt (s.loadDir request.parent) request i = .ok (2, s.loadDir request.parent) := by
  obtain ⟨-, hk, rfl⟩ := folderChild_eq_some.mp ha
  have hany : ((slotsFrom 2).any fun j =>
      (s.table (s.table request.parent i).clusterNumber j).live) = true :=
    List.any_eq_true.mpr ⟨j, mem_slotsFrom.mpr hj.1, hj.2⟩
  simp [deleteAt, hk, hany, pure, Except.pure]

theorem region_of_empty {s : FileSystem} {p a : Nat} {i : Fin entryCount} (hp : LiveDir s p)
    (ha : folderChild s p i = some a) (hempty : ∀ j, ¬ LiveSlot s a j) {c : Nat} :
    EntryRegion s p i c ↔ c = a := by
  rw [region_of_folder hp ha, or_iff_left]
  rintro ⟨j, h⟩
  exact hempty j (region_live h)

theorem deleteAt_empty {s : FileSystem} (hw : Formed Fits s) {request : Request}
    (hp : LiveDir s request.parent) {i : Fin entryCount} {a : Nat}
    (ha : folderChild s request.parent i = some a) (hempty : ∀ j, ¬ LiveSlot s a j) :
    ∃ s', deleteAt (s.loadDir request.parent) request i = .ok (0, s') ∧
      Pruned s s' request.parent i := by
  have hregion : ∀ c, EntryRegion s request.parent i c ↔ c = a :=
    fun c => region_of_empty hp ha hempty
  have halt := (hw.dir_range (hp.step ha)).2
  obtain ⟨hslot, hk, rfl⟩ := folderChild_eq_some.mp ha
  have hany : ((slotsFrom 2).any fun j =>
      (s.table (s.table request.parent i).clusterNumber j).live) = false :=
    List.any_eq_false.mpr fun j hj hl => hempty j ⟨mem_slotsFrom.mp hj, hl⟩
  have hfree := freed_one (t := s.loadDir request.parent) halt
  have hfreed : Freed s _ (EntryRegion s request.parent i) :=
    Freed.congr ⟨hfree.next_in, hfree.next_eq, hfree.cluster_eq⟩ hregion
  refine ⟨_, ?_, clearSlot_pruned hw hp hslot hfreed⟩
  simp [deleteAt, hk, hany, assign_of_lt _ halt, bind, Except.bind, pure, Except.pure]

theorem deleteAt_folder {s : FileSystem} (hw : Formed Fits s) {request : Request}
    (hp : LiveDir s request.parent) {i : Fin entryCount} {a : Nat}
    (ha : folderChild s request.parent i = some a) :
    deleteAt (s.loadDir request.parent) request i = .ok (2, s.loadDir request.parent) ∨
      ∃ s', deleteAt (s.loadDir request.parent) request i = .ok (0, s') ∧
        Pruned s s' request.parent i := by
  by_cases hempty : ∃ j, LiveSlot s a j
  · obtain ⟨j, hj⟩ := hempty
    exact .inl (deleteAt_nonempty ha hj)
  · exact .inr (deleteAt_empty hw hp ha (not_exists.mp hempty))

theorem deleteAt_file {s : FileSystem} (hw : Formed Fits s) {request : Request}
    (hp : LiveDir s request.parent) {i : Fin entryCount} (hf : FileSlot s request.parent i) :
    ∃ s', deleteAt (s.loadDir request.parent) request i = .ok (0, s') ∧
      Pruned s s' request.parent i := by
  obtain ⟨l, hl, hnd, -, -, hr⟩ := hw.file_chain hp hf
  have hlt : ∀ x ∈ l, x < 512 := fun x hx => (hr x hx).2
  obtain ⟨t, ht, hfree, -⟩ := freeChain_freed (t := s.loadDir request.parent) hl hnd hlt
    (chain_length_le hnd hlt)
  have hregion : Freed s t (EntryRegion s request.parent i) :=
    Freed.congr ⟨hfree.next_in, hfree.next_eq, hfree.cluster_eq⟩ fun c => region_of_file hp hf hl
  refine ⟨_, ?_, clearSlot_pruned hw hp hf.1 hregion⟩
  simp [deleteAt, hf.2, ht, bind, Except.bind, pure, Except.pure]

theorem named_unique {s : FileSystem} (hs : Directories s) {request : Request}
    (hp : LiveDir s request.parent) {i j : Fin entryCount}
    (hi : LiveSlot s request.parent i) (hj : LiveSlot s request.parent j)
    (hni : request.names (s.table request.parent i) = true)
    (hnj : request.names (s.table request.parent j) = true) : i = j := by
  rw [FAT32DriverRequest.names_iff] at hni hnj
  exact hs.unique hp hi hj (hni.1.trans hnj.1.symm) (hni.2.trans hnj.2.symm)

theorem find_named {s : FileSystem} (hs : Directories s) {request : Request}
    (hp : LiveDir s request.parent) {i : Fin entryCount}
    (hi : LiveSlot s request.parent i) (hn : request.names (s.table request.parent i) = true) :
    ((slotsFrom 2).find? fun i => (s.table request.parent i).live &&
      request.names (s.table request.parent i)) = some i := by
  cases hfind : (slotsFrom 2).find? fun i => (s.table request.parent i).live &&
      request.names (s.table request.parent i) with
  | none =>
    have := List.find?_eq_none.mp hfind i (mem_slotsFrom.mpr hi.1)
    simp [hi.2, hn] at this
  | some j =>
    obtain ⟨hslot, hj⟩ := liveSlot_of_find hfind
    rw [named_unique hs hp hslot hi hj hn]

theorem find_unnamed {s : FileSystem} {request : Request}
    (hc : ∀ i, LiveSlot s request.parent i → request.names (s.table request.parent i) = false) :
    ((slotsFrom 2).find? fun i => (s.table request.parent i).live &&
      request.names (s.table request.parent i)) = none := by
  refine List.find?_eq_none.mpr fun i hi hh => ?_
  obtain ⟨hl, hn⟩ := Bool.and_eq_true_iff.mp hh
  rw [hc i ⟨mem_slotsFrom.mp hi, hl⟩] at hn
  exact absurd hn (by decide)

/-- `delete` on a live parent: nothing found, a folder with entries, or a pruned slot. -/
theorem delete_outcome {s : FileSystem} (hw : Formed Fits s) {request : Request}
    (hp : LiveDir s request.parent) :
    (∃ code, code ≠ 0 ∧ delete s request = .ok (code, s.loadDir request.parent)) ∨
      ∃ i s', LiveSlot s request.parent i ∧ request.names (s.table request.parent i) = true ∧
        delete s request = .ok (0, s') ∧ Pruned s s' request.parent i := by
  rw [delete, s.withParent_accepted (hw.dir_range hp).2 (hw.dir_mark hp), deleteLoop_eq]
  simp only [dirTableBuf_loadDir]
  cases hfind : (slotsFrom 2).find? fun i => (s.table request.parent i).live &&
      request.names (s.table request.parent i) with
  | none => exact .inl ⟨1, by decide, rfl⟩
  | some i =>
    obtain ⟨hslot, hn⟩ := liveSlot_of_find hfind
    rcases hslot.kind with hf | hf
    · obtain ⟨s', hs, hpr⟩ := deleteAt_file hw hp hf
      exact .inr ⟨i, s', hslot, hn, hs, hpr⟩
    · rcases deleteAt_folder hw hp hf with hs | ⟨s', hs, hpr⟩
      · exact .inl ⟨2, by decide, hs⟩
      · exact .inr ⟨i, s', hslot, hn, hs, hpr⟩

theorem delete_found {s : FileSystem} (hw : Formed Fits s) {request : Request}
    (hp : LiveDir s request.parent) {i : Fin entryCount} (hi : LiveSlot s request.parent i)
    (hn : request.names (s.table request.parent i) = true) :
    delete s request = deleteAt (s.loadDir request.parent) request i := by
  rw [delete, s.withParent_accepted (hw.dir_range hp).2 (hw.dir_mark hp), deleteLoop_eq]
  simp only [dirTableBuf_loadDir, find_named hw.directories hp hi hn]

theorem delete_file {s : FileSystem} (hw : Formed Fits s) {request : Request}
    (hp : LiveDir s request.parent) {i : Fin entryCount} (hf : FileSlot s request.parent i)
    (hn : request.names (s.table request.parent i) = true) :
    ∃ s', delete s request = .ok (0, s') ∧ Pruned s s' request.parent i := by
  rw [delete_found hw hp hf.1 hn]
  exact deleteAt_file hw hp hf

/-- With at most one slot of that name the loop acts at the slot or not at all. -/
theorem deleteFolderRecLoop_eq (request : Request) (is : List (Fin entryCount)) (code : Int)
    (s : FileSystem) (hnd : is.Nodup)
    (hone : ∀ i ∈ is, ∀ j ∈ is,
      ((s.dirTableBuf i).live && request.names (s.dirTableBuf i)) = true →
      ((s.dirTableBuf j).live && request.names (s.dirTableBuf j)) = true → i = j) :
    deleteFolderRecLoop request is code s =
      match is.find? fun i => (s.dirTableBuf i).live && request.names (s.dirTableBuf i) with
      | none => .ok (code, s)
      | some i =>
        if (s.dirTableBuf i).isSubdirectory then do
          let s' ← recDelete clusterMapSize s (s.dirTableBuf i).clusterNumber
          return (0, clearSlot s' request.parent i)
        else .ok (1, s) := by
  induction is generalizing code with
  | nil => rfl
  | cons i is ih =>
    obtain ⟨hi, hnd'⟩ := List.nodup_cons.mp hnd
    have ih := fun code => ih code hnd' fun j hj k hk =>
      hone j (List.mem_cons_of_mem i hj) k (List.mem_cons_of_mem i hk)
    rw [List.find?_cons]
    cases hl : (s.dirTableBuf i).live with
    | false => simp only [deleteFolderRecLoop, hl, Bool.not_false, if_true, ih, Bool.false_and]
    | true =>
      cases hm : request.names (s.dirTableBuf i) with
      | false =>
        have hm' : (request.matchesName (s.dirTableBuf i) &&
            request.matchesExt (s.dirTableBuf i)) = false := hm
        simp only [deleteFolderRecLoop, hl, hm', Bool.not_true, Bool.false_eq_true, if_false, ih,
          Bool.and_false]
      | true =>
        have hm' : (request.matchesName (s.dirTableBuf i) &&
            request.matchesExt (s.dirTableBuf i)) = true := hm
        have hrest : (is.find? fun j => (s.dirTableBuf j).live &&
            request.names (s.dirTableBuf j)) = none := by
          refine List.find?_eq_none.mpr fun j hj hh => hi ?_
          rw [hone i (by simp) j (List.mem_cons_of_mem i hj) (by rw [hl, hm]; rfl) hh]
          exact hj
        simp only [deleteFolderRecLoop, hl, hm', Bool.not_true, Bool.false_eq_true, if_false,
          if_true, ih, hrest, Bool.and_self]

theorem deleteFolderRec_eq {s : FileSystem} (hs : Directories s) {request : Request}
    (hp : LiveDir s request.parent) :
    deleteFolderRec s request =
      match (slotsFrom 2).find? fun i => (s.table request.parent i).live &&
          request.names (s.table request.parent i) with
      | none => .ok (2, s.loadDir request.parent)
      | some i =>
        if (s.table request.parent i).isSubdirectory then do
          let s' ← recDelete clusterMapSize (s.loadDir request.parent)
            (s.table request.parent i).clusterNumber
          return (0, clearSlot s' request.parent i)
        else .ok (1, s.loadDir request.parent) := by
  rw [deleteFolderRec, s.withParent_accepted (hs.range hp).2 (hs.mark hp),
    deleteFolderRecLoop_eq _ _ _ _ (slotsFrom_nodup 2)]
  · rfl
  · intro i hi j hj hni hnj
    simp only [dirTableBuf_loadDir, Bool.and_eq_true] at hni hnj
    exact named_unique hs hp ⟨mem_slotsFrom.mp hi, hni.1⟩ ⟨mem_slotsFrom.mp hj, hnj.1⟩ hni.2 hnj.2

theorem deleteFolderRec_folder {s : FileSystem} (hw : Formed Fits s) {request : Request}
    (hp : LiveDir s request.parent) {i : Fin entryCount} {a : Nat}
    (ha : folderChild s request.parent i = some a)
    (hn : request.names (s.table request.parent i) = true) :
    ∃ s', deleteFolderRec s request = .ok (0, s') ∧ Pruned s s' request.parent i := by
  obtain ⟨hslot, hk, hcn⟩ := folderChild_eq_some.mp ha
  obtain ⟨n, hr⟩ := hp
  have hagrees : Agrees s (s.loadDir request.parent) (Subtree s a) := fun c _ _ => ⟨rfl, rfl⟩
  obtain ⟨t, ht, hfree⟩ := recDelete_freed hw (hr.child ha)
    (Nat.le_add_right 512 (n + 1)) hagrees
  have hregion : Freed s t (EntryRegion s request.parent i) :=
    Freed.congr ⟨hfree.next_in, hfree.next_eq, hfree.cluster_eq⟩ fun c =>
      region_of_folder ⟨n, hr⟩ ha
  refine ⟨_, ?_, clearSlot_pruned hw ⟨n, hr⟩ hslot hregion⟩
  rw [deleteFolderRec_eq hw.directories ⟨n, hr⟩, find_named hw.directories ⟨n, hr⟩ hslot hn]
  simp only [hk, if_true, hcn]
  have ht' : recDelete clusterMapSize (s.loadDir request.parent) a = .ok t := ht
  rw [ht']
  rfl

theorem deleteFolderRec_outcome {s : FileSystem} (hw : Formed Fits s) {request : Request}
    (hp : LiveDir s request.parent) :
    (∃ code, deleteFolderRec s request = .ok (code, s.loadDir request.parent)) ∨
      ∃ i a s', folderChild s request.parent i = some a ∧
        request.names (s.table request.parent i) = true ∧
        deleteFolderRec s request = .ok (0, s') ∧ Pruned s s' request.parent i := by
  have heq := deleteFolderRec_eq hw.directories hp
  cases hfind : (slotsFrom 2).find? fun i => (s.table request.parent i).live &&
      request.names (s.table request.parent i) with
  | none => exact .inl ⟨2, by rw [heq, hfind]⟩
  | some i =>
    obtain ⟨hslot, hn⟩ := liveSlot_of_find hfind
    rcases hslot.kind with hf | hf
    · exact .inl ⟨1, by simp [heq, hfind, hf.2]⟩
    · obtain ⟨s', hs, hpr⟩ := deleteFolderRec_folder hw hp hf hn
      exact .inr ⟨i, _, s', hf, hn, hs, hpr⟩

end Doors.Fat32
