import Doors.FatRuns

/-! The test `cluster_map[parent] == END_OF_FILE` at the head of every request. It
accepts the directories, but also cluster 1 and the last cluster of every file. -/

namespace Doors.Fat32

open PointerTree FileSystem

structure Unchanged (s s' : FileSystem) : Prop where
  clusterMap : s'.clusterMap = s.clusterMap
  disk : s'.disk = s.disk

/-- Every entry point answers with its error value and changes nothing. -/
structure Refuses (s : FileSystem) (request : Request) : Prop where
  readDirectory : ∃ s', readDirectory s request = .ok (-1, request.buf, s') ∧ Unchanged s s'
  read : ∃ s', read s request = .ok (-1, request.buf, s') ∧ Unchanged s s'
  write : ∃ s', write s request = .ok (2, s') ∧ Unchanged s s'
  delete : ∃ s', delete s request = .ok (-1, s') ∧ Unchanged s s'
  deleteFolderRec : ∃ s', deleteFolderRec s request = .ok (-1, s') ∧ Unchanged s s'
  searchFile : ∃ s', searchFile s request = .ok (-1, s') ∧ Unchanged s s'
  getClusterNumber : ∃ s', getClusterNumber s request = .ok (0, s') ∧ Unchanged s s'

/-- The cluster is the last one of a file in the tree. -/
def FileTail (s : FileSystem) (c : Nat) : Prop :=
  ∃ d i l, LiveDir s d ∧ FileSlot s d i ∧
    Walk s.next fatEndOfFile (s.table d i).clusterNumber l ∧ c ∈ l.getLast?

theorem FileTail.mark {s : FileSystem} {c : Nat} (h : FileTail s c) : s.next c = fatEndOfFile := by
  obtain ⟨d, i, l, -, -, hl, hc⟩ := h
  exact hl.getLast_next hc

/-- What carries the mark `END_OF_FILE` in a well-formed state. -/
theorem mark_iff {s : FileSystem} (hw : WellFormed s) {c : Nat} (hc : c < 512) :
    s.next c = fatEndOfFile ↔ LiveDir s c ∨ c = fatClusterNumber ∨ FileTail s c := by
  constructor
  · intro he
    by_cases h0 : c = 0
    · rw [h0, hw.reserved0] at he
      exact absurd he (by decide)
    · by_cases h1 : c = 1
      · exact .inr (.inl h1)
      · have hused : s.next c ≠ fatEmptyEntry := by
          rw [he]
          decide
        obtain ⟨o, ho⟩ := (hw.used_iff (by omega) hc).mp hused
        cases ho with
        | root => exact .inl reach_root
        | folder hd hf => exact .inl (hd.step hf)
        | file hd hf hl hm => exact .inr (.inr ⟨_, _, _, hd, hf, hl, hl.getLast_of_next hm he⟩)
  · rintro (h | rfl | h)
    · exact hw.dir_mark h
    · exact hw.reserved1
    · exact h.mark

theorem refuses_of_unmarked {s : FileSystem} {request : Request} (hp : request.parent < 512)
    (hm : s.next request.parent ≠ fatEndOfFile) : Refuses s request where
  readDirectory := ⟨s, s.withParent_refused hp hm _ _, rfl, rfl⟩
  read := ⟨s, s.withParent_refused hp hm _ _, rfl, rfl⟩
  write := ⟨s, s.withParent_refused hp hm _ _, rfl, rfl⟩
  delete := ⟨s, s.withParent_refused hp hm _ _, rfl, rfl⟩
  deleteFolderRec := ⟨s, s.withParent_refused hp hm _ _, rfl, rfl⟩
  searchFile := ⟨s, s.withParent_refused hp hm _ _, rfl, rfl⟩
  getClusterNumber := ⟨s, s.withParent_refused hp hm _ _, rfl, rfl⟩

theorem searchFileLoop_nonneg (s : FileSystem) (request : Request) (is : List (Fin entryCount))
    {code : Int} (hc : 0 ≤ code) : 0 ≤ searchFileLoop s request is code := by
  induction is generalizing code with
  | nil => exact hc
  | cons i is ih =>
    simp only [searchFileLoop]
    split_ifs
    · exact ih hc
    · exact Int.le_refl 0
    · exact ih (by omega)
    · exact ih hc

/-- `search_file` does not refuse a parent that carries the mark. -/
theorem not_refuses_of_marked {s : FileSystem} {request : Request} (hp : request.parent < 512)
    (hm : s.next request.parent = fatEndOfFile) : ¬ Refuses s request := by
  intro h
  obtain ⟨s', hs, -⟩ := h.searchFile
  rw [searchFile, s.withParent_accepted hp hm] at hs
  have hcode := searchFileLoop_nonneg (s.loadDir request.parent) request (slotsFrom 2)
    (show (0 : Int) ≤ 2 by decide)
  simp only [pure, Except.pure, Except.ok.injEq, Prod.mk.injEq] at hs
  omega

theorem not_refuses_outOfBounds {s : FileSystem} {request : Request}
    (hp : 512 ≤ request.parent) : ¬ Refuses s request := by
  intro h
  obtain ⟨s', hs, -⟩ := h.searchFile
  rw [searchFile, s.withParent_outOfBounds hp] at hs
  simp at hs

/-- A parent that is no directory is refused exactly when it is in range, not the table's
cluster and not the end of a file. -/
theorem refuses_iff {s : FileSystem} (hw : WellFormed s) (request : Request)
    (hp : ¬ LiveDir s request.parent) :
    Refuses s request ↔ request.parent < 512 ∧ request.parent ≠ fatClusterNumber ∧
      ¬ FileTail s request.parent := by
  constructor
  · intro h
    have hlt : request.parent < 512 := Nat.lt_of_not_le fun hle => not_refuses_outOfBounds hle h
    have hm : ¬ s.next request.parent = fatEndOfFile := fun he => not_refuses_of_marked hlt he h
    rw [mark_iff hw hlt, not_or, not_or] at hm
    exact ⟨hlt, hm.2⟩
  · rintro ⟨hlt, h1, ht⟩
    refine refuses_of_unmarked hlt fun he => ?_
    rcases (mark_iff hw hlt).mp he with h | h | h
    · exact hp h
    · exact h1 h
    · exact ht h

/-- On a new disk cluster 5 is free and refused. -/
theorem refuses_iff_free :
    Refuses (createFat32 (fun _ => 0) (boot zeroBytes))
      ⟨zeroBytes, fun _ => 0, fun _ => 0, 5, 0⟩ := by
  refine (refuses_iff (createFat32_wellFormed _ _) _ fun h => ?_).mpr
    ⟨show 5 < 512 by decide, show 5 ≠ 1 by decide, ?_⟩
  · exact absurd (createFat32_liveDir _ _ h) (show 5 ≠ 2 by decide)
  · rintro ⟨d, i, l, hd, hf, -⟩
    exact createFat32_liveSlot _ _ hd hf.1

/-- Cluster 1 is accepted as a parent. -/
theorem fat_cluster_accepted :
    ¬ ∀ (s : FileSystem) (request : Request), WellFormed s → ¬ LiveDir s request.parent →
      Refuses s request := by
  intro h
  have hw := createFat32_wellFormed (fun _ => 0) zeroBytes
  have hp : FAT32DriverRequest.parent (⟨zeroBytes, fun _ => 0, fun _ => 0, 1, 0⟩ : Request) < 512 :=
    show 1 < 512 by decide
  apply not_refuses_of_marked hp hw.reserved1
  apply h _ _ hw
  intro hd
  exact absurd (createFat32_liveDir _ _ hd) (show 1 ≠ 2 by decide)

end Doors.Fat32
