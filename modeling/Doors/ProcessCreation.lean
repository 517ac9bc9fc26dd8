import Doors.KernelRuns

/-! Creation of a process that fails. The checks come before anything is taken, but a
failed read keeps the directory and the frames that were taken for the program. -/

namespace Doors.Kernel

open Fat32 (FAT32DriverRequest)

/-- Frames, directories in use, processes and CR3 are as before. -/
structure NoTrace (s s' : KernelState) : Prop where
  frames : s'.paging.pageFrameMap = s.paging.pageFrameMap
  free : s'.paging.freePageFrameCount = s.paging.freePageFrameCount
  used : s'.paging.pageDirectoryUsed = s.paging.pageDirectoryUsed
  entries : ∀ d, s.paging.pageDirectoryUsed d = true →
    s'.paging.pageDirectoryList d = s.paging.pageDirectoryList d
  pids : s'.pidUsed = s.pidUsed
  count : s'.activeProcessCount = s.activeProcessCount
  processes : s'.processList = s.processList
  cr3 : s'.paging.cr3 = s.paging.cr3

theorem NoTrace.refl (s : KernelState) : NoTrace s s :=
  ⟨rfl, rfl, rfl, fun _ _ => rfl, rfl, rfl, rfl, rfl⟩

/-- The checks are passed, a directory is free, and the program is not read. -/
def ReadFails (s : KernelState) (request : FAT32DriverRequest UInt32) (readCode : Int) : Prop :=
  Admits s request ∧ s.paging.pageDirectoryUsed.firstClear ≠ none ∧ readCode ≠ 0

section Failure

variable {s : KernelState} {request : FAT32DriverRequest UInt32} {readCode : Int}

/-- The directory of a program that is not read stays in use. -/
theorem ReadFails.leaks (h : ReadFails s request readCode) : ∃ d s',
    s.paging.pageDirectoryUsed d = false ∧
    processCreateUserProcess s request readCode = some (processCreateFailFsReadFailure, s') ∧
    s'.paging.pageDirectoryUsed = Function.update s.paging.pageDirectoryUsed d true := by
  obtain ⟨hadmits, hdir, hread⟩ := h
  rcases create_eq s request readCode with ⟨hrefused, -⟩ | ⟨-, d, hd, hcreate⟩
  · exact absurd hrefused (not_or.mpr ⟨not_not.mpr hadmits, hdir⟩)
  · rw [if_pos hread] at hcreate
    exact ⟨d, _, Bitmap.firstClear_some hd, hcreate, load_used hd⟩

theorem failed_early {result : Int} {s' : KernelState} (hread : ¬ ReadFails s request readCode)
    (h : processCreateUserProcess s request readCode = some (result, s'))
    (hresult : result ≠ processCreateSuccess) : s' = s := by
  rcases create_eq s request readCode with ⟨-, code, -, hcreate⟩ | ⟨hadmits, d, hd, hcreate⟩
  · rw [hcreate] at h
    cases h
    rfl
  · have hzero : readCode = 0 := by
      by_contra hne
      exact hread ⟨hadmits, by rw [hd]; exact Option.some_ne_none d, hne⟩
    rw [if_neg (not_not.mpr hzero)] at hcreate
    rw [hcreate] at h
    cases hi : processListGetInactiveIndex s with
    | none =>
      rw [hi] at h
      cases h
    | some i =>
      rw [hi] at h
      cases h
      exact absurd rfl hresult

theorem create_of_step {s' : KernelState} {result : Int} {pid : Option (Fin processCountMax)}
    {pageDir : Option (Fin pagingDirectoryTableMaxCount)}
    (h : KernelStep s (.create request readCode result pid pageDir) s') :
    processCreateUserProcess s request readCode = some (result, s') := by
  cases h with
  | create hcreate => exact hcreate

end Failure

/-- A failed creation leaves no trace just if it is not the read that fails. -/
theorem failed_creation_iff (s : KernelState) (request : FAT32DriverRequest UInt32)
    (readCode : Int) :
    (∀ result s', processCreateUserProcess s request readCode = some (result, s') →
      result ≠ processCreateSuccess → NoTrace s s') ↔ ¬ ReadFails s request readCode := by
  constructor
  · intro hall hfails
    obtain ⟨d, s', hfree, hcreate, hused⟩ := hfails.leaks
    have htrace := (hall _ s' hcreate (by decide)).used
    have hd := congrFun (hused.symm.trans htrace) d
    rw [Function.update_self, hfree] at hd
    cases hd
  · intro hread result s' h hresult
    rw [failed_early hread h hresult]
    exact .refl s

/-- A program that is not on the disk. -/
theorem failed_creation_trace : ∃ s', Run KernelStep .boot [] .boot ∧
    processCreateUserProcess .boot shellRequest 2 = some (processCreateFailFsReadFailure, s') ∧
    ¬ NoTrace .boot s' := by
  have hfails : ReadFails .boot shellRequest 2 :=
    ⟨shell_admitted, by rw [boot_directory]; exact Option.some_ne_none _, by decide⟩
  obtain ⟨d, s', hfree, hcreate, hused⟩ := hfails.leaks
  refine ⟨s', .nil _, hcreate, fun htrace => ?_⟩
  have hd := congrFun (hused.symm.trans htrace.used) d
  rw [Function.update_self, hfree] at hd
  cases hd

end Doors.Kernel
