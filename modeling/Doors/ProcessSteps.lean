import Doors.Process

/-! What each kernel function can do, once for each: creation, destruction, and the
choice of the scheduler. -/

namespace Doors.Kernel

open Fat32 (FAT32DriverRequest)

/-- The paging state after a new directory was filled and the old one loaded again. -/
def loadedPaging (p : PagingState) (d : Fin pagingDirectoryTableMaxCount)
    (request : FAT32DriverRequest UInt32) : PagingState :=
  pagingUsePageDirectory
    (allocatePages d request.buf (requiredPageFrames request.bufferSize).toNat
      (pagingUsePageDirectory p (.slot d)))
    (pagingGetCurrentPageDirectoryAddr p)

/-- The checks before a directory is taken. -/
structure Admits (s : KernelState) (request : FAT32DriverRequest UInt32) : Prop where
  count : s.activeProcessCount.toNat < 16
  entrypoint : request.buf.toNat < 0xC0000000
  memory : (requiredPageFrames request.bufferSize).toNat ≤ s.paging.freePageFrameCount.toNat
  frames : (requiredPageFrames request.bufferSize).toNat ≤ 8

/-- The state with a new process in slot `i` on directory `d`. -/
def created (s : KernelState) (request : FAT32DriverRequest UInt32) (i : Fin processCountMax)
    (d : Fin pagingDirectoryTableMaxCount) (p : PagingState) : KernelState where
  paging := p
  processList := Function.update s.processList i (setupProcess (s.processList i) request d i)
  activeProcessCount := s.activeProcessCount + 1
  pidUsed := Function.update s.pidUsed i true

/-- The state without the process in slot `i`. -/
def destroyed (s : KernelState) (i : Fin processCountMax) (p : PagingState) : KernelState where
  paging := p
  processList := Function.update s.processList i .zero
  activeProcessCount := s.activeProcessCount - 1
  pidUsed := Function.update s.pidUsed i false

@[simp] theorem created_paging (s : KernelState) (request : FAT32DriverRequest UInt32)
    (i : Fin processCountMax) (d : Fin pagingDirectoryTableMaxCount) (p : PagingState) :
    (created s request i d p).paging = p := rfl

@[simp] theorem destroyed_paging (s : KernelState) (i : Fin processCountMax) (p : PagingState) :
    (destroyed s i p).paging = p := rfl

theorem createDirectory_eq (p : PagingState) :
    (pagingCreateNewPageDirectory p).1 = p.pageDirectoryUsed.firstClear := by
  unfold pagingCreateNewPageDirectory
  cases p.pageDirectoryUsed.firstClear <;> rfl

theorem create_eq (s : KernelState) (request : FAT32DriverRequest UInt32) (readCode : Int) :
    (¬ Admits s request ∨ s.paging.pageDirectoryUsed.firstClear = none) ∧
      (∃ result, result ≠ processCreateSuccess ∧
        processCreateUserProcess s request readCode = some (result, s)) ∨
    Admits s request ∧ ∃ d, s.paging.pageDirectoryUsed.firstClear = some d ∧
      processCreateUserProcess s request readCode =
        if readCode ≠ 0 then
          some (processCreateFailFsReadFailure,
            { s with paging := loadedPaging (pagingCreateNewPageDirectory s.paging).2 d request })
        else match processListGetInactiveIndex s with
          | none => none
          | some i => some (processCreateSuccess, created s request i d
              (loadedPaging (pagingCreateNewPageDirectory s.paging).2 d request)) := by
  by_cases hcount : s.activeProcessCount ≥ UInt32.ofNat processCountMax
  · refine .inl ⟨.inl fun h => ?_, processCreateFailMaxProcessExceeded, by decide,
      by rw [processCreateUserProcess, if_pos hcount]⟩
    have := h.count
    have hge : 16 ≤ s.activeProcessCount.toNat := hcount
    omega
  by_cases hentry : request.buf ≥ kernelVirtualAddressBase
  · refine .inl ⟨.inl fun h => ?_, processCreateFailInvalidEntrypoint, by decide,
      by rw [processCreateUserProcess, if_neg hcount, if_pos hentry]⟩
    have := h.entrypoint
    have hge : 0xC0000000 ≤ request.buf.toNat := hentry
    omega
  by_cases hmem : !pagingAllocateCheck s.paging request.bufferSize ∨
      requiredPageFrames request.bufferSize > UInt32.ofNat processPageFrameCountMax
  · refine .inl ⟨.inl fun h => ?_, processCreateFailNotEnoughMemory, by decide,
      by rw [processCreateUserProcess, if_neg hcount, if_neg hentry, if_pos hmem]⟩
    rcases hmem with hm | hm
    · have hle : requiredPageFrames request.bufferSize ≤ s.paging.freePageFrameCount := h.memory
      simp [pagingAllocateCheck, hle] at hm
    · have := h.frames
      have hgt : 8 < (requiredPageFrames request.bufferSize).toNat := hm
      omega
  cases hd : s.paging.pageDirectoryUsed.firstClear with
  | none =>
    refine .inl ⟨.inr rfl, processCreateFailNotEnoughMemory, by decide, ?_⟩
    rw [processCreateUserProcess, if_neg hcount, if_neg hentry, if_neg hmem]
    simp only [pagingCreateNewPageDirectory, hd]
  | some d =>
    have hadmits : Admits s request := by
      rw [not_or] at hmem
      have hm : requiredPageFrames request.bufferSize ≤ s.paging.freePageFrameCount := by
        simpa [pagingAllocateCheck] using hmem.1
      refine ⟨?_, ?_, hm, ?_⟩
      · exact Nat.lt_of_not_le hcount
      · exact Nat.lt_of_not_le hentry
      · exact Nat.le_of_not_lt hmem.2
    refine .inr ⟨hadmits, d, rfl, ?_⟩
    rw [processCreateUserProcess, if_neg hcount, if_neg hentry, if_neg hmem]
    have hpair : pagingCreateNewPageDirectory s.paging =
        (some d, (pagingCreateNewPageDirectory s.paging).2) :=
      Prod.ext ((createDirectory_eq s.paging).trans hd) rfl
    rw [hpair]
    rfl

theorem running_some {s : KernelState} {i : Fin processCountMax}
    (h : processGetCurrentRunningPcbPointer s = some i) :
    s.pidUsed i = true ∧ (s.processList i).metadata.state = .running := by
  have hh := List.find?_some h
  simpa using hh

theorem running_none {s : KernelState} (h : processGetCurrentRunningPcbPointer s = none)
    {i : Fin processCountMax} (hu : s.pidUsed i = true) :
    (s.processList i).metadata.state ≠ .running := by
  have hh := List.find?_eq_none.mp h i (List.mem_finRange i)
  simpa [hu] using hh

theorem destroy_unused {s : KernelState} {pid : UInt32}
    (h : ∀ i : Fin processCountMax, i.val = pid.toNat → s.pidUsed i = false) :
    processDestroy s pid = (false, s) := by
  by_cases hlt : pid.toNat < processCountMax
  · have hu := h ⟨pid.toNat, hlt⟩ rfl
    simp [processDestroy, hlt, hu]
  · simp [processDestroy, hlt]

theorem destroy_used {s : KernelState} {pid : UInt32} {i : Fin processCountMax}
    {d : Fin pagingDirectoryTableMaxCount} (hi : i.val = pid.toNat) (hu : s.pidUsed i = true)
    (hd : (s.processList i).context.pageDirectoryVirtualAddr = .slot d) :
    processDestroy s pid =
      (true, destroyed s i (pagingFreePageDirectory s.paging (.slot d)).2) := by
  have hlt : pid.toNat < processCountMax := hi ▸ i.isLt
  have heq : (⟨pid.toNat, hlt⟩ : Fin processCountMax) = i := Fin.ext hi.symm
  simp only [processDestroy, hlt, dif_pos, heq, hu, KernelState.setState, KernelState.setProcess,
    Function.update_self, withState_context, hd, Function.update_idem, destroyed]
  rfl

section Scheduler

/-- The slot can be dispatched. -/
def Dispatchable (s : KernelState) (i : Fin processCountMax) : Prop :=
  (s.processList i).metadata.state = .ready ∨ (s.processList i).metadata.state = .running

instance (s : KernelState) (i : Fin processCountMax) : Decidable (Dispatchable s i) :=
  inferInstanceAs (Decidable (_ ∨ _))

/-- A process table over which the scheduler finds a process. -/
structure Schedulable (s : KernelState) : Prop where
  pid_eq : ∀ i, s.pidUsed i = true → (s.processList i).metadata.pid = UInt32.ofNat i
  used : ∀ i, Dispatchable s i → s.pidUsed i = true
  running_unique : ∀ i j, (s.processList i).metadata.state = .running →
    (s.processList j).metadata.state = .running → i = j
  runnable : ∃ i, Dispatchable s i

/-- The slot where the search of the scheduler starts. -/
def turnStart (s : KernelState) : Fin processCountMax :=
  match processGetCurrentRunningPcbPointer s with
  | none => 0
  | some i => i + 1

/-- The state in which the scheduler searches: the running process was made ready. -/
def released (s : KernelState) : KernelState where
  paging := s.paging
  processList j := (s.processList j).withState
    (if (s.processList j).metadata.state = .running then .ready
      else (s.processList j).metadata.state)
  activeProcessCount := s.activeProcessCount
  pidUsed := s.pidUsed

theorem released_ready (s : KernelState) (j : Fin processCountMax) :
    ((released s).processList j).metadata.state = .ready ↔ Dispatchable s j := by
  simp only [Dispatchable, released, withState_state]
  cases (s.processList j).metadata.state <;> decide

theorem succ_slot (i : Fin processCountMax) :
    Fin.ofNat processCountMax (UInt32.ofNat i + 1).toNat = i + 1 := by
  revert i
  decide

theorem switch_eq {s : KernelState} (h : Schedulable s) {next : Fin processCountMax}
    (hnext : nextReady (released s) processCountMax (turnStart s) = next) :
    schedulerSwitchToNextProcess s = (next, (s.processList next).context,
      { (released s).setState next .running with
        paging := pagingUsePageDirectory s.paging
          (s.processList next).context.pageDirectoryVirtualAddr }) := by
  cases hr : processGetCurrentRunningPcbPointer s with
  | none =>
    have hsame : released s = s := by
      have hlist : (released s).processList = s.processList := by
        funext j
        have hne : (s.processList j).metadata.state ≠ .running :=
          fun he => running_none hr (h.used j (.inr he)) he
        simp only [released, if_neg hne]
        rfl
      exact congrArg (fun list => { s with processList := list }) hlist
    rw [hsame] at hnext ⊢
    rw [turnStart, hr] at hnext
    simp only at hnext
    simp [schedulerSwitchToNextProcess, hr, KernelState.setState, KernelState.setProcess, hnext]
  | some i =>
    obtain ⟨hu, hi⟩ := running_some hr
    have hsame : s.setState i .ready = released s := by
      have hlist : (s.setState i .ready).processList = (released s).processList := by
        funext j
        by_cases hj : j = i
        · subst hj
          simp only [released, if_pos hi]
          exact Function.update_self _ _ _
        · have hne : (s.processList j).metadata.state ≠ .running :=
            fun he => hj (h.running_unique j i he hi)
          simp only [released, if_neg hne]
          exact Function.update_of_ne hj _ _
      exact congrArg (fun list => { s with processList := list }) hlist
    rw [turnStart, hr] at hnext
    simp only at hnext
    simp only [schedulerSwitchToNextProcess, hr, h.pid_eq i hu, succ_slot, hsame, hnext]
    simp only [KernelState.setState, KernelState.setProcess, Function.update_self, released,
      withState_context]

end Scheduler

theorem cyclic_step {a b cnt : Nat} (ha : a < 16) (hb : b < 16) (hne : a ≠ b)
    (h : (a + 16 - b) % 16 < cnt + 1) : (a + 16 - (b + 1) % 16) % 16 < cnt := by
  by_cases hl : b = 15
  · subst hl
    omega
  · rw [Nat.mod_eq_of_lt (show b + 1 < 16 by omega)]
    omega

/-- Either a ready slot is found or the slots passed are not ready. -/
theorem nextReady_cases (s : KernelState) (cnt : Nat) (idx : Fin processCountMax) :
    (s.processList (nextReady s cnt idx)).metadata.state = .ready ∨
      ∀ j : Fin processCountMax, (j.val + 16 - idx.val) % 16 < cnt →
        (s.processList j).metadata.state ≠ .ready := by
  induction cnt generalizing idx with
  | zero => exact .inr fun j hj => absurd hj (Nat.not_lt_zero _)
  | succ cnt ih =>
    by_cases hr : (s.processList idx).metadata.state = .ready
    · rw [nextReady, if_pos hr]
      exact .inl hr
    · rw [nextReady, if_neg hr]
      refine (ih (idx + 1)).imp_right fun h j hj => ?_
      by_cases he : j = idx
      · rw [he]
        exact hr
      · have hadd : (idx + 1).val = (idx.val + 1) % 16 := Fin.val_add idx 1
        refine h j ?_
        rw [hadd]
        exact cyclic_step j.isLt idx.isLt (fun hv => he (Fin.ext hv)) hj

theorem nextReady_ready {s : KernelState} {j : Fin processCountMax}
    (h : (s.processList j).metadata.state = .ready) (idx : Fin processCountMax) :
    (s.processList (nextReady s processCountMax idx)).metadata.state = .ready :=
  (nextReady_cases s processCountMax idx).resolve_right fun hn =>
    hn j (Nat.mod_lt _ (by decide)) h

end Doors.Kernel
