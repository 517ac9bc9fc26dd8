import Doors.ProcessTable
import Doors.Run

/-! The outcomes of a kernel step over a process table, and the table in every state
of a run. -/

namespace Doors.Kernel

open Fat32 (FAT32DriverRequest)

/-- What a dispatch of `pid` does. -/
structure Dispatched (s s' : KernelState) (pid : Fin processCountMax) (ctx : Context) : Prop where
  used : s.pidUsed pid = true
  ctx_eq : ctx = (s.processList pid).context
  pidUsed_eq : s'.pidUsed = s.pidUsed
  count_eq : s'.activeProcessCount = s.activeProcessCount
  paging_eq : s'.paging = pagingUsePageDirectory s.paging ctx.pageDirectoryVirtualAddr
  process_eq : ∀ j, s'.processList j = (s.processList j).withState
    (if j = pid then .running
      else if (s.processList j).metadata.state = .running then .ready
      else (s.processList j).metadata.state)

theorem ProcessTable.schedulable {s : KernelState} (h : ProcessTable s) (hlive : s.HasLive) :
    Schedulable s where
  pid_eq := h.pid_eq
  used i hi := by
    by_contra hu
    rw [Bool.not_eq_true] at hu
    rw [Dispatchable, h.unused_zero i hu] at hi
    exact absurd hi (by decide)
  running_unique := h.running_unique
  runnable := by
    obtain ⟨i, hi⟩ := hlive
    exact ⟨i, h.state i hi⟩

theorem Schedulable.dispatched {s s' : KernelState} (h : Schedulable s)
    {pid : Fin processCountMax} {ctx : Context}
    (hs : schedulerSwitchToNextProcess s = (pid, ctx, s')) : Dispatched s s' pid ctx := by
  obtain ⟨k, hk⟩ := h.runnable
  have hready := nextReady_ready ((released_ready s k).mpr hk) (turnStart s)
  rw [switch_eq h rfl] at hs
  simp only [Prod.mk.injEq] at hs
  obtain ⟨hpid, rfl, rfl⟩ := hs
  rw [hpid] at hready ⊢
  exact {
    used := h.used pid ((released_ready s pid).mp hready)
    ctx_eq := rfl
    pidUsed_eq := rfl
    count_eq := rfl
    paging_eq := rfl
    process_eq := by
      intro j
      by_cases hj : j = pid
      · subst hj
        rw [if_pos rfl]
        exact Function.update_self _ _ _
      · rw [if_neg hj]
        exact Function.update_of_ne hj _ _ }

theorem switch_dispatched {s s' : KernelState} (h : ProcessTable s) (hlive : s.HasLive)
    {pid : Fin processCountMax} {ctx : Context}
    (hs : schedulerSwitchToNextProcess s = (pid, ctx, s')) : Dispatched s s' pid ctx :=
  (h.schedulable hlive).dispatched hs

namespace Dispatched

variable {s s' : KernelState} {pid : Fin processCountMax} {ctx : Context}

theorem context_eq (hd : Dispatched s s' pid ctx) (j : Fin processCountMax) :
    (s'.processList j).context = (s.processList j).context := by
  rw [hd.process_eq, withState_context]

theorem running_iff (hd : Dispatched s s' pid ctx) (j : Fin processCountMax) :
    (s'.processList j).metadata.state = .running ↔ j = pid := by
  rw [hd.process_eq, withState_state]
  by_cases hj : j = pid
  · simp [hj]
  · by_cases hr : (s.processList j).metadata.state = .running
    · simp [hj, hr]
    · simp [hj, hr]

theorem processTable (hd : Dispatched s s' pid ctx) (h : ProcessTable s) : ProcessTable s' where
  count := by
    rw [hd.count_eq, hd.pidUsed_eq]
    exact h.count
  pid_eq j hu := by
    rw [hd.pidUsed_eq] at hu
    rw [hd.process_eq, withState_pid]
    exact h.pid_eq j hu
  state j hu := by
    rw [hd.pidUsed_eq] at hu
    rw [hd.process_eq, withState_state]
    by_cases hj : j = pid
    · exact .inr (if_pos hj)
    · rw [if_neg hj]
      rcases h.state j hu with hr | hr
      · simp [hr]
      · simp [hr]
  directory j hu := by
    rw [hd.pidUsed_eq] at hu
    rw [hd.context_eq, hd.paging_eq]
    exact h.directory j hu
  directory_unique j k hj hk he := by
    rw [hd.pidUsed_eq] at hj hk
    rw [hd.context_eq, hd.context_eq] at he
    exact h.directory_unique j k hj hk he
  unused_zero j hu := by
    rw [hd.pidUsed_eq] at hu
    have hne : j ≠ pid := by
      rintro rfl
      rw [hd.used] at hu
      exact absurd hu (by decide)
    rw [hd.process_eq, h.unused_zero j hu, if_neg hne]
    rfl
  running_unique j k hj hk := by
    rw [(hd.running_iff j).mp hj, (hd.running_iff k).mp hk]

end Dispatched

section Save

variable (s : KernelState) (ctx : Context)

theorem save_pidUsed : (schedulerSaveContextToCurrentRunningPcb s ctx).pidUsed = s.pidUsed := by
  unfold schedulerSaveContextToCurrentRunningPcb
  cases processGetCurrentRunningPcbPointer s <;> rfl

theorem save_paging : (schedulerSaveContextToCurrentRunningPcb s ctx).paging = s.paging := by
  unfold schedulerSaveContextToCurrentRunningPcb
  cases processGetCurrentRunningPcbPointer s <;> rfl

theorem save_count :
    (schedulerSaveContextToCurrentRunningPcb s ctx).activeProcessCount = s.activeProcessCount := by
  unfold schedulerSaveContextToCurrentRunningPcb
  cases processGetCurrentRunningPcbPointer s <;> rfl

theorem save_of_ne {j : Fin processCountMax} (hj : processGetCurrentRunningPcbPointer s ≠ some j) :
    (schedulerSaveContextToCurrentRunningPcb s ctx).processList j = s.processList j := by
  unfold schedulerSaveContextToCurrentRunningPcb
  cases hr : processGetCurrentRunningPcbPointer s with
  | none => rfl
  | some i =>
    have hne : j ≠ i := by
      rintro rfl
      exact hj hr
    exact Function.update_of_ne hne _ _

theorem save_running {i : Fin processCountMax} (hr : processGetCurrentRunningPcbPointer s = some i) :
    (schedulerSaveContextToCurrentRunningPcb s ctx).processList i = { s.processList i with
      context := { (s.processList i).context with
        cpu := ctx.cpu, eip := ctx.eip, eflags := ctx.eflags } } := by
  simp only [schedulerSaveContextToCurrentRunningPcb, hr, KernelState.setProcess,
    Function.update_self]

theorem save_metadata (j : Fin processCountMax) :
    ((schedulerSaveContextToCurrentRunningPcb s ctx).processList j).metadata =
      (s.processList j).metadata := by
  by_cases hr : processGetCurrentRunningPcbPointer s = some j
  · rw [save_running s ctx hr]
  · rw [save_of_ne s ctx hr]

theorem save_directory (j : Fin processCountMax) :
    ((schedulerSaveContextToCurrentRunningPcb s ctx).processList j).context.pageDirectoryVirtualAddr =
      (s.processList j).context.pageDirectoryVirtualAddr := by
  by_cases hr : processGetCurrentRunningPcbPointer s = some j
  · rw [save_running s ctx hr]
  · rw [save_of_ne s ctx hr]

end Save

/-- What one step can do to a process table. -/
inductive Outcome (s : KernelState) : Event → KernelState → Prop
  | refused {request : FAT32DriverRequest UInt32} {readCode result : Int}
      {pid : Option (Fin processCountMax)} {pageDir : Option (Fin pagingDirectoryTableMaxCount)} :
    result ≠ processCreateSuccess → Outcome s (.create request readCode result pid pageDir) s
  | unread {request : FAT32DriverRequest UInt32} {readCode : Int}
      {pid : Option (Fin processCountMax)} {d : Fin pagingDirectoryTableMaxCount} :
    Admits s request → s.paging.pageDirectoryUsed.firstClear = some d →
    Outcome s (.create request readCode processCreateFailFsReadFailure pid (some d))
      { s with paging := loadedPaging (pagingCreateNewPageDirectory s.paging).2 d request }
  | created {request : FAT32DriverRequest UInt32} {readCode : Int} {i : Fin processCountMax}
      {d : Fin pagingDirectoryTableMaxCount} :
    Admits s request → readCode = 0 → s.paging.pageDirectoryUsed.firstClear = some d →
    processListGetInactiveIndex s = some i →
    Outcome s (.create request readCode processCreateSuccess (some i) (some d))
      (created s request i d (loadedPaging (pagingCreateNewPageDirectory s.paging).2 d request))
  | kept {pid : UInt32} :
    (∀ i : Fin processCountMax, i.val = pid.toNat → s.pidUsed i = false) →
    Outcome s (.destroy pid false) s
  | destroyed {pid : UInt32} {i : Fin processCountMax} {d : Fin pagingDirectoryTableMaxCount} :
    i.val = pid.toNat → s.pidUsed i = true →
    (s.processList i).context.pageDirectoryVirtualAddr = .slot d →
    Outcome s (.destroy pid true) (destroyed s i (pagingFreePageDirectory s.paging (.slot d)).2)
  | idle : processGetCurrentRunningPcbPointer s = none → Outcome s .exit s
  | exited {i : Fin processCountMax} {d : Fin pagingDirectoryTableMaxCount} :
    processGetCurrentRunningPcbPointer s = some i →
    (s.processList i).context.pageDirectoryVirtualAddr = .slot d →
    Outcome s .exit (destroyed s i (pagingFreePageDirectory s.paging (.slot d)).2)
  | dispatched {pid : Fin processCountMax} {ctx : Context} {s' : KernelState} :
    Dispatched s s' pid ctx → Outcome s (.dispatch pid ctx) s'
  | timer {frame : InterruptFrame} {pid : Fin processCountMax} {ctx : Context} {s' : KernelState} :
    Dispatched (schedulerSaveContextToCurrentRunningPcb s
      ⟨frame.cpu, frame.eip, frame.eflags, .wild⟩) s' pid ctx →
    Outcome s (.timer frame pid ctx) s'

namespace ProcessTable

variable {s : KernelState}

/-- Creation never stores below the process list. -/
theorem create_ne_none (h : ProcessTable s) (request : FAT32DriverRequest UInt32) (readCode : Int) :
    processCreateUserProcess s request readCode ≠ none := by
  rcases create_eq s request readCode with ⟨-, result, -, he⟩ | ⟨hadmits, d, -, he⟩
  · rw [he]
    exact Option.some_ne_none _
  · obtain ⟨i, hi⟩ := h.inactive_index hadmits.count
    rw [he, hi]
    by_cases hc : readCode ≠ 0
    · rw [if_pos hc]
      exact Option.some_ne_none _
    · rw [if_neg hc]
      exact Option.some_ne_none _

theorem destroy_outcome (h : ProcessTable s) (pid : UInt32) :
    (∀ i : Fin processCountMax, i.val = pid.toNat → s.pidUsed i = false) ∧
      processDestroy s pid = (false, s) ∨
    ∃ i d, i.val = pid.toNat ∧ s.pidUsed i = true ∧
      (s.processList i).context.pageDirectoryVirtualAddr = .slot d ∧
      processDestroy s pid =
        (true, Kernel.destroyed s i (pagingFreePageDirectory s.paging (.slot d)).2) := by
  by_cases hu : ∃ i : Fin processCountMax, i.val = pid.toNat ∧ s.pidUsed i = true
  · obtain ⟨i, hi, hu⟩ := hu
    obtain ⟨d, hd, -⟩ := h.directory i hu
    exact .inr ⟨i, d, hi, hu, hd, destroy_used hi hu hd⟩
  · have hfree : ∀ i : Fin processCountMax, i.val = pid.toNat → s.pidUsed i = false := by
      intro i hi
      by_contra hne
      exact hu ⟨i, hi, by simpa using hne⟩
    exact .inl ⟨hfree, destroy_unused hfree⟩

theorem exit_outcome (h : ProcessTable s) : Outcome s .exit (processExit s) := by
  unfold processExit
  cases hr : processGetCurrentRunningPcbPointer s with
  | none => exact .idle hr
  | some i =>
    have hu := (running_some hr).1
    obtain ⟨d, hd, -⟩ := h.directory i hu
    have hi : i.val = (s.processList i).metadata.pid.toNat := by
      have hlt : i.val < 16 := i.isLt
      rw [h.pid_eq i hu, UInt32.toNat_ofNat']
      omega
    simp only [destroy_used hi hu hd]
    exact .exited hr hd

theorem saved (h : ProcessTable s) (ctx : Context) :
    ProcessTable (schedulerSaveContextToCurrentRunningPcb s ctx) where
  count := by
    rw [save_count, save_pidUsed]
    exact h.count
  pid_eq j hj := by
    rw [save_pidUsed] at hj
    rw [save_metadata]
    exact h.pid_eq j hj
  state j hj := by
    rw [save_pidUsed] at hj
    rw [save_metadata]
    exact h.state j hj
  directory j hj := by
    rw [save_pidUsed] at hj
    rw [save_directory, save_paging]
    exact h.directory j hj
  directory_unique j k hj hk he := by
    rw [save_pidUsed] at hj hk
    rw [save_directory, save_directory] at he
    exact h.directory_unique j k hj hk he
  unused_zero j hj := by
    rw [save_pidUsed] at hj
    have hne : processGetCurrentRunningPcbPointer s ≠ some j := by
      intro hr
      rw [(running_some hr).1] at hj
      exact absurd hj (by decide)
    rw [save_of_ne s ctx hne]
    exact h.unused_zero j hj
  running_unique j k hj hk := by
    rw [save_metadata] at hj hk
    exact h.running_unique j k hj hk

theorem step_outcome (h : ProcessTable s) {e : Event} {s' : KernelState} (hs : KernelStep s e s') :
    Outcome s e s' := by
  cases hs with
  | @create request readCode result _ hc =>
    rcases create_eq s request readCode with ⟨-, result', hne, he⟩ | ⟨hadmits, d, hd, he⟩
    · rw [he] at hc
      obtain ⟨rfl, rfl⟩ := Prod.mk.inj (Option.some.inj hc)
      exact .refused hne
    · obtain ⟨i, hi⟩ := h.inactive_index hadmits.count
      rw [he, hi] at hc
      rw [createDirectory_eq, hd]
      by_cases hcode : readCode ≠ 0
      · rw [if_pos hcode] at hc
        obtain ⟨rfl, rfl⟩ := Prod.mk.inj (Option.some.inj hc)
        exact .unread hadmits hd
      · rw [if_neg hcode] at hc
        obtain ⟨rfl, rfl⟩ := Prod.mk.inj (Option.some.inj hc)
        rw [hi]
        exact .created hadmits (not_not.mp hcode) hd hi
  | @destroy pid _ _ hd =>
    rcases h.destroy_outcome pid with ⟨hfree, he⟩ | ⟨i, d, hi, hu, hdir, he⟩
    · rw [he] at hd
      obtain ⟨rfl, rfl⟩ := Prod.mk.inj hd
      exact .kept hfree
    · rw [he] at hd
      obtain ⟨rfl, rfl⟩ := Prod.mk.inj hd
      exact .destroyed hi hu hdir
  | exit => exact h.exit_outcome
  | dispatch hlive hd => exact .dispatched (switch_dispatched h hlive hd)
  | @timer frame _ _ _ hlive hd =>
    have hlive' : (schedulerSaveContextToCurrentRunningPcb s
        ⟨frame.cpu, frame.eip, frame.eflags, .wild⟩).HasLive := by
      rw [KernelState.HasLive, save_pidUsed]
      exact hlive
    exact .timer (switch_dispatched (h.saved _) hlive' hd)

end ProcessTable

theorem Outcome.processTable {s s' : KernelState} {e : Event} (ho : Outcome s e s')
    (h : ProcessTable s) : ProcessTable s' := by
  cases ho with
  | refused => exact h
  | @unread _ _ _ d _ hd =>
    apply h.withPaging
    intro d' hused
    rw [loadedPaging_used, createDirectory_used hd]
    by_cases hd' : d' = d
    · rw [hd', Function.update_self]
    · rw [Function.update_of_ne hd']
      exact hused
  | created _ _ hd hi =>
    apply h.created hi (Bitmap.firstClear_some hd)
    rw [loadedPaging_used, createDirectory_used hd]
  | kept => exact h
  | destroyed _ hu hd => exact h.destroyed hu hd freeDirectory_used
  | idle => exact h
  | exited hr hd => exact h.destroyed (running_some hr).1 hd freeDirectory_used
  | dispatched hd => exact hd.processTable h
  | timer hd => exact hd.processTable (h.saved _)

/-- The event asks for the end of process `i`. -/
def Event.Ends (s : KernelState) (i : Fin processCountMax) : Event → Prop
  | .destroy pid _ => i.val = pid.toNat
  | .exit => processGetCurrentRunningPcbPointer s = some i
  | _ => False

/-- What one step can do to the directories and the frames. -/
inductive PagingOutcome (s : KernelState) (e : Event) (p : PagingState) : Prop
  | kept (c : PageDirectoryPtr) : p = pagingUsePageDirectory s.paging c → PagingOutcome s e p
  | loaded {request : FAT32DriverRequest UInt32} {readCode result : Int}
      {pid : Option (Fin processCountMax)} {d : Fin pagingDirectoryTableMaxCount} :
    e = .create request readCode result pid (some d) → Admits s request →
    s.paging.pageDirectoryUsed.firstClear = some d →
    p = loadedPaging (pagingCreateNewPageDirectory s.paging).2 d request → PagingOutcome s e p
  | freed {i : Fin processCountMax} {d : Fin pagingDirectoryTableMaxCount} :
    e.Ends s i → s.pidUsed i = true →
    (s.processList i).context.pageDirectoryVirtualAddr = .slot d →
    p = (pagingFreePageDirectory s.paging (.slot d)).2 → PagingOutcome s e p

theorem Outcome.paging {s s' : KernelState} {e : Event} (ho : Outcome s e s') :
    PagingOutcome s e s'.paging := by
  cases ho with
  | refused => exact .kept s.paging.cr3 rfl
  | unread ha hd => exact .loaded rfl ha hd rfl
  | created ha _ hd => exact .loaded rfl ha hd (created_paging _ _ _ _ _)
  | kept => exact .kept s.paging.cr3 rfl
  | destroyed hi hu hd => exact .freed hi hu hd (destroyed_paging _ _ _)
  | idle => exact .kept s.paging.cr3 rfl
  | exited hr hd => exact .freed hr (running_some hr).1 hd (destroyed_paging _ _ _)
  | dispatched hd => exact .kept _ hd.paging_eq
  | timer hd => exact .kept _ (hd.paging_eq.trans (by rw [save_paging]))

theorem processTable_of_run {es : List Event} {s : KernelState}
    (h : Run KernelStep .boot es s) : ProcessTable s :=
  h.invariant (fun _ _ _ ht hs => (ht.step_outcome hs).processTable ht) boot_processTable

theorem ProcessTable.processList_increasing {s : KernelState} (h : ProcessTable s) :
    (getProcessList s).Pairwise fun m m' => m.pid < m'.pid := by
  unfold getProcessList
  rw [List.pairwise_map]
  have hsorted := (List.pairwise_lt_finRange processCountMax).filter fun i => s.pidUsed i
  apply hsorted.imp_of_mem
  intro i j hi hj hlt
  rw [List.mem_filter] at hi hj
  have hjlt : j.val < 16 := j.isLt
  rw [h.pid_eq i hi.2, h.pid_eq j hj.2, UInt32.lt_iff_toNat_lt, UInt32.toNat_ofNat',
    UInt32.toNat_ofNat']
  omega

theorem mem_getProcessList {s : KernelState} {m : ProcessMetadata} :
    m ∈ getProcessList s ↔ ∃ i, s.pidUsed i = true ∧ m = (s.processList i).metadata := by
  simp only [getProcessList, List.mem_map, List.mem_filter, List.mem_finRange, true_and]
  constructor
  · rintro ⟨i, hu, rfl⟩
    exact ⟨i, hu, rfl⟩
  · rintro ⟨i, hu, rfl⟩
    exact ⟨i, hu, rfl⟩

/-- The state after the first creation. -/
def firstCreated (request : FAT32DriverRequest UInt32) : KernelState :=
  created .boot request 0 0
    (loadedPaging (pagingCreateNewPageDirectory KernelState.boot.paging).2 0 request)

theorem boot_directory : KernelState.boot.paging.pageDirectoryUsed.firstClear = some 0 := by
  decide

theorem create_step {s : KernelState} {request : FAT32DriverRequest UInt32}
    {i : Fin processCountMax} {d : Fin pagingDirectoryTableMaxCount} (ha : Admits s request)
    (hd : s.paging.pageDirectoryUsed.firstClear = some d)
    (hi : processListGetInactiveIndex s = some i) :
    KernelStep s (.create request 0 processCreateSuccess (some i) (some d))
      (created s request i d
        (loadedPaging (pagingCreateNewPageDirectory s.paging).2 d request)) := by
  rcases create_eq s request 0 with ⟨hno | hno, -⟩ | ⟨-, d', hd', hcreate⟩
  · exact absurd ha hno
  · simp [hd] at hno
  · rw [if_neg (by decide), hi] at hcreate
    obtain rfl := Option.some.inj (hd.symm.trans hd')
    have hstep := KernelStep.create hcreate
    rwa [hi, createDirectory_eq, hd] at hstep

theorem boot_create {request : FAT32DriverRequest UInt32} (ha : Admits .boot request) :
    KernelStep .boot (.create request 0 processCreateSuccess (some 0) (some 0))
      (firstCreated request) :=
  create_step ha boot_directory (by decide)

theorem firstCreated_used (request : FAT32DriverRequest UInt32) :
    (firstCreated request).pidUsed 0 = true := by
  simp [firstCreated, created]

theorem firstCreated_directory (request : FAT32DriverRequest UInt32) :
    ((firstCreated request).processList 0).context.pageDirectoryVirtualAddr = .slot 0 := by
  simp [firstCreated, created, setupProcess]

theorem firstCreated_kill (request : FAT32DriverRequest UInt32) :
    KernelStep (firstCreated request) (.destroy 0 true) (destroyed (firstCreated request) 0
      (pagingFreePageDirectory (firstCreated request).paging (.slot 0)).2) :=
  .destroy (destroy_used rfl (firstCreated_used request) (firstCreated_directory request))

theorem shell_admitted : Admits .boot shellRequest :=
  ⟨by decide, by decide, by decide, by decide⟩

theorem dispatch_step {s : KernelState} (h : ProcessTable s) (hlive : s.HasLive) :
    ∃ pid ctx s', KernelStep s (.dispatch pid ctx) s' ∧ Dispatched s s' pid ctx ∧
      (schedulerSwitchToNextProcess s).1 = pid := by
  obtain ⟨⟨pid, ctx, s'⟩, hs⟩ := Exists.intro _ (Eq.refl (schedulerSwitchToNextProcess s))
  exact ⟨pid, ctx, s', .dispatch hlive hs, switch_dispatched h hlive hs, congrArg Prod.fst hs⟩

theorem shell_dispatch : ∃ s ctx, KernelStep (firstCreated shellRequest) (.dispatch 0 ctx) s ∧
    Dispatched (firstCreated shellRequest) s 0 ctx := by
  have htable := (boot_processTable.step_outcome (boot_create shell_admitted)).processTable
    boot_processTable
  obtain ⟨pid, ctx, s, hs, hd, hpid⟩ := dispatch_step htable ⟨0, firstCreated_used _⟩
  obtain rfl : 0 = pid := hpid ▸ (by decide +kernel)
  exact ⟨s, ctx, hs, hd⟩

theorem shell_run : ∃ s ctx, Run KernelStep .boot
    [.create shellRequest 0 0 (some 0) (some 0), .dispatch 0 ctx] s ∧
      s.pidUsed = Function.update (fun _ => false) 0 true ∧
      (s.processList 0).metadata.state = .running := by
  obtain ⟨s, ctx, hs, hd⟩ := shell_dispatch
  exact ⟨s, ctx, .cons (boot_create shell_admitted) (.cons hs (.nil s)), hd.pidUsed_eq,
    (hd.running_iff 0).mpr rfl⟩

/-- The state after the shell was created a second time. -/
def secondCreated : KernelState :=
  created (firstCreated shellRequest) shellRequest 1 1
    (loadedPaging (pagingCreateNewPageDirectory (firstCreated shellRequest).paging).2 1
      shellRequest)

theorem second_admitted : Admits (firstCreated shellRequest) shellRequest :=
  ⟨by decide +kernel, by decide, by decide +kernel, by decide⟩

theorem second_directory :
    (firstCreated shellRequest).paging.pageDirectoryUsed.firstClear = some 1 := by
  decide +kernel

theorem second_create : KernelStep (firstCreated shellRequest)
    (.create shellRequest 0 processCreateSuccess (some 1) (some 1)) secondCreated :=
  create_step second_admitted second_directory (by decide +kernel)

/-- Of the two processes the first one runs. -/
theorem second_run : ∃ s ctx, Run KernelStep .boot
    [.create shellRequest 0 0 (some 0) (some 0), .create shellRequest 0 0 (some 1) (some 1)]
      secondCreated ∧ KernelStep secondCreated (.dispatch 0 ctx) s ∧
      Dispatched secondCreated s 0 ctx := by
  have hrun : Run KernelStep .boot [.create shellRequest 0 0 (some 0) (some 0),
      .create shellRequest 0 0 (some 1) (some 1)] secondCreated :=
    .cons (boot_create shell_admitted) (.cons second_create (.nil _))
  have htable := hrun.invariant (fun _ _ _ ht hs => (ht.step_outcome hs).processTable ht)
    boot_processTable
  obtain ⟨pid, ctx, s, hs, hd, hpid⟩ := dispatch_step htable ⟨0, by decide +kernel⟩
  obtain rfl : 0 = pid := hpid ▸ (by decide +kernel)
  exact ⟨s, ctx, hrun, hs, hd⟩

/-- The table holds in every state, and what the other functions rely on follows. -/
theorem run_processTable {es : List Event} {s : KernelState} (h : Run KernelStep .boot es s) :
    ProcessTable s ∧
      (∀ request readCode, processCreateUserProcess s request readCode ≠ none) ∧
      (∀ (pid : UInt32) (i : Fin processCountMax), i.val = pid.toNat → s.pidUsed i = true →
        (processDestroy s pid).1 = true) ∧
      (getProcessList s).Pairwise (fun m m' => m.pid < m'.pid) ∧
      ∀ m, m ∈ getProcessList s ↔ ∃ i, s.pidUsed i = true ∧ m = (s.processList i).metadata := by
  have ht := processTable_of_run h
  refine ⟨ht, ht.create_ne_none, ?_, ht.processList_increasing, fun m => mem_getProcessList⟩
  intro pid i hi hu
  rcases ht.destroy_outcome pid with ⟨hfree, -⟩ | ⟨j, d, -, -, -, he⟩
  · rw [hfree i hi] at hu
    exact absurd hu (by decide)
  · rw [he]

theorem run_processTable_shell : ∃ s ctx, Run KernelStep .boot
    [.create shellRequest 0 0 (some 0) (some 0), .dispatch 0 ctx] s ∧
      ProcessTable s ∧ (getProcessList s).Pairwise fun m m' => m.pid < m'.pid := by
  obtain ⟨s, ctx, h, -⟩ := shell_run
  have hh := run_processTable h
  exact ⟨s, ctx, h, hh.1, hh.2.2.2.1⟩

end Doors.Kernel
