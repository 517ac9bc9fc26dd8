import Doors.KernelRuns

/-! The context of a process against the events so far, the newest first: what is
dispatched is the frame of its last interruption, on the directory of its creation. -/

namespace Doors.Kernel

open Fat32 (FAT32DriverRequest)

/-- The process dispatched last, unless it was destroyed since. -/
def runningIn : List Event → Option (Fin processCountMax)
  | [] => none
  | .create .. :: es => runningIn es
  | .destroy pid ok :: es =>
    if ok ∧ (runningIn es).map Fin.val = some pid.toNat then none else runningIn es
  | .exit :: _ => none
  | .dispatch pid _ :: _ => some pid
  | .timer _ pid _ :: _ => some pid

/-- The registers of a process that was never interrupted. -/
def creationFrame : InterruptFrame where
  cpu :=
    { edi := 0, esi := 0, ebp := 0, esp := pageFrameSize, ebx := 0, edx := 0, ecx := 0, eax := 0
      gs := gdtUserDataSegmentSelector, fs := gdtUserDataSegmentSelector
      es := gdtUserDataSegmentSelector, ds := gdtUserDataSegmentSelector }
  eip := 0
  eflags := cpuEflagsBaseFlag ||| cpuEflagsFlagInterruptEnable

/-- The frame of the last timer interrupt of process `p`, back to its creation. -/
def frameIn (p : Fin processCountMax) : List Event → Option InterruptFrame
  | [] => none
  | .create _ _ result pid _ :: es =>
    if result = processCreateSuccess ∧ pid = some p then some creationFrame else frameIn p es
  | .timer frame _ _ :: es => if runningIn es = some p then some frame else frameIn p es
  | _ :: es => frameIn p es

/-- The page directory that the last creation of process `p` took. -/
def directoryIn (p : Fin processCountMax) :
    List Event → Option (Fin pagingDirectoryTableMaxCount)
  | [] => none
  | .create _ _ result pid pageDir :: es =>
    if result = processCreateSuccess ∧ pid = some p then pageDir else directoryIn p es
  | _ :: es => directoryIn p es

def Context.frame (ctx : Context) : InterruptFrame := ⟨ctx.cpu, ctx.eip, ctx.eflags⟩

/-- The event interrupts or ends process `p`. -/
def Event.Concerns (p : Fin processCountMax) (es : List Event) : Event → Prop
  | .create .. => False
  | .destroy pid _ => p.val = pid.toNat
  | .exit => runningIn es = some p
  | .dispatch .. => False
  | .timer .. => runningIn es = some p

/-- The state holds what the events say. -/
structure Traced (es : List Event) (s : KernelState) : Prop where
  table : ProcessTable s
  running : ∀ i, (s.processList i).metadata.state = .running ↔ runningIn es = some i
  frame : ∀ i, s.pidUsed i = true → frameIn i es = some (s.processList i).context.frame
  directory : ∀ i, s.pidUsed i = true → ∃ d, directoryIn i es = some d ∧
    (s.processList i).context.pageDirectoryVirtualAddr = .slot d

theorem boot_traced : Traced [] .boot where
  table := boot_processTable
  running i := by
    simp [KernelState.boot, ProcessControlBlock.zero, runningIn]
  frame i h := by simp [KernelState.boot] at h
  directory i h := by simp [KernelState.boot] at h

theorem setupProcess_frame (request : FAT32DriverRequest UInt32)
    (d : Fin pagingDirectoryTableMaxCount) (i : Fin processCountMax) :
    (setupProcess .zero request d i).context.frame = creationFrame := by
  simp [setupProcess, ProcessControlBlock.zero, Context.frame, creationFrame]

namespace Traced

variable {es : List Event} {s : KernelState}

theorem running_pointer (h : Traced es s) :
    processGetCurrentRunningPcbPointer s = runningIn es := by
  cases hr : processGetCurrentRunningPcbPointer s with
  | none =>
    cases hi : runningIn es with
    | none => rfl
    | some i =>
      have hrun := (h.running i).mpr hi
      exact absurd hrun (running_none hr (h.table.used_of_running hrun))
  | some i => exact ((h.running i).mp (running_some hr).2).symm

theorem weaken (h : Traced es s) {s' : KernelState} {e : Event} (ht : ProcessTable s')
    (hrun : runningIn (e :: es) = runningIn es)
    (hframe : ∀ i, frameIn i (e :: es) = frameIn i es)
    (hdir : ∀ i, directoryIn i (e :: es) = directoryIn i es)
    (hpid : s'.pidUsed = s.pidUsed) (hproc : s'.processList = s.processList) :
    Traced (e :: es) s' where
  table := ht
  running i := by
    rw [hproc, hrun]
    exact h.running i
  frame i hu := by
    rw [hpid] at hu
    rw [hproc, hframe]
    exact h.frame i hu
  directory i hu := by
    rw [hpid] at hu
    rw [hproc, hdir]
    exact h.directory i hu

theorem created (h : Traced es s) {request : FAT32DriverRequest UInt32} {readCode : Int}
    {i : Fin processCountMax} {d : Fin pagingDirectoryTableMaxCount} {p : PagingState}
    (ht : ProcessTable (created s request i d p)) (hi : processListGetInactiveIndex s = some i) :
    Traced (.create request readCode processCreateSuccess (some i) (some d) :: es)
      (created s request i d p) := by
  have hfree := Bitmap.firstClear_some hi
  have hzero := h.table.unused_zero i hfree
  have hself : (Kernel.created s request i d p).processList i = setupProcess .zero request d i := by
    rw [← hzero]
    exact Function.update_self _ _ _
  have hold : ∀ j, j ≠ i → (Kernel.created s request i d p).processList j = s.processList j :=
    fun j hj => Function.update_of_ne hj _ _
  exact {
    table := ht
    running := by
      intro j
      rw [runningIn, ← h.running j]
      by_cases hj : j = i
      · subst hj
        rw [hself, hzero]
        exact iff_of_false (by simp [setupProcess]) (by simp [ProcessControlBlock.zero])
      · rw [hold j hj]
    frame := by
      intro j hu
      by_cases hj : j = i
      · subst hj
        rw [hself, setupProcess_frame]
        simp [frameIn]
      · have hne : ¬ (some i = some j) := fun he => hj (Option.some.inj he).symm
        rw [hold j hj, frameIn, if_neg fun he => hne he.2]
        exact h.frame j (by simpa [Kernel.created, hj] using hu)
    directory := by
      intro j hu
      by_cases hj : j = i
      · subst hj
        rw [hself]
        exact ⟨d, by simp [directoryIn], rfl⟩
      · have hne : ¬ (some i = some j) := fun he => hj (Option.some.inj he).symm
        rw [hold j hj, directoryIn, if_neg fun he => hne he.2]
        exact h.directory j (by simpa [Kernel.created, hj] using hu) }

/-- The end of process `i`, by whatever event. -/
theorem destroyed (h : Traced es s) {e : Event} {i : Fin processCountMax} {p : PagingState}
    (ht : ProcessTable (destroyed s i p))
    (hrun : runningIn (e :: es) = if runningIn es = some i then none else runningIn es)
    (hframe : ∀ j, frameIn j (e :: es) = frameIn j es)
    (hdir : ∀ j, directoryIn j (e :: es) = directoryIn j es) :
    Traced (e :: es) (destroyed s i p) := by
  have hold : ∀ j, j ≠ i → (Kernel.destroyed s i p).processList j = s.processList j :=
    fun j hj => Function.update_of_ne hj _ _
  have hself : (Kernel.destroyed s i p).processList i = .zero := Function.update_self _ _ _
  have hlive : ∀ j, (Kernel.destroyed s i p).pidUsed j = true → j ≠ i ∧ s.pidUsed j = true := by
    intro j hu
    have hji : j ≠ i := by
      rintro rfl
      simp [Kernel.destroyed] at hu
    exact ⟨hji, by simpa [Kernel.destroyed, hji] using hu⟩
  exact {
    table := ht
    running := by
      intro j
      rw [hrun]
      by_cases hj : j = i
      · subst hj
        rw [hself]
        refine iff_of_false (by simp [ProcessControlBlock.zero]) fun he => ?_
        by_cases hr : runningIn es = some j
        · rw [if_pos hr] at he
          exact absurd he (by simp)
        · rw [if_neg hr] at he
          exact hr he
      · rw [hold j hj, h.running j]
        by_cases hr : runningIn es = some i
        · rw [if_pos hr, hr]
          exact iff_of_false (fun he => hj (Option.some.inj he).symm) (by simp)
        · rw [if_neg hr]
    frame := by
      intro j hu
      obtain ⟨hj, hu⟩ := hlive j hu
      rw [hold j hj, hframe]
      exact h.frame j hu
    directory := by
      intro j hu
      obtain ⟨hj, hu⟩ := hlive j hu
      rw [hold j hj, hdir]
      exact h.directory j hu }

theorem dispatched {e : Event} {t s' : KernelState} {pid : Fin processCountMax} {ctx : Context}
    (hd : Dispatched t s' pid ctx) (ht : ProcessTable t) (hrun : runningIn (e :: es) = some pid)
    (hframe : ∀ i, t.pidUsed i = true →
      frameIn i (e :: es) = some (t.processList i).context.frame)
    (hdir : ∀ i, t.pidUsed i = true → ∃ d, directoryIn i (e :: es) = some d ∧
      (t.processList i).context.pageDirectoryVirtualAddr = .slot d) : Traced (e :: es) s' where
  table := hd.processTable ht
  running i := by
    rw [hd.running_iff, hrun, Option.some.injEq, eq_comm]
  frame i hu := by
    rw [hd.pidUsed_eq] at hu
    rw [hd.context_eq]
    exact hframe i hu
  directory i hu := by
    rw [hd.pidUsed_eq] at hu
    rw [hd.context_eq]
    exact hdir i hu

theorem saved_frame (h : Traced es s) (frame : InterruptFrame) (pid : Fin processCountMax)
    (ctx : Context) {i : Fin processCountMax} (hu : s.pidUsed i = true) :
    frameIn i (.timer frame pid ctx :: es) =
      some ((schedulerSaveContextToCurrentRunningPcb s
        ⟨frame.cpu, frame.eip, frame.eflags, .wild⟩).processList i).context.frame := by
  rw [frameIn]
  by_cases hr : runningIn es = some i
  · rw [if_pos hr, save_running _ _ (h.running_pointer.trans hr)]
    rfl
  · rw [if_neg hr, save_of_ne _ _ (by rw [h.running_pointer]; exact hr)]
    exact h.frame i hu

theorem step (h : Traced es s) {e : Event} {s' : KernelState} (ho : Outcome s e s') :
    Traced (e :: es) s' := by
  have ht := ho.processTable h.table
  cases ho with
  | refused hne =>
    apply h.weaken ht rfl _ _ rfl rfl
    · intro i
      rw [frameIn, if_neg fun he => hne he.1]
    · intro i
      rw [directoryIn, if_neg fun he => hne he.1]
  | unread =>
    apply h.weaken ht rfl _ _ rfl rfl
    · intro i
      rw [frameIn, if_neg fun he => absurd he.1 (by decide)]
    · intro i
      rw [directoryIn, if_neg fun he => absurd he.1 (by decide)]
  | created _ _ _ hi => exact h.created ht hi
  | kept =>
    apply h.weaken ht _ (fun _ => rfl) (fun _ => rfl) rfl rfl
    rw [runningIn, if_neg fun he => absurd he.1 (by decide)]
  | @destroyed pid i d hi hu hd =>
    apply h.destroyed ht _ (fun _ => rfl) (fun _ => rfl)
    rw [runningIn]
    congr 1
    rw [← hi]
    cases hr : runningIn es with
    | none => simp
    | some j => simp [Fin.ext_iff]
  | idle hr =>
    apply h.weaken ht _ (fun _ => rfl) (fun _ => rfl) rfl rfl
    rw [runningIn, ← h.running_pointer, hr]
  | exited hr =>
    apply h.destroyed ht _ (fun _ => rfl) (fun _ => rfl)
    rw [runningIn, if_pos (h.running_pointer.symm.trans hr)]
  | dispatched hd => exact dispatched hd h.table rfl h.frame h.directory
  | timer hd =>
    apply dispatched hd (h.table.saved _) rfl
    · intro i hu
      rw [save_pidUsed] at hu
      exact h.saved_frame _ _ _ hu
    · intro i hu
      rw [save_pidUsed] at hu
      rw [save_directory]
      exact h.directory i hu

end Traced

theorem traced_of_run {es : List Event} {s : KernelState} (h : Run KernelStep .boot es s) :
    Traced es.reverse s := by
  have hh := Run.history (P := fun es s => Traced es.reverse s) ?_ h
    (show Traced ([] : List Event).reverse .boot from boot_traced)
  · simpa only [List.nil_append] using hh
  · intro es s e t ht hs
    rw [List.reverse_append]
    exact ht.step (ht.table.step_outcome hs)

/-- Only an event that concerns a process changes its context. -/
theorem Outcome.context_eq {es : List Event} {s s' : KernelState} {e : Event}
    (ho : Outcome s e s') (h : Traced es s) {p : Fin processCountMax} (hu : s.pidUsed p = true)
    (hc : ¬ e.Concerns p es) :
    s'.pidUsed p = true ∧ (s'.processList p).context = (s.processList p).context := by
  have hdestroyed : ∀ {i q}, p ≠ i → (Kernel.destroyed s i q).pidUsed p = true ∧
      ((Kernel.destroyed s i q).processList p).context = (s.processList p).context := by
    intro i q hne
    simp [Kernel.destroyed, hne, hu]
  cases ho with
  | refused => exact ⟨hu, rfl⟩
  | unread => exact ⟨hu, rfl⟩
  | @created _ _ i _ _ _ _ hi =>
    have hne : p ≠ i := by
      rintro rfl
      rw [Bitmap.firstClear_some hi] at hu
      exact absurd hu (by decide)
    simp [Kernel.created, hne, hu]
  | kept => exact ⟨hu, rfl⟩
  | destroyed hi =>
    apply hdestroyed
    rintro rfl
    exact hc hi
  | idle => exact ⟨hu, rfl⟩
  | exited hr =>
    apply hdestroyed
    rintro rfl
    exact hc (h.running_pointer.symm.trans hr)
  | dispatched hd =>
    rw [hd.pidUsed_eq, hd.context_eq]
    exact ⟨hu, rfl⟩
  | timer hd =>
    have hne : processGetCurrentRunningPcbPointer s ≠ some p := by
      rw [h.running_pointer]
      exact hc
    rw [hd.pidUsed_eq, hd.context_eq, save_pidUsed, save_of_ne _ _ hne]
    exact ⟨hu, rfl⟩

theorem Outcome.dispatched_eq {s s' : KernelState} {e : Event} (ho : Outcome s e s')
    {p : Fin processCountMax} {ctx : Context} (he : e.dispatched = some (p, ctx)) :
    s'.pidUsed p = true ∧ ctx = (s'.processList p).context := by
  have hd : ∀ {t}, Dispatched t s' p ctx →
      s'.pidUsed p = true ∧ ctx = (s'.processList p).context := by
    intro t hd
    rw [hd.pidUsed_eq, hd.context_eq]
    exact ⟨hd.used, hd.ctx_eq⟩
  cases ho with
  | dispatched hd' =>
    obtain ⟨rfl, rfl⟩ := Prod.mk.inj (Option.some.inj he)
    exact hd hd'
  | timer hd' =>
    obtain ⟨rfl, rfl⟩ := Prod.mk.inj (Option.some.inj he)
    exact hd hd'
  | _ => exact absurd he (by simp [Event.dispatched])

/-- A process continues where it was interrupted. -/
theorem dispatch_context {es : List Event} {s s' : KernelState} {e : Event}
    (h : Run KernelStep .boot es s) (hs : KernelStep s e s') :
    (∀ p ctx, e.dispatched = some (p, ctx) →
      frameIn p (e :: es.reverse) = some ctx.frame ∧
        ∃ d, directoryIn p (e :: es.reverse) = some d ∧ ctx.pageDirectoryVirtualAddr = .slot d) ∧
      ∀ p, s.pidUsed p = true → ¬ e.Concerns p es.reverse →
        s'.pidUsed p = true ∧ (s'.processList p).context = (s.processList p).context := by
  have ht := traced_of_run h
  have ho := ht.table.step_outcome hs
  have ht' := ht.step ho
  constructor
  · intro p ctx he
    obtain ⟨hu, rfl⟩ := ho.dispatched_eq he
    exact ⟨ht'.frame p hu, ht'.directory p hu⟩
  · intro p hu hc
    exact ho.context_eq ht hu hc

theorem dispatch_context_shell : ∃ s s' ctx ctx', Run KernelStep .boot
    [.create shellRequest 0 0 (some 0) (some 0), .dispatch 0 ctx] s ∧
      KernelStep s (.timer ⟨⟨1, 2, 3, 4, 5, 6, 7, 8, 9, 10, 11, 12⟩, 13, 14⟩ 0 ctx') s' ∧
      ctx'.frame = ⟨⟨1, 2, 3, 4, 5, 6, 7, 8, 9, 10, 11, 12⟩, 13, 14⟩ ∧
      ctx'.pageDirectoryVirtualAddr = .slot 0 := by
  obtain ⟨s, ctx, h, hused, -⟩ := shell_run
  have hu : s.pidUsed 0 = true := by rw [hused, Function.update_self]
  obtain ⟨⟨pid, ctx', s'⟩, hs⟩ := Exists.intro _ (Eq.refl (timerInterrupt s
    ⟨⟨1, 2, 3, 4, 5, 6, 7, 8, 9, 10, 11, 12⟩, 13, 14⟩))
  have hstep := KernelStep.timer ⟨0, hu⟩ hs
  obtain ⟨hframe, d, hdir, haddr⟩ := (dispatch_context h hstep).1 pid ctx' rfl
  have hpid : pid = 0 := by
    by_contra hne
    simp [frameIn, runningIn, eq_comm, hne] at hframe
  subst hpid
  simp only [List.reverse_cons, List.reverse_nil, List.nil_append, List.cons_append, frameIn,
    runningIn, if_true, Option.some.injEq] at hframe
  simp only [List.reverse_cons, List.reverse_nil, List.nil_append, List.cons_append, directoryIn,
    and_self, if_true, Option.some.injEq] at hdir
  exact ⟨s, s', ctx, ctx', h, hstep, hframe.symm, hdir ▸ haddr⟩

end Doors.Kernel
