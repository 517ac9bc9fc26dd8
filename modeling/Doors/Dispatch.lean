import Doors.KernelRuns

/-! The scheduler entered at any time: it dispatches a live process exactly when there
is one. -/

namespace Doors.Kernel

/-- A step of the kernel whether or not a process is live when the scheduler is entered. -/
inductive TickStep (s : KernelState) : Event → KernelState → Prop
  | step {e : Event} {s' : KernelState} : KernelStep s e s' → TickStep s e s'
  | dispatch {pid : Fin processCountMax} {ctx : Context} {s' : KernelState} :
    schedulerSwitchToNextProcess s = (pid, ctx, s') → TickStep s (.dispatch pid ctx) s'
  | timer {frame : InterruptFrame} {pid : Fin processCountMax} {ctx : Context} {s' : KernelState} :
    timerInterrupt s frame = (pid, ctx, s') → TickStep s (.timer frame pid ctx) s'

/-- A process is live when the event dispatches. -/
def TicksLive (s : KernelState) (e : Event) : Prop := e.dispatched.isSome = true → s.HasLive

def LiveStep (s : KernelState) (e : Event) (s' : KernelState) : Prop :=
  TickStep s e s' ∧ TicksLive s e

/-- What the event dispatches is a live process on a page directory. -/
def DispatchesLive (s : KernelState) (e : Event) : Prop :=
  ∀ pid ctx, e.dispatched = some (pid, ctx) →
    s.pidUsed pid = true ∧ ctx.pageDirectoryVirtualAddr ≠ .null

theorem TickStep.kernelStep {s s' : KernelState} {e : Event} (hs : TickStep s e s')
    (hl : TicksLive s e) : KernelStep s e s' := by
  cases hs with
  | step hs => exact hs
  | dispatch hs => exact .dispatch (hl rfl) hs
  | timer hs => exact .timer (hl rfl) hs

theorem Outcome.dispatchesLive {s s' : KernelState} {e : Event} (ho : Outcome s e s')
    (ht : ProcessTable s) : DispatchesLive s e := by
  have hslot : ∀ {t : KernelState} {pid : Fin processCountMax} {ctx : Context}, ProcessTable t →
      Dispatched t s' pid ctx → ctx.pageDirectoryVirtualAddr ≠ .null := by
    intro t pid ctx ht hd
    obtain ⟨d, hdir, -⟩ := ht.directory pid hd.used
    rw [hd.ctx_eq, hdir]
    exact PageDirectoryPtr.noConfusion
  intro pid ctx he
  cases ho with
  | dispatched hd =>
    obtain ⟨rfl, rfl⟩ := Prod.mk.inj (Option.some.inj he)
    exact ⟨hd.used, hslot ht hd⟩
  | timer hd =>
    obtain ⟨rfl, rfl⟩ := Prod.mk.inj (Option.some.inj he)
    refine ⟨?_, hslot (ht.saved _) hd⟩
    rw [← save_pidUsed]
    exact hd.used
  | _ => exact absurd he (by simp [Event.dispatched])

/-- After a run in which a process was live at every dispatch, the next event dispatches
a live process if and only if there is one. -/
theorem dispatchesLive_iff {es : List Event} {s s' : KernelState} {e : Event}
    (h : Run LiveStep .boot es s)
    (hs : TickStep s e s') : DispatchesLive s e ↔ TicksLive s e := by
  have hrun : Run KernelStep .boot es s := h.mono fun _ _ _ hs => hs.1.kernelStep hs.2
  have ht := processTable_of_run hrun
  constructor
  · intro hd hsome
    obtain ⟨⟨pid, ctx⟩, he⟩ := Option.isSome_iff_exists.mp hsome
    exact ⟨pid, (hd pid ctx he).1⟩
  · intro hl
    exact (ht.step_outcome (hs.kernelStep hl)).dispatchesLive ht

theorem dispatchesLive_iff_shell : ∃ s s' pid ctx,
    Run LiveStep .boot [.create shellRequest 0 0 (some 0) (some 0)] s ∧
      TickStep s (.dispatch pid ctx) s' ∧ DispatchesLive s (.dispatch pid ctx) := by
  obtain ⟨⟨pid, ctx, s'⟩, hs⟩ := Exists.intro _ (Eq.refl (schedulerSwitchToNextProcess
    (firstCreated shellRequest)))
  have hstep : LiveStep .boot (.create shellRequest 0 0 (some 0) (some 0))
      (firstCreated shellRequest) := ⟨.step (boot_create shell_admitted), fun hd => absurd hd (by decide)⟩
  have hrun := Run.cons hstep (.nil _)
  have hlive : (firstCreated shellRequest).HasLive := ⟨0, firstCreated_used _⟩
  exact ⟨_, s', pid, ctx, hrun, .dispatch hs,
    (dispatchesLive_iff hrun (.dispatch hs)).mpr fun _ => hlive⟩

theorem switch_dead {s s' : KernelState} (ht : ProcessTable s) (hdead : ∀ j, s.pidUsed j = false)
    {pid : Fin processCountMax} {ctx : Context}
    (hs : schedulerSwitchToNextProcess s = (pid, ctx, s')) :
    ctx = ProcessControlBlock.zero.context := by
  have hr : processGetCurrentRunningPcbPointer s = none := by
    rw [processGetCurrentRunningPcbPointer, List.find?_eq_none]
    intro j _
    simp [hdead j]
  have hctx := congrArg (fun r => r.2.1) hs
  simp only [schedulerSwitchToNextProcess, hr, KernelState.setState, KernelState.setProcess,
    Function.update_self, withState_context] at hctx
  rw [← hctx, ht.unused_zero _ (hdead _)]

/-- The shell exits, and the next tick dispatches a cleared record. -/
theorem exit_dispatches_dead : ∃ s s' ctx frame pid ctx', Run TickStep .boot
    [.create shellRequest 0 0 (some 0) (some 0), .dispatch 0 ctx, .exit] s ∧
      TickStep s (.timer frame pid ctx') s' ∧ s.pidUsed pid = false ∧
      ctx'.pageDirectoryVirtualAddr = .null ∧ ¬ DispatchesLive s (.timer frame pid ctx') := by
  obtain ⟨s, ctx, h, hused, hrunning⟩ := shell_run
  have ht := processTable_of_run h
  have hrun : Run TickStep .boot _ (processExit s) :=
    (h.mono fun _ _ _ hs => TickStep.step hs).snoc (.step .exit)
  have ht' := processTable_of_run (h.snoc .exit)
  have ho := ht.exit_outcome
  generalize processExit s = t at hrun ht' ho
  have hdead : ∀ j, t.pidUsed j = false := by
    cases ho with
    | idle hr => exact absurd hrunning (running_none hr (ht.used_of_running hrunning))
    | exited hr =>
      obtain rfl := ht.running_unique _ _ (running_some hr).2 hrunning
      simp [Kernel.destroyed, hused]
  obtain ⟨⟨pid, ctx', s'⟩, hs⟩ := Exists.intro _ (Eq.refl (timerInterrupt t
    ⟨⟨0, 0, 0, 0, 0, 0, 0, 0, 0, 0, 0, 0⟩, 0, 0⟩))
  have hctx := switch_dead (ht'.saved _) (fun j => by rw [save_pidUsed]; exact hdead j) hs
  refine ⟨t, s', ctx, _, pid, ctx', hrun, .timer hs, hdead pid, ?_, ?_⟩
  · rw [hctx]
    rfl
  · intro hd
    exact absurd ((hd pid ctx' rfl).1.symm.trans (hdead pid)) (by decide)

end Doors.Kernel
