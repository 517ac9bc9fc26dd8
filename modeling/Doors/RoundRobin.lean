import Doors.Dispatch
import Doors.Rotation

/-! The scheduler takes the runnable processes in turn: it serves a queue, the running
process being at its end. -/

namespace Doors.Kernel

/-- All slots in cyclic order from the one where the search starts. -/
def turns (s : KernelState) : List (Fin processCountMax) :=
  List.iterate (· + 1) (turnStart s) processCountMax

/-- The runnable slots in the order of their turns. -/
def runQueue (s : KernelState) : List (Fin processCountMax) :=
  (turns s).filter fun i => Dispatchable s i

def dispatchableCount (s : KernelState) : Nat :=
  ((List.finRange processCountMax).filter fun i => Dispatchable s i).length

/-- A call of the scheduler, from the timer or not. -/
def SwitchStep (s : KernelState) (e : Event) (s' : KernelState) : Prop :=
  TickStep s e s' ∧ e.dispatched.isSome = true

def Event.slot (e : Event) : Option (Fin processCountMax) := e.dispatched.map Prod.fst

/-- The slot is the first ready one in the cyclic order; the running one has the last turn. -/
structure TakesTurn (s s' : KernelState) (pid : Fin processCountMax) (ctx : Context) : Prop where
  context : ctx = (s.processList pid).context
  first : (turns s).find? (fun i => Dispatchable s i) = some pid
  ready : (s.processList pid).metadata.state = .ready ∨
    (s.processList pid).metadata.state = .running ∧ ∀ j, (s.processList j).metadata.state ≠ .ready
  states : ∀ j, (s'.processList j).metadata.state = if j = pid then .running
    else if (s.processList j).metadata.state = .running then .ready
    else (s.processList j).metadata.state

theorem slots_round (a : Fin processCountMax) : (· + 1)^[processCountMax] a = a := by
  revert a
  decide

theorem slots_all (a i : Fin processCountMax) :
    i ∈ List.iterate (· + 1) a processCountMax := by
  revert a i
  decide

theorem slots_nodup (a : Fin processCountMax) :
    (List.iterate (· + 1) a processCountMax).Nodup := by
  revert a
  decide

variable {s s' : KernelState}

theorem mem_runQueue {i : Fin processCountMax} : i ∈ runQueue s ↔ Dispatchable s i := by
  rw [runQueue, List.mem_filter, decide_eq_true_eq]
  exact and_iff_right (slots_all _ i)

theorem runQueue_nodup : (runQueue s).Nodup := (slots_nodup _).filter _

theorem runQueue_length : (runQueue s).length = dispatchableCount s := by
  apply List.Perm.length_eq
  apply List.Perm.filter
  rw [turns, List.perm_ext_iff_of_nodup (slots_nodup _) (List.nodup_finRange _)]
  exact fun i => iff_of_true (slots_all _ i) (List.mem_finRange i)

theorem nextReady_find {t : KernelState} {cnt : Nat} {idx pid : Fin processCountMax}
    (h : (List.iterate (· + 1) idx cnt).find?
      (fun i => (t.processList i).metadata.state = .ready) = some pid) :
    nextReady t cnt idx = pid := by
  induction cnt generalizing idx with
  | zero => simp at h
  | succ cnt ih =>
    rw [List.iterate, List.find?_cons] at h
    rw [nextReady]
    by_cases hr : (t.processList idx).metadata.state = .ready
    · rw [if_pos hr]
      simpa [hr] using h
    · rw [if_neg hr]
      exact ih (by simpa [hr] using h)

theorem nextReady_head {pid : Fin processCountMax}
    {rest : List (Fin processCountMax)} (hq : runQueue s = pid :: rest) :
    nextReady (released s) processCountMax (turnStart s) = pid := by
  apply nextReady_find
  simp only [released_ready]
  rw [← List.head?_filter]
  exact congrArg List.head? hq

theorem Dispatched.dispatchable_iff {pid : Fin processCountMax} {ctx : Context}
    (hd : Dispatched s s' pid ctx) (hpid : Dispatchable s pid) (j : Fin processCountMax) :
    Dispatchable s' j ↔ Dispatchable s j := by
  rw [Dispatchable, hd.process_eq, withState_state]
  by_cases hj : j = pid
  · rw [if_pos hj, hj]
    exact iff_of_true (.inr rfl) hpid
  · rw [if_neg hj, Dispatchable]
    cases (s.processList j).metadata.state <;> decide

theorem Dispatched.schedulable {pid : Fin processCountMax} {ctx : Context}
    (hd : Dispatched s s' pid ctx) (h : Schedulable s) (hpid : Dispatchable s pid) :
    Schedulable s' where
  pid_eq i hi := by
    rw [hd.pidUsed_eq] at hi
    rw [hd.process_eq, withState_pid]
    exact h.pid_eq i hi
  used i hi := by
    rw [hd.pidUsed_eq]
    exact h.used i ((hd.dispatchable_iff hpid i).mp hi)
  running_unique i j hi hj := by rw [(hd.running_iff i).mp hi, (hd.running_iff j).mp hj]
  runnable := ⟨pid, (hd.dispatchable_iff hpid pid).mpr hpid⟩

theorem Dispatched.turnStart_eq {pid : Fin processCountMax} {ctx : Context}
    (hd : Dispatched s s' pid ctx) : turnStart s' = pid + 1 := by
  have hrun := (hd.running_iff pid).mpr rfl
  have hused : s'.pidUsed pid = true := hd.pidUsed_eq ▸ hd.used
  rw [turnStart]
  cases hr : processGetCurrentRunningPcbPointer s' with
  | none => exact absurd hrun (running_none hr hused)
  | some i => rw [(hd.running_iff i).mp (running_some hr).2]

/-- A switch serves the head of the queue and puts it last. -/
theorem Schedulable.step (h : Schedulable s) {pid : Fin processCountMax} {ctx : Context}
    (hs : schedulerSwitchToNextProcess s = (pid, ctx, s')) :
    Schedulable s' ∧ ∃ rest, runQueue s = pid :: rest ∧ runQueue s' = rest ++ [pid] := by
  have hd := h.dispatched hs
  obtain ⟨k, hk⟩ := h.runnable
  cases hq : runQueue s with
  | nil =>
    have hmem := mem_runQueue.mpr hk
    rw [hq] at hmem
    exact absurd hmem List.not_mem_nil
  | cons b rest =>
    obtain rfl : b = pid := by
      rw [switch_eq h (nextReady_head hq)] at hs
      exact congrArg Prod.fst hs
    have hpid : Dispatchable s b := mem_runQueue.mp (hq ▸ List.mem_cons_self)
    refine ⟨hd.schedulable h hpid, rest, rfl, ?_⟩
    rw [runQueue, turns, hd.turnStart_eq]
    simp only [hd.dispatchable_iff hpid]
    exact Rotation.queue_next slots_round hq

theorem save_running_eq (s : KernelState) (ctx : Context) :
    processGetCurrentRunningPcbPointer (schedulerSaveContextToCurrentRunningPcb s ctx) =
      processGetCurrentRunningPcbPointer s := by
  simp only [processGetCurrentRunningPcbPointer, save_pidUsed, save_metadata]

theorem save_dispatchable (s : KernelState) (ctx : Context) (i : Fin processCountMax) :
    Dispatchable (schedulerSaveContextToCurrentRunningPcb s ctx) i ↔ Dispatchable s i := by
  rw [Dispatchable, save_metadata, Dispatchable]

theorem Schedulable.saved (h : Schedulable s) (ctx : Context) :
    Schedulable (schedulerSaveContextToCurrentRunningPcb s ctx) where
  pid_eq i hi := by
    rw [save_pidUsed] at hi
    rw [save_metadata]
    exact h.pid_eq i hi
  used i hi := by
    rw [save_pidUsed]
    exact h.used i ((save_dispatchable s ctx i).mp hi)
  running_unique i j hi hj := by
    rw [save_metadata] at hi hj
    exact h.running_unique i j hi hj
  runnable := by
    obtain ⟨i, hi⟩ := h.runnable
    exact ⟨i, (save_dispatchable s ctx i).mpr hi⟩

theorem save_runQueue (s : KernelState) (ctx : Context) :
    runQueue (schedulerSaveContextToCurrentRunningPcb s ctx) = runQueue s := by
  simp only [runQueue, turns, turnStart, save_running_eq, save_dispatchable]

theorem Schedulable.switchStep {e : Event} (h : Schedulable s) (hs : SwitchStep s e s') :
    Schedulable s' ∧ ∃ pid rest, runQueue s = pid :: rest ∧ e.slot = some pid ∧
      runQueue s' = rest ++ [pid] := by
  have hswitch : ∀ {pid ctx}, schedulerSwitchToNextProcess s = (pid, ctx, s') →
      Schedulable s' ∧ ∃ rest, runQueue s = pid :: rest ∧ runQueue s' = rest ++ [pid] :=
    fun hd => h.step hd
  have htimer : ∀ {frame pid ctx}, timerInterrupt s frame = (pid, ctx, s') →
      Schedulable s' ∧ ∃ rest, runQueue s = pid :: rest ∧ runQueue s' = rest ++ [pid] := by
    intro frame pid ctx hd
    have hstep := (h.saved _).step hd
    rw [save_runQueue] at hstep
    exact hstep
  obtain ⟨htick, hevent⟩ := hs
  cases htick with
  | step hk =>
    cases hk with
    | create => simp [Event.dispatched] at hevent
    | destroy => simp [Event.dispatched] at hevent
    | exit => simp [Event.dispatched] at hevent
    | dispatch _ hd =>
      obtain ⟨hs', rest, hq, hq'⟩ := hswitch hd
      exact ⟨hs', _, rest, hq, rfl, hq'⟩
    | timer _ hd =>
      obtain ⟨hs', rest, hq, hq'⟩ := htimer hd
      exact ⟨hs', _, rest, hq, rfl, hq'⟩
  | dispatch hd =>
    obtain ⟨hs', rest, hq, hq'⟩ := hswitch hd
    exact ⟨hs', _, rest, hq, rfl, hq'⟩
  | timer hd =>
    obtain ⟨hs', rest, hq, hq'⟩ := htimer hd
    exact ⟨hs', _, rest, hq, rfl, hq'⟩

theorem slots_last (a : Fin processCountMax) : List.iterate (· + 1) (a + 1) processCountMax =
    List.iterate (· + 1) (a + 1) 15 ++ [a] := by
  revert a
  decide

/-- The running process is dispatched only when it is alone. -/
theorem runQueue_running {pid : Fin processCountMax} {rest : List (Fin processCountMax)}
    (hr : processGetCurrentRunningPcbPointer s = some pid) (hq : runQueue s = pid :: rest) :
    runQueue s = [pid] := by
  have hnodup := @runQueue_nodup s
  have hpid : Dispatchable s pid := .inr (running_some hr).2
  have hlast : [pid].filter (fun i => decide (Dispatchable s i)) = [pid] := by simp [hpid]
  rw [runQueue, turns, turnStart, hr] at hq hnodup ⊢
  simp only [slots_last, List.filter_append, hlast] at hq hnodup ⊢
  cases hpre : (List.iterate (· + 1) (pid + 1) 15).filter fun i => decide (Dispatchable s i) with
  | nil => rfl
  | cons b front =>
    rw [hpre, List.cons_append, List.cons.injEq] at hq
    rw [hpre, hq.1] at hnodup
    simp at hnodup

theorem Schedulable.takesTurn (h : Schedulable s) {pid : Fin processCountMax} {ctx : Context}
    (hs : schedulerSwitchToNextProcess s = (pid, ctx, s')) : TakesTurn s s' pid ctx := by
  obtain ⟨-, rest, hq, -⟩ := h.step hs
  have hd := h.dispatched hs
  refine ⟨hd.ctx_eq, ?_, ?_, fun j => by rw [hd.process_eq, withState_state]⟩
  · rw [← List.head?_filter]
    exact congrArg List.head? hq
  · apply (mem_runQueue.mp (hq ▸ List.mem_cons_self) : Dispatchable s pid).imp_right
    intro hrun
    refine ⟨hrun, fun j hj => ?_⟩
    obtain ⟨i, hi⟩ : ∃ i, processGetCurrentRunningPcbPointer s = some i := by
      cases hr : processGetCurrentRunningPcbPointer s with
      | none => exact absurd hrun (running_none hr (h.used pid (.inr hrun)))
      | some i => exact ⟨i, rfl⟩
    obtain rfl := h.running_unique _ _ (running_some hi).2 hrun
    have hmem : j ∈ runQueue s := mem_runQueue.mpr (.inl hj)
    rw [runQueue_running hi hq, List.mem_singleton] at hmem
    rw [hmem, hrun] at hj
    cases hj

/-- Round robin: one switch dispatches the slot whose turn it is, and as many switches as
there are runnable slots dispatch each of these once. -/
theorem round_robin (h : Schedulable s) :
    (∃ pid ctx s', schedulerSwitchToNextProcess s = (pid, ctx, s') ∧ TakesTurn s s' pid ctx) ∧
      ∀ es s', Run SwitchStep s es s' → es.length = dispatchableCount s →
        ∀ i, (es.filterMap Event.slot).count i = if Dispatchable s i then 1 else 0 := by
  refine ⟨⟨_, _, _, rfl, h.takesTurn rfl⟩, ?_⟩
  intro es s' hrun hlen i
  obtain ⟨hserved, -⟩ := Rotation.served (P := Schedulable)
    (fun _ _ _ hp hs => hp.switchStep hs) hrun h (List.append_nil _).symm
    (hlen.trans runQueue_length.symm)
  rw [hserved]
  by_cases hi : Dispatchable s i
  · rw [if_pos hi]
    exact List.count_eq_one_of_mem runQueue_nodup (mem_runQueue.mpr hi)
  · rw [if_neg hi]
    exact List.count_eq_zero.mpr fun hmem => hi (mem_runQueue.mp hmem)

/-- Slot 1 is running and slot 4 ready. -/
def twoProcesses : KernelState where
  paging := .boot
  processList i :=
    if i = 1 then { ProcessControlBlock.zero with metadata := ⟨1, .running, fun _ => 0⟩ }
    else if i = 4 then { ProcessControlBlock.zero with metadata := ⟨4, .ready, fun _ => 0⟩ }
    else .zero
  activeProcessCount := 2
  pidUsed i := i = 1 || i = 4

theorem twoProcesses_schedulable : Schedulable twoProcesses where
  pid_eq := by decide
  used := by decide
  running_unique := by decide
  runnable := ⟨1, by decide⟩

/-- Slot 4 has the first turn, and two switches dispatch both. -/
theorem round_robin_two : ∃ pid ctx s' next ctx' s'',
    schedulerSwitchToNextProcess twoProcesses = (pid, ctx, s') ∧
      TakesTurn twoProcesses s' pid ctx ∧ pid = 4 ∧
      Run SwitchStep twoProcesses [.dispatch pid ctx, .dispatch next ctx'] s'' ∧ next = 1 := by
  obtain ⟨⟨pid, ctx, s', hs, hturn⟩, hcounts⟩ := round_robin twoProcesses_schedulable
  have hfirst : (turns twoProcesses).find? (fun i => Dispatchable twoProcesses i) = some 4 := by decide
  rw [hturn.first] at hfirst
  obtain rfl := Option.some.inj hfirst
  obtain ⟨⟨next, ctx', s''⟩, hs'⟩ := Exists.intro _ (Eq.refl (schedulerSwitchToNextProcess s'))
  have hrun : Run SwitchStep twoProcesses [.dispatch 4 ctx, .dispatch next ctx'] s'' :=
    .cons ⟨.dispatch hs, rfl⟩ (.cons ⟨.dispatch hs', rfl⟩ (.nil s''))
  have hlen : 2 = dispatchableCount twoProcesses := by decide
  have hcount : [4, next].count 1 = _ := hcounts _ _ hrun hlen 1
  rw [if_pos (by decide)] at hcount
  refine ⟨4, ctx, s', next, ctx', s'', hs, hturn, rfl, hrun, ?_⟩
  by_contra hne
  simp [hne] at hcount

end Doors.Kernel
