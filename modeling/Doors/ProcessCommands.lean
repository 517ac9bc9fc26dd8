import Doors.AddressSpace
import Doors.CommandLine
import Doors.PhysicalMemory
import Doors.PrintInt

/-! The commands `ps` and `kill`: the numbers that the one prints and the processes that the other
takes away. The result of a kill is stored in the memory of the caller, which is gone when the
caller names itself. -/

namespace Doors.Shell

open Kernel

/-- `*c - '0'`; a `char` is signed. -/
def digitValue (c : UInt8) : UInt32 := c.toInt8.toInt32.toUInt32 - 48

/-- The identifier that `kill` makes of its argument. -/
def killId : List UInt8 → Option UInt32
  | [a] => some (digitValue a)
  | [a, b] => some (digitValue a * 10 + digitValue b)
  | _ => none

def killed : Put := ⟨text "Process killed succesfully\n", 28, 0xF⟩

def killFailed : Put := ⟨text "Fail to kill process\n", 22, 0xC⟩

/-- System call 20. The result is stored behind `check` when the process is gone already; `none`
is the fault of that store. -/
def destroyProcessApi (s : KernelState) (pid check : UInt32) : Option Bool × KernelState :=
  ((loadedAt (processDestroy s pid).2.paging check).map fun _ => (processDestroy s pid).1,
    (processDestroy s pid).2)

/-- What `kill` puts on the screen, if it comes back from its system call. -/
def kill (s : KernelState) (check : UInt32) (pid : List UInt8) : Option Put × KernelState :=
  match killId pid with
  | none => (some ⟨text "Maximum process identifier is 16\n", 34, 0xC⟩, s)
  | some id => ((destroyProcessApi s id check).1.map fun check =>
      if !check then killFailed else killed, (destroyProcessApi s id check).2)

/-- A line of `ps`: what it puts at the columns 0, 8 and 17. -/
structure PsLine where
  pid : List UInt8
  processName : Put
  state : Put

def psState : ProcessState → Put
  | .running => ⟨text "RUNNING\n", 9, 0xF⟩
  | .ready => ⟨text "READY\n", 7, 0xF⟩
  | .blocked => ⟨text "BLOCKED\n", 9, 0xF⟩

def psLine (m : ProcessMetadata) : PsLine where
  pid := printInt m.pid
  processName := ⟨List.ofFn m.processName, 8, 0xF⟩
  state := psState m.state

/-- The heading and the lines below it. -/
def ps (s : KernelState) : List Put × List PsLine :=
  if getProcessList s = [] then ([⟨text "No process currently available\n", 32, 0xC⟩], [])
  else ([⟨text "pid     name     state\n", 24, 0xF⟩, ⟨text "======================\n", 24, 0xF⟩],
    (getProcessList s).map psLine)

section Processes

variable {s : KernelState} {pid : List UInt8} {m : ProcessMetadata} {es : List Event}
  {i : Fin processCountMax} {check : UInt32}

theorem ps_lines (s : KernelState) : (ps s).2 = (getProcessList s).map psLine := by
  rw [ps]
  split_ifs with h
  · rw [h, List.map_nil]
  · rfl

/-- What `kill` reads back of the number of a line: a zero at its end is not printed. -/
theorem killId_printInt (i : Fin processCountMax) :
    killId (printInt (UInt32.ofNat i)) =
      some (if i.val = 10 then 1 else UInt32.ofNat i) := by
  by_cases hz : UInt32.ofNat i = 0
  · rw [hz, printInt_zero]
    revert i
    decide
  · rw [printInt_pos hz]
    revert i
    decide

theorem slot_toNat (i : Fin processCountMax) : (UInt32.ofNat i).toNat = i.val := by
  have hlt : i.val < 16 := i.isLt
  exact UInt32.toNat_ofNat_of_lt' (hlt.trans (by decide))

theorem killFailed_ne : killFailed ≠ killed := by simp [killFailed, killed]

theorem listed_iff (ht : ProcessTable s) {id : UInt32} :
    (∃ m ∈ getProcessList s, m.pid = id) ↔
      ∃ i : Fin processCountMax, i.val = id.toNat ∧ s.pidUsed i = true := by
  constructor
  · rintro ⟨m, hm, rfl⟩
    obtain ⟨i, hu, rfl⟩ := mem_getProcessList.mp hm
    exact ⟨i, by rw [ht.pid_eq i hu, slot_toNat], hu⟩
  · rintro ⟨i, hi, hu⟩
    refine ⟨_, mem_getProcessList.mpr ⟨i, hu, rfl⟩, ?_⟩
    rw [ht.pid_eq i hu, ← UInt32.toNat_inj, slot_toNat, hi]

/-- The list without the process that was in slot `i`. -/
theorem destroyed_list (ht : ProcessTable s) (hu : s.pidUsed i = true) (p : PagingState) :
    getProcessList (destroyed s i p) =
      (getProcessList s).filter fun m => m.pid ≠ UInt32.ofNat i := by
  have hpid {j : Fin processCountMax} (hj : s.pidUsed j = true) :
      (s.processList j).metadata.pid = UInt32.ofNat i ↔ j = i := by
    rw [ht.pid_eq j hj, ← UInt32.toNat_inj, slot_toNat, slot_toNat, Fin.ext_iff]
  rw [getProcessList, getProcessList, List.filter_map, List.filter_filter]
  have hslots : (List.finRange processCountMax).filter (destroyed s i p).pidUsed =
      (List.finRange processCountMax).filter fun j =>
        decide ((s.processList j).metadata.pid ≠ UInt32.ofNat i) && s.pidUsed j := by
    refine List.filter_congr fun j _ => ?_
    by_cases hj : j = i
    · simp [hj, destroyed, ht.pid_eq i hu]
    · cases hused : s.pidUsed j
      · simp [destroyed, hj, hused]
      · simp [destroyed, hj, hused, hpid hused]
  rw [hslots]
  refine List.map_congr_left fun j hj => ?_
  have hji : j ≠ i := by
    rintro rfl
    simp [ht.pid_eq j hu] at hj
  exact congrArg ProcessControlBlock.metadata (Function.update_of_ne hji _ _)

/-- The store of the result faults when the caller itself is gone, and no other kill reaches the
caller's directory. -/
theorem loadedAt_destroyed (check : UInt32) (ht : ProcessTable s) (hl : LoadsRunning s)
    {d : Fin pagingDirectoryTableMaxCount} (hu : s.pidUsed i = true)
    (hd : (s.processList i).context.pageDirectoryVirtualAddr = .slot d) :
    loadedAt (pagingFreePageDirectory s.paging (.slot d)).2 check =
      if (s.processList i).metadata.state = .running then none
      else loadedAt s.paging check := by
  obtain ⟨j, hj, hcr3⟩ := hl
  obtain ⟨c, hc, -⟩ := ht.directory j (ht.used_of_running hj)
  simp only [loadedAt, freeDirectory_cr3, hcr3, hc]
  split_ifs with hr
  · obtain rfl := ht.running_unique i j hr hj
    obtain rfl : d = c := by simpa using hd.symm.trans hc
    exact translate_freed check
  · have hcd : c ≠ d := by
      rintro rfl
      obtain rfl := ht.directory_unique i j hu (ht.used_of_running hj) (hd.trans hc.symm)
      exact hr hj
    rw [freeDirectory_freed.other c hcd]

/-- What a kill by a running process does: nothing, its end, or the end of another process. -/
inductive Killing (s : KernelState) (check : UInt32) (pid : List UInt8) : Prop
  | missed : (∀ m ∈ getProcessList s, killId pid ≠ some m.pid) → (kill s check pid).2 = s →
    (∃ put, (kill s check pid).1 = some put ∧ put ≠ killed) → Killing s check pid
  | own {i : Fin processCountMax} (p : PagingState) : s.pidUsed i = true →
    (s.processList i).metadata.state = .running → killId pid = some (UInt32.ofNat i) →
    (kill s check pid).1 = none →
    (kill s check pid).2 = destroyed s i p →
    Killing s check pid
  | other {i : Fin processCountMax} (p : PagingState) : s.pidUsed i = true →
    (s.processList i).metadata.state ≠ .running → killId pid = some (UInt32.ofNat i) →
    (kill s check pid).1 = some killed →
    (kill s check pid).2 = destroyed s i p →
    Killing s check pid

theorem killing (ht : ProcessTable s) (hl : LoadsRunning s)
    (hcheck : (loadedAt s.paging check).isSome = true) (pid : List UInt8) :
    Killing s check pid := by
  obtain ⟨a, ha⟩ := Option.isSome_iff_exists.mp hcheck
  cases hid : killId pid with
  | none =>
    refine .missed (by simp [hid]) (by simp [kill, hid]) ⟨_, by rw [kill, hid], ?_⟩
    simp [killed, text]
  | some id =>
    rcases ht.destroy_outcome id with ⟨hfree, he⟩ | ⟨i, d, hi, hu, hd, he⟩
    · refine .missed ?_ (by simp [kill, hid, destroyProcessApi, he]) ⟨killFailed, ?_, killFailed_ne⟩
      · intro m hm hm'
        obtain ⟨i, hi, hu⟩ := (listed_iff ht).mp ⟨m, hm, (Option.some.inj (hid.symm.trans hm')).symm⟩
        simp [hfree i hi] at hu
      · simp [kill, hid, destroyProcessApi, he, ha]
    · obtain rfl : id = UInt32.ofNat i := by rw [← UInt32.toNat_inj, slot_toNat, hi]
      have hstore := loadedAt_destroyed check ht hl hu hd
      by_cases hr : (s.processList i).metadata.state = .running
      · rw [if_pos hr] at hstore
        exact .own (pagingFreePageDirectory s.paging (.slot d)).2 hu hr hid
          (by simp [kill, hid, destroyProcessApi, he, hstore])
          (by simp only [kill, hid, destroyProcessApi, he])
      · rw [if_neg hr, ha] at hstore
        exact .other (pagingFreePageDirectory s.paging (.slot d)).2 hu hr hid
          (by simp [kill, hid, destroyProcessApi, he, hstore])
          (by simp only [kill, hid, destroyProcessApi, he])

/-- What holds of the listed process that is named holds of the one in its slot. -/
theorem named_iff (ht : ProcessTable s) (hu : s.pidUsed i = true)
    (hid : killId pid = some (UInt32.ofNat i)) (P : ProcessMetadata → Prop) :
    (∃ m ∈ getProcessList s, killId pid = some m.pid ∧ P m) ↔ P (s.processList i).metadata := by
  constructor
  · rintro ⟨m, hm, hm', hP⟩
    obtain ⟨j, hj, rfl⟩ := mem_getProcessList.mp hm
    rw [hid, Option.some.injEq, ht.pid_eq j hj, ← UInt32.toNat_inj, slot_toNat, slot_toNat] at hm'
    rw [Fin.ext hm']
    exact hP
  · intro hP
    exact ⟨_, mem_getProcessList.mpr ⟨i, hu, rfl⟩, ht.pid_eq i hu ▸ hid, hP⟩

theorem Killing.killed_iff (h : Killing s check pid) (ht : ProcessTable s) :
    (kill s check pid).1 = some killed ↔
      ∃ m ∈ getProcessList s, killId pid = some m.pid ∧ m.state ≠ .running := by
  cases h with
  | missed hno _ hput =>
    obtain ⟨put, hput, hne⟩ := hput
    refine iff_of_false (by simp [hput, hne]) ?_
    rintro ⟨m, hm, hm', -⟩
    exact hno m hm hm'
  | own _ hu hr hid hput _ =>
    rw [named_iff ht hu hid, hput]
    simp [hr]
  | other _ hu hr hid hput _ =>
    rw [named_iff ht hu hid, hput]
    simp [hr]

theorem Killing.fault_iff (h : Killing s check pid) (ht : ProcessTable s) :
    (kill s check pid).1 = none ↔
      ∃ m ∈ getProcessList s, killId pid = some m.pid ∧ m.state = .running := by
  cases h with
  | missed hno _ hput =>
    obtain ⟨put, hput, -⟩ := hput
    refine iff_of_false (by simp [hput]) ?_
    rintro ⟨m, hm, hm', -⟩
    exact hno m hm hm'
  | own _ hu hr hid hput _ =>
    rw [named_iff ht hu hid, hput]
    simp [hr]
  | other _ hu hr hid hput _ =>
    rw [named_iff ht hu hid, hput]
    simp [hr]

theorem Killing.unchanged (h : Killing s check pid) (ht : ProcessTable s)
    (hno : ∀ m ∈ getProcessList s, killId pid ≠ some m.pid) : (kill s check pid).2 = s := by
  have hfree {i : Fin processCountMax} (hu : s.pidUsed i = true) :
      killId pid ≠ some (UInt32.ofNat i) :=
    ht.pid_eq i hu ▸ hno _ (mem_getProcessList.mpr ⟨i, hu, rfl⟩)
  cases h with
  | missed _ hs _ => exact hs
  | own _ hu _ hid _ _ => exact absurd hid (hfree hu)
  | other _ hu _ hid _ _ => exact absurd hid (hfree hu)

/-- The list after a kill. -/
theorem Killing.list (h : Killing s check pid) (ht : ProcessTable s) :
    getProcessList (kill s check pid).2 =
      (getProcessList s).filter fun m => killId pid ≠ some m.pid := by
  have hdestroyed {i : Fin processCountMax} (p : PagingState) (hu : s.pidUsed i = true)
      (hid : killId pid = some (UInt32.ofNat i)) : getProcessList (destroyed s i p) =
        (getProcessList s).filter fun m => killId pid ≠ some m.pid := by
    rw [destroyed_list ht hu, hid]
    simp only [ne_eq, Option.some.injEq, eq_comm]
  cases h with
  | missed hno hs _ =>
    rw [hs]
    exact (List.filter_eq_self.mpr fun m hm => by simpa using hno m hm).symm
  | own p hu _ hid _ hs => rw [hs, hdestroyed p hu hid]
  | other p hu _ hid _ hs => rw [hs, hdestroyed p hu hid]

/-- In every state that the kernel reaches and in which a process runs in its own address space,
`kill` takes the process whose number it is given and no other. It says so where that is another
process, nothing comes back to a caller that named itself, and nothing changes when there is no such
process. The numbers that `ps` shows are those of the processes, but 10 is shown as 1. -/
theorem ps_kill (h : Run KernelStep .boot es s) (hl : LoadsRunning s)
    (hcheck : (loadedAt s.paging check).isSome = true) (pid : List UInt8) :
    ((kill s check pid).1 = some killed ↔
        ∃ m ∈ getProcessList s, killId pid = some m.pid ∧ m.state ≠ .running) ∧
      ((kill s check pid).1 = none ↔
        ∃ m ∈ getProcessList s, killId pid = some m.pid ∧ m.state = .running) ∧
      ((∀ m ∈ getProcessList s, killId pid ≠ some m.pid) → (kill s check pid).2 = s) ∧
      getProcessList (kill s check pid).2 =
        (getProcessList s).filter (fun m => killId pid ≠ some m.pid) ∧
      ∀ m ∈ getProcessList s, psLine m ∈ (ps s).2 ∧
        killId (psLine m).pid = some (if m.pid = 10 then 1 else m.pid) := by
  have ht := processTable_of_run h
  have hk := killing ht hl hcheck pid
  refine ⟨hk.killed_iff ht, hk.fault_iff ht, hk.unchanged ht, hk.list ht, fun m hm => ⟨?_, ?_⟩⟩
  · rw [ps_lines]
    exact List.mem_map_of_mem hm
  · obtain ⟨i, hu, rfl⟩ := mem_getProcessList.mp hm
    have hten : UInt32.ofNat i = 10 ↔ i.val = 10 := by
      rw [← UInt32.toNat_inj, slot_toNat]
      rfl
    simp only [psLine, ht.pid_eq i hu, killId_printInt, hten]

/-- Of two processes the first one runs and takes the second one away; had it named itself, nothing
would have come back. -/
theorem ps_kill_shell : ∃ es s, Run KernelStep .boot es s ∧ LoadsRunning s ∧
    (getProcessList s).map (·.pid) = [0, 1] ∧ (kill s 0 (text "1")).1 = some killed ∧
      (getProcessList (kill s 0 (text "1")).2).map (·.pid) = [0] ∧
      (kill s 0 (text "0")).1 = none := by
  obtain ⟨s, ctx, hrun, hs, hd⟩ := second_run
  have hctx : ctx.pageDirectoryVirtualAddr = .slot 0 := hd.ctx_eq ▸ (by decide +kernel)
  have hpaging := hd.paging_eq
  rw [hctx] at hpaging
  have hrunning := (hd.running_iff 0).mpr rfl
  have hloads : LoadsRunning s :=
    ⟨0, hrunning, by rw [hd.context_eq, hpaging]; decide +kernel⟩
  have hcheck : (loadedAt s.paging 0).isSome = true := by
    rw [hpaging]
    decide +kernel
  have hused (i : Fin processCountMax) (hi : secondCreated.pidUsed i = true) :
      (s.processList i).metadata ∈ getProcessList s :=
    mem_getProcessList.mpr ⟨i, hd.pidUsed_eq ▸ hi, rfl⟩
  have hpid (i : Fin processCountMax) : (s.processList i).metadata.pid =
      (secondCreated.processList i).metadata.pid := by
    rw [hd.process_eq, withState_pid]
  have hpids : (getProcessList s).map (·.pid) = [0, 1] := by
    rw [getProcessList, hd.pidUsed_eq, List.map_map]
    exact (List.map_congr_left fun i _ => hpid i).trans (by decide +kernel)
  have hrun' := hrun.snoc hs
  obtain ⟨hkilled, -, -, hlist, -⟩ := ps_kill hrun' hloads hcheck (text "1")
  refine ⟨_, s, hrun', hloads, hpids, hkilled.mpr ⟨_, hused 1 (by decide +kernel), ?_, ?_⟩, ?_,
    (ps_kill hrun' hloads hcheck (text "0")).2.1.mpr ⟨_, hused 0 (by decide +kernel), ?_, hrunning⟩⟩
  · rw [hpid]
    decide +kernel
  · exact fun h => absurd ((hd.running_iff 1).mp h) (by decide)
  · have hfilter := congrArg (List.filter fun p => killId (text "1") ≠ some p) hpids
    rw [List.filter_map] at hfilter
    rw [hlist]
    exact hfilter.trans (by decide)
  · rw [hpid]
    decide +kernel

end Processes

end Doors.Shell
