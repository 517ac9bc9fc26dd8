import Doors.Paging
import Doors.FatDriver

/-! Processes and the scheduler, function by function, and the steps of the kernel:
system calls that create and destroy processes, dispatches and timer interrupts.
What `read` returns for a new process is an argument. -/

namespace Doors.Kernel

open Fat32 (FAT32DriverRequest)

abbrev processCountMax : Nat := 16

instance processCountMax_neZero : NeZero processCountMax := ⟨by decide⟩

abbrev processPageFrameCountMax : Nat := 8

abbrev gdtUserDataSegmentSelector : UInt32 := 0x20

abbrev cpuEflagsBaseFlag : UInt32 := 0x2

abbrev cpuEflagsFlagInterruptEnable : UInt32 := 0x200

/-- `CPURegister`, its groups `index`, `stack`, `general` and `segment` in one record. -/
structure CPURegister where
  edi : UInt32
  esi : UInt32
  ebp : UInt32
  esp : UInt32
  ebx : UInt32
  edx : UInt32
  ecx : UInt32
  eax : UInt32
  gs : UInt32
  fs : UInt32
  es : UInt32
  ds : UInt32
  deriving DecidableEq

structure Context where
  cpu : CPURegister
  eip : UInt32
  eflags : UInt32
  pageDirectoryVirtualAddr : PageDirectoryPtr
  deriving DecidableEq

/-- The part of an interrupt frame that the timer handler reads. -/
structure InterruptFrame where
  cpu : CPURegister
  eip : UInt32
  eflags : UInt32

inductive ProcessState
  | blocked
  | ready
  | running
  deriving DecidableEq

structure ProcessMetadata where
  pid : UInt32
  state : ProcessState
  processName : Fat32.Name

structure ProcessMemory where
  virtualAddrUsed : Fin processPageFrameCountMax → UInt32
  pageFrameUsedCount : UInt32

structure ProcessControlBlock where
  metadata : ProcessMetadata
  context : Context
  memory : ProcessMemory

/-- A record after `memset` to zero. -/
def ProcessControlBlock.zero : ProcessControlBlock where
  metadata := ⟨0, .blocked, fun _ => 0⟩
  context := ⟨⟨0, 0, 0, 0, 0, 0, 0, 0, 0, 0, 0, 0⟩, 0, 0, .null⟩
  memory := ⟨fun _ => 0, 0⟩

def ProcessControlBlock.withState (pcb : ProcessControlBlock) (state : ProcessState) :
    ProcessControlBlock :=
  { pcb with metadata := { pcb.metadata with state } }

section WithState

variable (pcb : ProcessControlBlock) (state : ProcessState)

@[simp] theorem withState_context : (pcb.withState state).context = pcb.context := rfl

@[simp] theorem withState_state : (pcb.withState state).metadata.state = state := rfl

@[simp] theorem withState_pid : (pcb.withState state).metadata.pid = pcb.metadata.pid := rfl

end WithState

structure KernelState where
  paging : PagingState
  processList : Fin processCountMax → ProcessControlBlock
  activeProcessCount : UInt32
  pidUsed : Bitmap processCountMax

namespace KernelState

def setProcess (s : KernelState) (i : Fin processCountMax) (pcb : ProcessControlBlock) :
    KernelState :=
  { s with processList := Function.update s.processList i pcb }

def setState (s : KernelState) (i : Fin processCountMax) (state : ProcessState) : KernelState :=
  s.setProcess i ((s.processList i).withState state)

def boot : KernelState where
  paging := .boot
  processList _ := .zero
  activeProcessCount := 0
  pidUsed _ := false

end KernelState

abbrev processCreateSuccess : Int := 0

abbrev processCreateFailMaxProcessExceeded : Int := 1

abbrev processCreateFailInvalidEntrypoint : Int := 2

abbrev processCreateFailNotEnoughMemory : Int := 3

abbrev processCreateFailFsReadFailure : Int := 4

/-- `none` stands for the index -1. -/
def processListGetInactiveIndex (s : KernelState) : Option (Fin processCountMax) :=
  s.pidUsed.firstClear

/-- The loop that maps the pages of a new process. -/
def allocatePages (pageDir : Fin pagingDirectoryTableMaxCount) (buf : UInt32) (count : Nat)
    (s : PagingState) : PagingState :=
  (List.range count).foldl
    (fun s i => (pagingAllocateUserPageFrame s pageDir (buf + UInt32.ofNat i * pageFrameSize)).2) s

/-- The fields that `process_create_user_process` sets in the record of its slot. -/
def setupProcess (pcb : ProcessControlBlock) (request : FAT32DriverRequest UInt32)
    (pageDir : Fin pagingDirectoryTableMaxCount) (pIndex : Fin processCountMax) :
    ProcessControlBlock where
  metadata := ⟨UInt32.ofNat pIndex, .ready, request.name⟩
  context :=
    { pcb.context with
      eflags := pcb.context.eflags ||| (cpuEflagsBaseFlag ||| cpuEflagsFlagInterruptEnable)
      pageDirectoryVirtualAddr := .slot pageDir
      cpu :=
        { pcb.context.cpu with
          ds := gdtUserDataSegmentSelector
          es := gdtUserDataSegmentSelector
          fs := gdtUserDataSegmentSelector
          gs := gdtUserDataSegmentSelector
          esp := pageFrameSize } }
  memory :=
    { virtualAddrUsed := fun i =>
        if i.val < (requiredPageFrames request.bufferSize).toNat then
          request.buf + UInt32.ofNat i * pageFrameSize
        else pcb.memory.virtualAddrUsed i
      pageFrameUsedCount := requiredPageFrames request.bufferSize }

/-- `none` stands for a store at `_process_list[-1]`. -/
def processCreateUserProcess (s : KernelState) (request : FAT32DriverRequest UInt32)
    (readCode : Int) : Option (Int × KernelState) :=
  if s.activeProcessCount ≥ UInt32.ofNat processCountMax then
    some (processCreateFailMaxProcessExceeded, s)
  else if request.buf ≥ kernelVirtualAddressBase then
    some (processCreateFailInvalidEntrypoint, s)
  else if !pagingAllocateCheck s.paging request.bufferSize ∨
      requiredPageFrames request.bufferSize > UInt32.ofNat processPageFrameCountMax then
    some (processCreateFailNotEnoughMemory, s)
  else match pagingCreateNewPageDirectory s.paging with
    | (none, p) => some (processCreateFailNotEnoughMemory, { s with paging := p })
    | (some newPageDir, p) =>
      let currDir := pagingGetCurrentPageDirectoryAddr p
      let p := pagingUsePageDirectory p (.slot newPageDir)
      let p := allocatePages newPageDir request.buf (requiredPageFrames request.bufferSize).toNat p
      if readCode ≠ 0 then
        some (processCreateFailFsReadFailure, { s with paging := pagingUsePageDirectory p currDir })
      else match processListGetInactiveIndex s with
        | none => none
        | some pIndex =>
          let s := { s with
            paging := p
            activeProcessCount := s.activeProcessCount + 1
            pidUsed := Function.update s.pidUsed pIndex true }
          let s := s.setProcess pIndex (setupProcess (s.processList pIndex) request newPageDir pIndex)
          some (processCreateSuccess, { s with paging := pagingUsePageDirectory s.paging currDir })

def processGetCurrentRunningPcbPointer (s : KernelState) : Option (Fin processCountMax) :=
  (List.finRange processCountMax).find? fun i =>
    s.pidUsed i && (s.processList i).metadata.state = .running

def processDestroy (s : KernelState) (pid : UInt32) : Bool × KernelState :=
  if h : pid.toNat < processCountMax then
    let i : Fin processCountMax := ⟨pid.toNat, h⟩
    if !s.pidUsed i then (false, s)
    else
      let s := s.setState i .blocked
      let (check, p) :=
        pagingFreePageDirectory s.paging (s.processList i).context.pageDirectoryVirtualAddr
      let s := { s with paging := p }
      if !check then (false, s)
      else
        let s := s.setProcess i .zero
        (true, { s with
          pidUsed := Function.update s.pidUsed i false
          activeProcessCount := s.activeProcessCount - 1 })
  else (false, s)

def processExit (s : KernelState) : KernelState :=
  match processGetCurrentRunningPcbPointer s with
  | none => s
  | some i => (processDestroy s (s.processList i).metadata.pid).2

/-- The entries of `metadata_list` below its `size`. -/
def getProcessList (s : KernelState) : List ProcessMetadata :=
  ((List.finRange processCountMax).filter fun i => s.pidUsed i).map fun i =>
    (s.processList i).metadata

def schedulerSaveContextToCurrentRunningPcb (s : KernelState) (ctx : Context) : KernelState :=
  match processGetCurrentRunningPcbPointer s with
  | none => s
  | some i =>
    s.setProcess i { s.processList i with
      context := { (s.processList i).context with
        cpu := ctx.cpu
        eip := ctx.eip
        eflags := ctx.eflags } }

/-- The search of the scheduler: at most `cnt` steps from `idx` to a ready slot. -/
def nextReady (s : KernelState) : Nat → Fin processCountMax → Fin processCountMax
  | 0, idx => idx
  | cnt + 1, idx =>
    if (s.processList idx).metadata.state = .ready then idx else nextReady s cnt (idx + 1)

/-- The slot that is dispatched and the context given to `process_context_switch`. -/
def schedulerSwitchToNextProcess (s : KernelState) : Fin processCountMax × Context × KernelState :=
  let (idx, s) :=
    match processGetCurrentRunningPcbPointer s with
    | none => ((0 : Fin processCountMax), s)
    | some i =>
      (Fin.ofNat processCountMax ((s.processList i).metadata.pid + 1).toNat, s.setState i .ready)
  let next := nextReady s processCountMax idx
  let s := s.setState next .running
  let ctx := (s.processList next).context
  (next, ctx, { s with paging := pagingUsePageDirectory s.paging ctx.pageDirectoryVirtualAddr })

/-- The timer branch of `main_interrupt_handler`. `ctx.page_directory_virtual_addr` is not set there. -/
def timerInterrupt (s : KernelState) (frame : InterruptFrame) :
    Fin processCountMax × Context × KernelState :=
  schedulerSwitchToNextProcess <|
    schedulerSaveContextToCurrentRunningPcb s ⟨frame.cpu, frame.eip, frame.eflags, .wild⟩

/-- The request of `kernel_setup`; its name is `shell`. -/
def shellRequest : FAT32DriverRequest UInt32 where
  buf := 0
  name i := [0x73, 0x68, 0x65, 0x6C, 0x6C].getD i 0
  ext _ := 0
  parentClusterNumber := 2
  bufferSize := 0x100000

/-- What happens in a run, with what can be observed of it. -/
inductive Event
  | create (request : FAT32DriverRequest UInt32) (readCode result : Int)
      (pid : Option (Fin processCountMax)) (pageDir : Option (Fin pagingDirectoryTableMaxCount))
  | destroy (pid : UInt32) (ok : Bool)
  | exit
  | dispatch (pid : Fin processCountMax) (ctx : Context)
  | timer (frame : InterruptFrame) (pid : Fin processCountMax) (ctx : Context)

/-- The process and the context of an event that dispatches. -/
def Event.dispatched : Event → Option (Fin processCountMax × Context)
  | .dispatch pid ctx => some (pid, ctx)
  | .timer _ pid ctx => some (pid, ctx)
  | _ => none

def KernelState.HasLive (s : KernelState) : Prop := ∃ i, s.pidUsed i = true

/-- One step. The scheduler is only entered while a process is live. -/
inductive KernelStep (s : KernelState) : Event → KernelState → Prop
  | create {request : FAT32DriverRequest UInt32} {readCode result : Int} {s' : KernelState} :
    processCreateUserProcess s request readCode = some (result, s') →
    KernelStep s (.create request readCode result (processListGetInactiveIndex s)
      (pagingCreateNewPageDirectory s.paging).1) s'
  | destroy {pid : UInt32} {ok : Bool} {s' : KernelState} :
    processDestroy s pid = (ok, s') → KernelStep s (.destroy pid ok) s'
  | exit : KernelStep s .exit (processExit s)
  | dispatch {pid : Fin processCountMax} {ctx : Context} {s' : KernelState} :
    s.HasLive → schedulerSwitchToNextProcess s = (pid, ctx, s') →
    KernelStep s (.dispatch pid ctx) s'
  | timer {frame : InterruptFrame} {pid : Fin processCountMax} {ctx : Context} {s' : KernelState} :
    s.HasLive → timerInterrupt s frame = (pid, ctx, s') → KernelStep s (.timer frame pid ctx) s'

end Doors.Kernel
