import Doors.ProgramMemory
import Doors.TypedCommands

/-! The command `exec` in the running system. The shell's commands change the disk while processes
are made, run and end; what is started is the file that the map of paths holds. -/

namespace Doors.Kernel

open Fat32 (FAT32DriverRequest FileSystem WellFormed Contents Represents Call CallStep createFat32
  boot Name Ext rootClusterNumber)
open Shell (ShellState Command PlainStep OnMap Stays target execRequest initial Dir)
open Translation (latest)

inductive SystemEvent
  | command (c : Command)
  | machine (e : MachineEvent)

def SystemEvent.command? : SystemEvent → Option Command
  | .command c => some c
  | .machine _ => none

/-- The calls of the driver come from the shell's commands, the rest is the machine's own. -/
inductive SystemStep (x : ShellState × Machine) : SystemEvent → ShellState × Machine → Prop
  | command {c : Command} {state : ShellState} {disk : FileSystem} :
    PlainStep (x.1, x.2.disk) c (state, disk) →
    SystemStep x (.command c) (state, { x.2 with disk := disk })
  | machine {e : MachineEvent} {m : Machine} : (∀ call code, e ≠ .call call code) →
    MachineStep x.2 e m → SystemStep x (.machine e) (x.1, m)

/-- The disk shows the map, and the kernel's tables are in order. -/
structure InOrder (x : ShellState × Machine) (y : Dir × Contents) : Prop where
  map : OnMap x.1 x.2.disk y.1 y.2
  sound : x.2.Sound

section System

variable {x x' : ShellState × Machine} {y : Dir × Contents} {e : SystemEvent}
  {es : List SystemEvent} {cs : List Command}

theorem MachineStep.disk_read {m m' : Machine} {e : MachineEvent} (h : MachineStep m e m')
    (hcall : ∀ call code, e ≠ .call call code) :
    m'.disk = m.disk ∨ ∃ d, m'.disk = m.disk.loadDir d := by
  cases h with
  | load _ _ hread _ => exact (Fat32.read_disk hread).imp_right fun hd => ⟨_, hd⟩
  | kernel _ _ => exact .inl rfl
  | call _ => exact absurd rfl (hcall _ _)
  | store _ _ => exact .inl rfl

theorem InOrder.step (h : InOrder x y) (hs : SystemStep x e x')
    (hstays : Stays y (e.command?.toList ++ cs)) :
    InOrder x' (e.command?.toList.foldl Shell.PathShell.run y) ∧
      Stays (e.command?.toList.foldl Shell.PathShell.run y) cs := by
  cases hs with
  | command hplain =>
    exact ⟨⟨Shell.command_refines h.map hplain hstays.1, h.sound.table, h.sound.accounted⟩,
      hstays.2⟩
  | machine hcall hm =>
    refine ⟨⟨?_, h.sound.step hm⟩, hstays⟩
    rcases hm.disk_read hcall with hd | ⟨d, hd⟩
    · rw [hd]
      exact h.map
    · rw [hd]
      exact h.map.loadDir d

def commandsOf (es : List SystemEvent) : List Command := es.filterMap SystemEvent.command?

theorem InOrder.run (h : InOrder x y) (hrun : Run SystemStep x es x')
    (hstays : Stays y (commandsOf es)) :
    InOrder x' ((commandsOf es).foldl Shell.PathShell.run y) := by
  induction hrun generalizing y with
  | nil => exact h
  | @cons _ _ _ e es hs _ ih =>
    have hsplit : commandsOf (e :: es) = e.command?.toList ++ commandsOf es := by
      cases e <;> rfl
    rw [hsplit] at hstays ⊢
    obtain ⟨h', hstays'⟩ := h.step hs hstays
    rw [List.foldl_append]
    exact ih h' hstays'

/-- The request of `exec` names a file that the map resolves, without its extension. -/
theorem exec_target (h : InOrder x y) {path : List UInt8} {request : FAT32DriverRequest UInt32}
    (hrequest : execRequest x.1 x.2.disk path = .ok (some request)) :
    ∃ parent name, target y.2 y.1 path = some (parent, name) ∧
      (∃ bytes, y.2 (parent ++ [name]) = some (.file bytes)) ∧
      ∀ mem, Fat32.Names x.2.disk { request with buf := mem } parent (name.1, Shell.noExt) := by
  obtain ⟨r, hr, hrequest⟩ := Fat32.bind_ok hrequest
  split_ifs at hrequest with hcode
  · cases hrequest
  · cases hrequest
    have hanswer := Shell.resolve_refines h.map.represents h.map.wellFormed h.map.plain
      h.map.workDir hr
    generalize target y.2 y.1 path = named at hanswer
    cases hanswer with
    | none hno => omega
    | @some parent name _ hparent hname hkind _ =>
      refine ⟨parent, name, rfl, ?_, fun mem => ?_⟩
      · have hzero := hkind.symm.trans (not_not.mp hcode)
        cases hnode : y.2 (parent ++ [name]) with
        | none => simp [hnode, Shell.kindCode] at hzero
        | some node =>
          cases node with
          | folder => simp [hnode, Shell.kindCode] at hzero
          | file bytes => exact ⟨bytes, rfl⟩
      · rw [hname]
        exact ⟨(Shell.request_names h.map.wellFormed hparent r.filename Shell.noExt).1, rfl⟩

/-- Whatever the shell's commands did to the disk and whichever processes came and went: a process
that `exec` starts finds the bytes that the map holds under the name it resolves, without an
extension, from address 0 on, as long as it lives and until it stores there itself. -/
theorem exec_runs (root : Name) (disk : Nat → UInt8) {calls : List Call} {d : FileSystem}
    {m : Contents} (hcalls : Run CallStep (createFat32 root (boot disk)) calls d)
    (hm : Represents d m) (memory : Memory)
    (hrun : Run SystemStep (initial, ⟨.boot, d, memory⟩) es x)
    (hstays : Stays ([], m) (commandsOf es)) {path : List UInt8}
    {request : FAT32DriverRequest UInt32}
    (hrequest : execRequest x.1 x.2.disk path = .ok (some request)) {code : Int}
    {i : Fin processCountMax} {pageDir : Option (Fin pagingDirectoryTableMaxCount)} {m' : Machine}
    (hs : MachineStep x.2 (.kernel (.create request code processCreateSuccess (some i) pageDir))
      m') :
    ∃ parent name bytes,
      target ((commandsOf es).foldl Shell.PathShell.run ([], m)).2
        ((commandsOf es).foldl Shell.PathShell.run ([], m)).1 path = some (parent, name) ∧
      (∃ found, ((commandsOf es).foldl Shell.PathShell.run ([], m)).2 (parent ++ [name]) =
        some (.file found)) ∧
      ((commandsOf es).foldl Shell.PathShell.run ([], m)).2 (parent ++ [(name.1, Shell.noExt)]) =
        some (.file bytes) ∧
      ∀ fs m'', Run (SparingMachineStep i) m' fs m'' → ∃ c, Lives m''.kernel i c ∧
        ∀ k (hk : k < bytes.length), ∃ a, m''.user c (UInt32.ofNat k) = some a ∧
          m''.memory a = (latest (storesIn c fs) (UInt32.ofNat k)).getD bytes[k] := by
  have hmap := Shell.onMap_start root disk hcalls hm
  have hbooted : Machine.Booted ⟨.boot, d, memory⟩ := ⟨rfl, hmap.wellFormed⟩
  have h := InOrder.run ⟨hmap, hbooted.sound⟩ hrun hstays
  obtain ⟨parent, name, htarget, hfound, hnames⟩ := exec_target h hrequest
  have hreads := fun mem => h.map.represents.reads h.map.wellFormed (hnames mem)
  obtain ⟨-, bytes, hbytes, -, -⟩ := h.sound.program hs hreads (.nil m')
  refine ⟨parent, name, bytes, htarget, hfound, hbytes, fun fs m'' hlater => ?_⟩
  obtain ⟨c, bytes', hbytes', hlives, hkept⟩ := h.sound.program hs hreads hlater
  obtain rfl : bytes = bytes' := by simpa using hbytes.symm.trans hbytes'
  exact ⟨c, hlives, hkept⟩

theorem shell_target (m : Contents) : target m [] (Shell.text "shell") =
    some ([], (shellRequest.name, shellRequest.ext)) := by
  rw [show (shellRequest.name, shellRequest.ext) =
    (Shell.toName (Shell.text "shell"), Shell.toExt []) by decide]
  rfl

theorem execRequest_shell {s : FileSystem} {m : Contents} (h : OnMap initial s [] m)
    {bytes : List UInt8} (hfile : m [(shellRequest.name, shellRequest.ext)] = some (.file bytes)) :
    execRequest initial s (Shell.text "shell") = .ok (some shellRequest) := by
  have hname : (Shell.toName (Shell.text "shell"), Shell.toExt []) =
      (shellRequest.name, shellRequest.ext) := by decide
  obtain ⟨r, hr, hfilename, hparent⟩ : ∃ r,
      Shell.getCurrAndParentCluster s (Shell.text "shell") initial.workDir = .ok r ∧
        r.filename = Shell.toName (Shell.text "shell") ∧ r.parentCluster = rootClusterNumber := by
    rw [Shell.resolve_row (by rfl) (by rfl) (by decide)]
    cases Shell.findEntry (Shell.readTable s initial.workDir) (Shell.toName (Shell.text "shell"))
      (Shell.toExt []) <;> exact ⟨_, rfl, rfl, rfl⟩
  have hanswer := Shell.resolve_refines h.represents h.wellFormed h.plain h.workDir hr
  rw [shell_target] at hanswer
  cases hanswer with
  | some _ _ hcode _ =>
    have hzero : r.code = 0 := by rw [hcode, List.nil_append, hfile, Shell.kindCode]
    have hsame : r.filename = shellRequest.name := hfilename.trans (congrArg Prod.fst hname)
    simp only [execRequest, bind, Except.bind, hr, hzero, hparent, hsame]
    rfl

/-- `exec shell` on a disk with the shell. -/
theorem exec_runs_shell : ∃ (m : Machine) (c : Fin pagingDirectoryTableMaxCount) (a : Nat),
    Lives m.kernel 0 c ∧ m.user c 0 = some a ∧ m.memory a = 7 := by
  obtain ⟨s, contents, m, hcalls, hw, hc, hfile, hs, -⟩ := shell_machine
  have h := Shell.onMap_start (fun _ => 0) Fat32.zeroBytes hcalls hc
  obtain ⟨parent, name, bytes, htarget, -, hbytes, hruns⟩ := exec_runs (fun _ => 0)
    Fat32.zeroBytes hcalls hc Fat32.zeroBytes (.nil _) trivial (execRequest_shell h hfile) hs
  obtain ⟨rfl, rfl⟩ : parent = [] ∧ name = (shellRequest.name, shellRequest.ext) := by
    have hnamed : target contents [] (Shell.text "shell") =
        some ([], (shellRequest.name, shellRequest.ext)) := shell_target contents
    simpa using htarget.symm.trans hnamed
  obtain rfl : [7] = bytes := by simpa using hfile.symm.trans hbytes
  obtain ⟨c, hlives, hkept⟩ := hruns [] m (.nil m)
  obtain ⟨a, ha, hbyte⟩ := hkept 0 (by decide)
  exact ⟨m, c, a, hlives, ha, hbyte⟩

end System

end Doors.Kernel
