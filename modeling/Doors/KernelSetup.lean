import Doors.Inserter
import Doors.ProgramMemory

/-! `kernel_setup` on a disk that the inserter filled: the shell that was inserted is the program
of the first process. -/

namespace Doors.Kernel

open Fat32 (Represents WellFormed initializeFilesystemFat32 boot isEmptyStorage FileSystem)
open Inserter (Invocation InsertStep message)
open Translation (latest)

/-- The kernel before it creates the shell, its file system set up from the disk. -/
def kernelSetup (root : Fat32.Name) (storage : Nat → UInt8) (memory : Memory) : Machine :=
  ⟨.boot, initializeFilesystemFat32 root (boot storage), memory⟩

section Setup

variable {s : FileSystem} {contents : Fat32.Contents} {path : List (Fat32.Name × Fat32.Ext)}
  {bytes : List UInt8}

/-- No file of the disk is larger than the shell's buffer. -/
theorem file_length_le (hw : WellFormed s) (hm : Represents s contents)
    (hfile : contents path = some (.file bytes)) : bytes.length ≤ 0x100000 := by
  rcases path.eq_nil_or_concat' with rfl | ⟨dir, name, rfl⟩
  · rw [hm.root] at hfile
    cases hfile
  · obtain ⟨d, i, hd, hi, -, hnode⟩ := (hm.entry dir name _).mp hfile
    have hlive := hd.reach PointerTree.reach_root
    rw [Fat32.nodeOf] at hnode
    split_ifs at hnode with hsub
    have hslot : Fat32.FileSlot s d i := ⟨hi, by simpa using hsub⟩
    obtain ⟨l, hl, hnd, hfits, -, hr⟩ := hw.file_chain hlive hslot
    have hcap := Fat32.chain_length_le hnd fun c hc => (hr c hc).2
    have hlen : bytes.length = (s.table d i).filesize.toNat := by
      rw [← PathStore.Node.file.inj hnode, Fat32.fileBytes_length hw hlive hslot]
    have hcount := Fat32.le_clusterCount (s.table d i).filesize.toNat
    simp only [Fat32.clusterMapSize, Fat32.clusterSize, Fat32.blockSize, Fat32.clusterBlockCount]
      at hcap hcount
    omega

/-- A file that an invocation put into the root directory under the name of the shell is what the
shell's process runs: it finds its bytes from address 0 on as long as it lives and whatever else
runs, until it stores there itself. -/
theorem inserted_shell_runs (root kernelRoot : Fat32.Name) {imageStorage storage : Memory}
    (hblank : isEmptyStorage (boot imageStorage) = true) {es : List Invocation}
    (h : Run (InsertStep root) imageStorage es storage) {e : Invocation} (he : e ∈ es)
    (hname : e.arguments.entry = (shellRequest.name, shellRequest.ext))
    (hparent : e.arguments.parentClusterNumber = shellRequest.parentClusterNumber)
    (hmessage : message e.retcode = "Write success") (hfile : e.arguments.target = some bytes)
    (hne : bytes ≠ []) (memory : Memory) :
    ∃ m, MachineStep (kernelSetup kernelRoot storage memory)
        (.kernel (.create shellRequest 0 processCreateSuccess (some 0) (some 0))) m ∧
      ∀ m' fs, Run (SparingMachineStep 0) m fs m' → ∃ d, Lives m'.kernel 0 d ∧
        ∀ k (hk : k < bytes.length), ∃ a, m'.user d (UInt32.ofNat k) = some a ∧
          m'.memory a = (latest (storesIn d fs) (UInt32.ofNat k)).getD bytes[k] := by
  obtain ⟨s, contents, -, hm, rfl, hin⟩ :=
    Inserter.holds_inserted hblank (List.ne_nil_of_mem he) h
  have hbooted := hm.booted kernelRoot
  unfold kernelSetup
  generalize initializeFilesystemFat32 kernelRoot (boot s.disk) = disk at hbooted ⊢
  have h₀ : Machine.Booted ⟨.boot, disk, memory⟩ := ⟨rfl, hbooted.wellFormed⟩
  have hshell : contents [(shellRequest.name, shellRequest.ext)] = some (.file bytes) := by
    rw [← hname, hin e he hparent hmessage, Inserter.Arguments.node, Inserter.Arguments.filesize,
      hfile, Option.getD_some, if_neg (mt List.length_eq_zero_iff.mp hne)]
  have hreads (mem : Memory) : Fat32.ReadsAs disk contents { shellRequest with buf := mem }
      [(shellRequest.name, shellRequest.ext)] :=
    hbooted.represents.reads hbooted.wellFormed (shell_named disk mem)
  obtain ⟨m, hstep, -⟩ := load_step (m := ⟨.boot, disk, memory⟩) hbooted.represents hreads hshell
    (file_length_le hbooted.wellFormed hbooted.represents hshell) shell_admitted boot_directory
    shell_loads
  refine ⟨m, hstep, fun m' fs hrun => ?_⟩
  obtain ⟨d, bytes', hbytes, hlives, hkept⟩ := h₀.sound.program hstep hreads hrun
  obtain rfl : bytes = bytes' := by simpa [hshell] using hbytes
  exact ⟨d, hlives, hkept⟩

theorem inserted_shell_runs_insertShell : ∃ (storage : Memory) (m : Machine),
    MachineStep (kernelSetup (fun _ => 0) storage Fat32.zeroBytes)
      (.kernel (.create shellRequest 0 processCreateSuccess (some 0) (some 0))) m ∧
    ∃ d a, Lives m.kernel 0 d ∧ m.user d 0 = some a ∧ m.memory a = 7 := by
  obtain ⟨hblank, storage, hs⟩ := Inserter.insertShell_step
  obtain ⟨m, hstep, hruns⟩ := inserted_shell_runs (fun _ => 0) (fun _ => 0) hblank
    (.cons hs (.nil storage)) List.mem_cons_self (by decide) rfl rfl rfl (List.cons_ne_nil _ _)
    Fat32.zeroBytes
  obtain ⟨d, hlives, hbytes⟩ := hruns m [] (.nil m)
  obtain ⟨a, ha, hbyte⟩ := hbytes 0 (by decide)
  exact ⟨storage, m, hstep, d, a, hlives, ha, hbyte⟩

end Setup

end Doors.Kernel
