import Doors.AtaDisk
import Doors.Remount
import Doors.TreeRefinement

/-! `external-inserter.c`, which puts files on the disk image before the kernel ever runs. It
links the kernel's file system over a copy of the image in memory. -/

namespace Doors.Inserter

open Fat32

abbrev storageSize : Nat := 4 * 1024 * 1024

/-- `ptr` is the memory from the pointer on. -/
def readBlocks (imageStorage ptr : Nat → UInt8) (logicalBlockAddress blockCount : Nat) :
    Nat → UInt8 :=
  (List.range blockCount).foldl (fun ptr i => blit ptr (blockSize * i) blockSize fun k =>
    imageStorage (blockSize * (logicalBlockAddress + i) % 2 ^ 32 + k)) ptr

def writeBlocks (imageStorage ptr : Nat → UInt8) (logicalBlockAddress blockCount : Nat) :
    Nat → UInt8 :=
  (List.range blockCount).foldl (fun imageStorage i =>
    blit imageStorage (blockSize * (logicalBlockAddress + i) % 2 ^ 32) blockSize fun k =>
      ptr (blockSize * i + k)) imageStorage

/-- `isspace` in the C locale. -/
def isSpace (c : UInt8) : Bool := c == 0x20 || (0x09 ≤ c && c ≤ 0x0D)

/-- What `sscanf` takes from a string for `%8s`. -/
def scan8 (str : List UInt8) : List UInt8 :=
  ((str.dropWhile isSpace).takeWhile fun c => !isSpace c).take 8

/-- A command line: the first argument and the bytes of the file of that name, if it can be
opened, and the number that `sscanf` reads in the second. -/
structure Arguments where
  path : List UInt8
  target : Option (List UInt8)
  parentClusterNumber : UInt32

namespace Arguments

def name (a : Arguments) : Name := fun i => (scan8 a.path).getD i 0

def entry (a : Arguments) : Name × Ext := (a.name, fun _ => 0)

def filesize (a : Arguments) : Nat := (a.target.getD []).length

/-- `file_buffer` holds the file and, behind it, what `malloc` left there. -/
def request (a : Arguments) (fileBuffer : Nat → UInt8) : Request where
  buf := blit fileBuffer 0 a.filesize fun k => (a.target.getD []).getD k 0
  name := a.name
  ext _ := 0
  parentClusterNumber := a.parentClusterNumber
  bufferSize := UInt32.ofNat a.filesize

end Arguments

def main (root : Name) (imageStorage fileBuffer : Nat → UInt8) (a : Arguments) :
    Except Fault (Int × (Nat → UInt8)) := do
  let (retcode, s) ←
    write (initializeFilesystemFat32 root (boot imageStorage)) (a.request fileBuffer)
  return (retcode, s.disk)

def message (retcode : Int) : String :=
  if retcode = 0 then "Write success"
  else if retcode = 1 then "Error: File/folder name already exist"
  else if retcode = 2 then "Error: Invalid parent cluster"
  else "Error: Unknown error"

section Blocks

variable {mem ptr : Nat → UInt8} {lba n : Nat}

theorem block_address {i : Nat} (h : lba + n ≤ storageSize / blockSize) (hi : i < n) :
    blockSize * (lba + i) % 2 ^ 32 = blockAddress lba + blockSize * i := by
  simp only [storageSize, blockSize, blockAddress] at *
  omega

/-- The loop of `memcpy` calls writes what the drive would. -/
theorem writeBlocks_eq (h : lba + n ≤ storageSize / blockSize) :
    writeBlocks mem ptr lba n = Fat32.writeBlocks mem ptr lba n := by
  rw [writeBlocks, Fat32.writeBlocks]
  induction n with
  | zero => rw [Nat.mul_zero, Ata.blit_nil]; rfl
  | succ n ih =>
    rw [List.range_succ, List.foldl_append, ih (by omega), List.foldl_cons, List.foldl_nil,
      block_address h (Nat.lt_succ_self n), Nat.mul_succ]
    exact Ata.blit_append mem ptr blockSize (blockAddress lba) (blockSize * n)

theorem readBlocks_eq (h : lba + n ≤ storageSize / blockSize) :
    readBlocks mem ptr lba n =
      blit ptr 0 (blockSize * n) fun k => mem (blockAddress lba + k) := by
  rw [readBlocks]
  induction n with
  | zero => rw [Nat.mul_zero, Ata.blit_nil]; rfl
  | succ n ih =>
    have happend := Ata.blit_append ptr (fun k => mem (blockAddress lba + k)) blockSize 0
      (blockSize * n)
    rw [Nat.zero_add, ← Nat.mul_succ] at happend
    rw [List.range_succ, List.foldl_append, ih (by omega), List.foldl_cons, List.foldl_nil,
      block_address h (Nat.lt_succ_self n), ← happend]
    simp only [Nat.add_assoc]

theorem clusters_onImage {s : FileSystem} {c : Nat} (hc : c < clusterMapSize) :
    readBlocks s.disk mem (clusterToLba c) 4 = s.readClusters mem 0 c ∧
      writeBlocks s.disk ptr (clusterToLba c) 4 = (s.writeClusters ptr c).disk := by
  have hrange : clusterToLba c + 4 ≤ storageSize / blockSize := by
    simp only [clusterToLba, clusterBlockCount, clusterMapSize, storageSize, blockSize] at *
    omega
  exact ⟨readBlocks_eq hrange, writeBlocks_eq hrange⟩

end Blocks

/-- What an invocation puts on the disk; a file that is not there is taken for an empty one. -/
def Arguments.node (a : Arguments) : PathStore.Node (List UInt8) :=
  if a.filesize = 0 then .folder else .file (a.target.getD [])

/-- A command, what `malloc` left in its buffer, and the return code. -/
structure Invocation where
  arguments : Arguments
  fileBuffer : Nat → UInt8
  retcode : Int

namespace Invocation

def request (e : Invocation) : Request := e.arguments.request e.fileBuffer

def call (e : Invocation) : Call × Int := (.write e.request, e.retcode)

end Invocation

/-- The file is less than 4 MiB, as the source assumes, the parent is a directory of the image,
and there is room. -/
structure InsertStep (root : Name) (imageStorage : Nat → UInt8) (e : Invocation)
    (imageStorage' : Nat → UInt8) : Prop where
  filesize : e.arguments.filesize < storageSize
  admissible : (Call.write e.request).Admissible
    (initializeFilesystemFat32 root (boot imageStorage))
  main : main root imageStorage e.fileBuffer e.arguments = .ok (e.retcode, imageStorage')

section Steps

variable {root : Name} {s s' : FileSystem} {m m' : Contents} {e : Invocation}
  {es : List Invocation} {imageStorage imageStorage' : Nat → UInt8}

theorem requestNode_eq {a : Arguments} (h : a.filesize < storageSize) (fileBuffer : Nat → UInt8) :
    requestNode (a.request fileBuffer) = a.node := by
  have hsize : (UInt32.ofNat a.filesize).toNat = a.filesize :=
    UInt32.toNat_ofNat_of_lt' (h.trans (by decide))
  have hzero : UInt32.ofNat a.filesize = 0 ↔ a.filesize = 0 := by
    rw [← UInt32.toNat_inj, hsize]
    rfl
  simp only [requestNode, Arguments.node, Arguments.request, hzero, hsize]
  split_ifs with hz
  · rfl
  · refine congrArg _ (List.ext_getElem (by simp [Arguments.filesize]) fun k hk hk' => ?_)
    have hin : k < a.filesize := hk'
    simp [blit, hin, List.getElem?_eq_getElem hk']

theorem admissible_iff {t : FileSystem} (h : Unchanged s t) (request : Request) :
    (Call.write request).Admissible t ↔ (Call.write request).Admissible s := by
  rw [h.eq_buffer]
  rfl

theorem represents_unchanged {t : FileSystem} (h : Unchanged s t) (hm : Represents s m) :
    Represents t m where
  root := hm.root
  entry dir name node := by
    have hnode : nodeOf t = nodeOf s := by
      funext f
      simp only [nodeOf, fileBytes, h.readChain_eq]
    rw [hm.entry, hnode, h.eq_buffer]
    rfl

/-- What the file system that is up holds, and that it will start from its disk again. -/
structure Holds (s : FileSystem) (m : Contents) : Prop where
  represents : Represents s m
  wellFormed : WellFormed s
  formatted : isEmptyStorage s = false

theorem Holds.unchanged (h : Holds s m) (root : Name) :
    Unchanged s (initializeFilesystemFat32 root (boot s.disk)) :=
  Bootable.reboot ⟨h.wellFormed.loose, h.formatted⟩ (reboot_step root s)

/-- An invocation on an image is the call on the file system that the image is the disk of. -/
theorem Holds.insert (h : Holds s m)
    (hu : Unchanged s (initializeFilesystemFat32 root (boot imageStorage)))
    (hs : InsertStep root imageStorage e imageStorage') :
    ∃ s' m', LockStep (s, m) e.call (s', m') ∧ Holds s' m' ∧ s'.disk = imageStorage' := by
  obtain ⟨⟨code, u⟩, hwrite, hret⟩ := bind_ok hs.main
  obtain ⟨rfl, rfl⟩ : code = e.retcode ∧ u.disk = imageStorage' :=
    Prod.ext_iff.mp (Except.ok.inj hret)
  obtain ⟨s', hs', hus⟩ := hu.symm.call (show DiskCall.run _ (.write e.request) = _ from hwrite)
  have hadm := (admissible_iff hu e.request).mp hs.admissible
  have hstep : CodedStep s e.call s' := ⟨hadm, hs'⟩
  obtain ⟨m', hlock, hm', hw'⟩ := lockStep_of_step h.represents h.wellFormed hstep
  have hkeeps := write_keeps h.wellFormed.loose hadm.1 (findsCluster_of_room hadm.2) hs'
  exact ⟨s', m', hlock, ⟨hm', hw', (isEmptyStorage_congr hkeeps.boot).trans h.formatted⟩,
    hus.disk⟩

/-- What is on the disk stays where it is while more is written. -/
theorem lockStep_kept {x x' : FileSystem × Contents}
    (hrun : Run LockStep x (es.map Invocation.call) x') {path : List (Name × Ext)}
    {node : PathStore.Node (List UInt8)} (h : x.2 path = some node) : x'.2 path = some node := by
  induction es generalizing x with
  | nil =>
    cases hrun
    exact h
  | cons e es ih =>
    cases hrun with
    | cons hs hrest =>
      refine ih hrest ?_
      obtain ⟨-, op, hop, hm⟩ := hs
      cases op with
      | write dir name node' =>
        rw [← congrArg Prod.snd hm]
        exact TreeOp.runWrite_kept h
      | _ => exact hop.elim

theorem retcode_of_message {retcode : Int} (h : message retcode = "Write success") :
    retcode = 0 := by
  unfold message at h
  split_ifs at h with h0 <;> first | exact h0 | exact absurd h (by decide)

theorem lockStep_put {x x' : FileSystem × Contents} (hs : LockStep x e.call x')
    (hsize : e.arguments.filesize < storageSize) (hw : WellFormed x.1)
    (hroot : e.arguments.parentClusterNumber.toNat = rootClusterNumber)
    (hcode : e.retcode = 0) : x'.2 [e.arguments.entry] = some e.arguments.node := by
  obtain ⟨-, op, hop, hm⟩ := hs
  cases op with
  | write dir name node =>
    obtain ⟨⟨hd, rfl⟩, rfl⟩ := hop
    have hdir : dir = [] := by
      have hparent : e.request.parent = rootClusterNumber := hroot
      rw [hparent] at hd
      exact hd.path_unique hw.tree (.here _)
    subst hdir
    rw [show requestNode e.request = _ from requestNode_eq hsize e.fileBuffer] at hm
    change TreeOp.runWrite x.2 [] e.arguments.entry e.arguments.node = (e.retcode, x'.2) at hm
    rw [hcode, TreeOp.runWrite] at hm
    split_ifs at hm
    · simp at hm
    · simp at hm
    · rw [← (Prod.ext_iff.mp hm).2]
      exact PathStore.Store.put_self
  | _ => exact hop.elim

/-- The file that an invocation reports to be in the root directory is there. -/
def InRoot (m : Contents) (e : Invocation) : Prop :=
  e.arguments.parentClusterNumber = UInt32.ofNat rootClusterNumber →
    message e.retcode = "Write success" → m [e.arguments.entry] = some e.arguments.node

theorem inRoot_of_step {x x' : FileSystem × Contents} (hs : LockStep (s, m) e.call x)
    (hrest : Run LockStep x (es.map Invocation.call) x')
    (hsize : e.arguments.filesize < storageSize) (hw : WellFormed s) : InRoot x'.2 e := by
  intro hroot hmessage
  refine lockStep_kept hrest (lockStep_put hs hsize hw ?_ (retcode_of_message hmessage))
  rw [hroot]
  rfl

theorem Holds.run (h : Holds s m) (hrun : Run (InsertStep root) s.disk es imageStorage) :
    ∃ s' m', Run LockStep (s, m) (es.map Invocation.call) (s', m') ∧ Holds s' m' ∧
      s'.disk = imageStorage ∧ ∀ e ∈ es, InRoot m' e := by
  generalize hd : s.disk = disk at hrun
  induction hrun generalizing s m with
  | nil => exact ⟨s, m, .nil _, h, hd, by simp⟩
  | cons hs _ ih =>
    obtain ⟨s₁, m₁, hstep, h₁, hd₁⟩ := h.insert (hd ▸ h.unchanged root) hs
    obtain ⟨s', m', hrest, h', hd', hin⟩ := ih h₁ hd₁
    exact ⟨s', m', .cons hstep hrest, h', hd', List.forall_mem_cons.mpr
      ⟨inRoot_of_step hstep hrest hs.filesize h.wellFormed, hin⟩⟩

theorem holds_blank (root : Name) (disk : Nat → UInt8) :
    Holds (createFat32 root (boot disk)) .empty :=
  ⟨createFat32_represents root disk, createFat32_wellFormed root disk,
    createFat32_formatted root disk⟩

/-- The kernel starts from the disk with the same files. -/
theorem Holds.booted (h : Holds s m) (kernelRoot : Name) :
    Holds (initializeFilesystemFat32 kernelRoot (boot s.disk)) m := by
  have hu := h.unchanged kernelRoot
  have hformatted := (Bootable.unchanged ⟨h.wellFormed.loose, h.formatted⟩ hu).formatted
  exact ⟨represents_unchanged hu h.represents, hu.formed h.wellFormed, hformatted⟩

theorem holds_inserted (hblank : isEmptyStorage (boot imageStorage) = true) (hne : es ≠ [])
    (h : Run (InsertStep root) imageStorage es imageStorage') :
    ∃ s m, Run LockStep (createFat32 root (boot imageStorage), .empty)
        (es.map Invocation.call) (s, m) ∧
      Holds s m ∧ s.disk = imageStorage' ∧ ∀ e ∈ es, InRoot m e := by
  cases h with
  | nil => exact absurd rfl hne
  | cons hs hrest =>
    have h₀ := holds_blank root imageStorage
    have hformats : initializeFilesystemFat32 root (boot imageStorage) =
        createFat32 root (boot imageStorage) := if_pos hblank
    obtain ⟨s₁, m₁, hstep, h₁, rfl⟩ := h₀.insert (hformats ▸ .refl _) hs
    obtain ⟨s, m, hrun, h', hd, hin⟩ := h₁.run hrest
    exact ⟨s, m, .cons hstep hrun, h', hd, List.forall_mem_cons.mpr
      ⟨inRoot_of_step hstep hrun hs.filesize h₀.wellFormed, hin⟩⟩

/-- What was inserted is what the kernel finds. Whatever was on the image before, after a run of
invocations the kernel's file system holds what the same writes put into a map of paths, with the
return codes that the map gives; and every file that went into the root directory with the
message of success is there. -/
theorem inserted_found (kernelRoot : Name)
    (hblank : isEmptyStorage (boot imageStorage) = true) (hne : es ≠ [])
    (h : Run (InsertStep root) imageStorage es imageStorage') :
    ∃ s m, Run LockStep (createFat32 root (boot imageStorage), .empty)
        (es.map Invocation.call) (s, m) ∧
      Represents (initializeFilesystemFat32 kernelRoot (boot imageStorage')) m ∧
      WellFormed (initializeFilesystemFat32 kernelRoot (boot imageStorage')) ∧
      ∀ e ∈ es, InRoot m e := by
  obtain ⟨s, m, hrun, hm, rfl, hin⟩ := holds_inserted hblank hne h
  have hbooted := hm.booted kernelRoot
  exact ⟨s, m, hrun, hbooted.represents, hbooted.wellFormed, hin⟩

/-- The program `shell`, of one byte, inserted into the root directory. -/
def insertShell : Invocation := ⟨⟨[0x73, 0x68, 0x65, 0x6C, 0x6C], some [7], 2⟩, zeroBytes, 0⟩

theorem insertShell_step : isEmptyStorage (boot zeroBytes) = true ∧
    ∃ imageStorage', InsertStep (fun _ => 0) zeroBytes insertShell imageStorage' := by
  have hblank : isEmptyStorage (boot zeroBytes) = true := by decide +kernel
  have hformats : initializeFilesystemFat32 (fun _ => 0) (boot zeroBytes) =
      createFat32 (fun _ => 0) (boot zeroBytes) := if_pos hblank
  obtain ⟨s, i, cs, hs, hw, hwr⟩ := createFat32_written (fun _ => 0) zeroBytes insertShell.request
    rfl (by decide)
  refine ⟨hblank, s.disk, by decide, ?_, ?_⟩
  · rw [hformats]
    refine ⟨PointerTree.reach_root, fun _ _ => ?_⟩
    rw [createFat32_room]
    decide
  · rw [main, hformats,
      show write _ (insertShell.arguments.request insertShell.fileBuffer) = _ from hs]
    rfl

theorem inserted_found_shell : ∃ imageStorage m,
    Represents (initializeFilesystemFat32 (fun _ => 0) (boot imageStorage)) m ∧
      InRoot m insertShell := by
  obtain ⟨hblank, imageStorage, hs⟩ := insertShell_step
  obtain ⟨s, m, -, hm, -, hin⟩ := inserted_found (fun _ => 0) hblank
    (List.cons_ne_nil _ _) (.cons hs (.nil _))
  exact ⟨imageStorage, m, hm, hin _ List.mem_cons_self⟩

end Steps

end Doors.Inserter
