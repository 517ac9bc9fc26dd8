import Doors.PhysicalMemory
import Doors.ProgramPages
import Doors.Remount

/-! What a program finds in its memory: the bytes of its file at the start of its address
space, until it stores there itself. The kernel's frame and the other processes are out of
its reach. -/

namespace Doors.Fat32

open FileSystem

section Footprint

variable {s s' : FileSystem} {request : Request} {mem buf : Nat → UInt8} {code code' : Int}
  {k : Nat}

theorem readChain_behind {fuel idx c : Nat} (h : readChain s fuel mem idx c = .ok buf)
    (hk : clusterSize * (idx + fuel) ≤ k) : buf k = mem k := by
  induction fuel generalizing mem idx c with
  | zero =>
    rw [readChain] at h
    split_ifs at h
    cases h
    rfl
  | succ fuel ih =>
    rw [readChain] at h
    split_ifs at h
    · cases h
      rfl
    · obtain ⟨c', -, h⟩ := bind_ok h
      rw [ih h (by rw [show idx + 1 + fuel = idx + (fuel + 1) by omega]; exact hk), readClusters,
        blit, if_neg]
      rw [Nat.mul_add, Nat.mul_add] at hk
      omega

theorem readLoop_behind {is : List (Fin entryCount)}
    (h : readLoop s request is code = .ok (code', buf)) (hk : clusterSize * clusterMapSize ≤ k) :
    buf k = request.buf k := by
  induction is generalizing code with
  | nil =>
    cases h
    rfl
  | cons i is ih =>
    simp only [readLoop] at h
    split_ifs at h
    · exact ih h
    · cases h
      rfl
    · obtain ⟨mem, hchain, h⟩ := bind_ok h
      cases h
      exact readChain_behind hchain (by simpa using hk)
    all_goals exact ih h

/-- A read keeps what lies behind the size of the whole disk, and leaves the disk alone. -/
theorem read_behind (h : read s request = .ok (code, buf, s')) :
    (∀ k, clusterSize * clusterMapSize ≤ k → buf k = request.buf k) ∧ Unchanged s s' := by
  obtain ⟨next, -, h⟩ := bind_ok h
  split_ifs at h
  · cases h
    exact ⟨fun _ _ => rfl, rfl, rfl⟩
  · obtain ⟨⟨c, b⟩, hloop, h⟩ := bind_ok h
    cases h
    exact ⟨fun k hk => readLoop_behind hloop hk, rfl, rfl⟩

end Footprint

end Doors.Fat32

namespace Doors.Kernel

open Fat32 (FAT32DriverRequest FileSystem WellFormed Contents Represents)
open Translation (Separate latest)

section Buffers

variable {dir : PageDirectory} {p : PagingState} {d : Fin pagingDirectoryTableMaxCount}
  {v base : UInt32} {a n : Nat}

theorem virtualOf_some (h : virtualOf dir a = some v) : ∃ j, (dir j).present = true ∧
    (dir j).lowerAddress.val = a / frameBytes ∧ pageIndex v = j ∧ translate dir v = some a := by
  obtain ⟨j, hfind, rfl⟩ := Option.map_eq_some_iff.mp h
  obtain ⟨hpresent, hlower⟩ : (dir j).present = true ∧
      (dir j).lowerAddress.val = a / frameBytes := by
    simpa using List.find?_some hfind
  have hmod := Nat.mod_lt a (show 0 < frameBytes by decide)
  have hj : j.val < 1024 := j.isLt
  have hval : (UInt32.ofNat (j.val * frameBytes + a % frameBytes)).toNat =
      j.val * frameBytes + a % frameBytes := UInt32.toNat_ofNat_of_lt' (by
        simp only [frameBytes, UInt32.size] at hmod ⊢
        omega)
  have hpage : pageIndex (UInt32.ofNat (j.val * frameBytes + a % frameBytes)) = j := by
    apply Fin.ext
    rw [pageIndex_val, hval]
    simp only [frameBytes] at hmod ⊢
    omega
  refine ⟨j, hpresent, hlower, hpage, ?_⟩
  have haddr : (dir j).physical (UInt32.ofNat (j.val * frameBytes + a % frameBytes)) = a := by
    rw [PageDirectoryEntry.physical, hval, hlower, Nat.add_comm (j.val * frameBytes),
      Nat.add_mul_mod_self_right, Nat.mod_mod]
    exact Nat.div_add_mod' a frameBytes
  simp only [translate, hpage, hpresent, if_true, haddr]

/-- Bytes that are as they were behind the pointer are so in memory. -/
theorem setBuffer_kept {buf : Nat → UInt8} {mem : Memory}
    (hbuf : ∀ k, n ≤ k → buf k = bufferAt dir base mem k)
    (hv : ∀ v, virtualOf dir a = some v → n ≤ (v - base).toNat) :
    setBuffer dir base buf mem a = mem a := by
  cases h : virtualOf dir a with
  | none => simp [setBuffer, h]
  | some v =>
    obtain ⟨j, -, -, -, ht⟩ := virtualOf_some h
    rw [setBuffer, h, Option.elim_some, hbuf _ (hv v h), bufferAt, UInt32.ofNat_toNat,
      UInt32.add_comm, UInt32.sub_add_cancel, ht]
    rfl

/-- Where programs are loaded at 0, only the kernel's page maps its frame. -/
theorem Accounted.kernel_page (h : Accounted p) (hd : p.pageDirectoryUsed d = true)
    (hv : virtualOf (p.pageDirectoryList d) a = some v) (ha : a < frameBytes) :
    pageIndex v = kernelPageIndex := by
  obtain ⟨j, hpresent, hlower, rfl, -⟩ := virtualOf_some hv
  rw [Nat.div_eq_of_lt ha] at hlower
  by_contra hne
  rcases h.owned.guarded.entry d _ hne with he | ⟨h0, he⟩ | ⟨-, f, hf, he⟩
  · rw [he] at hpresent
    exact absurd hpresent (by decide)
  · have hfirst := h.first_page d hd
    rw [← h0, he] at hfirst
    exact absurd hfirst (by decide)
  · rw [he] at hlower
    exact hf (Fin.ext hlower)

end Buffers

section Runs

variable {m₀ m m' : Machine} {e : MachineEvent} {es fs : List MachineEvent}
  {i : Fin processCountMax} {d : Fin pagingDirectoryTableMaxCount} {v : UInt32} {a : Nat}

theorem Machine.Booted.sound (h : m₀.Booted) : m₀.Sound where
  table := h.kernel ▸ boot_processTable
  accounted := h.kernel ▸ boot_accounted

theorem Machine.Sound.run (h : m₀.Sound) (hrun : Run MachineStep m₀ es m) : m.Sound :=
  hrun.invariant (fun _ _ _ hs hstep => hs.step hstep) h

theorem MachineStep.disk (hw : WellFormed m.disk) (h : MachineStep m e m') :
    WellFormed m'.disk := by
  cases h with
  | load _ _ hread _ => exact (Fat32.read_behind hread).2.formed hw
  | kernel => exact hw
  | call hc => exact Fat32.callStep_wellFormed m.disk _ _ hw ⟨hc.1, _, hc.2⟩
  | store => exact hw

theorem Machine.Sound.load_kernel (hm : m.Sound) {request : FAT32DriverRequest UInt32}
    {c : Fin pagingDirectoryTableMaxCount} {buf : Nat → UInt8} (hr : LoadsAtZero request)
    (hadmits : Admits m.kernel request)
    (hc : m.kernel.paging.pageDirectoryUsed.firstClear = some c)
    (hbuf : ∀ k, 0x100000 ≤ k →
      buf k = bufferAt (loadDirectory m.kernel request c) request.buf m.memory k)
    (ha : a < frameBytes) :
    setBuffer (loadDirectory m.kernel request c) request.buf buf m.memory a = m.memory a := by
  have hq := hm.accounted.loaded hc hr hadmits.memory
  have hused : (loadedPaging (pagingCreateNewPageDirectory m.kernel.paging).2 c
      request).pageDirectoryUsed c = true := by
    rw [load_used hc, Function.update_self]
  apply setBuffer_kept hbuf
  intro v hv
  rw [loadDirectory, PagingState.directory] at hv
  have hpage := hq.kernel_page hused hv ha
  rw [hr.buf, UInt32.sub_zero, address_eq v, hpage]
  exact Nat.le_add_right_of_le (by decide)

theorem Machine.Booted.wellFormed (h₀ : m₀.Booted) (h : Run MachineStep m₀ es m) :
    WellFormed m.disk :=
  h.invariant (fun _ _ _ hw hstep => hstep.disk hw) h₀.disk

theorem LoadsAtZero.page {request : FAT32DriverRequest UInt32} (hr : LoadsAtZero request) {k : Nat}
    (hk : k < request.bufferSize.toNat) :
    (UInt32.ofNat k).toNat = k ∧
      (pageIndex (UInt32.ofNat k)).val < (requiredPageFrames request.bufferSize).toNat := by
  have hle := hr.le
  have hsize : processPageFrameCountMax * pageFrameSize.toNat = 33554432 := rfl
  have hval : (UInt32.ofNat k).toNat = k := UInt32.toNat_ofNat_of_lt' (by
    simp only [UInt32.size]
    omega)
  refine ⟨hval, ?_⟩
  rw [pageIndex_val, hval, requiredPageFrames_val]
  omega

/-- The load of a program that is found: its pages are the user's, and hold what was read. -/
theorem Machine.Sound.loaded (hm : m.Sound) {request : FAT32DriverRequest UInt32}
    (hr : LoadsAtZero request) (ha : Admits m.kernel request)
    (hc : m.kernel.paging.pageDirectoryUsed.firstClear = some d) (buf : Nat → UInt8) {k : Nat}
    (hk : k < request.bufferSize.toNat) :
    ∃ a, userTranslate ((loadedPaging (pagingCreateNewPageDirectory m.kernel.paging).2 d
        request).pageDirectoryList d) (UInt32.ofNat k) = some a ∧
      setBuffer (loadDirectory m.kernel request d) request.buf buf m.memory a = buf k := by
  obtain ⟨hval, hpage⟩ := hr.page hk
  have hq := hm.accounted.loaded hc hr ha.memory
  have hcount := hm.accounted.owned.count
  have hmem := ha.memory
  have hfew := hr.frames.2
  obtain ⟨f, hf⟩ : ∃ f, (loadedPaging (pagingCreateNewPageDirectory m.kernel.paging).2 d
      request).pageDirectoryList d (pageIndex (UInt32.ofNat k)) = .user f := load_user hc
    (by rw [hr.index]; omega) (by omega) (by rw [hr.index]; exact Nat.zero_le _)
    (by rw [hr.index]; omega)
  have hv := userTranslate_user hf
  refine ⟨_, hv, ?_⟩
  rw [loadDirectory, PagingState.directory, hq.owned.setBuffer_own _ _ _ hv, hr.buf,
    UInt32.sub_zero, hval]

/-- What a creation that succeeds did. -/
theorem Machine.Sound.created (hm : m.Sound) {request : FAT32DriverRequest UInt32} {code : Int}
    {pageDir : Option (Fin pagingDirectoryTableMaxCount)}
    (hs : MachineStep m (.kernel (.create request code processCreateSuccess (some i) pageDir)) m') :
    ∃ d buf mem, Lives m'.kernel i d ∧
      Fat32.readBack m.disk { request with buf := mem } = .ok (0, buf) ∧
      ∀ k < request.bufferSize.toNat, ∃ a, m'.user d (UInt32.ofNat k) = some a ∧
        m'.memory a = buf k := by
  cases hs with
  | @load _ d _ buf _ _ _ _ _ hadmits hd hread hs =>
    have ho := hm.table.step_outcome hs.1
    cases ho with
    | refused hne => exact absurd rfl hne
    | @created _ _ _ c _ hcode hc hi =>
      obtain rfl : d = c := Option.some.inj (hd.symm.trans hc)
      refine ⟨d, buf, _, ⟨?_, ?_⟩, hcode ▸ Fat32.readBack_of_read hread, fun k hk => ?_⟩
      · simp only [Kernel.created, Function.update_self]
      · simp only [Kernel.created, Function.update_self, setupProcess]
      · obtain ⟨a, hv, ha⟩ := hm.loaded (hs.2 _ _ _ _ _ rfl) hadmits hd buf hk
        refine ⟨a, ?_, ?_⟩
        · rw [Machine.user]
          dsimp only
          rw [created_paging, hv]
        · dsimp only
          rw [ha]
  | kernel hunread hs =>
    have ho := hm.table.step_outcome hs.1
    cases ho with
    | refused hne => exact absurd rfl hne
    | created ha _ hc _ => exact absurd (hunread _ _ _ _ _ rfl ha) (by simp [hc])

/-- What a creation read stays where it is. -/
theorem Machine.Sound.program (hm : m.Sound) {contents : Contents}
    {path : List (Fat32.Name × Fat32.Ext)}
    {request : FAT32DriverRequest UInt32} {code : Int}
    {pageDir : Option (Fin pagingDirectoryTableMaxCount)}
    (hs : MachineStep m (.kernel (.create request code processCreateSuccess (some i) pageDir)) m')
    (hreads : ∀ mem, Fat32.ReadsAs m.disk contents { request with buf := mem } path)
    {m'' : Machine} (hrun : Run (SparingMachineStep i) m' fs m'') :
    ∃ d bytes, contents path = some (.file bytes) ∧ Lives m''.kernel i d ∧
      ∀ k (hk : k < bytes.length), ∃ a, m''.user d (UInt32.ofNat k) = some a ∧
        m''.memory a = (latest (storesIn d fs) (UInt32.ofNat k)).getD bytes[k] := by
  obtain ⟨d, buf, mem, hlives, hread, hbytes⟩ := hm.created hs
  have hreads := hreads mem
  rw [Fat32.ReadsAs] at hreads
  obtain ⟨hlives', huser, hkept⟩ := (hm.step hs).memory_run hrun hlives
  split at hreads
  · next bytes hfile =>
    split_ifs at hreads with hsize
    · obtain ⟨buf', hread', hcopy⟩ := hreads
      obtain rfl : buf = buf' := by simpa using hread.symm.trans hread'
      refine ⟨d, bytes, hfile, hlives', fun k hk => ?_⟩
      obtain ⟨a, hv, ha⟩ := hbytes k (hk.trans_le hsize)
      refine ⟨a, huser ▸ hv, ?_⟩
      have hbyte : (List.range bytes.length).map buf = bytes := hcopy
      have hk' := congrArg (fun l => l[k]?) hbyte
      simp only [List.getElem?_map, List.getElem?_range hk, Option.map_some,
        List.getElem?_eq_getElem hk, Option.some.injEq] at hk'
      rw [hkept _ _ hv, ha, hk']
    · simp [hread] at hreads
  · obtain ⟨code, hne, hcode⟩ := hreads
    simp [hread] at hcode
    omega

/-- A program that was read from the disk finds the bytes of its file from address 0 on, as long
as it lives and whatever else runs, until it stores there itself. -/
theorem program_kept (h₀ : m₀.Booted) (h : Run MachineStep m₀ es m) {contents : Contents}
    (hc : Represents m.disk contents) {request : FAT32DriverRequest UInt32} {code : Int}
    {pageDir : Option (Fin pagingDirectoryTableMaxCount)}
    (hs : MachineStep m (.kernel (.create request code processCreateSuccess (some i) pageDir)) m')
    {dir : List (Fat32.Name × Fat32.Ext)} {name : Fat32.Name × Fat32.Ext}
    (hn : Fat32.Names m.disk { request with buf := Fat32.zeroBytes } dir name) {m'' : Machine}
    (hrun : Run (SparingMachineStep i) m' fs m'') :
    ∃ d bytes, contents (dir ++ [name]) = some (.file bytes) ∧ Lives m''.kernel i d ∧
      ∀ k (hk : k < bytes.length), ∃ a, m''.user d (UInt32.ofNat k) = some a ∧
        m''.memory a = (latest (storesIn d fs) (UInt32.ofNat k)).getD bytes[k] := by
  have hreads (mem : Nat → UInt8) :
      Fat32.ReadsAs m.disk contents { request with buf := mem } (dir ++ [name]) :=
    hc.reads (h₀.wellFormed h) hn
  exact (h₀.sound.run h).program hs hreads hrun

/-- A disk with the file `shell`, of one byte. -/
def shellFile : Fat32.Request := ⟨fun _ => 7, shellRequest.name, shellRequest.ext, 2, 1⟩

theorem shell_loads : LoadStep .boot (.create shellRequest 0 0 (some 0) (some 0))
    (firstCreated shellRequest) := by
  refine ⟨boot_create shell_admitted, ?_⟩
  intro request readCode result pid pageDir he
  injection he with he
  rw [← he]
  exact ⟨rfl, by decide, by decide⟩

/-- A creation that passes its checks reads its file, where the file fits. -/
theorem load_step {contents : Contents} {path : List (Fat32.Name × Fat32.Ext)}
    {request : FAT32DriverRequest UInt32} {bytes : List UInt8} {result : Int}
    {pid : Option (Fin processCountMax)} {pageDir : Option (Fin pagingDirectoryTableMaxCount)}
    {k : KernelState} (hc : Represents m.disk contents)
    (hreads : ∀ mem, Fat32.ReadsAs m.disk contents { request with buf := mem } path)
    (hfile : contents path = some (.file bytes)) (hle : bytes.length ≤ request.bufferSize.toNat)
    (ha : Admits m.kernel request) (hd : m.kernel.paging.pageDirectoryUsed.firstClear = some d)
    (hs : LoadStep m.kernel (.create request 0 result pid pageDir) k) :
    ∃ m', MachineStep m (.kernel (.create request 0 result pid pageDir)) m' ∧ m'.kernel = k ∧
      Represents m'.disk contents := by
  have hread := hreads (bufferAt (loadDirectory m.kernel request d) request.buf m.memory)
  rw [Fat32.ReadsAs, hfile] at hread
  dsimp only at hread
  rw [if_pos hle] at hread
  obtain ⟨buf, hread, -⟩ := hread
  obtain ⟨disk, hread⟩ := Fat32.read_of_readBack hread
  refine ⟨_, .load ha hd hread hs, rfl, ?_⟩
  rcases Fat32.read_disk hread with rfl | rfl
  · exact hc
  · exact hc.loadDir _

theorem shell_named (s : FileSystem) (mem : Memory) : Fat32.Names s
    { shellRequest with buf := mem } [] (shellRequest.name, shellRequest.ext) :=
  ⟨.here _, rfl⟩

/-- The shell is read from the disk and started. -/
theorem shell_machine : ∃ (s : FileSystem) (contents : Contents) (m : Machine),
    Run Fat32.CallStep (Fat32.createFat32 (fun _ => 0) (Fat32.boot Fat32.zeroBytes))
      [.write shellFile] s ∧ WellFormed s ∧ Represents s contents ∧
      contents [(shellRequest.name, shellRequest.ext)] = some (.file [7]) ∧
      MachineStep ⟨.boot, s, Fat32.zeroBytes⟩
        (.kernel (.create shellRequest 0 0 (some 0) (some 0))) m ∧
      m.kernel = firstCreated shellRequest ∧ Represents m.disk contents := by
  obtain ⟨s, contents, hrun, hw, hc, hfile⟩ := Fat32.first_write (fun _ => 0) Fat32.zeroBytes
    (show shellFile.parent = Fat32.rootClusterNumber from rfl) (by decide)
  have hreads (mem : Memory) : Fat32.ReadsAs s contents { shellRequest with buf := mem }
      [(shellRequest.name, shellRequest.ext)] := hc.reads hw (shell_named s mem)
  obtain ⟨m, hs, hk, hm⟩ := load_step (m := ⟨.boot, s, Fat32.zeroBytes⟩) hc hreads hfile
    (by decide) shell_admitted boot_directory shell_loads
  exact ⟨s, contents, m, hrun, hw, hc, hfile, hs, hk, hm⟩

theorem program_kept_shell : ∃ (m : Machine) (d : Fin pagingDirectoryTableMaxCount) (a : Nat),
    Lives m.kernel 0 d ∧ m.user d 0 = some a ∧ m.memory a = 7 := by
  obtain ⟨s, contents, m, -, hw, hc, hfile, hs, -⟩ := shell_machine
  have h₀ : Machine.Booted ⟨.boot, s, Fat32.zeroBytes⟩ := ⟨rfl, hw⟩
  obtain ⟨d, bytes, hbytes, hlives, hkept⟩ :=
    program_kept h₀ (.nil _) hc hs (shell_named s _) (.nil m)
  obtain rfl : [7] = bytes := by simpa using hfile.symm.trans hbytes
  obtain ⟨a, ha, hbyte⟩ := hkept 0 (by decide)
  exact ⟨m, d, a, hlives, ha, hbyte⟩

end Runs

end Doors.Kernel
