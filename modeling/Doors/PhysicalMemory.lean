import Doors.FrameRuns
import Doors.TreeRefinement
import Doors.Translation

/-! The machine under the processes: physical memory behind their page directories, next to
the kernel's tables and the disk. A program is read into the frames of its new directory, and
from then on only what its own directory reaches can change it. -/

namespace Doors.Kernel

open Fat32 (FAT32DriverRequest FileSystem Call CodedStep WellFormed)
open Translation (Faithful Separate latest)

abbrev Memory := Nat → UInt8

abbrev frameBytes : Nat := 0x400000

def PageDirectoryEntry.physical (e : PageDirectoryEntry) (v : UInt32) : Nat :=
  e.lowerAddress.val * frameBytes + v.toNat % frameBytes

/-- The address behind a virtual one for the kernel. -/
def translate (dir : PageDirectory) (v : UInt32) : Option Nat :=
  let e := dir (pageIndex v)
  if e.present then some (e.physical v) else none

/-- The physical address behind a pointer of a process, whose directory is in CR3. -/
def loadedAt (p : PagingState) (v : UInt32) : Option Nat :=
  match p.cr3 with
  | .slot d => translate (p.pageDirectoryList d) v
  | _ => none

/-- The address behind a virtual one for a program that stores there. -/
def userTranslate (dir : PageDirectory) (v : UInt32) : Option Nat :=
  let e := dir (pageIndex v)
  if e.userAccessible && e.flag.writeBit then some (e.physical v) else none

def virtualOf (dir : PageDirectory) (a : Nat) : Option UInt32 :=
  ((List.finRange pageEntryCount).find? fun j =>
    (dir j).present && (dir j).lowerAddress.val = a / frameBytes).map fun j =>
      UInt32.ofNat (j.val * frameBytes + a % frameBytes)

def bufferAt (dir : PageDirectory) (base : UInt32) (mem : Memory) : Nat → UInt8 := fun k =>
  (translate dir (base + UInt32.ofNat k)).elim 0 mem

/-- The memory when the bytes behind a pointer are those of `buf`. -/
def setBuffer (dir : PageDirectory) (base : UInt32) (buf : Nat → UInt8) (mem : Memory) : Memory :=
  fun a => (virtualOf dir a).elim (mem a) fun v => buf (v - base).toNat

structure Machine where
  kernel : KernelState
  disk : FileSystem
  memory : Memory

def PagingState.directory (p : PagingState) (d : Fin pagingDirectoryTableMaxCount) :
    PageDirectory := p.pageDirectoryList d

/-- The directory under which `process_create_user_process` reads the program. -/
def loadDirectory (s : KernelState) (request : FAT32DriverRequest UInt32)
    (d : Fin pagingDirectoryTableMaxCount) : PageDirectory :=
  (loadedPaging (pagingCreateNewPageDirectory s.paging).2 d request).directory d

inductive MachineEvent
  | kernel (e : Event)
  | call (call : Call) (code : Int)
  | store (dir : Fin pagingDirectoryTableMaxCount) (v : UInt32) (b : UInt8)

/-- The creation does not come to its read. -/
def Unread (s : KernelState) (e : Event) : Prop :=
  ∀ request readCode result pid pageDir, e = .create request readCode result pid pageDir →
    Admits s request → s.paging.pageDirectoryUsed.firstClear = none

/-- One step of the machine. A creation that passes its checks reads the program into its own
pages. A store, by a program or by a system call on a pointer of the program, goes through the
directory in CR3 to a page of the user. -/
inductive MachineStep (m : Machine) : MachineEvent → Machine → Prop
  | load {request : FAT32DriverRequest UInt32} {d : Fin pagingDirectoryTableMaxCount} {code : Int}
      {buf : Nat → UInt8} {disk : FileSystem} {result : Int} {pid : Option (Fin processCountMax)}
      {pageDir : Option (Fin pagingDirectoryTableMaxCount)} {k : KernelState} :
    Admits m.kernel request → m.kernel.paging.pageDirectoryUsed.firstClear = some d →
    Fat32.read m.disk { request with
      buf := bufferAt (loadDirectory m.kernel request d) request.buf m.memory } =
        .ok (code, buf, disk) →
    LoadStep m.kernel (.create request code result pid pageDir) k →
    MachineStep m (.kernel (.create request code result pid pageDir))
      ⟨k, disk, setBuffer (loadDirectory m.kernel request d) request.buf buf m.memory⟩
  | kernel {e : Event} {k : KernelState} : Unread m.kernel e → LoadStep m.kernel e k →
    MachineStep m (.kernel e) ⟨k, m.disk, m.memory⟩
  | call {call : Call} {code : Int} {disk : FileSystem} : CodedStep m.disk (call, code) disk →
    MachineStep m (.call call code) ⟨m.kernel, disk, m.memory⟩
  | store {dir : Fin pagingDirectoryTableMaxCount} {v : UInt32} {b : UInt8} {a : Nat} :
    m.kernel.paging.cr3 = .slot dir →
    userTranslate (m.kernel.paging.pageDirectoryList dir) v = some a →
    MachineStep m (.store dir v b) ⟨m.kernel, m.disk,
      Translation.store (userTranslate (m.kernel.paging.pageDirectoryList dir)) m.memory v b⟩

def storesIn (d : Fin pagingDirectoryTableMaxCount) (es : List MachineEvent) :
    List (UInt32 × UInt8) :=
  es.filterMap fun | .store c v b => if c = d then some (v, b) else none | _ => none

/-- A machine as the loader hands it over, with any disk in good order. -/
structure Machine.Booted (m : Machine) : Prop where
  kernel : m.kernel = .boot
  disk : WellFormed m.disk

section Entries

variable {p : PagingState} {d c : Fin pagingDirectoryTableMaxCount} {dir : PageDirectory}
  {v w : UInt32} {a : Nat} {f : Fin pageFrameMaxCount}

theorem translate_freed (v : UInt32) :
    translate ((pagingFreePageDirectory p (.slot d)).2.pageDirectoryList d) v = none := by
  have hfreed : EntriesFreed p (pagingFreePageDirectory p (.slot d)).2 d _ := freeDirectory_freed
  have habsent : ((pagingFreePageDirectory p (.slot d)).2.pageDirectoryList d
      (pageIndex v)).present = false := by
    by_cases hr : pageIndex v = kernelPageIndex ∨ Released p d (pageIndex v)
    · rw [hfreed.cleared _ (List.mem_finRange _) hr]
      rfl
    · rw [not_or] at hr
      rw [hfreed.kept _ (.inr hr)]
      simpa [Released, hr.1] using hr.2
  simp [translate, habsent]

theorem address_eq (v : UInt32) :
    v.toNat = (pageIndex v).val * frameBytes + v.toNat % frameBytes := by
  rw [pageIndex_val]
  exact (Nat.div_add_mod' v.toNat frameBytes).symm

/-- What the user reaches is a frame other than the kernel's. -/
theorem Guarded.user_entry (h : Guarded p) {j : Fin pageEntryCount}
    (hu : (p.pageDirectoryList d j).userAccessible = true) :
    ∃ f, f ≠ 0 ∧ p.pageDirectoryList d j = .user f := by
  have hzero : p.pageDirectoryList d j ≠ .zero := by
    rintro he
    simp [he] at hu
  have hkernel : p.pageDirectoryList d j ≠ .kernel := by
    rintro he
    simp [he] at hu
  by_cases hj : j = kernelPageIndex
  · subst hj
    cases hd : p.pageDirectoryUsed d with
    | false => exact absurd (h.unused_zero d hd _) hzero
    | true => exact absurd (h.kernel_entry d hd) hkernel
  · rcases h.entry d j hj with he | ⟨-, he⟩ | ⟨-, f, hf, he⟩
    · exact absurd he hzero
    · exact absurd he hkernel
    · exact ⟨f, hf, he⟩

theorem userTranslate_user (h : dir (pageIndex v) = .user f) :
    userTranslate dir v = some (f.val * frameBytes + v.toNat % frameBytes) := by
  simp only [userTranslate, h]
  rfl

theorem Guarded.userTranslate_some (h : Guarded p)
    (hv : userTranslate (p.pageDirectoryList d) v = some a) :
    ∃ f, f ≠ 0 ∧ p.pageDirectoryList d (pageIndex v) = .user f ∧
      a = f.val * frameBytes + v.toNat % frameBytes := by
  have hu : (p.pageDirectoryList d (pageIndex v)).userAccessible = true := by
    by_contra hu
    simp [userTranslate, hu] at hv
  obtain ⟨f, hf, he⟩ := h.user_entry hu
  refine ⟨f, hf, he, ?_⟩
  rw [userTranslate_user he] at hv
  exact (Option.some.inj hv).symm

theorem frame_eq {f g : Fin pageFrameMaxCount} {x y : Nat}
    (h : f.val * frameBytes + x % frameBytes = g.val * frameBytes + y % frameBytes) :
    f = g ∧ x % frameBytes = y % frameBytes := by
  have hx := Nat.mod_lt x (show frameBytes > 0 by decide)
  have hy := Nat.mod_lt y (show frameBytes > 0 by decide)
  have hfg : f.val = g.val := by
    have hd := congrArg (· / frameBytes) h
    simpa [Nat.add_comm, Nat.add_mul_div_right _ _ (show 0 < frameBytes by decide),
      Nat.div_eq_of_lt hx, Nat.div_eq_of_lt hy] using hd
  rw [hfg] at h
  exact ⟨Fin.ext hfg, Nat.add_left_cancel h⟩

/-- The pages of the user in the directories of an accounted state. -/
theorem Owned.translations (h : Owned p) :
    Faithful (userTranslate (p.pageDirectoryList d)) ∧
      (c ≠ d → Separate (userTranslate (p.pageDirectoryList d))
        (userTranslate (p.pageDirectoryList c))) := by
  constructor
  · intro v w a hv hw
    obtain ⟨f, -, hf, rfl⟩ := h.guarded.userTranslate_some hv
    obtain ⟨g, -, hg, heq⟩ := h.guarded.userTranslate_some hw
    obtain ⟨rfl, hoff⟩ := frame_eq heq
    have hpage := (h.mapped_unique _ _ _ _ _ hf hg).2
    exact UInt32.toNat.inj (by rw [address_eq v, address_eq w, hpage, hoff])
  · intro hne v w a hv hw
    obtain ⟨f, -, hf, rfl⟩ := h.guarded.userTranslate_some hv
    obtain ⟨g, -, hg, heq⟩ := h.guarded.userTranslate_some hw
    obtain ⟨rfl, -⟩ := frame_eq heq
    exact hne (h.mapped_unique _ _ _ _ _ hg hf).1

theorem Guarded.maps_user (h : Guarded p) {j : Fin pageEntryCount}
    (hm : (p.pageDirectoryList d j).Maps f) (hf : f ≠ 0) : p.pageDirectoryList d j = .user f := by
  obtain ⟨hpresent, hlower⟩ := hm
  have hkernel : p.pageDirectoryList d j ≠ .kernel := by
    intro he
    rw [he] at hlower
    exact hf (Fin.ext hlower.symm)
  have hzero : p.pageDirectoryList d j ≠ .zero := by
    intro he
    rw [he] at hpresent
    exact absurd hpresent (by decide)
  by_cases hj : j = kernelPageIndex
  · subst hj
    cases hd : p.pageDirectoryUsed d with
    | false => exact absurd (h.unused_zero d hd _) hzero
    | true => exact absurd (h.kernel_entry d hd) hkernel
  · rcases h.entry d j hj with he | ⟨-, he⟩ | ⟨-, g, -, he⟩
    · exact absurd he hzero
    · exact absurd he hkernel
    · rw [he] at hlower ⊢
      rw [show g = f from Fin.ext hlower]

theorem frame_div (f : Fin pageFrameMaxCount) (x : Nat) :
    (f.val * frameBytes + x % frameBytes) / frameBytes = f.val := by
  rw [Nat.add_comm, Nat.add_mul_div_right _ _ (show 0 < frameBytes by decide),
    Nat.div_eq_of_lt (Nat.mod_lt x (by decide)), Nat.zero_add]

theorem frame_mod (f : Fin pageFrameMaxCount) (x : Nat) :
    (f.val * frameBytes + x % frameBytes) % frameBytes = x % frameBytes := by
  rw [Nat.add_comm, Nat.add_mul_mod_self_right, Nat.mod_mod]

theorem virtualOf_user (hv : dir (pageIndex v) = .user f)
    (honly : ∀ j, (dir j).Maps f → j = pageIndex v) :
    virtualOf dir (f.val * frameBytes + v.toNat % frameBytes) = some v := by
  have hmaps : (dir (pageIndex v)).Maps f := by
    rw [hv]
    exact ⟨rfl, rfl⟩
  cases hfind : (List.finRange pageEntryCount).find? fun j =>
      (dir j).present && (dir j).lowerAddress.val = f.val with
  | none =>
    have hall := List.find?_eq_none.mp hfind (pageIndex v) (List.mem_finRange _)
    exact absurd hall (by simpa [PageDirectoryEntry.Maps] using hmaps)
  | some j =>
    obtain rfl := honly j (by simpa [PageDirectoryEntry.Maps] using List.find?_some hfind)
    rw [virtualOf, frame_div, hfind, frame_mod, Option.map_some, ← address_eq, UInt32.ofNat_toNat]

theorem virtualOf_none (h : ∀ j, ¬ (dir j).Maps f) (x : Nat) :
    virtualOf dir (f.val * frameBytes + x % frameBytes) = none := by
  rw [virtualOf, frame_div, Option.map_eq_none_iff, List.find?_eq_none]
  intro j _ hj
  exact h j (by simpa [PageDirectoryEntry.Maps] using hj)

/-- The bytes behind a user's pointer are set, whatever the pointer. -/
theorem Owned.setBuffer_own (h : Owned p) (base : UInt32) (buf : Nat → UInt8) (mem : Memory)
    (hv : userTranslate (p.pageDirectoryList d) v = some a) :
    setBuffer (p.pageDirectoryList d) base buf mem a = buf (v - base).toNat := by
  obtain ⟨f, hf, he, rfl⟩ := h.guarded.userTranslate_some hv
  have honly (j : Fin pageEntryCount) (hj : (p.pageDirectoryList d j).Maps f) : j = pageIndex v :=
    (h.mapped_unique _ _ _ _ _ (h.guarded.maps_user hj hf) he).2
  rw [setBuffer, virtualOf_user he honly]
  rfl

theorem Owned.setBuffer_other (h : Owned p) (base : UInt32) (buf : Nat → UInt8) (mem : Memory)
    (hc : c ≠ d) (hv : userTranslate (p.pageDirectoryList c) v = some a) :
    setBuffer (p.pageDirectoryList d) base buf mem a = mem a := by
  obtain ⟨f, hf, he, rfl⟩ := h.guarded.userTranslate_some hv
  have hnone (j : Fin pageEntryCount) : ¬ (p.pageDirectoryList d j).Maps f := fun hj =>
    hc (h.mapped_unique _ _ _ _ _ he (h.guarded.maps_user hj hf)).1
  rw [setBuffer, virtualOf_none hnone]
  rfl

end Entries

section Steps

variable {m m' : Machine} {i : Fin processCountMax} {d c : Fin pagingDirectoryTableMaxCount}
  {e : MachineEvent} {es : List MachineEvent} {v : UInt32} {a : Nat}

/-- Process `i` lives on directory `d`. -/
def Lives (s : KernelState) (i : Fin processCountMax) (d : Fin pagingDirectoryTableMaxCount) :
    Prop :=
  s.pidUsed i = true ∧ (s.processList i).context.pageDirectoryVirtualAddr = .slot d

def Machine.user (m : Machine) (d : Fin pagingDirectoryTableMaxCount) : UInt32 → Option Nat :=
  userTranslate (m.kernel.paging.pageDirectoryList d)

/-- The tables of the kernel are in order. -/
structure Machine.Sound (m : Machine) : Prop where
  table : ProcessTable m.kernel
  accounted : Accounted m.kernel.paging

def Spares (i : Fin processCountMax) (m : Machine) (e : MachineEvent) : Prop :=
  ∀ k, e = .kernel k → ¬ k.Ends m.kernel i

def SparingMachineStep (i : Fin processCountMax) (m : Machine) (e : MachineEvent) (m' : Machine) :
    Prop :=
  MachineStep m e m' ∧ Spares i m e

theorem MachineStep.kernelStep (h : MachineStep m e m') :
    (∃ k, e = .kernel k ∧ LoadStep m.kernel k m'.kernel) ∨
      (∀ k, e ≠ .kernel k) ∧ m'.kernel = m.kernel := by
  cases h with
  | load _ _ _ hs => exact .inl ⟨_, rfl, hs⟩
  | kernel _ hs => exact .inl ⟨_, rfl, hs⟩
  | call => exact .inr ⟨by simp, rfl⟩
  | store => exact .inr ⟨by simp, rfl⟩

theorem Machine.Sound.step (hm : m.Sound) (h : MachineStep m e m') : m'.Sound := by
  rcases h.kernelStep with ⟨k, -, hs⟩ | ⟨-, heq⟩
  · have ho := hm.table.step_outcome hs.1
    exact ⟨ho.processTable hm.table, ho.paging.accounted hm.table hm.accounted hs.2⟩
  · exact ⟨heq ▸ hm.table, heq ▸ hm.accounted⟩

theorem Machine.Sound.lives_step (hm : m.Sound) (h : SparingMachineStep i m e m')
    (hi : Lives m.kernel i d) : Lives m'.kernel i d ∧ m'.user d = m.user d := by
  rcases h.1.kernelStep with ⟨k, rfl, hs⟩ | ⟨-, heq⟩
  · obtain ⟨hu, hd, hlist⟩ := (hm.table.step_outcome hs.1).keeps_directory hm.table hi.1 hi.2
      (h.2 k rfl)
    exact ⟨⟨hu, hd⟩, congrArg userTranslate hlist⟩
  · rw [heq, Machine.user, heq]
    exact ⟨hi, rfl⟩

theorem Machine.Sound.lives_used (hm : m.Sound) (hi : Lives m.kernel i d) :
    m.kernel.paging.pageDirectoryUsed d = true := by
  obtain ⟨c, hc, hused⟩ := hm.table.directory i hi.1
  rw [hi.2] at hc
  injection hc with hc
  exact hc ▸ hused

theorem Machine.Sound.memory_load (hm : m.Sound) (hi : Lives m.kernel i d)
    (hv : m.user d v = some a) {request : FAT32DriverRequest UInt32} (hr : LoadsAtZero request)
    (ha : Admits m.kernel request) (hc : m.kernel.paging.pageDirectoryUsed.firstClear = some c)
    (buf : Nat → UInt8) :
    setBuffer (loadDirectory m.kernel request c) request.buf buf m.memory a = m.memory a := by
  have hdc : d ≠ c := by
    rintro rfl
    exact absurd (hm.lives_used hi) (by simp [Bitmap.firstClear_some hc])
  have hq := hm.accounted.loaded hc hr ha.memory
  have hv' : userTranslate
      ((loadedPaging (pagingCreateNewPageDirectory m.kernel.paging).2 c request).pageDirectoryList
        d) v = some a := by
    rw [load_other hc hdc]
    exact hv
  rw [loadDirectory, PagingState.directory]
  exact hq.owned.setBuffer_other _ _ _ hdc hv'

theorem storesIn_kernel (d : Fin pagingDirectoryTableMaxCount) (k : Event) :
    storesIn d [.kernel k] = [] := rfl

/-- A process keeps its bytes in a step, its own stores apart. -/
theorem Machine.Sound.memory_step (hm : m.Sound) (h : SparingMachineStep i m e m')
    (hi : Lives m.kernel i d) (hv : m.user d v = some a) (log : List (UInt32 × UInt8)) :
    (latest log v).getD (m'.memory a) = (latest (storesIn d [e] ++ log) v).getD (m.memory a) := by
  obtain ⟨hstep, -⟩ := h
  cases hstep with
  | @load request _ _ buf _ _ _ _ _ ha hc hread hs =>
    have hkeep := hm.memory_load hi hv (hs.2 _ _ _ _ _ rfl) ha hc buf
    rw [storesIn_kernel, List.nil_append]
    dsimp only
    rw [hkeep]
  | kernel => rw [storesIn_kernel, List.nil_append]
  | call => rfl
  | @store c w b x hcr3 hx =>
    by_cases hcd : c = d
    · subst hcd
      have hlog : storesIn c [.store c w b] = [(w, b)] := by simp [storesIn]
      rw [hlog]
      exact Translation.latest_store (hm.accounted.owned.translations (c := c)).1 hv
    · have hlog : storesIn d [.store c w b] = [] := by simp [storesIn, hcd]
      rw [hlog, List.nil_append]
      exact congrArg (latest log v).getD (Translation.store_separate
        ((hm.accounted.owned.translations (d := d)).2 hcd) hv w)

theorem storesIn_cons (d : Fin pagingDirectoryTableMaxCount) (e : MachineEvent)
    (es : List MachineEvent) : storesIn d (e :: es) = storesIn d [e] ++ storesIn d es :=
  List.filterMap_append (l := [e])

/-- A process that lives on keeps its pages, and its bytes but for its own stores. -/
theorem Machine.Sound.memory_run (hm : m.Sound) (h : Run (SparingMachineStep i) m es m')
    (hi : Lives m.kernel i d) : Lives m'.kernel i d ∧ m'.user d = m.user d ∧
      ∀ v a, m.user d v = some a → m'.memory a = (latest (storesIn d es) v).getD (m.memory a) := by
  induction h with
  | nil => exact ⟨hi, rfl, fun _ _ _ => rfl⟩
  | cons hs _ ih =>
    obtain ⟨hi', huser⟩ := hm.lives_step hs hi
    obtain ⟨hl', hu', hmem⟩ := ih (hm.step hs.1) hi'
    refine ⟨hl', hu'.trans huser, fun v a hv => ?_⟩
    rw [hmem v a (huser ▸ hv), hm.memory_step hs hi hv, ← storesIn_cons]

end Steps

end Doors.Kernel
