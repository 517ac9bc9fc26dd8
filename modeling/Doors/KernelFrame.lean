import Doors.KernelRuns

/-! The frame of the kernel. It is protected while loads end below the kernel's page
and every process that ends has its first page loaded. -/

namespace Doors.Kernel

/-- The entries of a directory, and the kernel's frame in the frame map. -/
structure Guarded (p : PagingState) : Prop where
  frame : p.pageFrameMap 0 = true
  unused_zero : ∀ d, p.pageDirectoryUsed d = false → ∀ j, p.pageDirectoryList d j = .zero
  kernel_entry : ∀ d, p.pageDirectoryUsed d = true →
    p.pageDirectoryList d kernelPageIndex = .kernel
  entry : ∀ d j, j ≠ kernelPageIndex → p.pageDirectoryList d j = .zero ∨
    (j = 0 ∧ p.pageDirectoryList d j = .kernel) ∨
    (j.val < 0x300 ∧ ∃ f, f ≠ 0 ∧ p.pageDirectoryList d j = .user f)

theorem boot_guarded : Guarded .boot where
  frame := rfl
  unused_zero _ _ _ := rfl
  kernel_entry _ h := absurd h Bool.false_ne_true
  entry _ _ _ := .inl rfl

/-- The kernel's frame is taken and no page of the user maps it; every used directory has the
kernel's page, and nothing of the user from that page on. -/
structure KernelFrameProtected (p : PagingState) : Prop where
  used : p.pageFrameMap 0 = true
  unmapped : ∀ d j, (p.pageDirectoryList d j).userAccessible = true →
    (p.pageDirectoryList d j).lowerAddress ≠ 0
  kernel_entry : ∀ d, p.pageDirectoryUsed d = true →
    p.pageDirectoryList d kernelPageIndex = .kernel
  above : ∀ d j, 0x300 ≤ j.val → (p.pageDirectoryList d j).userAccessible = false

section Entries

variable (f : Fin pageFrameMaxCount)

@[simp] theorem user_present : (PageDirectoryEntry.user f).present = true := rfl

@[simp] theorem user_accessible : (PageDirectoryEntry.user f).userAccessible = true := rfl

@[simp] theorem user_lowerAddress : (PageDirectoryEntry.user f).lowerAddress.val = f.val := rfl

@[simp] theorem kernel_accessible : PageDirectoryEntry.kernel.userAccessible = false := rfl

@[simp] theorem zero_present : PageDirectoryEntry.zero.present = false := rfl

@[simp] theorem zero_accessible : PageDirectoryEntry.zero.userAccessible = false := rfl

end Entries

namespace Guarded

variable {p : PagingState} {d : Fin pagingDirectoryTableMaxCount}

theorem kernelFrame (h : Guarded p) : KernelFrameProtected p := by
  have hcases : ∀ d j, (p.pageDirectoryList d j).userAccessible = true →
      j.val < 0x300 ∧ ∃ f, f ≠ 0 ∧ p.pageDirectoryList d j = .user f := by
    intro d j ha
    by_cases hu : p.pageDirectoryUsed d = true
    · by_cases hj : j = kernelPageIndex
      · rw [hj, h.kernel_entry d hu] at ha
        exact absurd ha (by decide)
      · rcases h.entry d j hj with he | ⟨-, he⟩ | he
        · rw [he] at ha
          exact absurd ha (by decide)
        · rw [he] at ha
          exact absurd ha (by decide)
        · exact he
    · rw [h.unused_zero d (by simpa using hu) j] at ha
      exact absurd ha (by decide)
  exact {
    used := h.frame
    unmapped := by
      intro d j ha hz
      obtain ⟨-, f, hf, he⟩ := hcases d j ha
      rw [he] at hz
      have hv : f.val = 0 := congrArg Fin.val hz
      exact hf (Fin.ext hv)
    kernel_entry := h.kernel_entry
    above := by
      intro d j hj
      by_contra ha
      have hlt := (hcases d j (by simpa using ha)).1
      omega }

theorem use (h : Guarded p) (c : PageDirectoryPtr) : Guarded (pagingUsePageDirectory p c) :=
  ⟨h.frame, h.unused_zero, h.kernel_entry, h.entry⟩

theorem createDirectory (h : Guarded p) (hd : p.pageDirectoryUsed.firstClear = some d) :
    Guarded (pagingCreateNewPageDirectory p).2 := by
  have hfree := h.unused_zero d (Bitmap.firstClear_some hd)
  have hused := createDirectory_used hd
  exact {
    frame := by
      rw [(createDirectory_map hd).1]
      exact h.frame
    unused_zero := by
      intro c hc j
      have hne : c ≠ d := by
        rintro rfl
        rw [hused, Function.update_self] at hc
        exact absurd hc (by decide)
      rw [hused, Function.update_of_ne hne] at hc
      rw [createDirectory_other hd hne]
      exact h.unused_zero c hc j
    kernel_entry := by
      intro c hc
      by_cases hcd : c = d
      · rw [hcd]
        exact createDirectory_kernel hd
      · rw [hused, Function.update_of_ne hcd] at hc
        rw [createDirectory_other hd hcd]
        exact h.kernel_entry c hc
    entry := by
      intro c j hj
      by_cases hcd : c = d
      · subst hcd
        by_cases h0 : j = 0
        · subst h0
          exact .inr (.inl ⟨rfl, createDirectory_zero hd (hfree 0)⟩)
        · rw [createDirectory_of_ne hd h0 hj]
          exact h.entry c j hj
      · rw [createDirectory_other hd hcd]
        exact h.entry c j hj }

/-- An allocation below the kernel's page. -/
theorem allocate (h : Guarded p) (hu : p.pageDirectoryUsed d = true) {virtualAddr : UInt32}
    (hv : (pageIndex virtualAddr).val < 0x300) :
    Guarded (pagingAllocateUserPageFrame p d virtualAddr).2 := by
  cases hf : p.pageFrameMap.firstClear with
  | none =>
    rw [allocate_none hf]
    exact h
  | some f =>
    have hclear := Bitmap.firstClear_some hf
    have hf0 : f ≠ 0 := by
      rintro rfl
      rw [h.frame] at hclear
      exact absurd hclear (by decide)
    have hkernel : kernelPageIndex ≠ pageIndex virtualAddr := by
      intro he
      have hk : kernelPageIndex.val = 0x300 := rfl
      rw [he] at hk
      omega
    rw [allocate_some hf]
    exact {
      frame := by
        show Function.update p.pageFrameMap f true 0 = true
        rw [Function.update_of_ne (Ne.symm hf0)]
        exact h.frame
      unused_zero := by
        intro c hc j
        have hne : c ≠ d := by
          rintro rfl
          exact absurd (hu.symm.trans hc) (by decide)
        rw [setEntry_other hne]
        exact h.unused_zero c hc j
      kernel_entry := by
        intro c hc
        by_cases hcd : c = d
        · subst hcd
          rw [setEntry_of_ne hkernel]
          exact h.kernel_entry c hc
        · rw [setEntry_other hcd]
          exact h.kernel_entry c hc
      entry := by
        intro c j hj
        by_cases hcd : c = d
        · subst hcd
          by_cases hji : j = pageIndex virtualAddr
          · subst hji
            exact .inr (.inr ⟨hv, f, hf0, setEntry_self⟩)
          · rw [setEntry_of_ne hji]
            exact h.entry c j hj
        · rw [setEntry_other hcd]
          exact h.entry c j hj }

theorem allocatePages (h : Guarded p) (hu : p.pageDirectoryUsed d = true) {buf : UInt32}
    {count : Nat} (hc : (pageIndex buf).val + count ≤ 0x300) :
    Guarded (allocatePages d buf count p) := by
  apply And.left
  apply allocatePages_invariant (P := fun q _ => Guarded q ∧ q.pageDirectoryUsed d = true) ⟨h, hu⟩
  intro q n hn hq
  have hindex : (pageIndex (buf + UInt32.ofNat n * pageFrameSize)).val =
      (pageIndex buf).val + n := pageIndex_add (by omega)
  refine ⟨hq.1.allocate hq.2 (by omega), ?_⟩
  rw [allocate_used]
  exact hq.2

theorem loaded (h : Guarded p) (hd : p.pageDirectoryUsed.firstClear = some d)
    {request : Fat32.FAT32DriverRequest UInt32} (hr : EndsBelowKernel request) :
    Guarded (loadedPaging (pagingCreateNewPageDirectory p).2 d request) := by
  have hu : (pagingUsePageDirectory (pagingCreateNewPageDirectory p).2 (.slot d)).pageDirectoryUsed d =
      true := by
    rw [use_used, createDirectory_used hd, Function.update_self]
  exact (((h.createDirectory hd).use _).allocatePages hu hr).use _

theorem released (h : Guarded p) (h0 : (p.pageDirectoryList d 0).userAccessible = true)
    {j : Fin pageEntryCount} (hj : Released p d j) :
    j.val < 0x300 ∧ ∃ f, f ≠ 0 ∧ p.pageDirectoryList d j = .user f := by
  rcases h.entry d j hj.1 with he | ⟨rfl, he⟩ | he
  · have hp := hj.2
    rw [he] at hp
    exact absurd hp (by decide)
  · rw [he] at h0
    exact absurd h0 (by decide)
  · exact he

/-- Freeing a directory whose first page is loaded. -/
theorem freeDirectory (h : Guarded p) (hu : p.pageDirectoryUsed d = true)
    (h0 : (p.pageDirectoryList d 0).userAccessible = true) :
    Guarded (pagingFreePageDirectory p (.slot d)).2 := by
  have hfreed : EntriesFreed p (pagingFreePageDirectory p (.slot d)).2 d _ := freeDirectory_freed
  have hused : (pagingFreePageDirectory p (.slot d)).2.pageDirectoryUsed = _ := freeDirectory_used
  have hzero : ∀ j, (pagingFreePageDirectory p (.slot d)).2.pageDirectoryList d j = .zero := by
    intro j
    by_cases hr : j = kernelPageIndex ∨ Released p d j
    · exact hfreed.cleared j (List.mem_finRange j) hr
    · rw [not_or] at hr
      rw [hfreed.kept j (.inr hr)]
      rcases h.entry d j hr.1 with he | ⟨-, he⟩ | ⟨-, f, -, he⟩
      · exact he
      · exact absurd ⟨hr.1, by rw [he]; rfl⟩ hr.2
      · exact absurd ⟨hr.1, by rw [he]; rfl⟩ hr.2
  exact {
    frame := by
      apply (hfreed.frame 0).mpr
      refine ⟨h.frame, fun j _ hj hl => ?_⟩
      obtain ⟨-, f, hf, he⟩ := h.released h0 hj
      rw [he] at hl
      exact hf (Fin.ext hl)
    unused_zero := by
      intro c hc j
      by_cases hcd : c = d
      · rw [hcd]
        exact hzero j
      · rw [hused, Function.update_of_ne hcd] at hc
        rw [hfreed.other c hcd]
        exact h.unused_zero c hc j
    kernel_entry := by
      intro c hc
      have hcd : c ≠ d := by
        rintro rfl
        rw [hused, Function.update_self] at hc
        exact absurd hc (by decide)
      rw [hused, Function.update_of_ne hcd] at hc
      rw [hfreed.other c hcd]
      exact h.kernel_entry c hc
    entry := by
      intro c j hj
      by_cases hcd : c = d
      · rw [hcd]
        exact .inl (hzero j)
      · rw [hfreed.other c hcd]
        exact h.entry c j hj }

end Guarded

/-- Loads end below the kernel's page, and a process that ends has its first page loaded. -/
def SparesKernelFrame (s : KernelState) (e : Event) : Prop :=
  (∀ request readCode result pid d, e = .create request readCode result pid d →
    Admits s request → s.paging.pageDirectoryUsed.firstClear ≠ none → EndsBelowKernel request) ∧
  ∀ i d, e.Ends s i → s.pidUsed i = true →
    (s.processList i).context.pageDirectoryVirtualAddr = .slot d →
    (s.paging.pageDirectoryList d 0).userAccessible = true

def GuardedStep (s : KernelState) (e : Event) (s' : KernelState) : Prop :=
  KernelStep s e s' ∧ SparesKernelFrame s e

theorem PagingOutcome.guarded {s : KernelState} {e : Event} {p : PagingState}
    (ho : PagingOutcome s e p) (ht : ProcessTable s) (h : Guarded s.paging)
    (hc : SparesKernelFrame s e) : Guarded p := by
  cases ho with
  | kept c he =>
    rw [he]
    exact h.use c
  | loaded he ha hd hp =>
    rw [hp]
    exact h.loaded hd (hc.1 _ _ _ _ _ he ha (by rw [hd]; exact Option.some_ne_none _))
  | freed he hu hd hp =>
    obtain ⟨d', hd', hused⟩ := ht.directory _ hu
    rw [hd] at hd'
    injection hd' with hd'
    rw [hp]
    exact h.freeDirectory (hd' ▸ hused) (hc.2 _ _ he hu hd)

theorem guarded_of_run {es : List Event} {s : KernelState}
    (h : Run GuardedStep .boot es s) :
    ProcessTable s ∧ Guarded s.paging := by
  apply Run.invariant _ h ⟨boot_processTable, boot_guarded⟩
  rintro s e s' ⟨ht, hg⟩ ⟨hs, hc⟩
  have ho := ht.step_outcome hs
  exact ⟨ho.processTable ht, ho.paging.guarded ht hg hc⟩

theorem run_kernelFrame {es : List Event} {s : KernelState} (h : Run GuardedStep .boot es s) :
    KernelFrameProtected s.paging :=
  (guarded_of_run h).2.kernelFrame

theorem run_kernelFrame_shell : ∃ s, Run GuardedStep .boot
    [.create shellRequest 0 0 (some 0) (some 0), .destroy 0 true] s ∧
      KernelFrameProtected s.paging := by
  have hcreate : SparesKernelFrame .boot (.create shellRequest 0 0 (some 0) (some 0)) := by
    constructor
    · intro request readCode result pid d he _ _
      injection he with he
      rw [← he]
      show (pageIndex 0).val + (requiredPageFrames 0x100000).toNat ≤ 0x300
      decide
    · exact fun i d he => he.elim
  have hkill : SparesKernelFrame (firstCreated shellRequest) (.destroy 0 true) := by
    constructor
    · intro request readCode result pid d he
      exact Event.noConfusion he
    · intro i d hi _ hd
      have hi0 : i = 0 := Fin.ext hi
      rw [hi0, firstCreated_directory] at hd
      injection hd with hd
      obtain ⟨f, hf⟩ := load_user boot_directory (show (pageIndex shellRequest.buf).val +
        (requiredPageFrames shellRequest.bufferSize).toNat ≤ 1024 by decide)
        (show _ ≤ 32 by decide) (show (pageIndex shellRequest.buf).val ≤ (0 : Fin 1024).val by decide)
        (by decide)
      rw [← hd, firstCreated, created_paging, hf]
      rfl
  have hsecond : GuardedStep (firstCreated shellRequest) (.destroy 0 true) _ :=
    ⟨firstCreated_kill shellRequest, hkill⟩
  have hfirst : GuardedStep .boot (.create shellRequest 0 0 (some 0) (some 0)) _ :=
    ⟨boot_create shell_admitted, hcreate⟩
  have hrun := Run.cons hfirst (.cons hsecond (.nil _))
  exact ⟨_, hrun, run_kernelFrame hrun⟩

/-- A program whose first page lies behind page 0. -/
def highRequest : Fat32.FAT32DriverRequest UInt32 :=
  { shellRequest with buf := 0x400000 }

/-- Killing a program that leaves page 0 alone frees the frame of the kernel. -/
theorem kill_frees_kernelFrame : ∃ s, Run KernelStep .boot
    [.create highRequest 0 0 (some 0) (some 0), .destroy 0 true] s ∧
      s.paging.pageFrameMap 0 = false ∧ ¬ KernelFrameProtected s.paging := by
  have hadmits : Admits .boot highRequest := ⟨by decide, by decide, by decide, by decide⟩
  have hentry : (firstCreated highRequest).paging.pageDirectoryList 0 0 = .kernel := by
    rw [firstCreated, created_paging, loadedPaging_list, allocatePages_of_notMem (by decide) (by decide),
      use_list]
    exact createDirectory_zero boot_directory rfl
  have hfree : (pagingFreePageDirectory (firstCreated highRequest).paging (.slot 0)).2.pageFrameMap 0 =
      false := by
    by_contra hne
    have hh := ((freeDirectory_freed.frame 0).mp (by simpa using hne)).2 0 (List.mem_finRange 0)
      ⟨by decide, by rw [hentry]; rfl⟩
    rw [hentry] at hh
    exact hh rfl
  refine ⟨_, .cons (boot_create hadmits) (.cons (firstCreated_kill highRequest) (.nil _)), ?_, ?_⟩
  · rw [destroyed_paging]
    exact hfree
  · intro hp
    have hu := hp.used
    rw [destroyed_paging, hfree] at hu
    exact absurd hu (by decide)

end Doors.Kernel
