import Doors.KernelRuns

/-! The address space in CR3 after the first dispatch. It stays the one of the running
process while nothing ends that process and no load reaches the kernel's page, but for the
new directory that a creation fills. -/

namespace Doors.Kernel

/-- The event does not end the running process and maps no program over the kernel's page. -/
def SparesLoaded (s : KernelState) : Event → Prop
  | .create request .. => Admits s request → s.paging.pageDirectoryUsed.firstClear ≠ none →
    EndsBelowKernel request
  | .destroy pid _ => ∀ i, processGetCurrentRunningPcbPointer s = some i → i.val ≠ pid.toNat
  | .exit => processGetCurrentRunningPcbPointer s = none
  | .dispatch .. => True
  | .timer .. => True

def SparingStep (s : KernelState) (e : Event) (s' : KernelState) : Prop :=
  KernelStep s e s' ∧ SparesLoaded s e

/-- CR3 holds a used directory with the kernel's frame at the kernel's page, and no
other process has that directory. -/
def AddressSpaceValid (s : KernelState) : Prop :=
  ∃ d, s.paging.cr3 = .slot d ∧ s.paging.pageDirectoryUsed d = true ∧
    (s.paging.pageDirectoryList d kernelPageIndex).present = true ∧
    (s.paging.pageDirectoryList d kernelPageIndex).lowerAddress = 0 ∧
    ∀ i, s.pidUsed i = true → (s.processList i).context.pageDirectoryVirtualAddr = .slot d →
      (s.processList i).metadata.state = .running

/-- The paging states in which a creation has its new directory in CR3, `n` pages of the program
mapped. -/
inductive Loads (s : KernelState) : Event → PagingState → Prop
  | pages {request : Fat32.FAT32DriverRequest UInt32} {readCode result : Int}
      {pid : Option (Fin processCountMax)} {pageDir : Option (Fin pagingDirectoryTableMaxCount)}
      {d : Fin pagingDirectoryTableMaxCount} {n : Nat} :
    Admits s request → s.paging.pageDirectoryUsed.firstClear = some d →
    n ≤ (requiredPageFrames request.bufferSize).toNat →
    Loads s (.create request readCode result pid pageDir) (allocatePages d request.buf n
      (pagingUsePageDirectory (pagingCreateNewPageDirectory s.paging).2 (.slot d)))

/-- CR3 holds the directory of the running process. -/
def LoadsRunning (s : KernelState) : Prop :=
  ∃ i, (s.processList i).metadata.state = .running ∧
    s.paging.cr3 = (s.processList i).context.pageDirectoryVirtualAddr

/-- Every process has the kernel's entry in its directory. -/
def KernelMapped (s : KernelState) : Prop :=
  ∀ i d, s.pidUsed i = true → (s.processList i).context.pageDirectoryVirtualAddr = .slot d →
    s.paging.pageDirectoryList d kernelPageIndex = .kernel

/-- The invariant after the events `es`. -/
structure Loaded (es : List Event) (s : KernelState) : Prop where
  table : ProcessTable s
  mapped : KernelMapped s
  running : (∃ e ∈ es, e.dispatched.isSome = true) → LoadsRunning s

theorem boot_loaded : Loaded [] .boot where
  table := boot_processTable
  mapped i d h := by simp [KernelState.boot] at h
  running h := by simp at h

namespace Loaded

variable {es : List Event} {s : KernelState}

theorem addressSpace (h : Loaded es s) (hd : ∃ e ∈ es, e.dispatched.isSome = true) :
    AddressSpaceValid s := by
  obtain ⟨i, hr, hcr3⟩ := h.running hd
  have hu := h.table.used_of_running hr
  obtain ⟨d, hdir, hused⟩ := h.table.directory i hu
  have hentry := h.mapped i d hu hdir
  refine ⟨d, hcr3.trans hdir, hused, ?_, ?_, ?_⟩
  · rw [hentry]
    rfl
  · rw [hentry]
    rfl
  · intro j hj hjd
    rw [h.table.directory_unique j i hj hu (hjd.trans hdir.symm)]
    exact hr

theorem loading (h : Loaded es s) {e : Event} {p : PagingState} (hc : SparesLoaded s e)
    (hl : Loads s e p) : AddressSpaceValid { s with paging := p } := by
  cases hl with
  | @pages request _ _ _ _ d n ha hd hn =>
    have hbelow : (pageIndex request.buf).val + (requiredPageFrames request.bufferSize).toNat ≤
        0x300 := hc ha (by simp [hd])
    have hk : kernelPageIndex.val = 0x300 := rfl
    have hentry : (allocatePages d request.buf n (pagingUsePageDirectory
        (pagingCreateNewPageDirectory s.paging).2 (.slot d))).pageDirectoryList d
          kernelPageIndex = .kernel := by
      rw [allocatePages_of_notMem (by omega) (by omega), use_list, createDirectory_kernel hd]
    refine ⟨d, ?_, ?_, ?_, ?_, ?_⟩
    · rw [allocatePages_cr3]
      rfl
    · rw [allocatePages_used, use_used, createDirectory_used hd, Function.update_self]
    · rw [hentry]
      rfl
    · rw [hentry]
      rfl
    · exact fun i hu hi => absurd hi (h.table.directory_ne (Bitmap.firstClear_some hd) hu)

theorem quiet (h : Loaded es s) {s' : KernelState} {e : Event} (ht : ProcessTable s')
    (hm : KernelMapped s') (he : e.dispatched = none) (hr : LoadsRunning s → LoadsRunning s') :
    Loaded (es ++ [e]) s' where
  table := ht
  mapped := hm
  running := by
    rintro ⟨e', hmem, hdis⟩
    apply hr
    apply h.running
    rcases List.mem_append.mp hmem with hmem | hmem
    · exact ⟨e', hmem, hdis⟩
    · rw [List.mem_singleton.mp hmem, he] at hdis
      exact absurd hdis (by decide)

theorem loaded_cr3 {i : Fin processCountMax} (h : ProcessTable s)
    (hr : (s.processList i).metadata.state = .running)
    (hcr3 : s.paging.cr3 = (s.processList i).context.pageDirectoryVirtualAddr) :
    s.paging.cr3 ≠ .null := by
  obtain ⟨d, hd, -⟩ := h.directory i (h.used_of_running hr)
  rw [hcr3, hd]
  exact PageDirectoryPtr.noConfusion

theorem unread (h : Loaded es s) {request : Fat32.FAT32DriverRequest UInt32}
    {d : Fin pagingDirectoryTableMaxCount} {e : Event}
    (hd : s.paging.pageDirectoryUsed.firstClear = some d) (he : e.dispatched = none)
    (ht : ProcessTable { s with
      paging := loadedPaging (pagingCreateNewPageDirectory s.paging).2 d request }) :
    Loaded (es ++ [e]) { s with
      paging := loadedPaging (pagingCreateNewPageDirectory s.paging).2 d request } := by
  apply h.quiet ht _ he
  · rintro ⟨i, hr, hcr3⟩
    refine ⟨i, hr, ?_⟩
    simp only [load_cr3 hd, if_neg (loaded_cr3 h.table hr hcr3)]
    exact hcr3
  · intro i c hu hc
    have hne : c ≠ d := by
      rintro rfl
      exact h.table.directory_ne (Bitmap.firstClear_some hd) hu hc
    simp only [load_other hd hne]
    exact h.mapped i c hu hc

theorem created (h : Loaded es s) {request : Fat32.FAT32DriverRequest UInt32}
    {i : Fin processCountMax} {d : Fin pagingDirectoryTableMaxCount} {e : Event}
    (hi : processListGetInactiveIndex s = some i)
    (hd : s.paging.pageDirectoryUsed.firstClear = some d) (he : e.dispatched = none)
    (hbelow : EndsBelowKernel request)
    (ht : ProcessTable (created s request i d
      (loadedPaging (pagingCreateNewPageDirectory s.paging).2 d request))) :
    Loaded (es ++ [e]) (created s request i d
      (loadedPaging (pagingCreateNewPageDirectory s.paging).2 d request)) := by
  apply h.quiet ht _ he
  · rintro ⟨j, hr, hcr3⟩
    have hne : j ≠ i := by
      rintro rfl
      rw [h.table.unused_zero j (Bitmap.firstClear_some hi)] at hr
      exact absurd hr (by decide)
    refine ⟨j, ?_, ?_⟩
    · simpa only [Kernel.created, Function.update_of_ne hne] using hr
    · simp only [Kernel.created, Function.update_of_ne hne, load_cr3 hd,
        if_neg (loaded_cr3 h.table hr hcr3)]
      exact hcr3
  · intro j c hu hc
    by_cases hj : j = i
    · subst hj
      simp only [Kernel.created, Function.update_self, setupProcess,
        PageDirectoryPtr.slot.injEq] at hc
      subst hc
      exact load_kernel hd hbelow
    · simp only [Kernel.created, Function.update_of_ne hj] at hu hc ⊢
      have hne : c ≠ d := by
        rintro rfl
        exact h.table.directory_ne (Bitmap.firstClear_some hd) hu hc
      rw [load_other hd hne]
      exact h.mapped j c hu hc

/-- The end of a process that does not run. -/
theorem destroyed (h : Loaded es s) {i : Fin processCountMax}
    {d : Fin pagingDirectoryTableMaxCount} {e : Event} (hu : s.pidUsed i = true)
    (hd : (s.processList i).context.pageDirectoryVirtualAddr = .slot d)
    (hi : processGetCurrentRunningPcbPointer s ≠ some i) (he : e.dispatched = none)
    (ht : ProcessTable (destroyed s i (pagingFreePageDirectory s.paging (.slot d)).2)) :
    Loaded (es ++ [e]) (destroyed s i (pagingFreePageDirectory s.paging (.slot d)).2) := by
  apply h.quiet ht _ he
  · rintro ⟨j, hr, hcr3⟩
    have hne : j ≠ i := by
      rintro rfl
      cases hp : processGetCurrentRunningPcbPointer s with
      | none => exact running_none hp hu hr
      | some k => exact hi (hp.trans (congrArg some (h.table.running_unique k j (running_some hp).2 hr)))
    refine ⟨j, ?_, ?_⟩
    · simpa only [Kernel.destroyed, Function.update_of_ne hne] using hr
    · simp only [Kernel.destroyed, Function.update_of_ne hne, freeDirectory_cr3]
      exact hcr3
  · intro j c hj hc
    have hne : j ≠ i := by
      rintro rfl
      simp [Kernel.destroyed] at hj
    simp only [Kernel.destroyed, Function.update_of_ne hne] at hj hc ⊢
    have hcd : c ≠ d := by
      rintro rfl
      exact hne (h.table.directory_unique j i hj hu (hc.trans hd.symm))
    rw [freeDirectory_freed.other c hcd]
    exact h.mapped j c hj hc

theorem dispatched {s' t : KernelState} {pid : Fin processCountMax} {ctx : Context} {e : Event}
    (hd : Dispatched t s' pid ctx) (ht : ProcessTable s') (hm : KernelMapped t) :
    Loaded (es ++ [e]) s' where
  table := ht
  mapped i d hu hdir := by
    rw [hd.pidUsed_eq] at hu
    rw [hd.context_eq] at hdir
    rw [hd.paging_eq]
    exact hm i d hu hdir
  running _ := by
    refine ⟨pid, (hd.running_iff pid).mpr rfl, ?_⟩
    rw [hd.context_eq, hd.paging_eq, hd.ctx_eq]
    rfl

theorem step (h : Loaded es s) {e : Event} {s' : KernelState} (hs : SparingStep s e s') :
    Loaded (es ++ [e]) s' := by
  obtain ⟨hs, hc⟩ := hs
  have ho := h.table.step_outcome hs
  have ht := ho.processTable h.table
  cases ho with
  | refused => exact h.quiet ht h.mapped rfl id
  | unread _ hd => exact h.unread hd rfl ht
  | created ha _ hd hi => exact h.created hi hd rfl (hc ha (by simp [hd])) ht
  | kept => exact h.quiet ht h.mapped rfl id
  | destroyed hi hu hd => exact h.destroyed hu hd (fun hr => hc _ hr hi) rfl ht
  | idle => exact h.quiet ht h.mapped rfl id
  | exited hr => exact absurd (hr.symm.trans hc) (by simp)
  | dispatched hd => exact dispatched hd ht h.mapped
  | timer hd =>
    apply dispatched hd ht
    intro i d hu hdir
    rw [save_pidUsed] at hu
    rw [save_directory] at hdir
    rw [save_paging]
    exact h.mapped i d hu hdir

end Loaded

theorem loaded_of_run {es : List Event} {s : KernelState} (h : Run SparingStep .boot es s) :
    Loaded es s := by
  have hh := Run.history (P := Loaded) (fun _ _ _ _ ht hs => ht.step hs) h boot_loaded
  simpa only [List.nil_append] using hh

/-- After the first dispatch the directory in CR3 is valid in every state, also between the pages of
a creation. -/
theorem run_addressSpace {es : List Event} {s : KernelState} (h : Run SparingStep .boot es s)
    (hd : ∃ e ∈ es, e.dispatched.isSome = true) : AddressSpaceValid s ∧
      ∀ e p, SparesLoaded s e → Loads s e p → AddressSpaceValid { s with paging := p } :=
  ⟨(loaded_of_run h).addressSpace hd, fun _ _ hc hl => (loaded_of_run h).loading hc hl⟩

theorem shell_below : EndsBelowKernel shellRequest := by
  show (pageIndex 0).val + (requiredPageFrames 0x100000).toNat ≤ 0x300
  decide

theorem shell_spares {s : KernelState} {ctx : Context} (h : Run KernelStep .boot
    [.create shellRequest 0 0 (some 0) (some 0), .dispatch 0 ctx] s) : Run SparingStep .boot
      [.create shellRequest 0 0 (some 0) (some 0), .dispatch 0 ctx] s := by
  cases h with
  | cons hcreate h =>
    cases h with
    | cons hdispatch h =>
      cases h
      exact .cons ⟨hcreate, fun _ _ => shell_below⟩ (.cons ⟨hdispatch, trivial⟩ (.nil _))

/-- The shell runs, and the program is loaded a second time. -/
theorem run_addressSpace_shell : ∃ s ctx p, Run SparingStep .boot
    [.create shellRequest 0 0 (some 0) (some 0), .dispatch 0 ctx] s ∧ AddressSpaceValid s ∧
      Loads s (.create shellRequest 0 0 (some 1) (some 1)) p ∧
      AddressSpaceValid { s with paging := p } := by
  obtain ⟨s, ctx, hs, hd⟩ := shell_dispatch
  have hrun := shell_spares (.cons (boot_create shell_admitted) (.cons hs (.nil s)))
  have ha : Admits s shellRequest := ⟨hd.count_eq ▸ second_admitted.count, second_admitted.entrypoint,
    hd.paging_eq ▸ second_admitted.memory, second_admitted.frames⟩
  have hfree : s.paging.pageDirectoryUsed.firstClear = some 1 := by
    rw [hd.paging_eq]
    exact second_directory
  have hload : Loads s (.create shellRequest 0 0 (some 1) (some 1)) _ :=
    .pages ha hfree (Nat.le_refl _)
  obtain ⟨hvalid, hloads⟩ := run_addressSpace hrun ⟨.dispatch 0 ctx, by simp, rfl⟩
  have hspares : SparesLoaded s (.create shellRequest 0 0 (some 1) (some 1)) := fun _ _ => shell_below
  exact ⟨s, ctx, _, hrun, hvalid, hload, hloads _ _ hspares hload⟩

/-- The shell exits: the directory in CR3 is free. -/
theorem exit_frees_loaded : ∃ s ctx, Run KernelStep .boot
    [.create shellRequest 0 0 (some 0) (some 0), .dispatch 0 ctx, .exit] s ∧
      ¬ AddressSpaceValid s := by
  obtain ⟨s, ctx, h, -⟩ := shell_run
  have hl := loaded_of_run (shell_spares h)
  obtain ⟨j, hj, hcr3⟩ := hl.running ⟨.dispatch 0 ctx, by simp, rfl⟩
  refine ⟨processExit s, ctx, h.snoc .exit, ?_⟩
  rintro ⟨c, hc, hused, -⟩
  have ho := hl.table.exit_outcome
  generalize processExit s = t at ho hc hused
  cases ho with
  | idle hr => exact running_none hr (hl.table.used_of_running hj) hj
  | @exited i d hr hd =>
    have hij := hl.table.running_unique i j (running_some hr).2 hj
    rw [destroyed_paging, freeDirectory_cr3, hcr3, ← hij, hd] at hc
    injection hc with hc
    rw [destroyed_paging, freeDirectory_used, hc, Function.update_self] at hused
    exact absurd hused (by decide)

end Doors.Kernel
