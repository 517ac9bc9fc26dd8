import Doors.FrameAccounting

/-! Frame accounting over runs: what a load takes, what the end of a process gives
back, and the accounts in every state. -/

namespace Doors.Kernel

open Fat32 (FAT32DriverRequest)

variable {p q : PagingState} {d : Fin pagingDirectoryTableMaxCount}

/-- The counter follows the frame map while entries with distinct used frames are freed. -/
theorem freeEntries_count {js : List (Fin pageEntryCount)} (hnd : js.Nodup)
    (hcount : p.freePageFrameCount.toNat + p.pageFrameMap.usedCount = 32)
    (hmaps : ∀ j ∈ js, Released p d j →
      ∃ f, p.pageDirectoryList d j = .user f ∧ p.pageFrameMap f = true)
    (hunique : ∀ j ∈ js, ∀ k ∈ js, ∀ f, p.pageDirectoryList d j = .user f →
      p.pageDirectoryList d k = .user f → j = k) :
    (js.foldl (freeDirectoryEntry d) p).freePageFrameCount.toNat +
      (js.foldl (freeDirectoryEntry d) p).pageFrameMap.usedCount = 32 := by
  induction js generalizing p with
  | nil => exact hcount
  | cons j js ih =>
    rw [List.nodup_cons] at hnd
    have hfreed : EntriesFreed p (freeDirectoryEntry d p j) d [j] := entriesFreed_one j
    have hkept : ∀ k ∈ js, (freeDirectoryEntry d p j).pageDirectoryList d k =
        p.pageDirectoryList d k := by
      intro k hk
      apply hfreed.kept k
      refine .inl fun hm => hnd.1 ?_
      rw [← List.mem_singleton.mp hm]
      exact hk
    have hunique' : ∀ k ∈ js, ∀ l ∈ js, ∀ f,
        (freeDirectoryEntry d p j).pageDirectoryList d k = .user f →
        (freeDirectoryEntry d p j).pageDirectoryList d l = .user f → k = l := by
      intro k hk l hl f he he'
      rw [hkept k hk] at he
      rw [hkept l hl] at he'
      exact hunique k (by simp [hk]) l (by simp [hl]) f he he'
    rw [List.foldl_cons]
    by_cases hr : Released p d j
    · obtain ⟨f, hf, hm⟩ := hmaps j (by simp) hr
      have hmap : (freeDirectoryEntry d p j).pageFrameMap = Function.update p.pageFrameMap f false := by
        rw [freeEntry_released hr, hf]
        exact Bitmap.clearAt_val p.pageFrameMap f
      apply ih hnd.2
      · have hclear := Bitmap.usedCount_clear hm
        have hone : (1 : UInt32).toNat = 1 := rfl
        rw [hmap, freeEntry_released hr]
        show (p.freePageFrameCount + 1).toNat + _ = 32
        rw [UInt32.toNat_add]
        omega
      · intro k hk hk'
        rw [Released, hkept k hk] at hk'
        obtain ⟨g, hg, hmg⟩ := hmaps k (by simp [hk]) hk'
        refine ⟨g, (hkept k hk).trans hg, ?_⟩
        have hne : g ≠ f := by
          rintro rfl
          exact hnd.1 (hunique j (by simp) k (by simp [hk]) g hf hg ▸ hk)
        rw [hmap, Function.update_of_ne hne]
        exact hmg
      · exact hunique'
    · have hmap : (freeDirectoryEntry d p j).pageFrameMap = p.pageFrameMap ∧
          (freeDirectoryEntry d p j).freePageFrameCount = p.freePageFrameCount := by
        by_cases hk : j = kernelPageIndex
        · rw [hk, freeEntry_kernel]
          exact ⟨rfl, rfl⟩
        · rw [freeEntry_absent hk hr]
          exact ⟨rfl, rfl⟩
      apply ih hnd.2
      · rw [hmap.1, hmap.2]
        exact hcount
      · intro k hk hk'
        rw [Released, hkept k hk] at hk'
        rw [hkept k hk, hmap.1]
        exact hmaps k (by simp [hk]) hk'
      · exact hunique'

theorem freeDirectory_count
    (hcount : p.freePageFrameCount.toNat + p.pageFrameMap.usedCount = 32)
    (hmaps : ∀ j, Released p d j →
      ∃ f, p.pageDirectoryList d j = .user f ∧ p.pageFrameMap f = true)
    (hunique : ∀ j k f, p.pageDirectoryList d j = .user f →
      p.pageDirectoryList d k = .user f → j = k) :
    (pagingFreePageDirectory p (.slot d)).2.freePageFrameCount.toNat +
      (pagingFreePageDirectory p (.slot d)).2.pageFrameMap.usedCount = 32 := by
  have hh := @freeEntries_count { p with
    pageDirectoryUsed := Function.update p.pageDirectoryUsed d false } d _
    (List.nodup_finRange pageEntryCount) hcount (fun j _ => hmaps j)
    (fun j _ k _ f => hunique j k f)
  simp only [pagingFreePageDirectory]
  generalize (List.finRange pageEntryCount).foldl (freeDirectoryEntry d)
    { p with pageDirectoryUsed := Function.update p.pageDirectoryUsed d false } = q at hh ⊢
  exact hh

namespace Accounted

theorem freed_frame (h : Accounted p) (hu : p.pageDirectoryUsed d = true)
    (f : Fin pageFrameMaxCount) :
    (pagingFreePageDirectory p (.slot d)).2.pageFrameMap f = true ↔
      p.pageFrameMap f = true ∧ ∀ j, p.pageDirectoryList d j ≠ .user f := by
  have hg := h.owned.guarded
  have h0 := h.first_page d hu
  rw [freeDirectory_freed.frame f]
  refine and_congr_right fun _ => ⟨fun hall j he => ?_, fun hall j _ hr hl => ?_⟩
  · have hj : j ≠ kernelPageIndex := by
      rintro rfl
      rw [hg.kernel_entry d hu] at he
      exact kernel_ne_user f he
    have hr : Released p d j := ⟨hj, by rw [he]; rfl⟩
    exact hall j (List.mem_finRange j) hr (by rw [he]; rfl)
  · obtain ⟨-, g, -, he⟩ := hg.released h0 hr
    rw [he] at hl
    have hgf : g = f := Fin.ext hl
    exact hall j (hgf ▸ he)

theorem freeDirectory (h : Accounted p) (hu : p.pageDirectoryUsed d = true) :
    Accounted (pagingFreePageDirectory p (.slot d)).2 := by
  have ho := h.owned
  have hg := ho.guarded.freeDirectory hu (h.first_page d hu)
  have hfreed : EntriesFreed p (pagingFreePageDirectory p (.slot d)).2 d _ := freeDirectory_freed
  have hused : (pagingFreePageDirectory p (.slot d)).2.pageDirectoryUsed = _ := freeDirectory_used
  have hzero : ∀ j, (pagingFreePageDirectory p (.slot d)).2.pageDirectoryList d j = .zero := by
    apply hg.unused_zero d
    rw [hused, Function.update_self]
  -- an entry for the user is one of another directory, and as before
  have hold : ∀ c j f, (pagingFreePageDirectory p (.slot d)).2.pageDirectoryList c j = .user f →
      c ≠ d ∧ p.pageDirectoryList c j = .user f := by
    intro c j f he
    by_cases hcd : c = d
    · rw [hcd, hzero] at he
      exact absurd he (zero_ne_user f)
    · rw [hfreed.other c hcd] at he
      exact ⟨hcd, he⟩
  exact {
    owned := {
      guarded := hg
      count := by
        apply freeDirectory_count ho.count
        · intro j hj
          obtain ⟨-, f, -, he⟩ := ho.guarded.released (h.first_page d hu) hj
          exact ⟨f, he, ho.mapped_used d j f he⟩
        · intro j k f he he'
          exact (ho.mapped_unique d j d k f he he').2
      used_mapped := by
        intro f hf hm
        rw [h.freed_frame hu] at hm
        obtain ⟨c, j, hc, he⟩ := ho.used_mapped f hf hm.1
        have hcd : c ≠ d := by
          rintro rfl
          exact hm.2 j he
        refine ⟨c, j, ?_, ?_⟩
        · rw [hused, Function.update_of_ne hcd]
          exact hc
        · rw [hfreed.other c hcd]
          exact he
      mapped_used := by
        intro c j f he
        obtain ⟨hcd, he⟩ := hold c j f he
        rw [h.freed_frame hu]
        refine ⟨ho.mapped_used c j f he, fun k hk => hcd ?_⟩
        exact (ho.mapped_unique c j d k f he hk).1
      mapped_unique := by
        intro c j c' k f he he'
        exact ho.mapped_unique c j c' k f (hold c j f he).2 (hold c' k f he').2 }
    first_page := by
      intro c hc
      have hcd : c ≠ d := by
        rintro rfl
        rw [hused, Function.update_self] at hc
        exact absurd hc (by decide)
      rw [hused, Function.update_of_ne hcd] at hc
      rw [hfreed.other c hcd]
      exact h.first_page c hc }

theorem use (h : Accounted p) (c : PageDirectoryPtr) : Accounted (pagingUsePageDirectory p c) :=
  ⟨h.owned.use c, h.first_page⟩

end Accounted

/-- A load at page 0 of at least one page and at most eight. -/
structure LoadsAtZero (request : FAT32DriverRequest UInt32) : Prop where
  buf : request.buf = 0
  pos : 1 ≤ request.bufferSize.toNat
  le : request.bufferSize.toNat ≤ processPageFrameCountMax * pageFrameSize.toNat

theorem LoadsAtZero.frames {request : FAT32DriverRequest UInt32} (h : LoadsAtZero request) :
    1 ≤ (requiredPageFrames request.bufferSize).toNat ∧
      (requiredPageFrames request.bufferSize).toNat ≤ 8 := by
  have hsize : pageFrameSize.toNat = 4194304 := rfl
  have hone : (1 : UInt32).toNat = 1 := rfl
  have hpos := h.pos
  have hle : request.bufferSize.toNat ≤ 8 * 4194304 := h.le
  rw [requiredPageFrames, UInt32.toNat_div, UInt32.toNat_sub, UInt32.toNat_add, hsize, hone]
  omega

theorem LoadsAtZero.index {request : FAT32DriverRequest UInt32} (h : LoadsAtZero request) :
    (pageIndex request.buf).val = 0 := by
  rw [h.buf]
  rfl

section Load

variable {request : FAT32DriverRequest UInt32}

/-- What a load from accounted state `p` leaves in its directory. -/
theorem Accounted.filling (h : Accounted p) (hd : p.pageDirectoryUsed.firstClear = some d)
    (hr : LoadsAtZero request) :
    Filling p (loadedPaging (pagingCreateNewPageDirectory p).2 d request) d request.buf
      (requiredPageFrames request.bufferSize).toNat := by
  have hframes := hr.frames.2
  have hindex := hr.index
  have hfill := (Filling.start h.owned hd (.slot d)).allocatePages
    (show (pageIndex request.buf).val + (requiredPageFrames request.bufferSize).toNat ≤ 0x300 by
      omega)
  rw [loadedPaging]
  exact hfill.use _

theorem Accounted.loaded (h : Accounted p) (hd : p.pageDirectoryUsed.firstClear = some d)
    (hr : LoadsAtZero request)
    (hmem : (requiredPageFrames request.bufferSize).toNat ≤ p.freePageFrameCount.toNat) :
    Accounted (loadedPaging (pagingCreateNewPageDirectory p).2 d request) where
  owned := (h.filling hd hr).owned
  first_page c hc := by
    by_cases hcd : c = d
    · subst hcd
      have hcount := h.owned.count
      have hframes := hr.frames
      have hindex := hr.index
      have hzero : (0 : Fin pageEntryCount).val = 0 := rfl
      obtain ⟨f, hf⟩ := load_user hd (show _ ≤ 1024 by omega) (show _ ≤ 32 by omega)
        (show (pageIndex request.buf).val ≤ (0 : Fin pageEntryCount).val by omega)
        (show _ < _ by omega)
      rw [hf]
      rfl
    · rw [load_used hd, Function.update_of_ne hcd] at hc
      rw [load_other hd hcd]
      exact h.first_page c hc

end Load

/-- An allocation for which the check left room succeeds. -/
theorem allocate_succeeds {buf virtualAddr : UInt32} {amount : UInt32} {k : Nat}
    (hcount : p.freePageFrameCount.toNat + p.pageFrameMap.usedCount = 32)
    (hcheck : pagingAllocateCheck p amount = true) (hk : k < (requiredPageFrames amount).toNat) :
    (pagingAllocateUserPageFrame (allocatePages d buf k p) d virtualAddr).1 = true := by
  have hroom : (requiredPageFrames amount).toNat ≤ p.freePageFrameCount.toNat := by
    have hle : requiredPageFrames amount ≤ p.freePageFrameCount := by
      simpa [pagingAllocateCheck] using hcheck
    exact hle
  have hused : (allocatePages d buf k p).pageFrameMap.usedCount ≤ p.pageFrameMap.usedCount + k := by
    apply allocatePages_invariant
      (P := fun q n => q.pageFrameMap.usedCount ≤ p.pageFrameMap.usedCount + n) (Nat.le_refl _)
    intro q n _ hq
    cases hf : q.pageFrameMap.firstClear with
    | none =>
      rw [allocate_none hf]
      exact Nat.le_succ_of_le hq
    | some f =>
      rw [allocate_some hf]
      show Bitmap.usedCount (Function.update q.pageFrameMap f true) ≤ _
      rw [Bitmap.usedCount_set (Bitmap.firstClear_some hf)]
      exact Nat.succ_le_succ hq
  have hlt : (allocatePages d buf k p).pageFrameMap.usedCount < 32 := by omega
  obtain ⟨f, hf⟩ := Bitmap.firstClear_of_lt hlt
  rw [allocate_some hf]

/-- A step of the kernel that loads programs as the kernel and the shell do. -/
def LoadStep (s : KernelState) (e : Event) (s' : KernelState) : Prop :=
  KernelStep s e s' ∧
    ∀ request readCode result pid pageDir, e = .create request readCode result pid pageDir →
      LoadsAtZero request

theorem PagingOutcome.accounted {s : KernelState} {e : Event} (ho : PagingOutcome s e p)
    (ht : ProcessTable s) (h : Accounted s.paging)
    (hr : ∀ request readCode result pid pageDir, e = .create request readCode result pid pageDir →
      LoadsAtZero request) : Accounted p := by
  cases ho with
  | kept c he =>
    rw [he]
    exact h.use c
  | loaded he ha hd hp =>
    rw [hp]
    exact h.loaded hd (hr _ _ _ _ _ he) ha.memory
  | freed _ hu hd hp =>
    obtain ⟨d', hd', hused⟩ := ht.directory _ hu
    rw [hd] at hd'
    injection hd' with hd'
    rw [hp]
    exact h.freeDirectory (hd' ▸ hused)

theorem accounted_of_run {es : List Event} {s : KernelState} (h : Run LoadStep .boot es s) :
    ProcessTable s ∧ Accounted s.paging := by
  apply Run.invariant _ h ⟨boot_processTable, boot_accounted⟩
  rintro s e s' ⟨ht, ha⟩ ⟨hs, hr⟩
  have ho := ht.step_outcome hs
  exact ⟨ho.processTable ht, ho.paging.accounted ht ha hr⟩

/-- The frame map, its counter and the directories in use agree. -/
structure FramesAccounted (p : PagingState) : Prop where
  count : p.freePageFrameCount.toNat = (Finset.univ.filter fun f => p.pageFrameMap f = false).card
  owner : ∀ f, f ≠ 0 → (p.pageFrameMap f = true ↔
    ∃! x : Fin pagingDirectoryTableMaxCount × Fin pageEntryCount,
      p.pageDirectoryUsed x.1 = true ∧ (p.pageDirectoryList x.1 x.2).Maps f)
  kernel : p.pageFrameMap 0 = true
  unused_zero : ∀ d, p.pageDirectoryUsed d = false → ∀ j, p.pageDirectoryList d j = .zero

theorem Guarded.maps_iff (h : Guarded p) {f : Fin pageFrameMaxCount} (hf : f ≠ 0)
    (hu : p.pageDirectoryUsed d = true) (j : Fin pageEntryCount) :
    (p.pageDirectoryList d j).Maps f ↔ p.pageDirectoryList d j = .user f := by
  have hkernel : ¬ PageDirectoryEntry.kernel.Maps f := fun hm => hf (Fin.ext hm.2.symm)
  by_cases hj : j = kernelPageIndex
  · rw [hj, h.kernel_entry d hu]
    exact iff_of_false hkernel (kernel_ne_user f)
  · rcases h.entry d j hj with he | ⟨-, he⟩ | ⟨-, g, -, he⟩
    · rw [he]
      exact iff_of_false (fun hm => absurd hm.1 (by simp)) (zero_ne_user f)
    · rw [he]
      exact iff_of_false hkernel (kernel_ne_user f)
    · rw [he]
      constructor
      · intro hm
        have hgf : g = f := Fin.ext hm.2
        rw [hgf]
      · intro hgf
        rw [hgf]
        exact ⟨rfl, rfl⟩

theorem Accounted.frames (h : Accounted p) : FramesAccounted p where
  count := by
    have hsum := Finset.card_filter_add_card_filter_not
      (s := (Finset.univ : Finset (Fin pageFrameMaxCount))) fun f => p.pageFrameMap f = true
    have hcount : _ + (Finset.univ.filter fun f => p.pageFrameMap f = true).card = 32 :=
      h.owned.count
    have hmax : pageFrameMaxCount = 32 := rfl
    simp only [Bool.not_eq_true, Finset.card_univ, Fintype.card_fin] at hsum
    omega
  owner f hf := by
    have hg := h.owned.guarded
    constructor
    · intro hm
      obtain ⟨d, j, hu, he⟩ := h.owned.used_mapped f hf hm
      refine ⟨(d, j), ⟨hu, (hg.maps_iff hf hu j).mpr he⟩, ?_⟩
      rintro ⟨c, k⟩ ⟨hc, hk⟩
      obtain ⟨hcd, hkj⟩ := h.owned.mapped_unique c k d j f ((hg.maps_iff hf hc k).mp hk) he
      exact Prod.ext hcd hkj
    · rintro ⟨⟨d, j⟩, ⟨hu, hm⟩, -⟩
      exact h.owned.mapped_used d j f ((hg.maps_iff hf hu j).mp hm)
  kernel := h.owned.guarded.frame
  unused_zero := h.owned.guarded.unused_zero

/-- A step that does not end process `i` leaves its directory alone. -/
theorem Outcome.keeps_directory {s s' : KernelState} {e : Event} (ho : Outcome s e s')
    (ht : ProcessTable s) {i : Fin processCountMax} (hu : s.pidUsed i = true)
    (hd : (s.processList i).context.pageDirectoryVirtualAddr = .slot d) (he : ¬ e.Ends s i) :
    s'.pidUsed i = true ∧ (s'.processList i).context.pageDirectoryVirtualAddr = .slot d ∧
      s'.paging.pageDirectoryList d = s.paging.pageDirectoryList d := by
  have hload : ∀ {c}, s.paging.pageDirectoryUsed.firstClear = some c → d ≠ c := by
    rintro c hc rfl
    exact ht.directory_ne (Bitmap.firstClear_some hc) hu hd
  have hfree : ∀ {k c}, i ≠ k → s.pidUsed k = true →
      (s.processList k).context.pageDirectoryVirtualAddr = .slot c →
      (Kernel.destroyed s k (pagingFreePageDirectory s.paging (.slot c)).2).pidUsed i = true ∧
        ((Kernel.destroyed s k (pagingFreePageDirectory s.paging (.slot c)).2).processList
          i).context.pageDirectoryVirtualAddr = .slot d ∧
        (pagingFreePageDirectory s.paging (.slot c)).2.pageDirectoryList d =
          s.paging.pageDirectoryList d := by
    intro k c hik hk hc
    have hdc : d ≠ c := by
      rintro rfl
      exact hik (ht.directory_unique i k hu hk (hd.trans hc.symm))
    refine ⟨?_, ?_, freeDirectory_freed.other d hdc⟩
    · simp only [Kernel.destroyed, Function.update_of_ne hik, hu]
    · simp only [Kernel.destroyed, Function.update_of_ne hik, hd]
  cases ho with
  | refused => exact ⟨hu, hd, rfl⟩
  | unread _ hc => exact ⟨hu, hd, load_other hc (hload hc)⟩
  | @created _ _ k c _ _ hc hk =>
    have hik : i ≠ k := by
      rintro rfl
      rw [Bitmap.firstClear_some hk] at hu
      exact absurd hu (by decide)
    refine ⟨?_, ?_, ?_⟩
    · simp only [Kernel.created, Function.update_of_ne hik, hu]
    · simp only [Kernel.created, Function.update_of_ne hik, hd]
    · rw [created_paging]
      exact load_other hc (hload hc)
  | kept => exact ⟨hu, hd, rfl⟩
  | @destroyed _ k c hk hku hc =>
    rw [destroyed_paging]
    apply hfree _ hku hc
    rintro rfl
    exact he hk
  | idle => exact ⟨hu, hd, rfl⟩
  | @exited k c hr hc =>
    rw [destroyed_paging]
    apply hfree _ (running_some hr).1 hc
    rintro rfl
    exact he hr
  | dispatched hs =>
    rw [hs.pidUsed_eq, hs.context_eq, hs.paging_eq]
    exact ⟨hu, hd, rfl⟩
  | timer hs =>
    rw [hs.pidUsed_eq, hs.context_eq, hs.paging_eq, save_pidUsed, save_directory, save_paging]
    exact ⟨hu, hd, rfl⟩

/-- A step in which process `i` lives on. -/
def Surviving (i : Fin processCountMax) (s : KernelState) (e : Event) (s' : KernelState) : Prop :=
  LoadStep s e s' ∧ ¬ e.Ends s i

/-- The frames that a creation takes are those of the new directory. -/
theorem create_takes {s s' : KernelState} (ht : ProcessTable s) (h : Accounted s.paging)
    {request : FAT32DriverRequest UInt32} {readCode : Int} {i : Fin processCountMax}
    {pageDir : Option (Fin pagingDirectoryTableMaxCount)}
    (hs : LoadStep s (.create request readCode processCreateSuccess (some i) pageDir) s') :
    s'.pidUsed i = true ∧ ∃ d, (s'.processList i).context.pageDirectoryVirtualAddr = .slot d ∧
      ∀ f, (∃ j, s'.paging.pageDirectoryList d j = .user f) ↔
        s.paging.pageFrameMap f = false ∧ s'.paging.pageFrameMap f = true := by
  have ho := ht.step_outcome hs.1
  have hr := hs.2 _ _ _ _ _ rfl
  cases ho with
  | refused hne => exact absurd rfl hne
  | @created _ _ _ d _ _ hd hi =>
    refine ⟨?_, d, ?_, fun f => ?_⟩
    · simp only [Kernel.created, Function.update_self]
    · simp only [Kernel.created, Function.update_self, setupProcess]
    · rw [created_paging]
      have hfill := h.filling hd hr
      rw [hfill.frame f]
      constructor
      · rintro ⟨j, hj⟩
        exact ⟨hfill.fresh j f hj, .inr ⟨j, hj⟩⟩
      · rintro ⟨hfree, hused | hj⟩
        · exact absurd (hused.symm.trans hfree) (by decide)
        · exact hj

/-- The frames that the end of a process gives back are those of its directory. -/
theorem end_returns {s s' : KernelState} {e : Event} (ht : ProcessTable s)
    (h : Accounted s.paging) (hs : LoadStep s e s') {i : Fin processCountMax} (he : e.Ends s i)
    (hu : s.pidUsed i = true)
    (hd : (s.processList i).context.pageDirectoryVirtualAddr = .slot d) (f : Fin pageFrameMaxCount) :
    s'.paging.pageFrameMap f = true ↔
      s.paging.pageFrameMap f = true ∧ ∀ j, s.paging.pageDirectoryList d j ≠ .user f := by
  have ho := ht.step_outcome hs.1
  obtain ⟨d', hd', hused⟩ := ht.directory i hu
  have hdd : d' = d := by
    rw [hd] at hd'
    injection hd' with hd'
    exact hd'.symm
  rw [hdd] at hused
  cases ho with
  | kept hfree =>
    rw [hfree i he] at hu
    exact absurd hu (by decide)
  | @destroyed pid k c hk hku hc =>
    obtain rfl : k = i := Fin.ext (hk.trans (Eq.symm he))
    rw [hd] at hc
    injection hc with hc
    rw [destroyed_paging, ← hc]
    exact h.freed_frame hused f
  | idle hr => exact absurd (hr.symm.trans he) (by simp)
  | exited hr hc =>
    obtain rfl := Option.some.inj (hr.symm.trans he)
    rw [hd] at hc
    injection hc with hc
    rw [destroyed_paging, ← hc]
    exact h.freed_frame hused f
  | _ => exact he.elim

theorem surviving_directory {s s' : KernelState} {es : List Event} {i : Fin processCountMax}
    (h : Run (Surviving i) s es s') (ht : ProcessTable s) (ha : Accounted s.paging)
    (hu : s.pidUsed i = true)
    (hd : (s.processList i).context.pageDirectoryVirtualAddr = .slot d) :
    ProcessTable s' ∧ Accounted s'.paging ∧ s'.pidUsed i = true ∧
      (s'.processList i).context.pageDirectoryVirtualAddr = .slot d ∧
      s'.paging.pageDirectoryList d = s.paging.pageDirectoryList d := by
  induction h with
  | nil => exact ⟨ht, ha, hu, hd, rfl⟩
  | cons hs _ ih =>
    have ho := ht.step_outcome hs.1.1
    obtain ⟨hu', hd', hlist⟩ := ho.keeps_directory ht hu hd hs.2
    rw [← hlist]
    exact ih (ho.processTable ht) (ho.paging.accounted ht ha hs.1.2) hu' hd'

/-- The accounts hold in every state, an allocation after a check succeeds, and a process
gives back at its end the frames that it took at its creation. -/
theorem run_frames {es : List Event} {s : KernelState} (h : Run LoadStep .boot es s) :
    FramesAccounted s.paging ∧
      (∀ (p : PagingState) (d : Fin pagingDirectoryTableMaxCount) (buf virtualAddr amount : UInt32)
        (k : Nat), p.pageFrameMap = s.paging.pageFrameMap →
        p.freePageFrameCount = s.paging.freePageFrameCount →
        pagingAllocateCheck s.paging amount = true → k < (requiredPageFrames amount).toNat →
        (pagingAllocateUserPageFrame (allocatePages d buf k p) d virtualAddr).1 = true) ∧
      ∀ (request : FAT32DriverRequest UInt32) (readCode : Int) (i : Fin processCountMax)
        (pageDir : Option (Fin pagingDirectoryTableMaxCount)) (s₁ s₂ s₃ : KernelState)
        (es' : List Event) (e : Event),
        LoadStep s (.create request readCode processCreateSuccess (some i) pageDir) s₁ →
        Run (Surviving i) s₁ es' s₂ → LoadStep s₂ e s₃ → e.Ends s₂ i →
        ∀ f, (s₂.paging.pageFrameMap f = true ∧ s₃.paging.pageFrameMap f = false ↔
          s.paging.pageFrameMap f = false ∧ s₁.paging.pageFrameMap f = true) ∧
          (s₃.paging.pageFrameMap f = true → s₂.paging.pageFrameMap f = true) := by
  obtain ⟨ht, ha⟩ := accounted_of_run h
  refine ⟨ha.frames, ?_, ?_⟩
  · intro p d buf virtualAddr amount k hmap hcount hcheck hk
    apply allocate_succeeds _ _ hk
    · rw [hmap, hcount]
      exact ha.owned.count
    · rw [pagingAllocateCheck, hcount]
      exact hcheck
  · intro request readCode i pageDir s₁ s₂ s₃ es' e hcreate hrun hend he f
    obtain ⟨hu, d, hd, htaken⟩ := create_takes ht ha hcreate
    have ho := ht.step_outcome hcreate.1
    obtain ⟨ht₂, ha₂, hu₂, hd₂, hlist⟩ := surviving_directory hrun (ho.processTable ht)
      (ho.paging.accounted ht ha hcreate.2) hu hd
    have hreturned := end_returns ht₂ ha₂ hend he hu₂ hd₂ f
    rw [hlist] at hreturned
    refine ⟨?_, fun hf => (hreturned.mp hf).1⟩
    rw [← htaken f]
    constructor
    · rintro ⟨hused, hfree⟩
      by_contra hno
      have hf := hreturned.mpr ⟨hused, fun j hj => hno ⟨j, hj⟩⟩
      exact absurd (hf.symm.trans hfree) (by decide)
    · rintro ⟨j, hj⟩
      constructor
      · apply ha₂.owned.mapped_used d j f
        rw [hlist]
        exact hj
      · by_contra hf
        exact (hreturned.mp (by simpa using hf)).2 j hj

theorem run_frames_shell : ∃ s s', Run LoadStep .boot
    [.create shellRequest 0 0 (some 0) (some 0)] s ∧ LoadStep s (.destroy 0 true) s' ∧
      FramesAccounted s.paging ∧
      ∀ f, s.paging.pageFrameMap f = true ∧ s'.paging.pageFrameMap f = false ↔
        KernelState.boot.paging.pageFrameMap f = false ∧ s.paging.pageFrameMap f = true := by
  have hloads : LoadsAtZero shellRequest := ⟨rfl, by decide, by decide⟩
  have hcreate : LoadStep .boot (.create shellRequest 0 0 (some 0) (some 0))
      (firstCreated shellRequest) := by
    refine ⟨boot_create shell_admitted, ?_⟩
    intro request readCode result pid pageDir he
    injection he with he
    rw [← he]
    exact hloads
  have hkill : LoadStep (firstCreated shellRequest) (.destroy 0 true) _ :=
    ⟨firstCreated_kill shellRequest, fun _ _ _ _ _ he => Event.noConfusion he⟩
  have hrun := Run.cons hcreate (.nil _)
  have hreturned := (run_frames (.nil KernelState.boot)).2.2 _ _ 0 _ _ _ _ [] _ hcreate (.nil _) hkill rfl
  exact ⟨_, _, hrun, hkill, (run_frames hrun).1, fun f => (hreturned f).1⟩

end Doors.Kernel
