import Doors.ProcessCreation

/-! Whether a created process can run: the pages of its program and of its stack, and the
saved entry point. Creation leaves `eip` as the free record has it, and sets `esp` to the
end of page 0 wherever the program is loaded. -/

namespace Doors.Kernel

open Fat32 (FAT32DriverRequest)

/-- Present, writable and accessible to the user. -/
def UserPage (e : PageDirectoryEntry) : Prop :=
  e.flag.presentBit = true ∧ e.flag.writeBit = true ∧ e.flag.userSupervisor = true

/-- Process `i` on directory `d` can run the program of the request. -/
structure Runnable (s : KernelState) (i : Fin processCountMax)
    (d : Fin pagingDirectoryTableMaxCount) (request : FAT32DriverRequest UInt32) : Prop where
  load : ∀ k < request.bufferSize.toNat,
    UserPage (s.paging.pageDirectoryList d (pageIndex (request.buf + UInt32.ofNat k)))
  entry : (s.processList i).context.eip = request.buf
  stack : UserPage (s.paging.pageDirectoryList d
    (pageIndex ((s.processList i).context.cpu.esp - 4)))

/-- A clear frame is there for one of the counted pages, and it is page `j`. -/
def GetsFrame (p : PagingState) (request : FAT32DriverRequest UInt32) (j : Fin pageEntryCount) :
    Prop :=
  ∃ n < (requiredPageFrames request.bufferSize).toNat, p.pageFrameMap.usedCount + n < 32 ∧
    pageIndex (request.buf + UInt32.ofNat n * pageFrameSize) = j

/-- An earlier use of the free directory has left page `j` to the user. -/
def LeftToUser (p : PagingState) (d : Fin pagingDirectoryTableMaxCount) (j : Fin pageEntryCount) :
    Prop :=
  j ≠ kernelPageIndex ∧ (p.pageDirectoryList d j).flag.userSupervisor = true ∧
    (j = 0 ∨ UserPage (p.pageDirectoryList d j))

section Pages

variable {p : PagingState} {d : Fin pagingDirectoryTableMaxCount}

/-- The loop maps a page for each clear frame, as far as it counts. -/
theorem allocatePages_userPage {buf : UInt32} {count : Nat} (j : Fin pageEntryCount) :
    UserPage ((allocatePages d buf count p).pageDirectoryList d j) ↔
      (∃ n < count, p.pageFrameMap.usedCount + n < 32 ∧
        pageIndex (buf + UInt32.ofNat n * pageFrameSize) = j) ∨
      UserPage (p.pageDirectoryList d j) := by
  have hh := @allocatePages_invariant p d
    (fun q n => (q.pageFrameMap.usedCount = p.pageFrameMap.usedCount + n ∨
        q.pageFrameMap.usedCount = 32 ∧ 32 ≤ p.pageFrameMap.usedCount + n) ∧
      (UserPage (q.pageDirectoryList d j) ↔
        (∃ m < n, p.pageFrameMap.usedCount + m < 32 ∧
          pageIndex (buf + UInt32.ofNat m * pageFrameSize) = j) ∨
        UserPage (p.pageDirectoryList d j))) buf count ⟨.inl rfl, by simp⟩ ?_
  · exact hh.2
  · rintro q n - ⟨hcount, hpages⟩
    have hle : q.pageFrameMap.usedCount ≤ 32 := Bitmap.usedCount_le q.pageFrameMap
    cases hf : q.pageFrameMap.firstClear with
    | none =>
      have hfull : q.pageFrameMap.usedCount = 32 := by
        by_contra hne
        obtain ⟨f, hf'⟩ := Bitmap.firstClear_of_lt (Nat.lt_of_le_of_ne hle hne)
        rw [hf] at hf'
        cases hf'
      have hend : 32 ≤ p.pageFrameMap.usedCount + n := by
        clear hpages
        omega
      rw [allocate_none hf]
      refine ⟨.inr ⟨hfull, Nat.le_succ_of_le hend⟩, hpages.trans (or_congr_left ?_)⟩
      constructor
      · rintro ⟨m, hm, hroom, hj⟩
        exact ⟨m, Nat.lt_succ_of_lt hm, hroom, hj⟩
      · rintro ⟨m, hm, hroom, hj⟩
        exact ⟨m, by omega, hroom, hj⟩
    | some f =>
      have hlt : q.pageFrameMap.usedCount < 32 := Bitmap.usedCount_lt (Bitmap.firstClear_some hf)
      have hcount : q.pageFrameMap.usedCount = p.pageFrameMap.usedCount + n := by
        clear hpages
        omega
      rw [allocate_some hf]
      refine ⟨.inl ?_, ?_⟩
      · show Bitmap.usedCount (Function.update q.pageFrameMap f true) = _
        rw [Bitmap.usedCount_set (Bitmap.firstClear_some hf), hcount, Nat.add_assoc]
      · by_cases hj : j = pageIndex (buf + UInt32.ofNat n * pageFrameSize)
        · rw [hj, setEntry_self]
          exact iff_of_true ⟨rfl, rfl, rfl⟩ (.inl ⟨n, Nat.lt_succ_self n, hcount ▸ hlt, rfl⟩)
        · rw [setEntry_of_ne hj]
          refine hpages.trans (or_congr_left ?_)
          constructor
          · rintro ⟨m, hm, h⟩
            exact ⟨m, Nat.lt_succ_of_lt hm, h⟩
          · rintro ⟨m, hm, h, hmj⟩
            have hmn : m ≠ n := by
              rintro rfl
              exact hj hmj.symm
            exact ⟨m, by omega, h, hmj⟩

theorem createDirectory_userPage (hd : p.pageDirectoryUsed.firstClear = some d)
    (j : Fin pageEntryCount) :
    UserPage ((pagingCreateNewPageDirectory p).2.pageDirectoryList d j) ↔ LeftToUser p d j := by
  by_cases hk : j = kernelPageIndex
  · rw [hk, createDirectory_kernel hd]
    exact iff_of_false (fun h => nomatch h.2.2) fun h => h.1 rfl
  · by_cases h0 : j = 0
    · subst h0
      have hentry : (pagingCreateNewPageDirectory p).2.pageDirectoryList d 0 =
          ⟨{ (p.pageDirectoryList d 0).flag with
            presentBit := true, writeBit := true, usePagesize4Mb := true }, 0⟩ := by
        simp only [pagingCreateNewPageDirectory, hd]
        rw [setEntry_of_ne (by decide), setEntry_self]
      rw [hentry]
      exact ⟨fun h => ⟨hk, h.2.2, .inl rfl⟩, fun h => ⟨rfl, rfl, h.2.1⟩⟩
    · rw [createDirectory_of_ne hd h0 hk]
      exact ⟨fun h => ⟨hk, h.2.2, .inr h⟩, fun h => h.2.2.resolve_left h0⟩

theorem load_userPage (hd : p.pageDirectoryUsed.firstClear = some d)
    (request : FAT32DriverRequest UInt32) (j : Fin pageEntryCount) :
    UserPage ((loadedPaging (pagingCreateNewPageDirectory p).2 d request).pageDirectoryList d j) ↔
      GetsFrame p request j ∨ LeftToUser p d j := by
  have hmap : (pagingUsePageDirectory (pagingCreateNewPageDirectory p).2 (.slot d)).pageFrameMap =
      p.pageFrameMap := (createDirectory_map hd).1
  rw [loadedPaging_list, allocatePages_userPage, use_list, createDirectory_userPage hd, hmap]
  rfl

end Pages

/-- A free directory is empty, and what is not empty is present. -/
structure Tidy (p : PagingState) : Prop where
  unused : ∀ d, p.pageDirectoryUsed d = false → ∀ j, p.pageDirectoryList d j = .zero
  entry : ∀ d j, p.pageDirectoryList d j = .zero ∨ (p.pageDirectoryList d j).present = true

theorem boot_tidy : Tidy .boot := ⟨fun _ _ _ => rfl, fun _ _ => .inl rfl⟩

namespace Tidy

variable {p : PagingState} {d : Fin pagingDirectoryTableMaxCount}

theorem createDirectory_entry (h : Tidy p) (hd : p.pageDirectoryUsed.firstClear = some d)
    (j : Fin pageEntryCount) : (pagingCreateNewPageDirectory p).2.pageDirectoryList d j = .zero ∨
      ((pagingCreateNewPageDirectory p).2.pageDirectoryList d j).present = true := by
  by_cases hk : j = kernelPageIndex
  · rw [hk, createDirectory_kernel hd]
    exact .inr rfl
  · by_cases h0 : j = 0
    · rw [h0, createDirectory_zero hd (h.unused d (Bitmap.firstClear_some hd) 0)]
      exact .inr rfl
    · rw [createDirectory_of_ne hd h0 hk]
      exact h.entry d j

theorem loaded (h : Tidy p) (hd : p.pageDirectoryUsed.firstClear = some d)
    (request : FAT32DriverRequest UInt32) :
    Tidy (loadedPaging (pagingCreateNewPageDirectory p).2 d request) := by
  refine ⟨fun c hc => ?_, fun c => ?_⟩
  · have hcd : c ≠ d := by
      rintro rfl
      rw [load_used hd, Function.update_self] at hc
      cases hc
    rw [load_used hd, Function.update_of_ne hcd] at hc
    rw [load_other hd hcd]
    exact h.unused c hc
  · by_cases hcd : c = d
    · subst hcd
      rw [loadedPaging_list]
      refine allocatePages_invariant (P := fun q _ => ∀ j, q.pageDirectoryList c j = .zero ∨
        (q.pageDirectoryList c j).present = true) (h.createDirectory_entry hd) fun q n _ hq j => ?_
      by_cases hj : j = pageIndex (request.buf + UInt32.ofNat n * pageFrameSize)
      · cases hf : q.pageFrameMap.firstClear with
        | none =>
          rw [allocate_none hf]
          exact hq j
        | some f =>
          rw [allocate_some hf, hj, setEntry_self]
          exact .inr rfl
      · rw [allocate_of_ne hj]
        exact hq j
    · rw [load_other hd hcd]
      exact h.entry c

theorem freed (h : Tidy p) : Tidy (pagingFreePageDirectory p (.slot d)).2 := by
  have hf := freeDirectory_freed (p := p) (d := d)
  have hzero : ∀ j, (pagingFreePageDirectory p (.slot d)).2.pageDirectoryList d j = .zero := by
    intro j
    by_cases hj : j = kernelPageIndex ∨ Released p d j
    · exact hf.cleared j (List.mem_finRange j) hj
    · obtain ⟨hk, hr⟩ := not_or.mp hj
      rw [hf.kept j (.inr ⟨hk, hr⟩)]
      exact (h.entry d j).resolve_right fun hpresent => hr ⟨hk, hpresent⟩
  refine ⟨fun c hc => ?_, fun c j => ?_⟩
  · by_cases hcd : c = d
    · subst hcd
      exact hzero
    · rw [freeDirectory_used, Function.update_of_ne hcd] at hc
      rw [hf.other c hcd]
      exact h.unused c hc
  · by_cases hcd : c = d
    · subst hcd
      exact .inl (hzero j)
    · rw [hf.other c hcd]
      exact h.entry c j

theorem outcome (h : Tidy p) {s : KernelState} {e : Event} {q : PagingState} (hp : s.paging = p)
    (ho : PagingOutcome s e q) : Tidy q := by
  subst hp
  cases ho with
  | kept c hq =>
    rw [hq]
    exact ⟨h.unused, h.entry⟩
  | loaded _ _ hd hq =>
    rw [hq]
    exact h.loaded hd _
  | freed _ _ _ hq =>
    rw [hq]
    exact h.freed

theorem not_leftToUser (h : Tidy p) (hd : p.pageDirectoryUsed d = false) (j : Fin pageEntryCount) :
    ¬ LeftToUser p d j := by
  rintro ⟨-, huser, -⟩
  rw [h.unused d hd] at huser
  cases huser

end Tidy

theorem tidy_of_run {es : List Event} {s : KernelState} (h : Run KernelStep .boot es s) :
    ProcessTable s ∧ Tidy s.paging := by
  apply Run.invariant _ h ⟨boot_processTable, boot_tidy⟩
  rintro s e s' ⟨ht, hp⟩ hs
  have ho := ht.step_outcome hs
  exact ⟨ho.processTable ht, hp.outcome rfl ho.paging⟩

section Sizes

variable {request : FAT32DriverRequest UInt32}

theorem requiredPageFrames_val (size : UInt32) : (requiredPageFrames size).toNat =
    (size.toNat + 4194303) % 4294967296 / 4194304 := by
  have hs := size.toNat_lt
  simp only [requiredPageFrames, pageFrameSize, UInt32.toNat_div, UInt32.toNat_sub,
    UInt32.toNat_add, UInt32.reduceToNat]
  omega

theorem pageIndex_from_zero {n : Nat} (h : n < 1024) :
    (pageIndex (0 + UInt32.ofNat n * pageFrameSize)).val = n := by
  have h0 : (pageIndex 0).val = 0 := by
    decide
  have hh := @pageIndex_add 0 n (by omega)
  rw [hh, h0, Nat.zero_add]

theorem getsFrame_from_zero {p : PagingState} (hbuf : request.buf = 0)
    (hframes : (requiredPageFrames request.bufferSize).toNat ≤ 8) (j : Fin pageEntryCount) :
    GetsFrame p request j ↔ j.val < (requiredPageFrames request.bufferSize).toNat ∧
      p.pageFrameMap.usedCount + j.val < 32 := by
  rw [GetsFrame, hbuf]
  constructor
  · rintro ⟨n, hn, hroom, rfl⟩
    rw [pageIndex_from_zero (by omega)]
    exact ⟨hn, hroom⟩
  · rintro ⟨hj, hroom⟩
    exact ⟨j.val, hj, hroom, Fin.ext (pageIndex_from_zero j.isLt)⟩

/-- From page 0 on the program has all its pages just if its size is counted right and
there are frames for it. -/
theorem pages_from_zero {p : PagingState} (hbuf : request.buf = 0)
    (hframes : (requiredPageFrames request.bufferSize).toNat ≤ 8) :
    (∀ k < request.bufferSize.toNat,
        GetsFrame p request (pageIndex (request.buf + UInt32.ofNat k))) ∧
      GetsFrame p request 0 ↔
    request.bufferSize ≠ 0 ∧ request.bufferSize.toNat ≤ 4290772992 ∧
      p.pageFrameMap.usedCount + (requiredPageFrames request.bufferSize).toNat ≤ 32 := by
  have hs := request.bufferSize.toNat_lt
  have hr := requiredPageFrames_val request.bufferSize
  have hle : p.pageFrameMap.usedCount ≤ 32 := Bitmap.usedCount_le p.pageFrameMap
  have hpage : ∀ k < request.bufferSize.toNat,
      (pageIndex (request.buf + UInt32.ofNat k)).val = k / 4194304 := by
    intro k hk
    have hsum : (request.buf + UInt32.ofNat k).toNat = k := by
      rw [hbuf, UInt32.zero_add, UInt32.toNat_ofNat_of_lt' (Nat.lt_trans hk hs)]
    rw [pageIndex_val, hsum]
    rfl
  constructor
  · rintro ⟨hall, hstack⟩
    obtain ⟨hpos, hroom⟩ := (getsFrame_from_zero hbuf hframes 0).mp hstack
    have hsize : 0 < request.bufferSize.toNat := by
      by_contra hzero
      rw [hr] at hpos
      omega
    have hlast := (getsFrame_from_zero hbuf hframes _).mp (hall (request.bufferSize.toNat - 1)
      (Nat.sub_lt hsize Nat.one_pos))
    rw [hpage _ (Nat.sub_lt hsize Nat.one_pos)] at hlast
    refine ⟨fun hzero => ?_, ?_, ?_⟩
    · rw [hzero] at hsize
      exact absurd hsize (by decide)
    · omega
    · omega
  · rintro ⟨hsize, hmax, hroom⟩
    have hpos : 0 < request.bufferSize.toNat := by
      by_contra hzero
      exact hsize (UInt32.toNat_inj.mp (Nat.eq_zero_of_not_pos hzero))
    refine ⟨fun k hk => (getsFrame_from_zero hbuf hframes _).mpr ?_,
      (getsFrame_from_zero hbuf hframes 0).mpr ?_⟩
    · rw [hpage k hk]
      omega
    · show 0 < _ ∧ _ + 0 < 32
      omega

end Sizes

section Created

variable {s s' : KernelState} {request : FAT32DriverRequest UInt32} {readCode : Int}
  {i : Fin processCountMax} {d : Fin pagingDirectoryTableMaxCount}

theorem created_of_success (hi : processListGetInactiveIndex s = some i)
    (hd : s.paging.pageDirectoryUsed.firstClear = some d)
    (h : processCreateUserProcess s request readCode = some (processCreateSuccess, s')) :
    Admits s request ∧ s' = created s request i d
      (loadedPaging (pagingCreateNewPageDirectory s.paging).2 d request) := by
  rcases create_eq s request readCode with ⟨-, code, hcode, hcreate⟩ | ⟨hadmits, c, hc, hcreate⟩
  · rw [hcreate] at h
    cases h
    exact absurd rfl hcode
  · cases hd.symm.trans hc
    rw [hcreate] at h
    split at h
    · cases h
    · rw [hi] at h
      cases h
      exact ⟨hadmits, rfl⟩

theorem created_record (p : PagingState) : (created s request i d p).processList i =
    setupProcess (s.processList i) request d i :=
  Function.update_self ..

theorem created_runnable (hd : s.paging.pageDirectoryUsed.firstClear = some d) :
    Runnable (created s request i d
      (loadedPaging (pagingCreateNewPageDirectory s.paging).2 d request)) i d request ↔
    (∀ k < request.bufferSize.toNat,
      GetsFrame s.paging request (pageIndex (request.buf + UInt32.ofNat k)) ∨
        LeftToUser s.paging d (pageIndex (request.buf + UInt32.ofNat k))) ∧
    (s.processList i).context.eip = request.buf ∧
    (GetsFrame s.paging request 0 ∨ LeftToUser s.paging d 0) := by
  have hesp : (setupProcess (s.processList i) request d i).context.cpu.esp = pageFrameSize := rfl
  have heip : (setupProcess (s.processList i) request d i).context.eip =
      (s.processList i).context.eip := rfl
  have hstack : pageIndex (pageFrameSize - 4) = 0 := by
    decide
  constructor
  · rintro ⟨hload, hentry, hlast⟩
    rw [created_record, heip] at hentry
    rw [created_record, hesp, hstack, created_paging] at hlast
    exact ⟨fun k hk => (load_userPage hd request _).mp (hload k hk), hentry,
      (load_userPage hd request 0).mp hlast⟩
  · rintro ⟨hload, hentry, hlast⟩
    refine ⟨fun k hk => (load_userPage hd request _).mpr (hload k hk), ?_, ?_⟩
    · rw [created_record, heip]
      exact hentry
    · rw [created_record, hesp, hstack, created_paging]
      exact (load_userPage hd request 0).mpr hlast

theorem created_runnable_of_run (hd : s.paging.pageDirectoryUsed.firstClear = some d)
    (hi : processListGetInactiveIndex s = some i) (ha : Admits s request) {es : List Event}
    (hrun : Run KernelStep .boot es s) :
    Runnable (created s request i d
      (loadedPaging (pagingCreateNewPageDirectory s.paging).2 d request)) i d request ↔
    request.buf = 0 ∧ request.bufferSize ≠ 0 ∧ request.bufferSize.toNat ≤ 4290772992 ∧
      s.paging.pageFrameMap.usedCount + (requiredPageFrames request.bufferSize).toNat ≤ 32 := by
  obtain ⟨htable, htidy⟩ := tidy_of_run hrun
  have hnone := htidy.not_leftToUser (Bitmap.firstClear_some hd)
  have heip : (s.processList i).context.eip = 0 := by
    rw [htable.unused_zero i (Bitmap.firstClear_some hi)]
    rfl
  rw [created_runnable hd, heip]
  simp only [hnone, or_false]
  constructor
  · rintro ⟨hload, hbuf, hlast⟩
    exact ⟨hbuf.symm, (pages_from_zero hbuf.symm ha.frames).mp ⟨hload, hlast⟩⟩
  · rintro ⟨hbuf, hsizes⟩
    obtain ⟨hload, hlast⟩ := (pages_from_zero hbuf ha.frames).mpr hsizes
    exact ⟨hload, hbuf.symm, hlast⟩

/-- When a created process can run: in any state, and in a run. -/
theorem created_runnable_iff (hi : processListGetInactiveIndex s = some i)
    (hd : s.paging.pageDirectoryUsed.firstClear = some d)
    (h : processCreateUserProcess s request readCode = some (processCreateSuccess, s')) :
    (s'.processList i).context.pageDirectoryVirtualAddr = .slot d ∧
    (Runnable s' i d request ↔
      (∀ k < request.bufferSize.toNat,
        GetsFrame s.paging request (pageIndex (request.buf + UInt32.ofNat k)) ∨
          LeftToUser s.paging d (pageIndex (request.buf + UInt32.ofNat k))) ∧
      (s.processList i).context.eip = request.buf ∧
      (GetsFrame s.paging request 0 ∨ LeftToUser s.paging d 0)) ∧
    ∀ es, Run KernelStep .boot es s → (Runnable s' i d request ↔
      request.buf = 0 ∧ request.bufferSize ≠ 0 ∧ request.bufferSize.toNat ≤ 4290772992 ∧
        s.paging.pageFrameMap.usedCount + (requiredPageFrames request.bufferSize).toNat ≤ 32) := by
  obtain ⟨ha, rfl⟩ := created_of_success hi hd h
  refine ⟨?_, created_runnable hd, fun es hrun => created_runnable_of_run hd hi ha hrun⟩
  rw [created_record]
  rfl

end Created

/-- The shell of `kernel_setup` gets page 0, with its stack at the end of it. -/
theorem created_runnable_shell : ∃ s', (s'.processList 0).context.pageDirectoryVirtualAddr = .slot 0 ∧
    Runnable s' 0 0 shellRequest := by
  have hcreate := create_of_step (boot_create shell_admitted)
  have hpid : processListGetInactiveIndex .boot = some 0 := by decide
  obtain ⟨hdir, -, hrun⟩ := created_runnable_iff hpid boot_directory hcreate
  exact ⟨_, hdir, (hrun [] (.nil _)).mpr ⟨rfl, by decide, by decide, by decide⟩⟩

/-- A size whose rounding overflows, so that no page is counted. -/
def overflowRequest : FAT32DriverRequest UInt32 := { shellRequest with bufferSize := 0xFFFFFFFF }

theorem created_runnable_overflow : ∃ s', Run KernelStep .boot [] .boot ∧
    processCreateUserProcess .boot overflowRequest 0 = some (processCreateSuccess, s') ∧
    ¬ Runnable s' 0 0 overflowRequest := by
  have ha : Admits .boot overflowRequest := ⟨by decide, by decide, by decide, by decide⟩
  have hpid : processListGetInactiveIndex .boot = some 0 := by decide
  refine ⟨_, .nil _, create_of_step (boot_create ha), fun h => ?_⟩
  have hsize := ((created_runnable_of_run boot_directory hpid ha (.nil _)).mp h).2.2.1
  exact absurd hsize (by decide)

end Doors.Kernel
