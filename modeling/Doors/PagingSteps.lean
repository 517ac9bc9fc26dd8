import Doors.ProcessSteps

/-! What the paging functions do to the entries of the directories and to the frame
map: one allocation, one release, and the two loops made of them. -/

namespace Doors.Kernel

variable {p q : PagingState} {d : Fin pagingDirectoryTableMaxCount}

/-- The entry that maps frame `f` for the user. -/
def PageDirectoryEntry.user (f : Fin pageFrameMaxCount) : PageDirectoryEntry :=
  ⟨userFlag, ⟨f.val, by have h : f.val < 32 := f.isLt; show f.val < 1024; omega⟩⟩

/-- The entry is present and points at frame `f`. -/
def PageDirectoryEntry.Maps (e : PageDirectoryEntry) (f : Fin pageFrameMaxCount) : Prop :=
  e.present = true ∧ e.lowerAddress.val = f.val

theorem pageIndex_add {buf : UInt32} {n : Nat} (h : (pageIndex buf).val + n < 1024) :
    (pageIndex (buf + UInt32.ofNat n * pageFrameSize)).val = (pageIndex buf).val + n := by
  rw [pageIndex_val] at h
  have hsize : pageFrameSize.toNat = 4194304 := rfl
  rw [pageIndex_val, pageIndex_val, UInt32.toNat_add, UInt32.toNat_mul, UInt32.toNat_ofNat', hsize]
  omega

theorem pageIndex_shift (j : Fin pageEntryCount) : pageIndex (UInt32.ofNat j <<< 22) = j := by
  have hj : j.val < 1024 := j.isLt
  apply Fin.ext
  rw [pageIndex_val, UInt32.toNat_shiftLeft, UInt32.toNat_ofNat']
  have hshift : (22 : UInt32).toNat % 32 = 22 := rfl
  rw [hshift, Nat.shiftLeft_eq]
  omega

theorem pageIndex_frame (f : Fin pageFrameMaxCount) :
    (⟨userFlag, pageIndex (UInt32.ofNat f * pageFrameSize)⟩ : PageDirectoryEntry) = .user f := by
  have hf : f.val < 32 := f.isLt
  have hsize : pageFrameSize.toNat = 4194304 := rfl
  have hindex : (pageIndex (UInt32.ofNat f * pageFrameSize)).val = f.val := by
    rw [pageIndex_val, UInt32.toNat_mul, UInt32.toNat_ofNat', hsize]
    omega
  rw [PageDirectoryEntry.user, PageDirectoryEntry.mk.injEq]
  exact ⟨rfl, Fin.ext hindex⟩

section SetEntry

variable {j : Fin pageEntryCount} {e : PageDirectoryEntry}

theorem setEntry_self : (p.setEntry d j e).pageDirectoryList d j = e := by
  simp [PagingState.setEntry]

theorem setEntry_of_ne {k : Fin pageEntryCount} (hk : k ≠ j) :
    (p.setEntry d j e).pageDirectoryList d k = p.pageDirectoryList d k := by
  simp [PagingState.setEntry, hk]

theorem setEntry_other {c : Fin pagingDirectoryTableMaxCount} (hc : c ≠ d) :
    (p.setEntry d j e).pageDirectoryList c = p.pageDirectoryList c :=
  Function.update_of_ne hc _ _

end SetEntry

theorem allocate_some {f : Fin pageFrameMaxCount} (hf : p.pageFrameMap.firstClear = some f)
    (virtualAddr : UInt32) : pagingAllocateUserPageFrame p d virtualAddr =
      (true, PagingState.setEntry
        { p with
          pageFrameMap := Function.update p.pageFrameMap f true
          freePageFrameCount := p.freePageFrameCount - 1 }
        d (pageIndex virtualAddr) (.user f)) := by
  simp only [pagingAllocateUserPageFrame, hf, updatePageDirectoryEntry, pageIndex_frame]

theorem allocate_none (hf : p.pageFrameMap.firstClear = none) (virtualAddr : UInt32) :
    pagingAllocateUserPageFrame p d virtualAddr = (false, p) := by
  simp only [pagingAllocateUserPageFrame, hf]

theorem allocate_of_ne {virtualAddr : UInt32} {j : Fin pageEntryCount}
    (hj : j ≠ pageIndex virtualAddr) :
    (pagingAllocateUserPageFrame p d virtualAddr).2.pageDirectoryList d j =
      p.pageDirectoryList d j := by
  cases hf : p.pageFrameMap.firstClear with
  | none => rw [allocate_none hf]
  | some f =>
    rw [allocate_some hf]
    exact setEntry_of_ne hj

theorem allocate_other {virtualAddr : UInt32} {c : Fin pagingDirectoryTableMaxCount} (hc : c ≠ d) :
    (pagingAllocateUserPageFrame p d virtualAddr).2.pageDirectoryList c = p.pageDirectoryList c := by
  cases hf : p.pageFrameMap.firstClear with
  | none => rw [allocate_none hf]
  | some f =>
    rw [allocate_some hf]
    exact setEntry_other hc

theorem allocatePages_succ (buf : UInt32) (n : Nat) :
    allocatePages d buf (n + 1) p = (pagingAllocateUserPageFrame (allocatePages d buf n p) d
      (buf + UInt32.ofNat n * pageFrameSize)).2 := by
  simp only [allocatePages, List.range_succ, List.foldl_append, List.foldl_cons, List.foldl_nil]

theorem allocatePages_invariant {P : PagingState → Nat → Prop} {buf : UInt32} {count : Nat}
    (h : P p 0) (hstep : ∀ q n, n < count → P q n →
      P (pagingAllocateUserPageFrame q d (buf + UInt32.ofNat n * pageFrameSize)).2 (n + 1)) :
    P (allocatePages d buf count p) count := by
  induction count with
  | zero => exact h
  | succ n ih =>
    rw [allocatePages_succ]
    apply hstep _ n (Nat.lt_succ_self n)
    apply ih
    intro q m hm
    exact hstep q m (Nat.lt_succ_of_lt hm)

theorem allocatePages_of_notMem {buf : UInt32} {count : Nat} {j : Fin pageEntryCount}
    (hc : (pageIndex buf).val + count ≤ 1024)
    (hj : j.val < (pageIndex buf).val ∨ (pageIndex buf).val + count ≤ j.val) :
    (allocatePages d buf count p).pageDirectoryList d j = p.pageDirectoryList d j := by
  apply allocatePages_invariant (P := fun q _ => q.pageDirectoryList d j = p.pageDirectoryList d j) rfl
  intro q n hn hq
  have hindex : (pageIndex (buf + UInt32.ofNat n * pageFrameSize)).val = (pageIndex buf).val + n :=
    pageIndex_add (by omega)
  rw [allocate_of_ne, hq]
  intro he
  rw [← he] at hindex
  omega

theorem allocatePages_other {buf : UInt32} {count : Nat} {c : Fin pagingDirectoryTableMaxCount}
    (hc : c ≠ d) : (allocatePages d buf count p).pageDirectoryList c = p.pageDirectoryList c := by
  apply allocatePages_invariant (P := fun q _ => q.pageDirectoryList c = p.pageDirectoryList c) rfl
  intro q n _ hq
  rw [allocate_other hc, hq]

/-- With enough clear frames the range of the load is mapped for the user. -/
theorem allocatePages_user {buf : UInt32} {count : Nat} {j : Fin pageEntryCount}
    (hc : (pageIndex buf).val + count ≤ 1024) (hroom : p.pageFrameMap.usedCount + count ≤ 32)
    (hj : (pageIndex buf).val ≤ j.val) (hj' : j.val < (pageIndex buf).val + count) :
    ∃ f, (allocatePages d buf count p).pageDirectoryList d j = .user f := by
  have hh := @allocatePages_invariant p d
    (fun q n => q.pageFrameMap.usedCount = p.pageFrameMap.usedCount + n ∧
      (j.val < (pageIndex buf).val + n → ∃ f, q.pageDirectoryList d j = .user f)) buf count
    ⟨rfl, fun hlt => by omega⟩ ?_
  · exact hh.2 hj'
  · intro q n hn hq
    have hlt : q.pageFrameMap.usedCount < 32 := by omega
    obtain ⟨f, hf⟩ := Bitmap.firstClear_of_lt hlt
    have hindex : (pageIndex (buf + UInt32.ofNat n * pageFrameSize)).val =
        (pageIndex buf).val + n := pageIndex_add (by omega)
    rw [allocate_some hf]
    constructor
    · show Bitmap.usedCount (Function.update q.pageFrameMap f true) = _
      rw [Bitmap.usedCount_set (Bitmap.firstClear_some hf), hq.1]
      omega
    · intro hlt
      by_cases he : j = pageIndex (buf + UInt32.ofNat n * pageFrameSize)
      · rw [he]
        exact ⟨f, setEntry_self⟩
      · rw [setEntry_of_ne he]
        apply hq.2
        have hne : j.val ≠ (pageIndex buf).val + n := by
          rw [← hindex]
          exact fun hv => he (Fin.ext hv)
        omega

section CreateDirectory

variable (hd : p.pageDirectoryUsed.firstClear = some d)

include hd

theorem createDirectory_kernel :
    (pagingCreateNewPageDirectory p).2.pageDirectoryList d kernelPageIndex = .kernel := by
  simp only [pagingCreateNewPageDirectory, hd]
  exact setEntry_self

theorem createDirectory_zero (hz : p.pageDirectoryList d 0 = .zero) :
    (pagingCreateNewPageDirectory p).2.pageDirectoryList d 0 = .kernel := by
  simp only [pagingCreateNewPageDirectory, hd]
  rw [setEntry_of_ne (by decide), setEntry_self, hz]
  rfl

theorem createDirectory_of_ne {j : Fin pageEntryCount} (h0 : j ≠ 0) (hk : j ≠ kernelPageIndex) :
    (pagingCreateNewPageDirectory p).2.pageDirectoryList d j = p.pageDirectoryList d j := by
  simp only [pagingCreateNewPageDirectory, hd]
  rw [setEntry_of_ne hk, setEntry_of_ne h0]

theorem createDirectory_other {c : Fin pagingDirectoryTableMaxCount} (hc : c ≠ d) :
    (pagingCreateNewPageDirectory p).2.pageDirectoryList c = p.pageDirectoryList c := by
  simp only [pagingCreateNewPageDirectory, hd]
  rw [setEntry_other hc, setEntry_other hc]

theorem createDirectory_map :
    (pagingCreateNewPageDirectory p).2.pageFrameMap = p.pageFrameMap ∧
      (pagingCreateNewPageDirectory p).2.freePageFrameCount = p.freePageFrameCount := by
  simp only [pagingCreateNewPageDirectory, hd]
  exact ⟨rfl, rfl⟩

end CreateDirectory

/-- The entry of index `j` is given back when its directory is freed. -/
def Released (p : PagingState) (d : Fin pagingDirectoryTableMaxCount) (j : Fin pageEntryCount) :
    Prop :=
  j ≠ kernelPageIndex ∧ (p.pageDirectoryList d j).present = true

theorem freeEntry_released {j : Fin pageEntryCount} (h : Released p d j) :
    freeDirectoryEntry d p j = PagingState.setEntry
      { p with
        pageFrameMap := p.pageFrameMap.clearAt (p.pageDirectoryList d j).lowerAddress
        freePageFrameCount := p.freePageFrameCount + 1 } d j .zero := by
  simp only [freeDirectoryEntry, h.1, h.2, pagingFreeUserPageFrame, pageIndex_shift, if_true,
    if_false]

theorem freeEntry_kernel : freeDirectoryEntry d p kernelPageIndex =
    p.setEntry d kernelPageIndex .zero := by
  simp only [freeDirectoryEntry, if_true]

theorem freeEntry_absent {j : Fin pageEntryCount} (hk : j ≠ kernelPageIndex)
    (h : ¬ Released p d j) : freeDirectoryEntry d p j = p := by
  have hp : ¬ (p.pageDirectoryList d j).present = true := fun hp => h ⟨hk, hp⟩
  rw [freeDirectoryEntry, if_neg hk, if_neg hp]

/-- What the loop over the entries `js` of directory `d` leaves. -/
structure EntriesFreed (p q : PagingState) (d : Fin pagingDirectoryTableMaxCount)
    (js : List (Fin pageEntryCount)) : Prop where
  other : ∀ c, c ≠ d → q.pageDirectoryList c = p.pageDirectoryList c
  kept : ∀ j, j ∉ js ∨ (j ≠ kernelPageIndex ∧ ¬ Released p d j) →
    q.pageDirectoryList d j = p.pageDirectoryList d j
  cleared : ∀ j ∈ js, j = kernelPageIndex ∨ Released p d j → q.pageDirectoryList d j = .zero
  frame : ∀ f, q.pageFrameMap f = true ↔ p.pageFrameMap f = true ∧
    ∀ j ∈ js, Released p d j → (p.pageDirectoryList d j).lowerAddress.val ≠ f.val

theorem entriesFreed_nil : EntriesFreed p p d [] where
  other _ _ := rfl
  kept _ _ := rfl
  cleared j hj := absurd hj List.not_mem_nil
  frame f := by simp

/-- An entry that is cleared, with its frame given back or not. -/
theorem entriesFreed_setEntry {j : Fin pageEntryCount} (hj : j = kernelPageIndex ∨ Released p d j)
    (hq : q.pageDirectoryList = p.pageDirectoryList)
    (hframe : ∀ f, q.pageFrameMap f = true ↔ p.pageFrameMap f = true ∧
      (Released p d j → (p.pageDirectoryList d j).lowerAddress.val ≠ f.val)) :
    EntriesFreed p (q.setEntry d j .zero) d [j] where
  other c hc := (setEntry_other hc).trans (congrFun hq c)
  kept k hk := by
    have hne : k ≠ j := by
      rintro rfl
      rcases hk with hk | hk
      · exact hk (by simp)
      · exact hj.elim hk.1 hk.2
    rw [setEntry_of_ne hne, hq]
  cleared k hk _ := by
    rw [List.mem_singleton.mp hk]
    exact setEntry_self
  frame f := by simpa [PagingState.setEntry] using hframe f

/-- One entry, in the terms of the loop. -/
theorem entriesFreed_one (j : Fin pageEntryCount) :
    EntriesFreed p (freeDirectoryEntry d p j) d [j] := by
  by_cases hr : Released p d j
  · rw [freeEntry_released hr]
    refine entriesFreed_setEntry (.inr hr) rfl fun f => ?_
    by_cases hf : f.val = (p.pageDirectoryList d j).lowerAddress.val
    · simp [Bitmap.clearAt, hf, hr]
    · simp [Bitmap.clearAt, hf, hr, Ne.symm hf]
  · by_cases hk : j = kernelPageIndex
    · subst hk
      rw [freeEntry_kernel]
      exact entriesFreed_setEntry (.inl rfl) rfl fun f => by simp [hr]
    · rw [freeEntry_absent hk hr]
      exact {
        other := fun _ _ => rfl
        kept := fun _ _ => rfl
        cleared := by
          intro k hk' h
          rw [List.mem_singleton.mp hk'] at h
          rcases h with h | h
          · exact absurd h hk
          · exact absurd h hr
        frame := by
          intro f
          simp [hr] }

theorem EntriesFreed.released_iff {js : List (Fin pageEntryCount)} (h : EntriesFreed p q d js)
    {j : Fin pageEntryCount} (hj : j ∉ js) : Released q d j ↔ Released p d j := by
  rw [Released, Released, h.kept j (.inl hj)]

theorem EntriesFreed.cons {r : PagingState} {j : Fin pageEntryCount}
    {js : List (Fin pageEntryCount)} (h : EntriesFreed p q d [j]) (h' : EntriesFreed q r d js)
    (hj : j ∉ js) : EntriesFreed p r d (j :: js) where
  other c hc := (h'.other c hc).trans (h.other c hc)
  kept k hk := by
    by_cases hkj : k = j
    · subst hkj
      rw [h'.kept k (.inl hj)]
      apply h.kept
      rcases hk with hk | hk
      · exact absurd (by simp) hk
      · exact .inr hk
    · have hnot : k ∉ [j] := by simpa using hkj
      rw [h'.kept k, h.kept k (.inl hnot)]
      rw [h.released_iff hnot]
      simpa [hkj] using hk
  cleared k hk hr := by
    by_cases hkj : k = j
    · subst hkj
      rw [h'.kept k (.inl hj)]
      exact h.cleared k (by simp) hr
    · have hnot : k ∉ [j] := by simpa using hkj
      apply h'.cleared k (by simpa [hkj] using hk)
      rw [h.released_iff hnot]
      exact hr
  frame f := by
    have htail : ∀ k ∈ js, (Released q d k ↔ Released p d k) ∧
        q.pageDirectoryList d k = p.pageDirectoryList d k := by
      intro k hk
      have hnot : k ∉ [j] := by
        rw [List.mem_singleton]
        rintro rfl
        exact hj hk
      exact ⟨h.released_iff hnot, h.kept k (.inl hnot)⟩
    rw [h'.frame, h.frame]
    constructor
    · rintro ⟨⟨hf, hone⟩, hrest⟩
      refine ⟨hf, fun k hk hr => ?_⟩
      rcases List.mem_cons.mp hk with rfl | hk
      · exact hone k (by simp) hr
      · rw [← (htail k hk).2]
        exact hrest k hk ((htail k hk).1.mpr hr)
    · rintro ⟨hf, hall⟩
      refine ⟨⟨hf, fun k hk => hall k (by simp [List.mem_singleton.mp hk])⟩, fun k hk hr => ?_⟩
      rw [(htail k hk).2]
      exact hall k (by simp [hk]) ((htail k hk).1.mp hr)

theorem freeEntries_freed {js : List (Fin pageEntryCount)} (hnd : js.Nodup) :
    EntriesFreed p (js.foldl (freeDirectoryEntry d) p) d js := by
  induction js generalizing p with
  | nil => exact entriesFreed_nil
  | cons j js ih =>
    rw [List.nodup_cons] at hnd
    exact (entriesFreed_one j).cons (ih hnd.2) hnd.1

theorem freeDirectory_freed : EntriesFreed p (pagingFreePageDirectory p (.slot d)).2 d
    (List.finRange pageEntryCount) := by
  have hh := freeEntries_freed (List.nodup_finRange pageEntryCount) (d := d) (p := { p with
    pageDirectoryUsed := Function.update p.pageDirectoryUsed d false })
  simp only [pagingFreePageDirectory]
  generalize (List.finRange pageEntryCount).foldl (freeDirectoryEntry d)
    { p with pageDirectoryUsed := Function.update p.pageDirectoryUsed d false } = q at hh ⊢
  exact ⟨hh.other, hh.kept, hh.cleared, hh.frame⟩

section Used

theorem allocate_used (virtualAddr : UInt32) :
    (pagingAllocateUserPageFrame p d virtualAddr).2.pageDirectoryUsed = p.pageDirectoryUsed := by
  unfold pagingAllocateUserPageFrame
  cases p.pageFrameMap.firstClear <;> rfl

theorem allocatePages_used (buf : UInt32) (count : Nat) :
    (allocatePages d buf count p).pageDirectoryUsed = p.pageDirectoryUsed := by
  unfold allocatePages
  induction List.range count generalizing p with
  | nil => rfl
  | cons i is ih =>
    rw [List.foldl_cons, ih, allocate_used]

theorem allocatePages_cr3 (buf : UInt32) (count : Nat) :
    (allocatePages d buf count p).cr3 = p.cr3 := by
  unfold allocatePages
  induction List.range count generalizing p with
  | nil => rfl
  | cons i is ih =>
    rw [List.foldl_cons, ih, pagingAllocateUserPageFrame]
    cases p.pageFrameMap.firstClear <;> rfl

theorem use_used (c : PageDirectoryPtr) :
    (pagingUsePageDirectory p c).pageDirectoryUsed = p.pageDirectoryUsed := rfl

theorem loadedPaging_used (request : Fat32.FAT32DriverRequest UInt32) :
    (loadedPaging p d request).pageDirectoryUsed = p.pageDirectoryUsed := by
  rw [loadedPaging, use_used, allocatePages_used, use_used]

theorem createDirectory_used (hd : p.pageDirectoryUsed.firstClear = some d) :
    (pagingCreateNewPageDirectory p).2.pageDirectoryUsed =
      Function.update p.pageDirectoryUsed d true := by
  unfold pagingCreateNewPageDirectory
  simp only [hd]
  rfl

theorem freeEntries_keep (js : List (Fin pageEntryCount)) :
    (js.foldl (freeDirectoryEntry d) p).pageDirectoryUsed = p.pageDirectoryUsed ∧
      (js.foldl (freeDirectoryEntry d) p).cr3 = p.cr3 := by
  induction js generalizing p with
  | nil => exact ⟨rfl, rfl⟩
  | cons j js ih =>
    have hentry : (freeDirectoryEntry d p j).pageDirectoryUsed = p.pageDirectoryUsed ∧
        (freeDirectoryEntry d p j).cr3 = p.cr3 := by
      simp only [freeDirectoryEntry, pagingFreeUserPageFrame]
      split_ifs <;> exact ⟨rfl, rfl⟩
    rw [List.foldl_cons, ih.1, ih.2]
    exact hentry

theorem freeDirectory_keep : (pagingFreePageDirectory p (.slot d)).2.pageDirectoryUsed =
    Function.update p.pageDirectoryUsed d false ∧
      (pagingFreePageDirectory p (.slot d)).2.cr3 = p.cr3 := by
  have hh := freeEntries_keep (List.finRange pageEntryCount) (d := d) (p := { p with
    pageDirectoryUsed := Function.update p.pageDirectoryUsed d false })
  simp only [pagingFreePageDirectory]
  generalize (List.finRange pageEntryCount).foldl (freeDirectoryEntry d)
    { p with pageDirectoryUsed := Function.update p.pageDirectoryUsed d false } = q at hh ⊢
  exact hh

theorem freeDirectory_used :
    (pagingFreePageDirectory p (.slot d)).2.pageDirectoryUsed =
      Function.update p.pageDirectoryUsed d false := freeDirectory_keep.1

theorem freeDirectory_cr3 : (pagingFreePageDirectory p (.slot d)).2.cr3 = p.cr3 :=
  freeDirectory_keep.2

end Used

theorem use_list (c : PageDirectoryPtr) :
    (pagingUsePageDirectory p c).pageDirectoryList = p.pageDirectoryList := rfl

theorem use_map (c : PageDirectoryPtr) :
    (pagingUsePageDirectory p c).pageFrameMap = p.pageFrameMap := rfl

theorem loadedPaging_list (request : Fat32.FAT32DriverRequest UInt32) :
    (loadedPaging p d request).pageDirectoryList =
      (allocatePages d request.buf (requiredPageFrames request.bufferSize).toNat
        (pagingUsePageDirectory p (.slot d))).pageDirectoryList := by
  rw [loadedPaging, use_list]

/-- The range of a load ends below the page of the kernel. -/
def EndsBelowKernel (request : Fat32.FAT32DriverRequest UInt32) : Prop :=
  (pageIndex request.buf).val + (requiredPageFrames request.bufferSize).toNat ≤ 0x300

section Load

variable {request : Fat32.FAT32DriverRequest UInt32}
variable (hd : p.pageDirectoryUsed.firstClear = some d)

include hd

theorem load_cr3 : (loadedPaging (pagingCreateNewPageDirectory p).2 d request).cr3 =
    if p.cr3 = .null then .wild else p.cr3 := by
  have hcr3 : (pagingCreateNewPageDirectory p).2.cr3 = p.cr3 := by
    simp only [pagingCreateNewPageDirectory, hd]
    rfl
  simp only [loadedPaging, pagingUsePageDirectory, pagingGetCurrentPageDirectoryAddr, hcr3]

theorem load_used : (loadedPaging (pagingCreateNewPageDirectory p).2 d request).pageDirectoryUsed =
    Function.update p.pageDirectoryUsed d true := by
  rw [loadedPaging_used, createDirectory_used hd]

theorem load_other {c : Fin pagingDirectoryTableMaxCount} (hc : c ≠ d) :
    (loadedPaging (pagingCreateNewPageDirectory p).2 d request).pageDirectoryList c =
      p.pageDirectoryList c := by
  rw [loadedPaging_list, allocatePages_other hc, use_list, createDirectory_other hd hc]

theorem load_kernel (hr : EndsBelowKernel request) :
    (loadedPaging (pagingCreateNewPageDirectory p).2 d request).pageDirectoryList d
      kernelPageIndex = .kernel := by
  have hk : kernelPageIndex.val = 0x300 := rfl
  rw [EndsBelowKernel] at hr
  rw [loadedPaging_list, allocatePages_of_notMem (by omega) (by omega), use_list,
    createDirectory_kernel hd]

theorem load_user {j : Fin pageEntryCount}
    (hc : (pageIndex request.buf).val + (requiredPageFrames request.bufferSize).toNat ≤ 1024)
    (hroom : p.pageFrameMap.usedCount + (requiredPageFrames request.bufferSize).toNat ≤ 32)
    (hj : (pageIndex request.buf).val ≤ j.val)
    (hj' : j.val < (pageIndex request.buf).val + (requiredPageFrames request.bufferSize).toNat) :
    ∃ f, (loadedPaging (pagingCreateNewPageDirectory p).2 d request).pageDirectoryList d j =
      .user f := by
  rw [loadedPaging_list]
  apply allocatePages_user hc _ hj hj'
  rw [use_map, (createDirectory_map hd).1]
  exact hroom

end Load

end Doors.Kernel
