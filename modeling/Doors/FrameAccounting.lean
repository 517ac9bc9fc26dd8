import Doors.KernelFrame

/-! Frame accounting for programs loaded at page 0: the counter, the frame map and the
entries of the used directories agree, and a process gives back what it was given. -/

namespace Doors.Kernel

open Fat32 (FAT32DriverRequest)

theorem user_injective {f g : Fin pageFrameMaxCount}
    (h : PageDirectoryEntry.user f = .user g) : f = g := by
  have hv := congrArg (fun e : PageDirectoryEntry => e.lowerAddress.val) h
  exact Fin.ext hv

theorem zero_ne_user (f : Fin pageFrameMaxCount) : PageDirectoryEntry.zero ≠ .user f := by
  intro h
  exact absurd (congrArg PageDirectoryEntry.userAccessible h) (by simp)

theorem kernel_ne_user (f : Fin pageFrameMaxCount) : PageDirectoryEntry.kernel ≠ .user f := by
  intro h
  exact absurd (congrArg PageDirectoryEntry.userAccessible h) (by simp)

/-- The counter, and the entries that map a frame for the user. -/
structure Owned (p : PagingState) : Prop where
  guarded : Guarded p
  count : p.freePageFrameCount.toNat + p.pageFrameMap.usedCount = 32
  used_mapped : ∀ f, f ≠ 0 → p.pageFrameMap f = true →
    ∃ d j, p.pageDirectoryUsed d = true ∧ p.pageDirectoryList d j = .user f
  mapped_used : ∀ d j f, p.pageDirectoryList d j = .user f → p.pageFrameMap f = true
  mapped_unique : ∀ d j c k f, p.pageDirectoryList d j = .user f →
    p.pageDirectoryList c k = .user f → d = c ∧ j = k

/-- Every process has its first page loaded. -/
structure Accounted (p : PagingState) : Prop where
  owned : Owned p
  first_page : ∀ d, p.pageDirectoryUsed d = true →
    (p.pageDirectoryList d 0).userAccessible = true

theorem boot_accounted : Accounted .boot where
  owned := {
    guarded := boot_guarded
    count := by decide
    used_mapped := by
      intro f hf h
      exact absurd (of_decide_eq_true h) hf
    mapped_used := fun _ _ f h => absurd h (zero_ne_user f)
    mapped_unique := fun _ _ _ _ f h => absurd h (zero_ne_user f) }
  first_page d h := absurd h Bool.false_ne_true

namespace Owned

variable {p q : PagingState} {d : Fin pagingDirectoryTableMaxCount}

theorem congr (h : Owned p) (hg : Guarded q) (hmap : q.pageFrameMap = p.pageFrameMap)
    (hcount : q.freePageFrameCount = p.freePageFrameCount)
    (hused : ∀ c, p.pageDirectoryUsed c = true → q.pageDirectoryUsed c = true)
    (huser : ∀ c j f, q.pageDirectoryList c j = .user f ↔ p.pageDirectoryList c j = .user f) :
    Owned q where
  guarded := hg
  count := by
    rw [hmap, hcount]
    exact h.count
  used_mapped f hf hm := by
    rw [hmap] at hm
    obtain ⟨c, j, hc, he⟩ := h.used_mapped f hf hm
    exact ⟨c, j, hused c hc, (huser c j f).mpr he⟩
  mapped_used c j f he := by
    rw [hmap]
    exact h.mapped_used c j f ((huser c j f).mp he)
  mapped_unique c j c' k f he he' :=
    h.mapped_unique c j c' k f ((huser c j f).mp he) ((huser c' k f).mp he')

theorem use (h : Owned p) (c : PageDirectoryPtr) : Owned (pagingUsePageDirectory p c) :=
  h.congr (h.guarded.use c) rfl rfl (fun _ => id) fun _ _ _ => Iff.rfl

theorem createDirectory_not_user (h : Guarded p) (hd : p.pageDirectoryUsed.firstClear = some d)
    (j : Fin pageEntryCount) (f : Fin pageFrameMaxCount) :
    (pagingCreateNewPageDirectory p).2.pageDirectoryList d j ≠ .user f := by
  have hzero := h.unused_zero d (Bitmap.firstClear_some hd)
  by_cases h0 : j = 0
  · rw [h0, createDirectory_zero hd (hzero 0)]
    exact kernel_ne_user f
  · by_cases hk : j = kernelPageIndex
    · rw [hk, createDirectory_kernel hd]
      exact kernel_ne_user f
    · rw [createDirectory_of_ne hd h0 hk, hzero j]
      exact zero_ne_user f

theorem createDirectory (h : Owned p) (hd : p.pageDirectoryUsed.firstClear = some d) :
    Owned (pagingCreateNewPageDirectory p).2 := by
  apply h.congr (h.guarded.createDirectory hd) (createDirectory_map hd).1 (createDirectory_map hd).2
  · intro c hc
    rw [createDirectory_used hd]
    by_cases hcd : c = d
    · rw [hcd, Function.update_self]
    · rw [Function.update_of_ne hcd]
      exact hc
  · intro c j f
    by_cases hcd : c = d
    · subst hcd
      have hzero := h.guarded.unused_zero c (Bitmap.firstClear_some hd) j
      refine iff_of_false (createDirectory_not_user h.guarded hd j f) ?_
      rw [hzero]
      exact zero_ne_user f
    · rw [createDirectory_other hd hcd]

end Owned

/-- The loop of allocations in directory `d`, after `n` of them from state `p`. -/
structure Filling (p q : PagingState) (d : Fin pagingDirectoryTableMaxCount) (buf : UInt32)
    (n : Nat) : Prop where
  owned : Owned q
  used : q.pageDirectoryUsed d = true
  rest : ∀ j f, (pageIndex buf).val + n ≤ j.val → q.pageDirectoryList d j ≠ .user f
  frame : ∀ f, q.pageFrameMap f = true ↔
    p.pageFrameMap f = true ∨ ∃ j, q.pageDirectoryList d j = .user f
  fresh : ∀ j f, q.pageDirectoryList d j = .user f → p.pageFrameMap f = false

namespace Filling

variable {p q : PagingState} {d : Fin pagingDirectoryTableMaxCount} {buf : UInt32} {n : Nat}

/-- What is added with frame `f` at an index that mapped none. -/
theorem owned_some (h : Owned q) (hu : q.pageDirectoryUsed d = true) {virtualAddr : UInt32}
    {f : Fin pageFrameMaxCount} (hv : (pageIndex virtualAddr).val < 0x300)
    (hf : q.pageFrameMap.firstClear = some f)
    (hnew : ∀ g, q.pageDirectoryList d (pageIndex virtualAddr) ≠ .user g) :
    Owned (pagingAllocateUserPageFrame q d virtualAddr).2 := by
  have hg := h.guarded.allocate hu hv
  have hclear := Bitmap.firstClear_some hf
  have hentry : ∀ c k g, (pagingAllocateUserPageFrame q d virtualAddr).2.pageDirectoryList c k =
      .user g → (c = d ∧ k = pageIndex virtualAddr ∧ g = f) ∨
        (q.pageDirectoryList c k = .user g ∧ g ≠ f) := by
    intro c k g he
    by_cases hat : c = d ∧ k = pageIndex virtualAddr
    · obtain ⟨rfl, rfl⟩ := hat
      rw [allocate_some hf, setEntry_self] at he
      exact .inl ⟨rfl, rfl, (user_injective he).symm⟩
    · have hold : q.pageDirectoryList c k = .user g := by
        by_cases hcd : c = d
        · subst hcd
          rwa [allocate_of_ne fun hk => hat ⟨rfl, hk⟩] at he
        · rwa [allocate_other hcd] at he
      refine .inr ⟨hold, ?_⟩
      rintro rfl
      exact absurd ((h.mapped_used c k g hold).symm.trans hclear) (by decide)
  have hself : (pagingAllocateUserPageFrame q d virtualAddr).2.pageDirectoryList d
      (pageIndex virtualAddr) = .user f := by
    rw [allocate_some hf]
    exact setEntry_self
  have hmap : (pagingAllocateUserPageFrame q d virtualAddr).2.pageFrameMap =
      Function.update q.pageFrameMap f true := by
    rw [allocate_some hf]
    rfl
  exact {
    guarded := hg
    count := by
      have hlt : q.pageFrameMap.usedCount < 32 := Bitmap.usedCount_lt hclear
      have hone : (1 : UInt32).toNat = 1 := rfl
      have hc := h.count
      rw [hmap, Bitmap.usedCount_set hclear, allocate_some hf]
      show (q.freePageFrameCount - 1).toNat + _ = 32
      rw [UInt32.toNat_sub]
      omega
    used_mapped := by
      intro g hg0 hm
      rw [allocate_used]
      by_cases hgf : g = f
      · rw [hgf]
        exact ⟨d, pageIndex virtualAddr, hu, hself⟩
      · rw [hmap, Function.update_of_ne hgf] at hm
        obtain ⟨c, k, hc, he⟩ := h.used_mapped g hg0 hm
        refine ⟨c, k, hc, ?_⟩
        by_cases hcd : c = d
        · subst hcd
          have hk : k ≠ pageIndex virtualAddr := by
            rintro rfl
            exact hnew g he
          rw [allocate_of_ne hk]
          exact he
        · rw [allocate_other hcd]
          exact he
    mapped_used := by
      intro c k g he
      rw [hmap]
      rcases hentry c k g he with ⟨-, -, rfl⟩ | ⟨hold, hne⟩
      · rw [Function.update_self]
      · rw [Function.update_of_ne hne]
        exact h.mapped_used c k g hold
    mapped_unique := by
      intro c k c' k' g he he'
      rcases hentry c k g he with ⟨rfl, rfl, rfl⟩ | ⟨hold, hne⟩
      · rcases hentry c' k' g he' with ⟨rfl, rfl, -⟩ | ⟨-, hne⟩
        · exact ⟨rfl, rfl⟩
        · exact absurd rfl hne
      · rcases hentry c' k' g he' with ⟨-, -, rfl⟩ | ⟨hold', -⟩
        · exact absurd rfl hne
        · exact h.mapped_unique c k c' k' g hold hold' }

theorem start (h : Owned p) (hd : p.pageDirectoryUsed.firstClear = some d) (c : PageDirectoryPtr) :
    Filling p (pagingUsePageDirectory (pagingCreateNewPageDirectory p).2 c) d buf 0 where
  owned := (h.createDirectory hd).use c
  used := by
    rw [use_used, createDirectory_used hd, Function.update_self]
  rest j f _ := by
    rw [use_list]
    exact Owned.createDirectory_not_user h.guarded hd j f
  frame f := by
    rw [use_map, use_list, (createDirectory_map hd).1]
    refine (or_iff_left ?_).symm
    rintro ⟨j, he⟩
    exact Owned.createDirectory_not_user h.guarded hd j f he
  fresh j f he := by
    rw [use_list] at he
    exact absurd he (Owned.createDirectory_not_user h.guarded hd j f)

theorem use (h : Filling p q d buf n) (c : PageDirectoryPtr) :
    Filling p (pagingUsePageDirectory q c) d buf n :=
  ⟨h.owned.use c, h.used, h.rest, h.frame, h.fresh⟩

theorem step (h : Filling p q d buf n) (hn : (pageIndex buf).val + n < 0x300) :
    Filling p (pagingAllocateUserPageFrame q d (buf + UInt32.ofNat n * pageFrameSize)).2 d buf
      (n + 1) := by
  have hindex : (pageIndex (buf + UInt32.ofNat n * pageFrameSize)).val = (pageIndex buf).val + n :=
    pageIndex_add (by omega)
  have hnew : ∀ g, q.pageDirectoryList d (pageIndex (buf + UInt32.ofNat n * pageFrameSize)) ≠
      .user g := fun g => h.rest _ g (by omega)
  cases hf : q.pageFrameMap.firstClear with
  | none =>
    rw [allocate_none hf]
    exact ⟨h.owned, h.used, fun j f hj => h.rest j f (by omega), h.frame, h.fresh⟩
  | some f =>
    have hclear := Bitmap.firstClear_some hf
    generalize buf + UInt32.ofNat n * pageFrameSize = virtualAddr at hindex hnew
    have hself : (pagingAllocateUserPageFrame q d virtualAddr).2.pageDirectoryList d
        (pageIndex virtualAddr) = .user f := by
      rw [allocate_some hf]
      exact setEntry_self
    exact {
      owned := owned_some h.owned h.used (by omega) hf hnew
      used := by
        rw [allocate_used]
        exact h.used
      rest := by
        intro j g hj
        have hne : j ≠ pageIndex virtualAddr := by
          rintro rfl
          omega
        rw [allocate_of_ne hne]
        exact h.rest j g (by omega)
      frame := by
        intro g
        by_cases hgf : g = f
        · subst hgf
          refine iff_of_true ?_ (.inr ⟨_, hself⟩)
          rw [allocate_some hf]
          exact Function.update_self _ _ _
        · have hmap : (pagingAllocateUserPageFrame q d virtualAddr).2.pageFrameMap g =
              q.pageFrameMap g := by
            rw [allocate_some hf]
            exact Function.update_of_ne hgf _ _
          rw [hmap, h.frame g]
          refine or_congr_right ⟨?_, ?_⟩
          · rintro ⟨j, he⟩
            have hne : j ≠ pageIndex virtualAddr := by
              rintro rfl
              exact hnew g he
            exact ⟨j, by rw [allocate_of_ne hne]; exact he⟩
          · rintro ⟨j, he⟩
            have hne : j ≠ pageIndex virtualAddr := by
              rintro rfl
              exact hgf (user_injective (he.symm.trans hself))
            rw [allocate_of_ne hne] at he
            exact ⟨j, he⟩
      fresh := by
        intro j g he
        by_cases hj : j = pageIndex virtualAddr
        · rw [hj, hself] at he
          rw [← user_injective he]
          by_contra hp
          have hq := (h.frame f).mpr (.inl (by simpa using hp))
          exact absurd (hq.symm.trans hclear) (by decide)
        · rw [allocate_of_ne hj] at he
          exact h.fresh j g he }

theorem allocatePages {count : Nat} (h : Filling p q d buf 0)
    (hc : (pageIndex buf).val + count ≤ 0x300) :
    Filling p (allocatePages d buf count q) d buf count := by
  apply allocatePages_invariant (P := fun r n => Filling p r d buf n) h
  intro r n hn hr
  exact hr.step (by omega)

end Filling

end Doors.Kernel
