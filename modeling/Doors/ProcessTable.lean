import Doors.PagingSteps

/-! The process table: the count, the bitmap, the records and the page directories
agree. Creation and destruction keep it. -/

namespace Doors.Kernel

open Fat32 (FAT32DriverRequest)

/-- The process-table invariant. -/
structure ProcessTable (s : KernelState) : Prop where
  count : s.activeProcessCount.toNat = s.pidUsed.usedCount
  pid_eq : ∀ i, s.pidUsed i = true → (s.processList i).metadata.pid = UInt32.ofNat i
  state : ∀ i, s.pidUsed i = true → (s.processList i).metadata.state = .ready ∨
    (s.processList i).metadata.state = .running
  directory : ∀ i, s.pidUsed i = true → ∃ d,
    (s.processList i).context.pageDirectoryVirtualAddr = .slot d ∧
      s.paging.pageDirectoryUsed d = true
  directory_unique : ∀ i j, s.pidUsed i = true → s.pidUsed j = true →
    (s.processList i).context.pageDirectoryVirtualAddr =
      (s.processList j).context.pageDirectoryVirtualAddr → i = j
  unused_zero : ∀ i, s.pidUsed i = false → s.processList i = .zero
  running_unique : ∀ i j, (s.processList i).metadata.state = .running →
    (s.processList j).metadata.state = .running → i = j

theorem boot_processTable : ProcessTable .boot where
  count := by
    simp [KernelState.boot, Bitmap.usedCount]
  pid_eq i h := by simp [KernelState.boot] at h
  state i h := by simp [KernelState.boot] at h
  directory i h := by simp [KernelState.boot] at h
  directory_unique i j h := by simp [KernelState.boot] at h
  unused_zero _ _ := rfl
  running_unique i j h := by simp [KernelState.boot, ProcessControlBlock.zero] at h

namespace ProcessTable

variable {s : KernelState}

theorem used_of_running (h : ProcessTable s) {i : Fin processCountMax}
    (hr : (s.processList i).metadata.state = .running) : s.pidUsed i = true := by
  by_contra hu
  rw [Bool.not_eq_true] at hu
  rw [h.unused_zero i hu] at hr
  simp [ProcessControlBlock.zero] at hr

theorem directory_ne (h : ProcessTable s) {d : Fin pagingDirectoryTableMaxCount}
    (hd : s.paging.pageDirectoryUsed d = false) {i : Fin processCountMax}
    (hu : s.pidUsed i = true) : (s.processList i).context.pageDirectoryVirtualAddr ≠ .slot d := by
  obtain ⟨d', hd', hused⟩ := h.directory i hu
  rw [hd']
  intro he
  injection he with he
  rw [he, hd] at hused
  exact absurd hused (by decide)

theorem count_le (h : ProcessTable s) : s.activeProcessCount.toNat ≤ 16 := by
  rw [h.count]
  exact Bitmap.usedCount_le _

/-- Creation finds a slot whenever it looks for one. -/
theorem inactive_index (h : ProcessTable s) (hc : s.activeProcessCount.toNat < 16) :
    ∃ i, processListGetInactiveIndex s = some i := by
  rw [h.count] at hc
  exact Bitmap.firstClear_of_lt hc

theorem withPaging (h : ProcessTable s) {p : PagingState}
    (hp : ∀ d, s.paging.pageDirectoryUsed d = true → p.pageDirectoryUsed d = true) :
    ProcessTable { s with paging := p } where
  count := h.count
  pid_eq := h.pid_eq
  state := h.state
  directory := by
    intro i hu
    obtain ⟨d, hd, hused⟩ := h.directory i hu
    exact ⟨d, hd, hp d hused⟩
  directory_unique := h.directory_unique
  unused_zero := h.unused_zero
  running_unique := h.running_unique

theorem created (h : ProcessTable s) {request : FAT32DriverRequest UInt32}
    {i : Fin processCountMax} {d : Fin pagingDirectoryTableMaxCount} {p : PagingState}
    (hi : processListGetInactiveIndex s = some i) (hd : s.paging.pageDirectoryUsed d = false)
    (hp : p.pageDirectoryUsed = Function.update s.paging.pageDirectoryUsed d true) :
    ProcessTable (created s request i d p) := by
  have hfree := Bitmap.firstClear_some hi
  have hnew : ∀ j, (Kernel.created s request i d p).pidUsed j = true → j ≠ i →
      s.pidUsed j = true := by
    intro j hu hj
    simpa [Kernel.created, hj] using hu
  have hold : ∀ j, j ≠ i → (Kernel.created s request i d p).processList j = s.processList j :=
    fun j hj => Function.update_of_ne hj _ _
  have hself : (Kernel.created s request i d p).processList i =
      setupProcess (s.processList i) request d i := Function.update_self _ _ _
  exact {
    count := by
      have hlt : s.pidUsed.usedCount < 16 := Bitmap.usedCount_lt hfree
      have hcount := Bitmap.usedCount_set hfree
      have hc := h.count
      simp only [Kernel.created, hcount, UInt32.toNat_add]
      have hone : (1 : UInt32).toNat = 1 := rfl
      omega
    pid_eq := by
      intro j hu
      by_cases hj : j = i
      · subst hj
        rw [hself]
        rfl
      · rw [hold j hj]
        exact h.pid_eq j (hnew j hu hj)
    state := by
      intro j hu
      by_cases hj : j = i
      · subst hj
        rw [hself]
        exact .inl rfl
      · rw [hold j hj]
        exact h.state j (hnew j hu hj)
    directory := by
      intro j hu
      by_cases hj : j = i
      · subst hj
        rw [hself]
        exact ⟨d, rfl, by simp [Kernel.created, hp]⟩
      · obtain ⟨d', hd', hused⟩ := h.directory j (hnew j hu hj)
        have hne : d' ≠ d := by
          rintro rfl
          rw [hd] at hused
          exact absurd hused (by decide)
        rw [hold j hj]
        exact ⟨d', hd', by simp [Kernel.created, hp, hne, hused]⟩
    directory_unique := by
      intro j k hj hk he
      by_cases hji : j = i <;> by_cases hki : k = i
      · rw [hji, hki]
      · subst hji
        rw [hself, hold k hki] at he
        exact absurd he.symm (h.directory_ne hd (hnew k hk hki))
      · subst hki
        rw [hself, hold j hji] at he
        exact absurd he (h.directory_ne hd (hnew j hj hji))
      · rw [hold j hji, hold k hki] at he
        exact h.directory_unique j k (hnew j hj hji) (hnew k hk hki) he
    unused_zero := by
      intro j hu
      have hj : j ≠ i := by
        rintro rfl
        simp [Kernel.created] at hu
      rw [hold j hj]
      exact h.unused_zero j (by simpa [Kernel.created, hj] using hu)
    running_unique := by
      have hready : ((Kernel.created s request i d p).processList i).metadata.state = .ready := by
        rw [hself]
        rfl
      intro j k hj hk
      have hji : j ≠ i := by
        rintro rfl
        rw [hready] at hj
        exact absurd hj (by decide)
      have hki : k ≠ i := by
        rintro rfl
        rw [hready] at hk
        exact absurd hk (by decide)
      rw [hold j hji] at hj
      rw [hold k hki] at hk
      exact h.running_unique j k hj hk }

theorem destroyed (h : ProcessTable s) {i : Fin processCountMax}
    {d : Fin pagingDirectoryTableMaxCount} {p : PagingState} (hu : s.pidUsed i = true)
    (hd : (s.processList i).context.pageDirectoryVirtualAddr = .slot d)
    (hp : p.pageDirectoryUsed = Function.update s.paging.pageDirectoryUsed d false) :
    ProcessTable (destroyed s i p) := by
  have hne : ∀ j, (Kernel.destroyed s i p).pidUsed j = true → j ≠ i ∧ s.pidUsed j = true := by
    intro j hj
    have hji : j ≠ i := by
      rintro rfl
      simp [Kernel.destroyed] at hj
    exact ⟨hji, by simpa [Kernel.destroyed, hji] using hj⟩
  have hold : ∀ j, j ≠ i → (Kernel.destroyed s i p).processList j = s.processList j :=
    fun j hj => Function.update_of_ne hj _ _
  have hself : (Kernel.destroyed s i p).processList i = .zero := Function.update_self _ _ _
  have hzero : (ProcessControlBlock.zero).metadata.state ≠ .running := by decide
  exact {
    count := by
      have hcount := Bitmap.usedCount_clear hu
      have hc := h.count
      have hle := h.count_le
      have hone : (1 : UInt32).toNat = 1 := rfl
      simp only [Kernel.destroyed, UInt32.toNat_sub]
      omega
    pid_eq := by
      intro j hj
      obtain ⟨hji, hju⟩ := hne j hj
      rw [hold j hji]
      exact h.pid_eq j hju
    state := by
      intro j hj
      obtain ⟨hji, hju⟩ := hne j hj
      rw [hold j hji]
      exact h.state j hju
    directory := by
      intro j hj
      obtain ⟨hji, hju⟩ := hne j hj
      obtain ⟨d', hd', hused⟩ := h.directory j hju
      have hdd : d' ≠ d := by
        rintro rfl
        exact hji (h.directory_unique j i hju hu (hd'.trans hd.symm))
      rw [hold j hji]
      exact ⟨d', hd', by simp [Kernel.destroyed, hp, hdd, hused]⟩
    directory_unique := by
      intro j k hj hk he
      obtain ⟨hji, hju⟩ := hne j hj
      obtain ⟨hki, hku⟩ := hne k hk
      rw [hold j hji, hold k hki] at he
      exact h.directory_unique j k hju hku he
    unused_zero := by
      intro j hj
      by_cases hji : j = i
      · rw [hji, hself]
      · rw [hold j hji]
        exact h.unused_zero j (by simpa [Kernel.destroyed, hji] using hj)
    running_unique := by
      intro j k hj hk
      have hji : j ≠ i := by
        rintro rfl
        rw [hself] at hj
        exact hzero hj
      have hki : k ≠ i := by
        rintro rfl
        rw [hself] at hk
        exact hzero hk
      rw [hold j hji] at hj
      rw [hold k hki] at hk
      exact h.running_unique j k hj hk }

end ProcessTable

end Doors.Kernel
