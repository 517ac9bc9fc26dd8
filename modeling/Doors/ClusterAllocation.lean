import Doors.FatInvariant

/-! First-fit allocation. The loop of `write` is reduced to the list of the clusters
it picks, on which chain and contents are read off by induction. -/

namespace Doors.Fat32

open FileSystem

def FileSystem.freeClusters (s : FileSystem) : List Nat :=
  dataClusters.filter fun c => s.next c = fatEmptyEntry

theorem mem_freeClusters {s : FileSystem} {c : Nat} :
    c ∈ s.freeClusters ↔ (3 ≤ c ∧ c < 512) ∧ s.next c = fatEmptyEntry := by
  simp [freeClusters, mem_dataClusters]

theorem freeClusters_nodup (s : FileSystem) : s.freeClusters.Nodup :=
  dataClusters_nodup.filter _

theorem freeClusters_loadDir (s : FileSystem) (d : Nat) :
    (s.loadDir d).freeClusters = s.freeClusters := rfl

/-- What the loop of `write` does at the clusters it picks. -/
def placeClusters (request : Request) (first : Fin entryCount) :
    List Nat → Nat → Nat → FileSystem → Nat × FileSystem
  | [], _, curr, s => (curr, s)
  | i :: cs, idx, curr, s =>
    let s :=
      if curr = 0 then s.setEntry first ({ s.dirTableBuf first with attr := 0 }.setCluster i)
      else s.setNext curr i
    placeClusters request first cs (idx + 1) i
      (s.writeClusters (fun k => request.buf (idx * clusterSize + k)) i)

theorem next_link {s : FileSystem} {curr i c : Nat} {first : Fin entryCount}
    {e : FAT32DirectoryEntry} {ptr : Nat → UInt8} (hc : c < 512) (hi : i < 512) (hne : c ≠ curr) :
    ((if curr = 0 then s.setEntry first e else s.setNext curr i).writeClusters ptr i).next c =
      s.next c := by
  rw [next_writeClusters]
  split_ifs
  · rfl
  · rw [next_setNext s hc (by omega), if_neg hne]

theorem writeFileLoop_eq (request : Request) (first : Fin entryCount) (num : Nat) (is : List Nat)
    (idx curr : Nat) (s : FileSystem) (hnd : (curr :: is).Nodup) (hlt : ∀ c ∈ is, c < 512) :
    writeFileLoop request first num is idx curr s =
      placeClusters request first
        ((is.filter fun c => s.next c = fatEmptyEntry).take (num - idx)) idx curr s := by
  induction is generalizing idx curr s with
  | nil => simp [writeFileLoop, placeClusters]
  | cons i is ih =>
    obtain ⟨hcurr, hnd'⟩ := List.nodup_cons.mp hnd
    have hi : i < 512 := hlt i (by simp)
    by_cases hn : idx < num
    · by_cases he : s.next i = fatEmptyEntry
      · have hf : ∀ (e : FAT32DirectoryEntry) (ptr : Nat → UInt8), (is.filter fun c =>
            ((if curr = 0 then s.setEntry first e else s.setNext curr i).writeClusters ptr i).next c =
              fatEmptyEntry) = is.filter fun c => s.next c = fatEmptyEntry := by
          intro e ptr
          refine List.filter_congr fun c hc => ?_
          have hne : c ≠ curr := fun h => hcurr (by simp [← h, hc])
          rw [next_link (hlt c (by simp [hc])) hi hne]
        have ht : num - idx = num - (idx + 1) + 1 := by omega
        simp only [writeFileLoop, hn, he, if_true]
        rw [ih (idx + 1) i _ hnd' fun c hc => hlt c (by simp [hc]), hf, ht,
          List.filter_cons_of_pos (by simp [he]), List.take_succ_cons, placeClusters]
      · simp only [writeFileLoop, hn, he, if_true, if_false]
        rw [ih idx curr s ((List.sublist_cons_self i is).cons_cons curr |> hnd.sublist)
          fun c hc => hlt c (by simp [hc]), List.filter_cons_of_neg (by simp [he])]
    · have ht : num - idx = 0 := by omega
      simp [writeFileLoop, hn, ht, placeClusters]

/-- Closing the chain at the last cluster. -/
def closeChain (r : Nat × FileSystem) : FileSystem := r.2.setNext r.1 fatEndOfFile

theorem placeClusters_walk (request : Request) (first : Fin entryCount) (cs : List Nat)
    (idx curr : Nat) (s : FileSystem) (hnd : (curr :: cs).Nodup)
    (hr : ∀ c ∈ curr :: cs, 3 ≤ c ∧ c < 512) :
    let s' := closeChain (placeClusters request first cs idx curr s)
    Walk s'.next fatEndOfFile curr (curr :: cs) ∧
      ∀ c < 512, c ∉ curr :: cs → s'.next c = s.next c := by
  have hc := hr curr (by simp)
  have hstop : curr ≠ fatEndOfFile := by
    simp only [fatEndOfFile]
    omega
  induction cs generalizing idx curr s with
  | nil =>
    have hnext : ∀ c < 512, (closeChain (curr, s)).next c =
        if c = curr then fatEndOfFile else s.next c :=
      fun c hc => next_setNext s hc (by decide)
    refine ⟨.step hstop ?_, fun c hc hm => ?_⟩
    · rw [placeClusters, hnext curr hc.2, if_pos rfl]
      exact .stop
    · rw [placeClusters, hnext c hc, if_neg (by simpa using hm)]
  | cons i cs ih =>
    obtain ⟨hn, hnd'⟩ := List.nodup_cons.mp hnd
    have hi := hr i (by simp)
    have h0 : curr ≠ 0 := by omega
    have histop : i ≠ fatEndOfFile := by
      simp only [fatEndOfFile]
      omega
    obtain ⟨hwalk, hrest⟩ := ih (idx + 1) i
      ((s.setNext curr i).writeClusters (fun k => request.buf (idx * clusterSize + k)) i)
      hnd' (fun c hc => hr c (by simp [List.mem_cons.mp hc])) hi histop
    simp only [placeClusters, h0, if_false]
    refine ⟨.step hstop ?_, fun c hc hm => ?_⟩
    · rw [hrest curr hc.2 hn, next_writeClusters, next_setNext s hc.2 (by omega), if_pos rfl]
      exact hwalk
    · have hm' := not_or.mp (mt List.mem_cons.mpr hm)
      rw [hrest c hc hm'.2, next_writeClusters, next_setNext s hc (by omega), if_neg hm'.1]

/-- The `k`-th cluster picked receives the `k`-th cluster of the caller's buffer. -/
theorem placeClusters_cluster (request : Request) (first : Fin entryCount) (cs : List Nat)
    (idx curr : Nat) (s : FileSystem) (hnd : cs.Nodup) (hr : ∀ c ∈ cs, c < 512) {c : Nat}
    (hc : c < 512) :
    (placeClusters request first cs idx curr s).2.cluster c =
      if c ∈ cs then
        asCluster fun k => request.buf ((idx + cs.idxOf c) * clusterSize + k)
      else s.cluster c := by
  induction cs generalizing idx curr s with
  | nil => simp [placeClusters]
  | cons i cs ih =>
    obtain ⟨hn, hnd'⟩ := List.nodup_cons.mp hnd
    have hi := hr i (by simp)
    have hlink : ∀ e, (if curr = 0 then s.setEntry first e else s.setNext curr i).cluster c =
        s.cluster c := by
      intro e
      split_ifs <;> rfl
    simp only [placeClusters]
    rw [ih _ _ _ hnd' fun c hc => hr c (by simp [hc]), cluster_writeClusters _ hi hc, hlink]
    by_cases he : c = i
    · subst c
      simp [hn]
    · have hidx : (i :: cs).idxOf c = cs.idxOf c + 1 := List.idxOf_cons_ne cs (Ne.symm he)
      have hadd : idx + 1 + cs.idxOf c = idx + (i :: cs).idxOf c := by omega
      simp only [List.mem_cons, he, false_or, if_false, hadd]

theorem placeClusters_buf (request : Request) (first : Fin entryCount) (cs : List Nat)
    (idx curr : Nat) (s : FileSystem) (hcurr : curr ≠ 0) (hr : ∀ c ∈ cs, c ≠ 0) :
    (placeClusters request first cs idx curr s).2.dirTableBuf = s.dirTableBuf := by
  induction cs generalizing idx curr s with
  | nil => rfl
  | cons i cs ih =>
    simp only [placeClusters, hcurr, if_false]
    rw [ih _ _ _ (hr i (by simp)) fun c hc => hr c (by simp [hc])]
    rfl

/-- The file branch of `write` when clusters are picked: the chain, the buffer and the contents. -/
theorem placeClusters_first (request : Request) (first : Fin entryCount) (c₀ : Nat) (cs : List Nat)
    (s : FileSystem) (hnd : (c₀ :: cs).Nodup) (hr : ∀ c ∈ c₀ :: cs, 3 ≤ c ∧ c < 512) :
    let s' := closeChain (placeClusters request first (c₀ :: cs) 0 0 s)
    Walk s'.next fatEndOfFile c₀ (c₀ :: cs) ∧
      (∀ c < 512, c ∉ c₀ :: cs → s'.next c = s.next c) ∧
      s'.dirTableBuf = Function.update s.dirTableBuf first
        ({ s.dirTableBuf first with attr := 0 }.setCluster c₀) ∧
      ∀ c < 512, s'.cluster c =
        if c ∈ c₀ :: cs then
          asCluster fun k => request.buf ((c₀ :: cs).idxOf c * clusterSize + k)
        else s.cluster c := by
  have h0 : c₀ ≠ 0 := by
    have := hr c₀ (by simp)
    omega
  obtain ⟨hwalk, hrest⟩ := placeClusters_walk request first cs 1 c₀
    ((s.setEntry first ({ s.dirTableBuf first with attr := 0 }.setCluster c₀)).writeClusters
      (fun k => request.buf (0 * clusterSize + k)) c₀) hnd hr
  refine ⟨hwalk, hrest, ?_, fun c hc => ?_⟩
  · exact placeClusters_buf request first cs 1 c₀ _ h0 fun c hc => by
      have := hr c (by simp [hc])
      omega
  · have hh := placeClusters_cluster request first (c₀ :: cs) 0 0 s hnd
      (fun c hc => (hr c hc).2) hc
    simpa [closeChain] using hh

end Doors.Fat32
