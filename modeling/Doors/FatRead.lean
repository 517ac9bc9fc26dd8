import Doors.FatInvariant

/-! Reading a chain of clusters into a memory, one cluster after another. -/

namespace Doors.Fat32

open FileSystem

variable {Fits : UInt32 → Nat → Prop}

def readAll (s : FileSystem) : (Nat → UInt8) → Nat → List Nat → Nat → UInt8
  | mem, _, [] => mem
  | mem, idx, c :: l => readAll s (s.readClusters mem idx c) (idx + 1) l

theorem readChain_eq {s : FileSystem} {l : List Nat} {fuel idx c : Nat} {mem : Nat → UInt8}
    (hl : Walk s.next fatEndOfFile c l) (hr : ∀ x ∈ l, x < 512) (hf : l.length ≤ fuel) :
    readChain s fuel mem idx c = .ok (readAll s mem idx l) := by
  induction l generalizing fuel idx c mem with
  | nil =>
    cases hl with
    | stop => cases fuel <;> simp [readChain, readAll]
  | cons x l ih =>
    cases hl with
    | step hc hl =>
      have hlt := hr x (by simp)
      cases fuel with
      | zero => simp at hf
      | succ fuel =>
        have hh : readChain s fuel (s.readClusters mem idx x) (idx + 1) (s.next x) =
            .ok (readAll s (s.readClusters mem idx x) (idx + 1) l) := ih hl
          (fun y hy => hr y (by simp [hy])) (by simpa using hf)
        simpa [readChain, hc, lookup_of_lt _ hlt, bind, Except.bind, readAll] using hh

theorem readChain_loadDir (s : FileSystem) (d fuel : Nat) (mem : Nat → UInt8) (idx c : Nat) :
    readChain (s.loadDir d) fuel mem idx c = readChain s fuel mem idx c := by
  induction fuel generalizing mem idx c with
  | zero => rfl
  | succ fuel ih =>
    simp only [readChain, ih]
    rfl

theorem readAll_below {s : FileSystem} {l : List Nat} {idx k : Nat} {mem : Nat → UInt8}
    (hk : k < 2048 * idx) : readAll s mem idx l k = mem k := by
  induction l generalizing idx mem with
  | nil => rfl
  | cons x l ih =>
    rw [readAll, ih (by omega), readClusters, blit, if_neg]
    simp only [clusterSize, blockSize, clusterBlockCount]
    omega

theorem readAll_congr {s s' : FileSystem} {l : List Nat} (h : ∀ c ∈ l, s'.cluster c = s.cluster c)
    (mem : Nat → UInt8) (idx : Nat) : readAll s' mem idx l = readAll s mem idx l := by
  induction l generalizing mem idx with
  | nil => rfl
  | cons c l ih =>
    have hc : s'.readClusters mem idx c = s.readClusters mem idx c := by
      funext k
      simp only [readClusters, blit]
      split_ifs with hk
      · exact congrFun (h c (by simp)) ⟨k - clusterSize * idx, by omega⟩
      · rfl
    rw [readAll, readAll, hc, ih fun x hx => h x (by simp [hx])]

/-- The `j`-th cluster of the chain lands at the `j`-th cluster of the buffer. -/
theorem readAll_cluster {s : FileSystem} {l : List Nat} {idx : Nat} {mem : Nat → UInt8} {j : Nat}
    (hj : j < l.length) :
    asCluster (fun k => readAll s mem idx l (2048 * (idx + j) + k)) = s.cluster (l.get ⟨j, hj⟩) := by
  induction l generalizing idx mem j with
  | nil => simp at hj
  | cons x l ih =>
    cases j with
    | zero =>
      funext k
      have hk : k.val < 2048 := k.isLt
      simp only [asCluster, readAll, List.get_eq_getElem, List.getElem_cons_zero]
      rw [readAll_below (by omega), readClusters, blit, if_pos, cluster]
      · congr 1
        simp only [clusterSize, blockSize, clusterBlockCount]
        omega
      · simp only [clusterSize, blockSize, clusterBlockCount]
        omega
    | succ j =>
      have hlt : j < l.length := by simpa using hj
      have hh : asCluster (fun k => readAll s (s.readClusters mem idx x) (idx + 1) l
          (2048 * (idx + 1 + j) + k)) = s.cluster (l.get ⟨j, hlt⟩) := ih hlt
      simp only [List.get_eq_getElem, List.getElem_cons_succ, readAll] at hh ⊢
      rw [← hh]
      funext k
      simp only [asCluster, show 2048 * (idx + (j + 1)) = 2048 * (idx + 1 + j) by omega]

theorem readAll_filled {s : FileSystem} {cs : List Nat} {buf mem : Nat → UInt8} (hnd : cs.Nodup)
    (h : ∀ c ∈ cs, s.cluster c = asCluster fun k => buf (cs.idxOf c * clusterSize + k)) {k : Nat}
    (hk : k < 2048 * cs.length) : readAll s mem 0 cs k = buf k := by
  have hj : k / 2048 < cs.length := by omega
  have hlt : k % 2048 < clusterSize := by
    simp only [clusterSize, blockSize, clusterBlockCount]
    omega
  have hc : asCluster (fun i => readAll s mem 0 cs (2048 * (0 + k / 2048) + i)) =
      s.cluster (cs.get ⟨k / 2048, hj⟩) := readAll_cluster hj
  rw [h _ (List.get_mem cs ⟨k / 2048, hj⟩)] at hc
  have hh := congrFun hc ⟨k % 2048, hlt⟩
  simp only [asCluster, List.get_eq_getElem, hnd.idxOf_getElem, Nat.zero_add, clusterSize,
    blockSize, clusterBlockCount] at hh
  rwa [show 2048 * (k / 2048) + k % 2048 = k by omega,
    show k / 2048 * (512 * 4) + k % 2048 = k by omega] at hh

theorem chain_length_le {l : List Nat} (hnd : l.Nodup) (hr : ∀ x ∈ l, x < 512) :
    l.length ≤ clusterMapSize := by
  have hsub : l ⊆ List.range clusterMapSize := fun x hx => List.mem_range.mpr (hr x hx)
  simpa using (hnd.subperm hsub).length_le

theorem readChain_file {s : FileSystem} (hw : Formed Fits s) {d : Nat} {i : Fin entryCount}
    (hd : LiveDir s d) (hf : FileSlot s d i) (mem : Nat → UInt8) :
    ∃ l, Walk s.next fatEndOfFile (s.table d i).clusterNumber l ∧
      readChain s clusterMapSize mem 0 (s.table d i).clusterNumber = .ok (readAll s mem 0 l) := by
  obtain ⟨l, hl, hnd, -, -, hr⟩ := hw.file_chain hd hf
  have hlt : ∀ x ∈ l, x < 512 := fun x hx => (hr x hx).2
  exact ⟨l, hl, readChain_eq hl hlt (chain_length_le hnd hlt)⟩

end Doors.Fat32
