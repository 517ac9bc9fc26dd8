import Doors.FatDriver
import Mathlib.Data.List.FinRange
import Mathlib.Tactic.Ring

/-! What each primitive of the driver does to the two views the proofs use: the
successor map `next` and the contents `cluster` of the clusters the map covers. -/

namespace Doors.Fat32

/-- The first cluster of a memory. -/
def asCluster (mem : Nat → UInt8) : Cluster := fun k => mem k

theorem decodeTable_put (t : DirectoryTable) :
    decodeTable (asCluster (directoryTableCodec.put t)) = t := by
  apply directoryTableCodec.get_eq
  intro k hk
  have hlt : k < clusterSize := hk
  simp [hlt, asCluster]

theorem blockAddress_clusterToLba {c : Nat} (hc : c < 512) :
    blockAddress (clusterToLba c) = 2048 * c := by
  simp only [blockAddress, clusterToLba, clusterBlockCount, blockSize]
  omega

theorem mem_slotsFrom {k : Nat} {i : Fin entryCount} : i ∈ slotsFrom k ↔ k ≤ i.val := by
  constructor
  · intro h
    obtain ⟨j, hj, he⟩ := List.mem_drop_iff_getElem.mp h
    rw [List.getElem_finRange] at he
    simp only [← he]
    exact Nat.le_add_right k j
  · intro h
    have hlt := i.isLt
    refine List.mem_drop_iff_getElem.mpr ⟨i.val - k, by simp; omega, ?_⟩
    rw [List.getElem_finRange]
    exact Fin.ext (by simp; omega)

theorem slotsFrom_nodup (k : Nat) : (slotsFrom k).Nodup :=
  (List.nodup_finRange entryCount).sublist (List.drop_sublist k _)

theorem mem_dataClusters {c : Nat} : c ∈ dataClusters ↔ 3 ≤ c ∧ c < 512 := by
  simp only [dataClusters, List.mem_range'_1, clusterMapSize]

theorem dataClusters_nodup : dataClusters.Nodup := List.nodup_range'

theorem zero_cons_dataClusters_nodup : (0 :: dataClusters).Nodup := by
  refine List.nodup_cons.mpr ⟨fun h => ?_, dataClusters_nodup⟩
  have := (mem_dataClusters.mp h).1
  omega

theorem slotsFrom_one : slotsFrom 1 = 1 :: slotsFrom 2 := by
  decide

/-- The entry a request names, of either kind. -/
def FAT32DriverRequest.names {Buf : Type} (request : FAT32DriverRequest Buf)
    (e : FAT32DirectoryEntry) : Bool :=
  request.matchesName e && request.matchesExt e

theorem FAT32DriverRequest.names_iff {Buf : Type} {request : FAT32DriverRequest Buf}
    {e : FAT32DirectoryEntry} :
    request.names e = true ↔ e.name = request.name ∧ e.ext = request.ext := by
  simp [names, matchesName, matchesExt]

namespace FileSystem

variable (s : FileSystem)

def table (d : Nat) : DirectoryTable := decodeTable (s.cluster d)

@[simp] theorem next_writeClusters (ptr : Nat → UInt8) (c : Nat) :
    (s.writeClusters ptr c).next = s.next := rfl

@[simp] theorem next_loadDir (c : Nat) : (s.loadDir c).next = s.next := rfl

@[simp] theorem next_setEntry (i : Fin entryCount) (e : FAT32DirectoryEntry) :
    (s.setEntry i e).next = s.next := rfl

@[simp] theorem next_storeDir (c : Nat) : (s.storeDir c).next = s.next := rfl

@[simp] theorem next_storeFat : s.storeFat.next = s.next := rfl

@[simp] theorem cluster_loadDir (c : Nat) : (s.loadDir c).cluster = s.cluster := rfl

@[simp] theorem table_loadDir (c : Nat) : (s.loadDir c).table = s.table := rfl

@[simp] theorem cluster_setEntry (i : Fin entryCount) (e : FAT32DirectoryEntry) :
    (s.setEntry i e).cluster = s.cluster := rfl

@[simp] theorem cluster_setNext (c v : Nat) : (s.setNext c v).cluster = s.cluster := rfl

@[simp] theorem clusterMap_writeClusters (ptr : Nat → UInt8) (c : Nat) :
    (s.writeClusters ptr c).clusterMap = s.clusterMap := rfl

@[simp] theorem clusterMap_storeDir (c : Nat) : (s.storeDir c).clusterMap = s.clusterMap := rfl

@[simp] theorem clusterMap_storeFat : s.storeFat.clusterMap = s.clusterMap := rfl

@[simp] theorem dirTableBuf_loadDir (c : Nat) :
    (s.loadDir c).dirTableBuf = s.table c := rfl

@[simp] theorem dirTableBuf_setEntry (i : Fin entryCount) (e : FAT32DirectoryEntry) :
    (s.setEntry i e).dirTableBuf = Function.update s.dirTableBuf i e := rfl

@[simp] theorem dirTableBuf_setNext (c v : Nat) : (s.setNext c v).dirTableBuf = s.dirTableBuf := rfl

@[simp] theorem dirTableBuf_writeClusters (ptr : Nat → UInt8) (c : Nat) :
    (s.writeClusters ptr c).dirTableBuf = s.dirTableBuf := rfl

theorem next_setNext {c v d : Nat} (hd : d < 512) (hv : v < 2 ^ 32) :
    (s.setNext c v).next d = if d = c then v else s.next d := by
  by_cases he : d = c
  · simp [next, setNext, he, show c < 512 by omega]
    omega
  · simp [next, setNext, he]

theorem cluster_writeClusters {c d : Nat} (hc : c < 512) (hd : d < 512) (ptr : Nat → UInt8) :
    (s.writeClusters ptr c).cluster d = if d = c then asCluster ptr else s.cluster d := by
  funext k
  have hk : k.val < 2048 := k.isLt
  simp only [cluster, writeClusters, writeBlocks, blit, blockAddress_clusterToLba hc,
    blockAddress_clusterToLba hd, blockSize, clusterBlockCount]
  by_cases he : d = c
  · subst d
    simp [hk, asCluster]
  · rw [if_neg (by omega), if_neg he, cluster, blockAddress_clusterToLba hd]

theorem cluster_storeDir {c d : Nat} (hc : c < 512) (hd : d < 512) :
    (s.storeDir c).cluster d =
      if d = c then asCluster (directoryTableCodec.put s.dirTableBuf) else s.cluster d :=
  s.cluster_writeClusters hc hd _

/-- The cluster map as cluster 1 holds it. -/
def fatImage : Cluster := asCluster (clusterMapCodec.put s.clusterMap)

theorem cluster_storeFat {d : Nat} (hd : d < 512) :
    s.storeFat.cluster d = if d = fatClusterNumber then s.fatImage else s.cluster d :=
  s.cluster_writeClusters (by decide) hd _

/-- `storeDir` and `storeFat` end every request that changes the tree. -/
theorem cluster_stored {t : FileSystem} {p c : Nat} (hp : p < 512) (hc : c < 512) :
    (t.storeDir p).storeFat.cluster c =
      if c = fatClusterNumber then (t.storeDir p).storeFat.fatImage
      else if c = p then asCluster (directoryTableCodec.put t.dirTableBuf)
      else t.cluster c := by
  rw [cluster_storeFat _ hc, cluster_storeDir _ hp hc]
  rfl

theorem table_stored {t : FileSystem} {p : Nat} (hp : p < 512) (h1 : p ≠ fatClusterNumber) :
    (t.storeDir p).storeFat.table p = t.dirTableBuf := by
  rw [table, cluster_stored hp hp, if_neg h1, if_pos rfl, decodeTable_put]

theorem cluster_stored_of_ne {t : FileSystem} {p c : Nat} (hp : p < 512) (hc : c < 512)
    (h1 : c ≠ fatClusterNumber) (hne : c ≠ p) : (t.storeDir p).storeFat.cluster c = t.cluster c := by
  rw [cluster_stored hp hc, if_neg h1, if_neg hne]

theorem mirrored_stored {t : FileSystem} {p : Nat} (hp : p < 512) :
    (t.storeDir p).storeFat.cluster fatClusterNumber = (t.storeDir p).storeFat.fatImage := by
  rw [cluster_stored hp (by decide), if_pos rfl]

theorem lookup_of_lt {c : Nat} (hc : c < 512) : s.lookup c = .ok (s.next c) := if_pos hc

theorem assign_of_lt {c : Nat} (hc : c < 512) (v : Nat) : s.assign c v = .ok (s.setNext c v) :=
  if_pos hc

theorem withParent_refused {α : Type} {parent : Nat} (hp : parent < 512)
    (hne : s.next parent ≠ fatEndOfFile) (refused : α) (body : Except Fault α) :
    s.withParent parent refused body = .ok refused := by
  simp [withParent, s.lookup_of_lt hp, hne, bind, Except.bind, pure, Except.pure]

theorem withParent_accepted {α : Type} {parent : Nat} (hp : parent < 512)
    (he : s.next parent = fatEndOfFile) (refused : α) (body : Except Fault α) :
    s.withParent parent refused body = body := by
  simp [withParent, s.lookup_of_lt hp, he, bind, Except.bind]

theorem withParent_outOfBounds {α : Type} {parent : Nat} (hp : 512 ≤ parent)
    (refused : α) (body : Except Fault α) :
    s.withParent parent refused body = .error .outOfBounds := by
  have hn : ¬ parent < clusterMapSize := by simpa using hp
  simp [withParent, lookup, hn, bind, Except.bind]

end FileSystem

end Doors.Fat32
