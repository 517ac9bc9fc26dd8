import Doors.ClusterAllocation
import Doors.FatGrowth

/-! The outcomes of `write` on a well-formed file system: a clash, a full directory,
or a new entry on the first free clusters. -/

namespace Doors.Fat32

open FileSystem

variable {Fits : UInt32 → Nat → Prop}

theorem writeScan_eq (t : DirectoryTable) (request : Request) (is : List (Fin entryCount))
    (first : Option (Fin entryCount)) :
    writeScan t request is first =
      if is.any fun i => (t i).live && request.names (t i) then none
      else some (first.or (is.find? fun i => !(t i).live)) := by
  induction is generalizing first with
  | nil => simp [writeScan]
  | cons i is ih =>
    cases hl : (t i).live with
    | false => cases first <;> simp [writeScan, hl, ih]
    | true =>
      cases hm : request.names (t i) with
      | true =>
        have hm' := hm
        simp only [FAT32DriverRequest.names] at hm'
        simp [writeScan, hl, hm, hm']
      | false =>
        have hm' := hm
        simp only [FAT32DriverRequest.names] at hm'
        simp [writeScan, hl, hm, hm', ih]

/-- A live entry of the parent has the requested name and extension. -/
def Clash (s : FileSystem) (request : Request) : Prop :=
  ∃ i, LiveSlot s request.parent i ∧ request.names (s.table request.parent i) = true

/-- The slot `write` takes. -/
def firstFree (s : FileSystem) (p : Nat) : Option (Fin entryCount) :=
  (slotsFrom 2).find? fun i => !(s.table p i).live

theorem firstFree_some {s : FileSystem} {p : Nat} {i : Fin entryCount}
    (h : firstFree s p = some i) : 2 ≤ i.val ∧ (s.table p i).live = false := by
  have hm := mem_slotsFrom.mp (List.mem_of_find?_eq_some h)
  have hp := List.find?_some h
  exact ⟨hm, by simpa using hp⟩

theorem firstFree_exists {s : FileSystem} {p : Nat} {i : Fin entryCount} (hi : 2 ≤ i.val)
    (hl : (s.table p i).live = false) : ∃ j, firstFree s p = some j := by
  cases hf : firstFree s p with
  | some j => exact ⟨j, rfl⟩
  | none =>
    have hh := List.find?_eq_none.mp hf i (mem_slotsFrom.mpr hi)
    simp [hl] at hh

theorem clash_iff_any {s : FileSystem} {request : Request} :
    ((slotsFrom 2).any fun i => (s.table request.parent i).live &&
      request.names (s.table request.parent i)) = true ↔ Clash s request := by
  simp [Clash, LiveSlot, mem_slotsFrom, and_assoc]

/-- The record `write` puts into its slot. -/
def newEntry (old : FAT32DirectoryEntry) (request : Request) (kind : UInt8) (c : Nat) :
    FAT32DirectoryEntry :=
  { old with
    filesize := request.bufferSize
    userAttribute := uattrNotEmpty
    name := request.name
    ext := request.ext
    attr := kind }.setCluster c

theorem uattrNotEmpty_live : (uattrNotEmpty &&& uattrNotEmpty != 0) = true := by decide

theorem attrSubdirectory_set : (attrSubdirectory &&& attrSubdirectory != 0) = true := by decide

theorem newEntry_live (old : FAT32DirectoryEntry) (request : Request) (kind : UInt8) (c : Nat) :
    (newEntry old request kind c).live = true := by
  simp only [newEntry, FAT32DirectoryEntry.setCluster_live]
  exact uattrNotEmpty_live

theorem newEntry_clusterNumber (old : FAT32DirectoryEntry) (request : Request) (kind : UInt8)
    {c : Nat} (hc : c < 512) : (newEntry old request kind c).clusterNumber = c :=
  FAT32DirectoryEntry.setCluster_clusterNumber _ (by omega)

def newDirectoryTable (request : Request) (c : Nat) : DirectoryTable :=
  let dt := initDirectoryTable (fun _ => .zero) request.name request.parent
  Function.update dt 0 ((dt 0).setCluster c)

theorem newDirectoryTable_header (request : Request) {c : Nat} (hc : c < 512)
    (hp : request.parent < 512) : Header (newDirectoryTable request c) c request.parent where
  self_cluster := by
    rw [newDirectoryTable, Function.update_self]
    exact FAT32DirectoryEntry.setCluster_clusterNumber _ (by omega)
  self_kind := by
    rw [newDirectoryTable, Function.update_self]
    exact ⟨uattrNotEmpty_live, attrSubdirectory_set⟩
  parent_cluster := by
    rw [newDirectoryTable, Function.update_of_ne (by decide)]
    exact FAT32DirectoryEntry.setCluster_clusterNumber .zero (by omega)
  parent_name := by
    rw [newDirectoryTable, Function.update_of_ne (by decide)]
    funext k
    simp only [initDirectoryTable, dotDot, FAT32DirectoryEntry.zero]
    by_cases hk : k = 0 ∨ k = 1 <;> simp [hk]
  parent_kind := by
    rw [newDirectoryTable, Function.update_of_ne (by decide)]
    exact ⟨uattrNotEmpty_live, attrSubdirectory_set⟩

theorem newDirectoryTable_name (request : Request) (c : Nat) :
    (newDirectoryTable request c 0).name = request.name := by
  rw [newDirectoryTable, Function.update_self]
  rfl

theorem newDirectoryTable_empty (request : Request) (c : Nat) {j : Fin entryCount}
    (hj : 2 ≤ j.val) : newDirectoryTable request c j = .zero := by
  have h0 : j ≠ 0 := by
    rintro rfl
    exact absurd hj (by decide)
  have h1 : j ≠ 1 := by
    rintro rfl
    exact absurd hj (by decide)
  rw [newDirectoryTable, Function.update_of_ne h0]
  simp [initDirectoryTable, h0, h1]

/-- Clusters that a request takes. -/
def clustersNeeded (request : Request) : Nat :=
  if request.bufferSize = 0 then 1 else clusterCount request.bufferSize.toNat

theorem clusterCount_pos {n : Nat} (hn : 0 < n) : 1 ≤ clusterCount n := by
  simp only [clusterCount, clusterSize, blockSize, clusterBlockCount]
  split_ifs <;> omega

theorem clustersNeeded_pos (request : Request) : 1 ≤ clustersNeeded request := by
  unfold clustersNeeded
  split_ifs with h
  · exact Nat.le_refl 1
  · refine clusterCount_pos (Nat.pos_of_ne_zero fun h0 => h ?_)
    exact UInt32.toNat_inj.mp (by simpa using h0)

/-- The kind bits of the new record. -/
def newKind (request : Request) : UInt8 := if request.bufferSize = 0 then attrSubdirectory else 0

theorem newEntry_isSubdirectory (old : FAT32DirectoryEntry) (request : Request) (c : Nat) :
    (newEntry old request (newKind request) c).isSubdirectory = decide (request.bufferSize = 0) := by
  by_cases hz : request.bufferSize = 0 <;>
    simp [newEntry, newKind, hz, FAT32DirectoryEntry.isSubdirectory,
      FAT32DirectoryEntry.setCluster, attrSubdirectory]

/-- The state after a successful `write`: slot, clusters and contents. -/
structure Written (s s' : FileSystem) (request : Request) (i : Fin entryCount) (cs : List Nat) :
    Prop where
  slot : firstFree s request.parent = some i
  clusters : cs = s.freeClusters.take (clustersNeeded request)
  length : cs.length = clustersNeeded request
  grown : Grown s s' request.parent i
    (newEntry (s.table request.parent i) request (newKind request) (cs.headD 0)) cs
  contents : request.bufferSize ≠ 0 → ∀ c ∈ cs,
    s'.cluster c = asCluster fun k => request.buf (cs.idxOf c * clusterSize + k)
  empty : request.bufferSize = 0 → ∀ c ∈ cs, s'.table c = newDirectoryTable request c

/-- Clusters that the loops of `write` look for; the count is kept in 16 bits. -/
def clustersWanted (request : Request) : Nat :=
  if request.bufferSize = 0 then 1 else clusterCount request.bufferSize.toNat % 2 ^ 16

/-- The state after a `write` that takes the free clusters it finds, as many as it wants or fewer. -/
structure Taken (s s' : FileSystem) (request : Request) (i : Fin entryCount) (cs : List Nat) :
    Prop where
  slot : firstFree s request.parent = some i
  clusters : cs = s.freeClusters.take (clustersWanted request)
  grown : Grown s s' request.parent i
    (newEntry (s.table request.parent i) request (newKind request) (cs.headD 0)) cs
  contents : request.bufferSize ≠ 0 → ∀ c ∈ cs,
    s'.cluster c = asCluster fun k => request.buf (cs.idxOf c * clusterSize + k)
  empty : request.bufferSize = 0 → ∀ c ∈ cs, s'.table c = newDirectoryTable request c

theorem fresh_ne {s : FileSystem} {p : Nat} (hw : Formed Fits s) (hp : LiveDir s p) {c : Nat}
    (hc : c ∈ s.freeClusters) : c ≠ fatClusterNumber ∧ c ≠ p := by
  obtain ⟨hr, he⟩ := mem_freeClusters.mp hc
  refine ⟨?_, ?_⟩
  · simp only [fatClusterNumber]
    omega
  · rintro rfl
    rw [hw.dir_mark hp] at he
    exact absurd he (by decide)

theorem write_clash {s : FileSystem} {request : Request} (hw : Formed Fits s)
    (hp : LiveDir s request.parent) (hc : Clash s request) :
    write s request = .ok (1, s.loadDir request.parent) := by
  rw [write, s.withParent_accepted (hw.dir_range hp).2 (hw.dir_mark hp)]
  have hscan : writeScan (s.loadDir request.parent).dirTableBuf request (slotsFrom 2) none =
      none := by
    rw [writeScan_eq, dirTableBuf_loadDir, if_pos (clash_iff_any.mpr hc)]
  simp only [hscan]
  rfl

theorem writeScan_free {s : FileSystem} {request : Request} (hc : ¬ Clash s request) :
    writeScan (s.loadDir request.parent).dirTableBuf request (slotsFrom 2) none =
      some (firstFree s request.parent) := by
  rw [writeScan_eq, dirTableBuf_loadDir, if_neg (mt clash_iff_any.mp hc), Option.none_or]
  rfl

theorem write_full {s : FileSystem} {request : Request} (hw : Formed Fits s)
    (hp : LiveDir s request.parent) (hc : ¬ Clash s request)
    (hf : firstFree s request.parent = none) :
    write s request = .ok (-1, s.loadDir request.parent) := by
  rw [write, s.withParent_accepted (hw.dir_range hp).2 (hw.dir_mark hp)]
  simp only [writeScan_free hc, hf]
  rfl

theorem write_ok {s s' : FileSystem} {request : Request} (hw : Formed Fits s)
    (hp : LiveDir s request.parent) (h : write s request = .ok (0, s')) :
    ¬ Clash s request ∧ ∃ i, firstFree s request.parent = some i := by
  have hc : ¬ Clash s request := by
    intro hc
    rw [write_clash hw hp hc] at h
    cases h
  refine ⟨hc, ?_⟩
  cases hf : firstFree s request.parent with
  | none =>
    rw [write_full hw hp hc hf] at h
    cases h
  | some i => exact ⟨i, rfl⟩

/-- The buffer of `write` when the slot is filled and the clusters are not yet taken. -/
def fillSlot (s : FileSystem) (request : Request) (i : Fin entryCount) : FileSystem :=
  (s.loadDir request.parent).setEntry i { s.table request.parent i with
    filesize := request.bufferSize
    userAttribute := uattrNotEmpty
    name := request.name
    ext := request.ext }

theorem write_some {s : FileSystem} {request : Request} {i : Fin entryCount} (hw : Formed Fits s)
    (hp : LiveDir s request.parent) (hc : ¬ Clash s request)
    (hf : firstFree s request.parent = some i) :
    write s request = .ok (0,
      ((if request.bufferSize = 0 then writeFolder (fillSlot s request i) request i
        else writeFile (fillSlot s request i) request i).storeDir request.parent).storeFat) := by
  rw [write, s.withParent_accepted (hw.dir_range hp).2 (hw.dir_mark hp)]
  simp only [writeScan_free hc, hf]
  rfl

theorem writeFolder_taken {s : FileSystem} {request : Request} {i : Fin entryCount}
    (hw : Formed Fits s) (hp : LiveDir s request.parent)
    (hf : firstFree s request.parent = some i) (hz : request.bufferSize = 0)
    (hn : s.freeClusters.take (clustersWanted request) ≠ []) :
    Taken s (((writeFolder (fillSlot s request i) request i).storeDir request.parent).storeFat)
      request i (s.freeClusters.take (clustersWanted request)) := by
  have hone : clustersWanted request = 1 := if_pos hz
  obtain ⟨c, rest, hfree⟩ : ∃ c rest, s.freeClusters = c :: rest := by
    cases hl : s.freeClusters with
    | nil => simp [hl] at hn
    | cons c rest => exact ⟨c, rest, rfl⟩
  have hmem : c ∈ s.freeClusters := by simp [hfree]
  have hc := mem_freeClusters.mp hmem
  have hne := fresh_ne hw hp hmem
  have hpr := hw.dir_range hp
  have hfind : dataClusters.find? (fun k => (fillSlot s request i).next k = fatEmptyEntry) =
      some c := by
    have hh : s.freeClusters.head? = some c := by simp [hfree]
    rwa [freeClusters, List.head?_filter] at hh
  have htable : ∀ t : FileSystem, t = writeFolder (fillSlot s request i) request i →
      t.dirTableBuf = Function.update (s.table request.parent) i
        (newEntry (s.table request.parent i) request (newKind request) c) ∧
      (∀ d < 512, t.next d = if d = c then fatEndOfFile else s.next d) ∧
      ∀ d < 512, t.cluster d =
        if d = c then asCluster (directoryTableCodec.put (newDirectoryTable request c))
        else s.cluster d := by
    rintro t rfl
    simp only [writeFolder, hfind]
    refine ⟨?_, fun d hd => ?_, fun d hd => ?_⟩
    · simp [fillSlot, newEntry, newKind, hz, FAT32DirectoryEntry.setCluster, FileSystem.table]
    · rw [next_setNext _ hd (by decide)]
      rfl
    · rw [cluster_setNext, cluster_writeClusters _ hc.1.2 hd]
      rfl
  obtain ⟨hbuf, hnext, hcl⟩ := htable _ rfl
  generalize writeFolder (fillSlot s request i) request i = t at hbuf hnext hcl
  have hcs : (newEntry (s.table request.parent i) request (newKind request) c).clusterNumber = c :=
    newEntry_clusterNumber _ _ _ hc.1.2
  have hnew : (t.storeDir request.parent).storeFat.table c = newDirectoryTable request c := by
    rw [FileSystem.table, cluster_stored_of_ne hpr.2 hc.1.2 hne.1 hne.2, hcl c hc.1.2, if_pos rfl,
      decodeTable_put]
  rw [hone, hfree, List.take_succ_cons, List.take_zero]
  refine ⟨hf, by simp [hfree, hone], ?_, fun h => absurd hz h, ?_⟩
  · rw [List.headD_cons]
    exact {
      parent := hp
      slot_range := (firstFree_some hf).1
      slot_free := (firstFree_some hf).2
      live := newEntry_live _ _ _ _
      fresh := by
        intro d hd
        rw [List.mem_singleton.mp hd]
        exact ⟨hc.1.1, hc.1.2, hc.2⟩
      nodup := by simp
      chain := by
        rw [hcs]
        refine .step ?_ ?_
        · simp only [fatEndOfFile]
          omega
        · rw [next_storeFat, next_storeDir, hnext c hc.1.2, if_pos rfl]
          exact .stop
      next_eq := by
        intro d hd hm
        rw [next_storeFat, next_storeDir, hnext d hd, if_neg (by simpa using hm)]
      table_eq := by
        rw [table_stored hpr.2 (hw.dir_ne_fat hp), hbuf]
      cluster_eq := by
        intro d hd h1 hdp hm
        rw [cluster_stored_of_ne hpr.2 hd h1 hdp, hcl d hd, if_neg (by simpa using hm)]
      mirrored := mirrored_stored hpr.2
      folder := by
        intro _
        rw [hcs, hnew]
        exact ⟨rfl, hz, newDirectoryTable_header request hc.1.2 hpr.2, newDirectoryTable_name request c,
          fun j hj => newDirectoryTable_empty request c hj⟩
      file := by
        intro hk
        simp [newEntry_isSubdirectory, hz] at hk }
  · intro _ d hd
    rw [List.mem_singleton.mp hd, hnew]

theorem writeFile_taken {s : FileSystem} {request : Request} {i : Fin entryCount}
    (hw : Formed Fits s) (hp : LiveDir s request.parent)
    (hf : firstFree s request.parent = some i) (hz : request.bufferSize ≠ 0)
    (hn : s.freeClusters.take (clustersWanted request) ≠ []) :
    Taken s (((writeFile (fillSlot s request i) request i).storeDir request.parent).storeFat)
      request i (s.freeClusters.take (clustersWanted request)) := by
  have hpr := hw.dir_range hp
  have hmod : clusterCount request.bufferSize.toNat % 2 ^ 16 = clustersWanted request :=
    (if_neg hz).symm
  have hsub : ∀ c ∈ s.freeClusters.take (clustersWanted request), c ∈ s.freeClusters :=
    fun c hc => List.mem_of_mem_take hc
  obtain ⟨c₀, cs, htake⟩ : ∃ c cs, s.freeClusters.take (clustersWanted request) = c :: cs := by
    cases hl : s.freeClusters.take (clustersWanted request) with
    | nil => exact absurd hl hn
    | cons c cs => exact ⟨c, cs, rfl⟩
  rw [htake] at hsub ⊢
  have hr : ∀ c ∈ c₀ :: cs, 3 ≤ c ∧ c < 512 := fun c hc => (mem_freeClusters.mp (hsub c hc)).1
  have hnd : (c₀ :: cs).Nodup := by
    rw [← htake]
    exact (freeClusters_nodup s).sublist (List.take_sublist _ _)
  have hwrite : writeFile (fillSlot s request i) request i =
      closeChain (placeClusters request i (c₀ :: cs) 0 0 (fillSlot s request i)) := by
    have hloop := writeFileLoop_eq request i (clustersWanted request) dataClusters 0 0
      (fillSlot s request i) zero_cons_dataClusters_nodup fun c hc => (mem_dataClusters.mp hc).2
    rw [writeFile, hmod, closeChain, ← htake, hloop]
    rfl
  obtain ⟨hwalk, hnext, hbuf, hcl⟩ :=
    placeClusters_first request i c₀ cs (fillSlot s request i) hnd hr
  rw [← hwrite] at hwalk hnext hbuf hcl
  have hbuf' : (writeFile (fillSlot s request i) request i).dirTableBuf =
      Function.update (s.table request.parent) i
        (newEntry (s.table request.parent i) request (newKind request) c₀) := by
    rw [hbuf]
    simp [fillSlot, newEntry, newKind, hz, FAT32DirectoryEntry.setCluster, FileSystem.table]
  have hcs : (newEntry (s.table request.parent i) request (newKind request) c₀).clusterNumber =
      c₀ := newEntry_clusterNumber _ _ _ (hr c₀ (by simp)).2
  generalize writeFile (fillSlot s request i) request i = t at hwalk hnext hbuf' hcl
  refine ⟨hf, htake.symm, ?_, fun _ c hc => ?_, fun h => absurd h hz⟩
  · rw [List.headD_cons]
    exact {
      parent := hp
      slot_range := (firstFree_some hf).1
      slot_free := (firstFree_some hf).2
      live := newEntry_live _ _ _ _
      fresh := fun c hc => ⟨(hr c hc).1, (hr c hc).2, (mem_freeClusters.mp (hsub c hc)).2⟩
      nodup := hnd
      chain := by
        rw [hcs]
        exact hwalk
      next_eq := fun c hc hm => hnext c hc hm
      table_eq := by
        rw [table_stored hpr.2 (hw.dir_ne_fat hp), hbuf']
      cluster_eq := by
        intro d hd h1 hdp hm
        rw [cluster_stored_of_ne hpr.2 hd h1 hdp, hcl d hd, if_neg hm]
        rfl
      mirrored := mirrored_stored hpr.2
      folder := by
        intro hk
        simp [newEntry_isSubdirectory, hz] at hk
      file := by
        intro _
        simp }
  · have hne := fresh_ne hw hp (hsub c hc)
    rw [cluster_stored_of_ne hpr.2 (hr c hc).2 hne.1 hne.2, hcl c (hr c hc).2, if_pos hc]

/-- With a free slot and a free cluster to take `write` returns 0. -/
theorem write_taken {s : FileSystem} {request : Request} {i : Fin entryCount} (hw : Formed Fits s)
    (hp : LiveDir s request.parent) (hc : ¬ Clash s request)
    (hf : firstFree s request.parent = some i)
    (hn : s.freeClusters.take (clustersWanted request) ≠ []) :
    ∃ s' cs, write s request = .ok (0, s') ∧ Taken s s' request i cs := by
  rw [write_some hw hp hc hf]
  by_cases hz : request.bufferSize = 0
  · rw [if_pos hz]
    exact ⟨_, _, rfl, writeFolder_taken hw hp hf hz hn⟩
  · rw [if_neg hz]
    exact ⟨_, _, rfl, writeFile_taken hw hp hf hz hn⟩

theorem freeClusters_length_le (s : FileSystem) : s.freeClusters.length ≤ 509 := by
  have := List.length_filter_le (fun c => decide (s.next c = fatEmptyEntry)) dataClusters
  simpa [freeClusters, dataClusters, clusterMapSize] using this

/-- A count that the disk can hold is not cut to 16 bits. -/
theorem clustersWanted_eq {s : FileSystem} {request : Request}
    (hn : clustersNeeded request ≤ s.freeClusters.length) :
    clustersWanted request = clustersNeeded request := by
  have hcap := freeClusters_length_le s
  unfold clustersWanted clustersNeeded at *
  split_ifs with hz
  · rfl
  · rw [if_neg hz] at hn
    exact Nat.mod_eq_of_lt (by omega)

theorem take_ne_nil {s : FileSystem} {request : Request}
    (hn : clustersNeeded request ≤ s.freeClusters.length) :
    s.freeClusters.take (clustersWanted request) ≠ [] := by
  have hpos := clustersNeeded_pos request
  rw [clustersWanted_eq hn, ← List.length_pos_iff, List.length_take]
  omega

theorem Taken.written {s s' : FileSystem} {request : Request} {i : Fin entryCount}
    {cs : List Nat} (h : Taken s s' request i cs)
    (hn : clustersNeeded request ≤ s.freeClusters.length) : Written s s' request i cs where
  slot := h.slot
  clusters := by rw [h.clusters, clustersWanted_eq hn]
  length := by
    rw [h.clusters, clustersWanted_eq hn, List.length_take]
    exact Nat.min_eq_left hn
  grown := h.grown
  contents := h.contents
  empty := h.empty

/-- With a free slot and enough free clusters `write` succeeds. -/
theorem write_new {s : FileSystem} {request : Request} {i : Fin entryCount} (hw : Formed Fits s)
    (hp : LiveDir s request.parent) (hc : ¬ Clash s request)
    (hf : firstFree s request.parent = some i)
    (hn : clustersNeeded request ≤ s.freeClusters.length) :
    ∃ s' cs, write s request = .ok (0, s') ∧ Written s s' request i cs := by
  obtain ⟨s', cs, hs, ht⟩ := write_taken hw hp hc hf (take_ne_nil hn)
  exact ⟨s', cs, hs, ht.written hn⟩

theorem not_clash {s : FileSystem} {request : Request} (hc : ¬ Clash s request)
    {j : Fin entryCount} (hj : LiveSlot s request.parent j)
    (hn : (s.table request.parent j).name = request.name) :
    (s.table request.parent j).ext ≠ request.ext :=
  fun he => hc ⟨j, hj, FAT32DriverRequest.names_iff.mpr ⟨hn, he⟩⟩

theorem Taken.formed {s s' : FileSystem} {request : Request} {i : Fin entryCount}
    {cs : List Nat} (h : Taken s s' request i cs) (hw : Formed Fits s)
    (hfits : request.bufferSize ≠ 0 → Fits request.bufferSize cs.length)
    (hc : ¬ Clash s request) : Formed Fits s' := by
  refine h.grown.wellFormed hw (fun hk => hfits fun hz => ?_) fun j hj => not_clash hc hj
  simp [newEntry_isSubdirectory, hz] at hk

theorem Written.wellFormed {s s' : FileSystem} {request : Request} {i : Fin entryCount}
    {cs : List Nat} (h : Written s s' request i cs) (hw : WellFormed s)
    (hc : ¬ Clash s request) : WellFormed s' := by
  refine h.grown.wellFormed hw (fun hk => ?_) fun j hj => not_clash hc hj
  rw [h.length, clustersNeeded, if_neg]
  · rfl
  · intro hz
    simp [newEntry_isSubdirectory, hz] at hk

end Doors.Fat32
