import Doors.SubtreeDelete
import Doors.WriteErrors

/-! Deleting one entry: what it frees, what it refuses and what it leaves alone.
Deletion takes a write back as long as the write got a cluster. -/

namespace Doors.Fat32

open PointerTree FileSystem

variable {Fits : UInt32 → Nat → Prop}

/-- Slot `i` of `p` is cleared and the clusters in `X` are freed, nothing else. -/
structure Deleted (s s' : FileSystem) (p : Nat) (i : Fin entryCount) (X : Nat → Prop) : Prop where
  freed : ∀ c, s.next c ≠ fatEmptyEntry ∧ s'.next c = fatEmptyEntry ↔ X c
  kept : ∀ c < 512, ¬ X c → s'.next c = s.next c
  cleared : s'.table p = Function.update (s.table p) i .zero
  tables : ∀ d, LiveDir s d → d ≠ p → ¬ X d → s'.table d = s.table d
  files : ∀ (request : Request) j, LiveDir s request.parent → FileSlot s request.parent j →
    request.names (s.table request.parent j) = true → (request.parent = p → j ≠ i) →
    readBack s' request = readBack s request

/-- The outcomes of `delete` on every kind of name, and after a write of that name. -/
structure ExactDelete (s : FileSystem) (request : Request) : Prop where
  file : ∀ i l, FileSlot s request.parent i →
    request.names (s.table request.parent i) = true →
    Walk s.next fatEndOfFile (s.table request.parent i).clusterNumber l →
    ∃ s', delete s request = .ok (0, s') ∧ Deleted s s' request.parent i fun c => c ∈ l
  folder : ∀ i a, folderChild s request.parent i = some a →
    request.names (s.table request.parent i) = true → (∀ j, ¬ LiveSlot s a j) →
    ∃ s', delete s request = .ok (0, s') ∧ Deleted s s' request.parent i fun c => c = a
  nonempty : ∀ i a j, folderChild s request.parent i = some a →
    request.names (s.table request.parent i) = true → LiveSlot s a j →
    ∃ s', delete s request = .ok (2, s') ∧ s'.clusterMap = s.clusterMap ∧ s'.disk = s.disk
  absent : (∀ i, LiveSlot s request.parent i →
      request.names (s.table request.parent i) = false) →
    ∃ s', delete s request = .ok (1, s') ∧ s'.clusterMap = s.clusterMap ∧ s'.disk = s.disk
  restored : ∀ s', write s request = .ok (0, s') → ∃ s'', delete s' request = .ok (0, s'') ∧
    s''.clusterMap = s.clusterMap ∧ s''.table request.parent = s.table request.parent

/-- If `write` fills a slot there is a cluster for it to take. -/
def TakesCluster (s : FileSystem) (request : Request) : Prop :=
  ¬ Clash s request → firstFree s request.parent ≠ none →
    s.freeClusters ≠ [] ∧ clustersWanted request ≠ 0

theorem take_eq_nil_iff {s : FileSystem} {request : Request} :
    s.freeClusters.take (clustersWanted request) = [] ↔
      ¬ (s.freeClusters ≠ [] ∧ clustersWanted request ≠ 0) := by
  rw [List.take_eq_nil_iff]
  tauto

theorem Pruned.deleted {s s' : FileSystem} {p : Nat} {i : Fin entryCount} {X : Nat → Prop}
    (hg : Pruned s s' p i) (hw : Formed Fits s) (hX : ∀ c, EntryRegion s p i c ↔ X c)
    (hno : ∀ d j, LiveDir s d → FileSlot s d j → ¬ X d) : Deleted s s' p i X where
  freed c := (hg.freed_iff hw).trans (hX c)
  kept c hc hx := hg.next_eq c hc (mt (hX c).mp hx)
  cleared := hg.table_eq
  tables d hd hne hx := by
    rw [FileSystem.table, hg.cluster_eq d (hw.dir_range hd).2 (hw.dir_ne_fat hd) hne
      (mt (hX d).mp hx), FileSystem.table]
  files request j hd hf hn hne := by
    have hr : ¬ EntryRegion s p i request.parent := mt (hX _).mp (hno _ j hd hf)
    obtain ⟨l, hk⟩ := hg.keepsFile hw hd hr hne hf
    exact hk.readBack_eq hw (hg.wellFormed hw) hd ((hg.liveDir_iff hw).mpr ⟨hd, hr⟩) hf hn

section Named

variable {s : FileSystem} {request : Request} {i : Fin entryCount}

theorem delete_file_deleted (hw : Formed Fits s) (hp : LiveDir s request.parent) {l : List Nat}
    (hf : FileSlot s request.parent i) (hn : request.names (s.table request.parent i) = true)
    (hl : Walk s.next fatEndOfFile (s.table request.parent i).clusterNumber l) :
    ∃ s', delete s request = .ok (0, s') ∧ Deleted s s' request.parent i fun c => c ∈ l := by
  obtain ⟨s', hs, hpr⟩ := delete_file hw hp hf hn
  refine ⟨s', hs, hpr.deleted hw (fun c => region_of_file hp hf hl) fun d j hd _ hm => ?_⟩
  have hc := hw.folderChild_of_owns hd (.file hp hf hl hm)
  simp [folderChild_of_fileSlot hf] at hc

theorem delete_folder_deleted (hw : Formed Fits s) (hp : LiveDir s request.parent) {a : Nat}
    (ha : folderChild s request.parent i = some a)
    (hn : request.names (s.table request.parent i) = true) (hempty : ∀ j, ¬ LiveSlot s a j) :
    ∃ s', delete s request = .ok (0, s') ∧ Deleted s s' request.parent i fun c => c = a := by
  obtain ⟨s', hs, hpr⟩ := deleteAt_empty hw hp ha hempty
  refine ⟨s', ?_, hpr.deleted hw (fun c => region_of_empty hp ha hempty) ?_⟩
  · rw [delete_found hw hp (folderChild_eq_some.mp ha).1 hn, hs]
  · rintro d j - hf rfl
    exact hempty j hf.1

theorem delete_absent (hw : Formed Fits s) (hp : LiveDir s request.parent)
    (hn : ∀ i, LiveSlot s request.parent i → request.names (s.table request.parent i) = false) :
    delete s request = .ok (1, s.loadDir request.parent) := by
  rw [delete, s.withParent_accepted (hw.dir_range hp).2 (hw.dir_mark hp), deleteLoop_eq]
  simp only [dirTableBuf_loadDir, find_unnamed hn]

theorem clusterMap_eq {s s' : FileSystem} (h : ∀ c < 512, s'.next c = s.next c) :
    s'.clusterMap = s.clusterMap := by
  funext c
  have hc := h c c.isLt
  simp only [next, c.isLt, dif_pos] at hc
  exact UInt32.toNat_inj.mp hc

/-- Deleting what was just written gives clusters and slot back, however many it got. -/
theorem Taken.restored {s' : FileSystem} {cs : List Nat} (h : Taken s s' request i cs)
    (hw : WellFormed s) (hc : ¬ Clash s request) :
    ∃ s'', delete s' request = .ok (0, s'') ∧ s''.clusterMap = s.clusterMap ∧
      s''.table request.parent = s.table request.parent := by
  have hg := h.grown
  have hloose : Formed (fun _ _ => True) s := hw.mono fun _ _ _ => trivial
  have hw' := h.formed hloose (fun _ => trivial) hc
  have hp' := (hg.liveDir_iff hw).mpr (.inl hg.parent)
  have hn : request.names (s'.table request.parent i) = true := by
    rw [hg.entry_new, FAT32DriverRequest.names_iff]
    exact ⟨rfl, rfl⟩
  obtain ⟨s'', hs, hd⟩ : ∃ s'', delete s' request = .ok (0, s'') ∧
      Deleted s' s'' request.parent i fun c => c ∈ cs := by
    cases hk : (s'.table request.parent i).isSubdirectory with
    | false =>
      refine delete_file_deleted hw' hp' ⟨hg.liveSlot_new, hk⟩ hn ?_
      rw [hg.entry_new]
      exact hg.chain
    | true =>
      rw [hg.entry_new] at hk
      have hcs := (hg.folder hk).1
      obtain ⟨s'', hs, hd⟩ := delete_folder_deleted hw' hp' (hg.child_new hk) hn fun j hj => by
        rw [LiveSlot, (hg.folder hk).2.2.2.2 j hj.1] at hj
        simp at hj
      refine ⟨s'', hs, ?_⟩
      rw [hcs]
      simpa using hd
  refine ⟨s'', hs, clusterMap_eq fun c hlt => ?_, ?_⟩
  · by_cases hm : c ∈ cs
    · rw [((hd.freed c).mpr hm).2, (hg.fresh c hm).2.2]
    · rw [hd.kept c hlt hm, hg.next_eq c hlt hm]
  · rw [hd.cleared, hg.table_eq, Function.update_idem, Function.update_eq_self_iff,
      hw.slot_clear hg.parent hg.slot_range hg.slot_free]

theorem find_new {e : FAT32DirectoryEntry} (hc : ¬ Clash s request) (hi : 2 ≤ i.val)
    (he : e.live = true) (hn : request.names e = true) :
    ((slotsFrom 2).find? fun j => (Function.update (s.table request.parent) i e j).live &&
      request.names (Function.update (s.table request.parent) i e j)) = some i := by
  cases hfind : (slotsFrom 2).find? fun j => (Function.update (s.table request.parent) i e j).live &&
      request.names (Function.update (s.table request.parent) i e j) with
  | none =>
    have := List.find?_eq_none.mp hfind i (mem_slotsFrom.mpr hi)
    simp [he, hn] at this
  | some j =>
    by_cases hj : j = i
    · rw [hj]
    · have hh := List.find?_some hfind
      simp only [Function.update_of_ne hj, Bool.and_eq_true] at hh
      exact absurd ⟨j, ⟨mem_slotsFrom.mp (List.mem_of_find?_eq_some hfind), hh.1⟩, hh.2⟩ hc

/-- The entry of a write that found no cluster: a file at cluster 0. -/
def untakenEntry (request : Request) : FAT32DirectoryEntry :=
  { FAT32DirectoryEntry.zero with
    filesize := request.bufferSize
    userAttribute := uattrNotEmpty
    name := request.name
    ext := request.ext }

theorem freeChain_zero (fuel : Nat) (t : FileSystem) :
    freeChain (fuel + 1) t 0 = freeChain fuel ((t.writeClusters zeroBytes 0).setNext 0 fatEmptyEntry)
      (t.next 0) := by
  have h0 : 0 ≠ fatEndOfFile := by decide
  simp [freeChain, h0, lookup_of_lt _ (show 0 < 512 by decide),
    assign_of_lt _ (show 0 < 512 by decide), bind, Except.bind]

theorem freeChain_stop (fuel : Nat) (t : FileSystem) : freeChain fuel t fatEndOfFile = .ok t := by
  cases fuel <;> simp [freeChain]

theorem freeChain_reserved (fuel : Nat) (t : FileSystem) :
    freeChain (fuel + 1) t cluster0Value = .error .outOfBounds := by
  have hne : cluster0Value ≠ fatEndOfFile := by decide
  have hout : ∀ t : FileSystem, t.lookup cluster0Value = .error .outOfBounds :=
    fun t => if_neg (by decide)
  simp [freeChain, hne, hout, bind, Except.bind]

theorem delete_untaken {t : FileSystem} (hp : request.parent < 512)
    (hmark : t.next request.parent = fatEndOfFile) (hc : ¬ Clash s request) (hi : 2 ≤ i.val)
    (ht : t.table request.parent =
      Function.update (s.table request.parent) i (untakenEntry request)) :
    delete t request = (do
      let t' ← freeChain 511 (((t.loadDir request.parent).writeClusters zeroBytes 0).setNext 0
        fatEmptyEntry) (t.next 0)
      return (0, clearSlot t' request.parent i)) := by
  have hfind := find_new hc hi (e := untakenEntry request) uattrNotEmpty_live
    (FAT32DriverRequest.names_iff.mpr ⟨rfl, rfl⟩)
  rw [delete, t.withParent_accepted hp hmark, deleteLoop_eq]
  simp only [dirTableBuf_loadDir, ht, hfind, deleteAt, Function.update_self]
  have hkind : (untakenEntry request).isSubdirectory = false := by
    show ((0 : UInt8) &&& attrSubdirectory != 0) = false
    decide
  have hcn : (untakenEntry request).clusterNumber = 0 := by
    simp [untakenEntry, FAT32DirectoryEntry.clusterNumber, FAT32DirectoryEntry.zero]
  rw [hkind, hcn, clusterMapSize, freeChain_zero 511]
  rfl

theorem fillSlot_untaken (hw : WellFormed s) (hp : LiveDir s request.parent)
    (hf : firstFree s request.parent = some i) : (fillSlot s request i).dirTableBuf =
      Function.update (s.table request.parent) i (untakenEntry request) := by
  obtain ⟨hi, hdead⟩ := firstFree_some hf
  rw [fillSlot, dirTableBuf_setEntry, hw.slot_clear hp hi hdead]
  rfl

/-- A file that found no cluster: its deletion zeroes cluster 0 and loses its mark. -/
theorem write_untaken_file (hw : WellFormed s) (hp : LiveDir s request.parent)
    (hc : ¬ Clash s request) (hf : firstFree s request.parent = some i)
    (hz : request.bufferSize ≠ 0) (hn : s.freeClusters.take (clustersWanted request) = []) :
    ∃ s' s'', write s request = .ok (0, s') ∧ delete s' request = .ok (0, s'') ∧
      s''.next 0 = fatEmptyEntry ∧ s''.cluster 0 = asCluster zeroBytes := by
  have hpr := hw.dir_range hp
  have hnext : ∀ c < 512,
      ((((fillSlot s request i).setNext 0 fatEndOfFile).storeDir request.parent).storeFat).next c =
        if c = 0 then fatEndOfFile else s.next c := fun c hc => next_setNext _ hc (by decide)
  have hne : request.parent ≠ 0 := by omega
  have hwrite := write_untaken hw hp hc hf hn
  have hdel := delete_untaken
    (t := (((fillSlot s request i).setNext 0 fatEndOfFile).storeDir request.parent).storeFat)
    hpr.2 (by rw [hnext _ hpr.2, if_neg hne, hw.dir_mark hp]) hc (firstFree_some hf).1
    (by rw [table_stored hpr.2 (hw.dir_ne_fat hp), dirTableBuf_setNext, fillSlot_untaken hw hp hf])
  rw [if_neg hz] at hwrite
  rw [hnext 0 (by decide), if_pos rfl, freeChain_stop] at hdel
  refine ⟨_, _, hwrite, hdel, (next_setNext _ (by decide) (by decide)).trans (if_pos rfl), ?_⟩
  rw [clearSlot, cluster_stored_of_ne hpr.2 (by decide) (by decide) (Ne.symm hne),
    cluster_setEntry, cluster_loadDir, cluster_setNext, cluster_writeClusters _ (by decide)
    (by decide), if_pos rfl]

/-- Then deletion loses the mark of cluster 0 or follows it out of the table. -/
theorem write_untaken_lost (hw : WellFormed s) (hp : LiveDir s request.parent)
    (hc : ¬ Clash s request) (hf : firstFree s request.parent = some i)
    (hn : s.freeClusters.take (clustersWanted request) = []) :
    ∃ s', write s request = .ok (0, s') ∧ ∀ s'', delete s' request = .ok (0, s'') →
      s''.clusterMap ≠ s.clusterMap := by
  have hpr := hw.dir_range hp
  by_cases hz : request.bufferSize = 0
  · refine ⟨_, write_untaken hw hp hc hf hn, fun s'' hs _ => ?_⟩
    have hdel := delete_untaken (t := ((fillSlot s request i).storeDir request.parent).storeFat)
      hpr.2 (hw.dir_mark hp) hc (firstFree_some hf).1
      (by rw [table_stored hpr.2 (hw.dir_ne_fat hp), fillSlot_untaken hw hp hf])
    have hnext : (((fillSlot s request i).storeDir request.parent).storeFat).next 0 =
        cluster0Value := hw.reserved0
    rw [if_pos hz, hdel, hnext, freeChain_reserved 510] at hs
    exact absurd hs (by simp [bind, Except.bind])
  · obtain ⟨s', t, hs', hdel, h0, -⟩ := write_untaken_file hw hp hc hf hz hn
    refine ⟨s', hs', fun s'' hs hmap => ?_⟩
    rw [hs, Except.ok.injEq, Prod.mk.injEq] at hdel
    have h0' : s''.next 0 = s.next 0 := by
      simp only [next, hmap]
    rw [hdel.2, h0, hw.reserved0] at h0'
    exact absurd h0' (by decide)

end Named

theorem exactDelete_of_takes {s : FileSystem} (hw : WellFormed s) {request : Request}
    (hp : LiveDir s request.parent) (ht : TakesCluster s request) : ExactDelete s request where
  file _ _ hf hn hl := delete_file_deleted hw hp hf hn hl
  folder _ _ ha hn hempty := delete_folder_deleted hw hp ha hn hempty
  nonempty i a j ha hn hj := by
    refine ⟨s.loadDir request.parent, ?_, rfl, rfl⟩
    rw [delete_found hw hp (folderChild_eq_some.mp ha).1 hn, deleteAt_nonempty ha hj]
  absent hn := ⟨s.loadDir request.parent, delete_absent hw hp hn, rfl, rfl⟩
  restored s' hs := by
    obtain ⟨hc, i, hf⟩ := write_ok hw hp hs
    have hroom := ht hc (by rw [hf]; exact Option.some_ne_none i)
    obtain ⟨t, cs, hs', htaken⟩ := write_taken hw hp hc hf fun h => take_eq_nil_iff.mp h hroom
    cases hs.symm.trans hs'
    exact htaken.restored hw hc

theorem takes_of_exactDelete {s : FileSystem} (hw : WellFormed s) {request : Request}
    (hp : LiveDir s request.parent) (h : ExactDelete s request) : TakesCluster s request := by
  intro hc hf
  obtain ⟨i, hi⟩ := Option.ne_none_iff_exists'.mp hf
  by_contra hn
  obtain ⟨s', hs, hlost⟩ := write_untaken_lost hw hp hc hi (take_eq_nil_iff.mpr hn)
  obtain ⟨s'', hs'', hmap, -⟩ := h.restored s' hs
  exact hlost s'' hs'' hmap

/-- Deletion is exact exactly when a write of the same name gets a cluster or is refused. -/
theorem delete_exact_iff {s : FileSystem} (hw : WellFormed s) {request : Request}
    (hp : LiveDir s request.parent) : ExactDelete s request ↔ TakesCluster s request :=
  ⟨takes_of_exactDelete hw hp, exactDelete_of_takes hw hp⟩

/-- A folder of a new disk can be taken back. -/
theorem delete_exact_iff_mkdir :
    ExactDelete (createFat32 (fun _ => 0) (boot zeroBytes))
      ⟨zeroBytes, fun _ => 'a'.toUInt8, fun _ => 0, 2, 0⟩ := by
  refine (delete_exact_iff (createFat32_wellFormed _ _) reach_root).mpr fun _ _ => ⟨?_, by decide⟩
  rw [← List.length_pos_iff, createFat32_room]
  decide

/-- A size of 2^27 bytes counts as no cluster in 16 bits. -/
theorem delete_not_exact : ¬ ∀ (s : FileSystem) (request : Request), WellFormed s →
    LiveDir s request.parent → ExactDelete s request := by
  intro h
  have hw := createFat32_wellFormed (fun _ => 0) zeroBytes
  have hp : LiveDir (createFat32 (fun _ => 0) (boot zeroBytes))
      (⟨zeroBytes, fun _ => 'a'.toUInt8, fun _ => 0, 2, 134217728⟩ : Request).parent := reach_root
  have ht := takes_of_exactDelete hw hp (h _ _ hw hp)
  obtain ⟨i, hi⟩ := firstFree_exists (s := createFat32 (fun _ => 0) (boot zeroBytes)) (p := 2)
    (i := 2) (by decide) (createFat32_dead _ _ (by decide))
  have hn := ht (fun ⟨j, hj, _⟩ => createFat32_liveSlot _ _ reach_root hj)
    (Option.ne_none_iff_exists'.mpr ⟨i, hi⟩)
  exact hn.2 (by decide)

end Doors.Fat32
