import Doors.FatReadBack
import Doors.TreeCopy

/-! Which folder a request denotes. `delete` and `delete_folder_rec` compare name and
extension, `get_cluster_number` and `read_directory` the name alone, the latter from the
entry of the parent on. -/

namespace Doors.Fat32

open PointerTree FileSystem

/-- The functions that look a folder up by name all act on the one in slot `i`, cluster `c`. -/
structure LookupsAgree (s : FileSystem) (request : Request) (i : Fin entryCount) (c : Nat) :
    Prop where
  number : ∃ s', getClusterNumber s request = .ok (c, s')
  directory : ∃ buf s', readDirectory s { request with bufferSize := 2048 } = .ok (0, buf, s') ∧
    asCluster buf = s.cluster c
  deleted : ∃ code s', delete s request = .ok (code, s') ∧
    (code = 2 ∧ s' = s.loadDir request.parent ∧ (∃ j, LiveSlot s c j) ∨
      code = 0 ∧ Pruned s s' request.parent i)
  subtree : ∃ s', deleteFolderRec s request = .ok (0, s') ∧ Pruned s s' request.parent i

/-- No earlier slot holds a folder of that name. -/
def FirstOfName (s : FileSystem) (request : Request) (i : Fin entryCount) : Prop :=
  ∀ j b, folderChild s request.parent j = some b →
    (s.table request.parent j).name = request.name → i ≤ j

section Directory

variable {Fits : UInt32 → Nat → Prop} {s : FileSystem} {request : Request}

theorem Formed.dir_header (hw : Formed Fits s) {d : Nat} (hd : LiveDir s d) :
    ∃ q, Header (s.table d) d q ∧
      ((d = rootClusterNumber ∧ q = rootClusterNumber) ∨
        ∃ k, LiveDir s q ∧ folderChild s q k = some d) := by
  obtain ⟨n, hr⟩ := hd
  cases hr with
  | root => exact ⟨_, hw.root_header, .inl ⟨rfl, rfl⟩⟩
  | child hr hc => exact ⟨_, (hw.header ⟨_, hr⟩ hc).1, .inr ⟨_, ⟨_, hr⟩, hc⟩⟩

theorem Header.parent_ne_child (hw : Formed Fits s) {d q c : Nat} {i : Fin entryCount}
    (hd : LiveDir s d) (hh : Header (s.table d) d q) (hc : folderChild s d i = some c) : q ≠ c := by
  obtain ⟨q', hh', hq⟩ := hw.dir_header hd
  obtain rfl : q' = q := hh'.parent_cluster.symm.trans hh.parent_cluster
  rintro rfl
  rcases hq with ⟨rfl, rfl⟩ | ⟨k, hq, hk⟩
  · exact hw.tree.root_orphan hd hc
  · exact not_below_child hw.tree hd hc (.single ⟨k, hk⟩)

theorem cluster_inj (hw : Formed Fits s) {d d' : Nat} (hd : LiveDir s d) (hd' : LiveDir s d')
    (h : s.cluster d = s.cluster d') : d = d' := by
  obtain ⟨q, hh, -⟩ := hw.dir_header hd
  obtain ⟨q', hh', -⟩ := hw.dir_header hd'
  have ht : s.table d = s.table d' := by
    rw [table, table, h]
  rw [← hh.self_cluster, ht, hh'.self_cluster]

theorem asCluster_readClusters (mem : Nat → UInt8) (c : Nat) :
    asCluster (s.readClusters mem 0 c) = s.cluster c := by
  funext k
  have hk : k.val < clusterSize := k.isLt
  rw [asCluster, readClusters, blit, if_pos ⟨by omega, by omega⟩]
  rfl

theorem readDirectoryLoop_eq (is : List (Fin entryCount)) {code : Int} (hcode : code ≠ 0) :
    match is.find? fun i => (s.dirTableBuf i).live && request.matchesName (s.dirTableBuf i) &&
        (s.dirTableBuf i).isSubdirectory with
    | none => ∃ code', code' ≠ 0 ∧ readDirectoryLoop s request is code = (code', request.buf)
    | some i => readDirectoryLoop s request is code =
        (0, s.readClusters request.buf 0 (s.dirTableBuf i).clusterNumber) := by
  induction is generalizing code with
  | nil => exact ⟨code, hcode, rfl⟩
  | cons i is ih =>
    rw [List.find?_cons, readDirectoryLoop]
    cases hl : (s.dirTableBuf i).live with
    | false => simpa [hl] using ih hcode
    | true =>
      cases hn : request.matchesName (s.dirTableBuf i) with
      | false => simpa [hl, hn] using ih hcode
      | true =>
        cases hk : (s.dirTableBuf i).isSubdirectory with
        | false => simpa [hl, hn, hk] using @ih 1 (by decide)
        | true => simp

theorem readDirectory_dotDot (hw : Formed Fits s) (hp : LiveDir s request.parent) {q : Nat}
    (hh : Header (s.table request.parent) request.parent q) (hn : request.name = dotDot)
    (hsize : request.bufferSize = 2048) : readDirectory s request =
      .ok (0, s.readClusters request.buf 0 q, s.loadDir request.parent) := by
  have hsize' : ¬ request.bufferSize.toNat ≠ clusterSize := by
    rw [hsize]
    decide
  have hloop : readDirectoryLoop (s.loadDir request.parent) request (slotsFrom 1) 2 =
      (0, s.readClusters request.buf 0 q) := by
    rw [slotsFrom_one, readDirectoryLoop]
    simp only [dirTableBuf_loadDir, hh.parent_kind, FAT32DriverRequest.matchesName, hh.parent_name,
      hn, hh.parent_cluster, Bool.not_true, Bool.false_eq_true, if_false, decide_true, if_true]
    rfl
  rw [readDirectory, s.withParent_accepted (hw.dir_range hp).2 (hw.dir_mark hp), if_neg hsize']
  simp only [hloop]
  rfl

theorem readDirectory_found (hw : Formed Fits s) (hp : LiveDir s request.parent)
    (hn : request.name ≠ dotDot) (hsize : request.bufferSize = 2048) {c : Nat} (hc : c ≠ 0)
    {s' : FileSystem} (hnumber : getClusterNumber s request = .ok (c, s')) :
    readDirectory s request =
      .ok (0, s.readClusters request.buf 0 c, s.loadDir request.parent) := by
  have hsize' : ¬ request.bufferSize.toNat ≠ clusterSize := by
    rw [hsize]
    decide
  obtain ⟨q, hh, -⟩ := hw.dir_header hp
  have hskip : readDirectoryLoop (s.loadDir request.parent) request (slotsFrom 1) 2 =
      readDirectoryLoop (s.loadDir request.parent) request (slotsFrom 2) 2 := by
    rw [slotsFrom_one, readDirectoryLoop]
    simp only [dirTableBuf_loadDir, hh.parent_kind, FAT32DriverRequest.matchesName, hh.parent_name,
      Ne.symm hn, Bool.not_true, Bool.false_eq_true, if_false, decide_false]
  have hloop := @readDirectoryLoop_eq (s.loadDir request.parent) request (slotsFrom 2) 2
    (by decide)
  rw [getClusterNumber, s.withParent_accepted (hw.dir_range hp).2 (hw.dir_mark hp)] at hnumber
  dsimp only at hnumber
  cases hfind : (slotsFrom 2).find? fun i => ((s.loadDir request.parent).dirTableBuf i).live &&
      request.matchesName ((s.loadDir request.parent).dirTableBuf i) &&
      ((s.loadDir request.parent).dirTableBuf i).isSubdirectory with
  | none =>
    rw [hfind] at hnumber
    cases hnumber
    exact absurd rfl hc
  | some i =>
    rw [hfind] at hnumber hloop
    cases hnumber
    rw [readDirectory, s.withParent_accepted (hw.dir_range hp).2 (hw.dir_mark hp), if_neg hsize']
    simp only [hskip, hloop]
    rfl

/-- `get_cluster_number` answers with the folder just if it is the first of its name. -/
theorem getClusterNumber_iff (hw : Formed Fits s) (hp : LiveDir s request.parent)
    {i : Fin entryCount} {c : Nat} (hc : folderChild s request.parent i = some c)
    (hn : (s.table request.parent i).name = request.name) :
    (∃ s', getClusterNumber s request = .ok (c, s')) ↔ FirstOfName s request i := by
  constructor
  · rintro ⟨s', hs⟩
    obtain ⟨c', hnumber, hcase⟩ := getClusterNumber_found hw hp
    rw [hnumber] at hs
    cases hs
    rcases hcase with ⟨-, hnone⟩ | ⟨k, hk, -, hle⟩
    · exact absurd hn (hnone i c hc)
    · obtain rfl := (hw.tree.parent_unique hp hp hc hk).2
      exact hle
  · exact fun hfirst => ⟨_, getClusterNumber_first hw hp hc hn hfirst⟩

end Directory

section Folder

variable {s : FileSystem} {request : Request} {i : Fin entryCount} {c : Nat}

theorem LookupsAgree.name_ne (hw : WellFormed s) (hp : LiveDir s request.parent)
    (hc : folderChild s request.parent i = some c) (h : LookupsAgree s request i c) :
    request.name ≠ dotDot := by
  intro hn
  obtain ⟨q, hh, hq⟩ := hw.dir_header hp
  obtain ⟨buf, s', hread, hbuf⟩ := h.directory
  rw [@readDirectory_dotDot _ _ { request with bufferSize := 2048 } hw hp _ hh hn rfl] at hread
  cases hread
  rw [asCluster_readClusters] at hbuf
  have hlive : LiveDir s q := by
    rcases hq with ⟨-, rfl⟩ | ⟨k, hq, -⟩
    · exact reach_root
    · exact hq
  exact hh.parent_ne_child hw hp hc (cluster_inj hw hlive (hp.step hc) hbuf)

/-- The functions agree on a folder just if it is the first of its name and not called "..". -/
theorem lookupsAgree_iff (hw : WellFormed s) (hp : LiveDir s request.parent)
    (hc : folderChild s request.parent i = some c)
    (hn : request.names (s.table request.parent i) = true) :
    LookupsAgree s request i c ↔ FirstOfName s request i ∧ request.name ≠ dotDot := by
  have hname := (FAT32DriverRequest.names_iff.mp hn).1
  have hslot := (folderChild_eq_some.mp hc).1
  refine ⟨fun h => ⟨(getClusterNumber_iff hw hp hc hname).mp h.number, h.name_ne hw hp hc⟩, ?_⟩
  rintro ⟨hfirst, hdots⟩
  have hnumber := (getClusterNumber_iff hw hp hc hname).mpr hfirst
  obtain ⟨s', hs'⟩ := hnumber
  have hne : c ≠ 0 := by
    have := (hw.dir_range (hp.step hc)).1
    omega
  refine ⟨⟨s', hs'⟩, ?_, ?_, deleteFolderRec_folder hw hp hc hn⟩
  · exact ⟨_, _, @readDirectory_found _ _ { request with bufferSize := 2048 } hw hp hdots
      rfl _ hne _ hs', asCluster_readClusters _ _⟩
  · rw [delete_found hw hp hslot hn]
    by_cases hempty : ∃ j, LiveSlot s c j
    · obtain ⟨j, hj⟩ := hempty
      exact ⟨_, _, deleteAt_nonempty hc hj, .inl ⟨rfl, rfl, j, hj⟩⟩
    · obtain ⟨t, ht, hpr⟩ := deleteAt_empty hw hp hc fun j hj => hempty ⟨j, hj⟩
      exact ⟨_, _, ht, .inr ⟨rfl, hpr⟩⟩

/-- A successful `write` for a folder, with a cluster left, made the folder. -/
theorem write_created {s' : FileSystem} (hw : WellFormed s) (hp : LiveDir s request.parent)
    (hz : request.bufferSize = 0) (hfree : s.freeClusters ≠ [])
    (h : write s request = .ok (0, s')) :
    ∃ i cs, Written s s' request i cs ∧ ¬ Clash s request := by
  obtain ⟨hc, i, hf⟩ := write_ok hw hp h
  have hneed : clustersNeeded request ≤ s.freeClusters.length := by
    rw [clustersNeeded, if_pos hz]
    exact List.length_pos_iff.mpr hfree
  obtain ⟨t, cs, ht, hwr⟩ := write_new hw hp hc hf hneed
  cases h.symm.trans ht
  exact ⟨i, cs, hwr, hc⟩

theorem Written.firstOfName_iff {s' : FileSystem} {cs : List Nat}
    (h : Written s s' request i cs) : FirstOfName s' request i ↔ FirstOfName s request i := by
  have hsame : ∀ j, j ≠ i → s'.table request.parent j = s.table request.parent j := fun j hj => by
    rw [h.grown.table_eq, Function.update_of_ne hj]
  have hold : folderChild s request.parent i = none := folderChild_of_not_live h.grown.slot_free
  constructor
  · intro hfirst j b hb hn
    by_cases hj : j = i
    · rw [hj, hold] at hb
      cases hb
    · refine hfirst j b ?_ ?_
      · rwa [folderChild_congr (hsame j hj)]
      · rwa [hsame j hj]
  · intro hfirst j b hb hn
    by_cases hj : j = i
    · exact le_of_eq hj.symm
    · rw [folderChild_congr (hsame j hj)] at hb
      rw [hsame j hj] at hn
      exact hfirst j b hb hn

theorem Written.folderChild_new {s' : FileSystem} {cs : List Nat} (h : Written s s' request i cs)
    (hz : request.bufferSize = 0) : ∃ c, cs = [c] ∧ s.next c = fatEmptyEntry ∧
      folderChild s' request.parent i = some c := by
  have hk : (newEntry (s.table request.parent i) request (newKind request)
      (cs.headD 0)).isSubdirectory = true := by
    rw [newEntry_isSubdirectory]
    simpa using hz
  have hcs := (h.grown.folder hk).1
  have hfresh := h.grown.fresh _ (hcs ▸ List.mem_singleton_self _)
  exact ⟨_, hcs, hfresh.2.2, h.grown.child_new hk⟩

end Folder

/-- Folders are looked up alike just where no earlier folder has the name and it is not "..";
a new folder is found just if no folder in an earlier slot had its name. -/
theorem folder_lookups_iff {s : FileSystem} (hw : WellFormed s) {request : Request}
    (hp : LiveDir s request.parent) :
    (∀ i c, folderChild s request.parent i = some c →
      request.names (s.table request.parent i) = true →
      (LookupsAgree s request i c ↔ FirstOfName s request i ∧ request.name ≠ dotDot)) ∧
    ∀ s', request.bufferSize = 0 → s.freeClusters ≠ [] → write s request = .ok (0, s') →
      ∃ i c, firstFree s request.parent = some i ∧ s.next c = fatEmptyEntry ∧
        folderChild s' request.parent i = some c ∧
        request.names (s'.table request.parent i) = true ∧
        ((∃ t, getClusterNumber s' request = .ok (c, t)) ↔ FirstOfName s request i) := by
  refine ⟨fun i c hc hn => lookupsAgree_iff hw hp hc hn, fun s' hz hfree h => ?_⟩
  obtain ⟨i, cs, hwr, hclash⟩ := write_created hw hp hz hfree h
  obtain ⟨c, -, hfresh, hchild⟩ := hwr.folderChild_new hz
  refine ⟨i, c, hwr.slot, hfresh, hchild, hwr.named, ?_⟩
  rw [← hwr.firstOfName_iff]
  exact getClusterNumber_iff (hwr.wellFormed hw hclash) (hwr.liveParent hw) hchild
    (FAT32DriverRequest.names_iff.mp hwr.named).1

theorem firstFree_le {s : FileSystem} {p : Nat} {i j : Fin entryCount}
    (hf : firstFree s p = some i) (hj : 2 ≤ j.val) (hl : (s.table p j).live = false) : i ≤ j :=
  find_le (slotsFrom_sorted 2) hf (mem_slotsFrom.mpr hj) (by simp [hl])

/-- A second entry of a new file system, in a later slot. -/
theorem createFat32_second {root : Name} {disk : Nat → UInt8} {s : FileSystem}
    {first second : Request} {i : Fin entryCount} {cs : List Nat}
    (h : Written (createFat32 root (boot disk)) s first i cs) (hw : WellFormed s)
    (hp : first.parent = rootClusterNumber) (hp' : second.parent = rootClusterNumber)
    (hne : ¬ (first.name = second.name ∧ first.ext = second.ext))
    (hn : clustersNeeded first + clustersNeeded second ≤ 509) : ∃ s' j cs',
      write s second = .ok (0, s') ∧ WellFormed s' ∧ Written s s' second j cs' ∧ i < j := by
  have hlive := h.liveParent (createFat32_wellFormed root disk)
  have htable := h.grown.table_eq
  have hnamed := h.named
  have hslot := h.slot
  have hnew := h.grown.liveSlot_new
  rw [hp] at hlive htable hnamed hslot hnew
  have hi : i ≤ 2 := firstFree_le hslot (by decide) (createFat32_dead root disk (by decide))
  have hthree : (s.table rootClusterNumber 3).live = false := by
    have hne : (3 : Fin entryCount) ≠ i := by
      rintro rfl
      exact absurd hi (by decide)
    rw [htable, Function.update_of_ne hne]
    exact createFat32_dead root disk (by decide)
  have hclash : ¬ Clash s second := by
    rintro ⟨k, hk, hnk⟩
    rw [hp'] at hk hnk
    rw [createFat32_only root disk h hp hk] at hnk
    have h₁ := FAT32DriverRequest.names_iff.mp hnamed
    have h₂ := FAT32DriverRequest.names_iff.mp hnk
    exact hne ⟨h₁.1.symm.trans h₂.1, h₁.2.symm.trans h₂.2⟩
  obtain ⟨j, hj⟩ := firstFree_exists (by decide) hthree
  have hroom := h.room
  rw [createFat32_room] at hroom
  obtain ⟨s', cs', hs', hwr⟩ := @write_new _ _ second _ hw (hp' ▸ hlive) hclash (hp' ▸ hj)
    (by omega)
  refine ⟨s', j, cs', hs', hwr.wellFormed hw hclash, hwr, ?_⟩
  obtain ⟨hj2, hdead⟩ := firstFree_some hj
  have hji : j.val ≠ i.val := by
    intro he
    rw [Fin.ext he, hnew.2] at hdead
    cases hdead
  have hi2 : i.val ≤ 2 := hi
  have hi0 := hnew.1
  exact Fin.lt_def.mpr (by omega)

/-- The folder `a` with the given extension, in the root. -/
def folderRequest (ext : Ext) : Request := ⟨zeroBytes, fun _ => 'a'.toUInt8, ext, 2, 0⟩

theorem createFat32_firstOfName (request : Request) (hp : request.parent = rootClusterNumber)
    (i : Fin entryCount) : FirstOfName (createFat32 (fun _ => 0) (boot zeroBytes)) request i := by
  intro j b hb
  rw [hp, createFat32_child] at hb
  cases hb

/-- The first folder of a new disk. -/
theorem folder_lookups_iff_mkdir : ∃ s i c,
    write (createFat32 (fun _ => 0) (boot zeroBytes)) (folderRequest fun _ => 0) = .ok (0, s) ∧
      LookupsAgree s (folderRequest fun _ => 0) i c := by
  obtain ⟨s, i, cs, hs, hw, hwr⟩ :=
    createFat32_written (fun _ => 0) zeroBytes (folderRequest fun _ => 0) rfl (by decide)
  obtain ⟨c, -, -, hc⟩ := hwr.folderChild_new rfl
  have hp := hwr.liveParent (createFat32_wellFormed _ _)
  have hfirst := hwr.firstOfName_iff.mpr (createFat32_firstOfName _ rfl i)
  refine ⟨s, i, c, hs, ((folder_lookups_iff hw hp).1 i c hc hwr.named).mpr ⟨hfirst, fun hn => ?_⟩⟩
  exact absurd (congrFun hn 0) (by decide)

/-- With `a.x` made before `a`, the cluster found for `a` is that of `a.x`. -/
theorem folder_lookups_split : ∃ s i c, WellFormed s ∧
    LiveDir s (folderRequest fun _ => 0).parent ∧
    folderChild s (folderRequest fun _ => 0).parent i = some c ∧
    (folderRequest fun _ => 0).names (s.table (folderRequest fun _ => 0).parent i) = true ∧
    ¬ LookupsAgree s (folderRequest fun _ => 0) i c := by
  obtain ⟨s, i, cs, -, hw, hwr⟩ :=
    createFat32_written (fun _ => 0) zeroBytes (folderRequest fun _ => 'x'.toUInt8) rfl (by decide)
  obtain ⟨s', j, cs', -, hw', hwr', hlt⟩ := @createFat32_second _ _ _ _ (folderRequest fun _ => 0) _ _
    hwr hw rfl rfl (fun hne => absurd (congrFun hne.2 0) (by decide)) (by decide)
  obtain ⟨c, -, -, hc⟩ := hwr.folderChild_new rfl
  obtain ⟨d, -, -, hd⟩ := hwr'.folderChild_new rfl
  have hp' := hwr'.liveParent hw
  refine ⟨s', j, d, hw', hp', hd, hwr'.named, fun hagree => ?_⟩
  have hfirst := ((lookupsAgree_iff hw' hp' hd hwr'.named).mp hagree).1
  have hp := hwr.liveParent (createFat32_wellFormed _ _)
  have hkept := (hwr'.grown.liveSlot_old hw hp (folderChild_eq_some.mp hc).1).2
  have hle := hfirst i c ((folderChild_congr hkept).trans hc)
    ((congrArg FAT32DirectoryEntry.name hkept).trans (FAT32DriverRequest.names_iff.mp hwr.named).1)
  exact absurd hlt (not_lt.mpr hle)

end Doors.Fat32
