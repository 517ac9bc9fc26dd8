import Doors.PathWeight
import Doors.TreeRefinement
import Mathlib.Order.Interval.Finset.Nat

/-! The space on a disk. Every cluster behind the two reserved ones is free or belongs to the path
of one file or folder, so the free space is what the map of paths leaves, and the driver does
whatever fits. -/

namespace Doors.Fat32

open PointerTree FileSystem PathStore Store Function

/-- The clusters behind the two reserved ones, with the one of the root directory. -/
abbrev diskClusters : Nat := clusterMapSize - 2

/-- A file has the clusters its size takes, a folder has one. -/
def nodeClusters : Node (List UInt8) → Nat
  | .folder => 1
  | .file bytes => clusterCount bytes.length

noncomputable def spaceTaken (m : Contents) : Nat := weight nodeClusters m

/-- The clusters of what is at a path. -/
inductive OwnedAt (s : FileSystem) : List (Name × Ext) → Nat → Prop
  | root : OwnedAt s [] rootClusterNumber
  | entry {dir : List (Name × Ext)} {d c : Nat} {i : Fin entryCount} :
    FolderPath s rootClusterNumber dir d → Owns s (some (d, i)) c →
    OwnedAt s (dir ++ [entryName (s.table d i)]) c

section Space

variable {s : FileSystem} {m : Contents} {c d : Nat} {i : Fin entryCount}
  {dir path path' : List (Name × Ext)}

theorem OwnedAt.owns (h : OwnedAt s path c) : ∃ o, Owns s o c := by
  cases h with
  | root => exact ⟨none, .root⟩
  | entry _ ho => exact ⟨_, ho⟩

theorem OwnedAt.unique (hw : WellFormed s) (h : OwnedAt s path c) (h' : OwnedAt s path' c) :
    path' = path := by
  cases h with
  | root =>
    cases h' with
    | root => rfl
    | entry _ ho => exact absurd (hw.owner_unique .root ho) (by simp)
  | entry hd ho =>
    cases h' with
    | root => exact absurd (hw.owner_unique .root ho) (by simp)
    | entry hd' ho' =>
      obtain ⟨rfl, rfl⟩ : _ ∧ _ := by simpa using hw.owner_unique ho ho'
      rw [hd.path_unique hw.tree hd']

theorem ownedAt_of_owns {o : Option (Nat × Fin entryCount)} (h : Owns s o c) :
    ∃ path, OwnedAt s path c := by
  rcases o with _ | ⟨d, i⟩
  · cases h
    exact ⟨[], .root⟩
  · obtain ⟨dir, hd⟩ := Descends.of_reach h.slot.1
    exact ⟨_, .entry hd h⟩

/-- The clusters at the path of a slot are those of its entry. -/
theorem ownedAt_slot_iff (hw : WellFormed s) (hd : FolderPath s rootClusterNumber dir d)
    (hi : LiveSlot s d i) :
    OwnedAt s (dir ++ [entryName (s.table d i)]) c ↔ Owns s (some (d, i)) c := by
  refine ⟨fun h => ?_, .entry hd⟩
  generalize hp : dir ++ [entryName (s.table d i)] = path at h
  cases h with
  | root => simp at hp
  | entry hd' ho =>
    obtain ⟨rfl, hname⟩ := snoc_inj.mp hp
    obtain rfl := folderPath_unique hw hd hd'
    obtain rfl := entryName_unique hw (hd.reach reach_root) hi ho.slot.2 hname
    exact ho

open Classical in
/-- The clusters of the disk that are in use. -/
noncomputable def usedClusters (s : FileSystem) : Finset Nat :=
  (Finset.Ico 2 clusterMapSize).filter fun c => s.next c ≠ fatEmptyEntry

theorem mem_usedClusters (hw : WellFormed s) : c ∈ usedClusters s ↔ ∃ o, Owns s o c := by
  rw [usedClusters, Finset.mem_filter, Finset.mem_Ico]
  constructor
  · rintro ⟨hc, hused⟩
    exact (hw.used_iff hc.1 hc.2).mp hused
  · rintro ⟨o, ho⟩
    exact ⟨hw.owned_range ho, hw.owned_used ho⟩

theorem free_add_used (hw : WellFormed s) :
    s.freeClusters.length + (usedClusters s).card = diskClusters := by
  classical
  have hfree : s.freeClusters.toFinset =
      (Finset.Ico 2 clusterMapSize).filter fun c => ¬ s.next c ≠ fatEmptyEntry := by
    ext c
    rw [List.mem_toFinset, mem_freeClusters, Finset.mem_filter, Finset.mem_Ico, not_not]
    refine ⟨fun ⟨hc, he⟩ => ⟨⟨by omega, hc.2⟩, he⟩, fun ⟨hc, he⟩ => ⟨⟨?_, hc.2⟩, he⟩⟩
    have hne : c ≠ rootClusterNumber := by
      rintro rfl
      exact hw.owned_used .root he
    simp only [rootClusterNumber] at hne
    omega
  rw [← List.toFinset_card_of_nodup (freeClusters_nodup s), hfree, add_comm, usedClusters,
    Finset.card_filter_add_card_filter_not, Nat.card_Ico]

open Classical in
noncomputable def clustersAt (s : FileSystem) (path : List (Name × Ext)) : Finset Nat :=
  (usedClusters s).filter (OwnedAt s path)

theorem mem_clustersAt (hw : WellFormed s) : c ∈ clustersAt s path ↔ OwnedAt s path c := by
  classical
  rw [clustersAt, Finset.mem_filter, mem_usedClusters hw]
  exact and_iff_right_of_imp OwnedAt.owns

theorem clustersAt_root (hw : WellFormed s) : clustersAt s [] = {rootClusterNumber} := by
  ext c
  rw [mem_clustersAt hw, Finset.mem_singleton]
  constructor
  · intro h
    generalize hp : ([] : List (Name × Ext)) = path at h
    cases h with
    | root => rfl
    | entry => simp at hp
  · rintro rfl
    exact .root

/-- A folder has its cluster, a file its chain. -/
theorem clustersAt_slot (hw : WellFormed s) (hd : FolderPath s rootClusterNumber dir d)
    (hi : LiveSlot s d i) : (clustersAt s (dir ++ [entryName (s.table d i)])).card =
      nodeClusters (nodeOf s (s.table d i)) := by
  have hlive := hd.reach reach_root
  have hmem (c : Nat) : c ∈ clustersAt s (dir ++ [entryName (s.table d i)]) ↔
      Owns s (some (d, i)) c := by rw [mem_clustersAt hw, ownedAt_slot_iff hw hd hi]
  rcases hi.kind with hf | hc
  · obtain ⟨l, hl, hnd, hfits, -⟩ := hw.file_chain hlive hf
    have hset : clustersAt s (dir ++ [entryName (s.table d i)]) = l.toFinset := by
      ext c
      rw [hmem, hf.owns_iff hlive hl, List.mem_toFinset]
    rw [hset, List.toFinset_card_of_nodup hnd, hfits, nodeOf, if_neg (by simp [hf.2]),
      nodeClusters, fileBytes_length hw hlive hf]
  · have hset : clustersAt s (dir ++ [entryName (s.table d i)]) =
        {(s.table d i).clusterNumber} := by
      ext c
      rw [hmem, Finset.mem_singleton]
      constructor
      · intro ho
        cases ho with
        | folder _ hc' => exact (folderChild_eq_some.mp hc').2.2.symm
        | file _ hf => simp [folderChild_of_fileSlot hf] at hc
      · rintro rfl
        exact .folder hlive hc
    rw [hset, Finset.card_singleton, nodeOf, if_pos (folderChild_eq_some.mp hc).2.1]
    rfl

theorem clustersAt_card (h : Represents s m) (hw : WellFormed s) (path : List (Name × Ext)) :
    (clustersAt s path).card = m.weightAt nodeClusters path := by
  rw [weightAt]
  rcases path.eq_nil_or_concat' with rfl | ⟨dir, name, rfl⟩
  · rw [clustersAt_root hw, Finset.card_singleton, h.root]
    rfl
  cases hm : m (dir ++ [name]) with
  | none =>
    rw [Option.elim_none, Finset.card_eq_zero, Finset.eq_empty_iff_forall_notMem]
    intro c hc
    generalize hp : dir ++ [name] = path at hc hm
    cases (mem_clustersAt hw).mp hc with
    | root => simp at hp
    | entry hd ho => simp [h.slot hd ho.slot.2] at hm
  | some node =>
    obtain ⟨d, i, hd, hi, rfl, rfl⟩ := (h.entry dir name node).mp hm
    exact clustersAt_slot hw hd hi

theorem space_counted (h : Represents s m) (hw : WellFormed s) :
    HasFiniteSupport (m.weightAt nodeClusters) ∧ spaceTaken m = (usedClusters s).card := by
  refine finsum_owned (fun c hc => ?_) (clustersAt_card h hw)
  obtain ⟨o, ho⟩ := (mem_usedClusters hw).mp hc
  obtain ⟨path, hpath⟩ := ownedAt_of_owns ho
  exact ⟨path, hpath, fun path' h' => hpath.unique hw h'⟩

/-- What is free is what the map leaves. -/
theorem free_add_taken (h : Represents s m) (hw : WellFormed s) :
    s.freeClusters.length + spaceTaken m = diskClusters := by
  rw [(space_counted h hw).2, free_add_used hw]

theorem space_put (h : Represents s m) (hw : WellFormed s) (path : List (Name × Ext))
    (node : Node (List UInt8)) : spaceTaken (m.put path node) + m.weightAt nodeClusters path =
      spaceTaken m + nodeClusters node :=
  weight_put (space_counted h hw).1 path node

theorem space_prune (h : Represents s m) (hw : WellFormed s) (path : List (Name × Ext)) :
    spaceTaken (m.prune path) ≤ spaceTaken m :=
  weight_prune (space_counted h hw).1 path

end Space

namespace TreeOp

/-- The result fits on the disk. -/
def Fits (m : Contents) (op : TreeOp) : Prop := spaceTaken (op.run m).2 ≤ diskClusters

/-- What a request can carry: its size has 32 bits, and no size is that of a folder. -/
def Storable : Node (List UInt8) → Prop
  | .folder => True
  | .file bytes => bytes ≠ [] ∧ bytes.length < 2 ^ 32

/-- The directories exist, and the file can be passed to the driver. -/
def Stated (m : Contents) : TreeOp → Prop
  | .write dir _ node => m dir = some .folder ∧ Storable node
  | .delete dir _ | .deleteTree dir _ => m dir = some .folder
  | .copy srcDir _ destDir _ => m srcDir = some .folder ∧ m destDir = some .folder

end TreeOp

section Room

variable {s : FileSystem} {m : Contents} {request src dest : Request}
  {dir srcDir destDir : List (Name × Ext)} {name srcName destName : Name × Ext}

theorem requestNode_clusters (request : Request) :
    nodeClusters (requestNode request) = clustersNeeded request := by
  rw [requestNode, clustersNeeded]
  split_ifs with hz
  · rfl
  · rw [nodeClusters, List.length_map, List.length_range]

theorem space_fits (h : Represents s m) (hw : WellFormed s) : spaceTaken m ≤ diskClusters := by
  have := free_add_taken h hw
  omega

theorem space_delete (h : Represents s m) (hw : WellFormed s) (path : List (Name × Ext)) :
    spaceTaken (TreeOp.runDelete m path).2 ≤ spaceTaken m := by
  rw [TreeOp.runDelete]
  split
  · exact le_rfl
  · exact space_prune h hw path
  · split_ifs
    · exact le_rfl
    · exact space_prune h hw path

theorem space_deleteTree (h : Represents s m) (hw : WellFormed s) (path : List (Name × Ext)) :
    spaceTaken (TreeOp.runDeleteTree m path).2 ≤ spaceTaken m := by
  rw [TreeOp.runDeleteTree]
  split
  · exact le_rfl
  · exact le_rfl
  · exact space_prune h hw path

/-- `write` has the room it needs when the map with the new node fits. -/
theorem hasRoom_iff (h : Represents s m) (hw : WellFormed s) (hn : Names s request dir name) :
    HasRoom s request ↔
      spaceTaken (TreeOp.runWrite m dir name (requestNode request)).2 ≤ diskClusters := by
  by_cases hc : Clash s request
  · rw [TreeOp.runWrite, if_pos ((h.clash_iff hw hn).mp hc)]
    exact iff_of_true (fun hc' => absurd hc hc') (space_fits h hw)
  have habsent := hn.absent h hw hc
  by_cases hf : firstFree s request.parent = none
  · rw [TreeOp.runWrite, if_neg (not_not.mpr habsent), if_pos ((h.full_iff hw hn.1).mp hf)]
    exact iff_of_true (fun _ hf' => absurd hf hf') (space_fits h hw)
  · rw [TreeOp.runWrite, if_neg (not_not.mpr habsent), if_neg (mt (h.full_iff hw hn.1).mpr hf)]
    have hput := space_put h hw (dir ++ [name]) (requestNode request)
    rw [weightAt, habsent, Option.elim_none, requestNode_clusters] at hput
    have hspace := free_add_taken h hw
    rw [HasRoom]
    simp only [hc, hf, not_false_eq_true, ne_eq, forall_const]
    omega

/-- `copy_file` gives the clusters of the file it replaces back first. -/
theorem hasRoomForCopy_iff (h : Represents s m) (hw : WellFormed s)
    (hs : Names s src srcDir srcName) (hd : Names s dest destDir destName) :
    HasRoomForCopy s src dest ↔
      spaceTaken (TreeOp.runCopy m (srcDir ++ [srcName]) destDir destName).2 ≤ diskClusters := by
  have hsp := hs.1.reach reach_root
  rw [HasRoomForCopy]
  cases hsrc : findFile (s.loadDir src.parent) src with
  | none =>
    rw [TreeOp.runCopy_missing (hs.not_file h hw hsrc)]
    exact iff_of_true (by simp) (space_fits h hw)
  | some i =>
    obtain ⟨hfile, hi⟩ := findFile_some hsrc
    obtain ⟨l, hl, -⟩ := readChain_file hw hsp hfile zeroBytes
    have hnode : requestNode (copyOf s src dest i l) = _ := copyOf_node hw hsp hfile hl
    have hbytes := hs.file h hfile hi
    simp only [Option.some.injEq, forall_eq']
    cases hdest : findFile (s.loadDir dest.parent) dest with
    | none =>
      have hroom : HasRoom s (copyOf s src dest i l) ↔ _ := hasRoom_iff h hw hd
      rw [TreeOp.runCopy_new hbytes (hd.not_file h hw hdest), ← hnode]
      exact hroom
    | some j =>
      obtain ⟨hfj, hnj⟩ := findFile_some hdest
      have hdp := hd.1.reach reach_root
      have hput := space_put h hw (destDir ++ [destName])
        (.file (fileBytes s (s.table src.parent i)))
      have hspace := free_add_taken h hw
      rw [weightAt, hd.file h hfj hnj, Option.elim_some, nodeClusters, nodeClusters,
        fileBytes_length hw hsp hfile, fileBytes_length hw hdp hfj] at hput
      rw [TreeOp.runCopy_over hbytes (hd.file h hfj hnj)]
      dsimp only
      omega

/-- A call has the room it needs exactly when what its operation makes of the map fits. -/
theorem admissible_iff {call : Call} {op : TreeOp} (h : Represents s m) (hw : WellFormed s)
    (hn : call.Names s op) : call.Admissible s ↔ op.Fits m := by
  cases call with
  | write request =>
    cases op with
    | write dir name node =>
      obtain ⟨hn, rfl⟩ := hn
      exact (and_iff_right (hn.1.reach reach_root)).trans (hasRoom_iff h hw hn)
    | _ => exact hn.elim
  | delete request =>
    cases op with
    | delete dir name =>
      exact iff_of_true (hn.1.reach reach_root)
        ((space_delete h hw (dir ++ [name])).trans (space_fits h hw))
    | _ => exact hn.elim
  | deleteFolderRec request =>
    cases op with
    | deleteTree dir name =>
      exact iff_of_true (hn.1.reach reach_root)
        ((space_deleteTree h hw (dir ++ [name])).trans (space_fits h hw))
    | _ => exact hn.elim
  | copyFile src dest =>
    cases op with
    | copy srcDir srcName destDir destName =>
      obtain ⟨hs, hd⟩ := hn
      exact (and_iff_right (hs.1.reach reach_root)).trans
        ((and_iff_right (hd.1.reach reach_root)).trans (hasRoomForCopy_iff h hw hs hd))
    | _ => exact hn.elim

end Room

/-- A call of the driver that does an operation on the map of paths: it returns the code of the map
and leaves a disk in good order that shows the map. -/
structure Performs (x : FileSystem × Contents) (e : TreeOp × Int) (x' : FileSystem × Contents) :
    Prop where
  run_eq : e.1.run x.2 = (e.2, x'.2)
  wellFormed : WellFormed x'.1
  represents : Represents x'.1 x'.2
  call : ∃ call : Call, call.Names x.1 e.1 ∧ call.run x.1 = .ok (e.2, x'.1)

/-- An operation that can be stated and that leaves no more than a disk holds. -/
def FittingStep (m : Contents) (e : TreeOp × Int) (m' : Contents) : Prop :=
  e.1.Stated m ∧ e.1.Fits m ∧ e.1.run m = (e.2, m')

section Runs

variable {s s' : FileSystem} {m m' : Contents} {es : List (TreeOp × Int)}
  {dir : List (Name × Ext)}

/-- A request on the entry of a directory. -/
theorem names_of_folder (h : Represents s m) (hw : WellFormed s) (hm : m dir = some .folder)
    (buf : Nat → UInt8) (name : Name × Ext) (size : UInt32) :
    ∃ parentClusterNumber, Names s ⟨buf, name.1, name.2, parentClusterNumber, size⟩ dir name := by
  obtain ⟨d, hd⟩ := h.folder_exists hm
  have hrange := hw.dir_range (hd.reach reach_root)
  refine ⟨UInt32.ofNat d, ?_, rfl⟩
  have hparent : (UInt32.ofNat d).toNat = d :=
    UInt32.toNat_ofNat_of_lt' (hrange.2.trans (by decide))
  rw [FAT32DriverRequest.parent, hparent]
  exact hd

theorem storable_requestNode (request : Request) : TreeOp.Storable (requestNode request) := by
  rw [requestNode]
  split_ifs with hz
  · trivial
  · have hne : request.bufferSize.toNat ≠ 0 := fun h => hz (UInt32.toNat_inj.mp h)
    have hlt := request.bufferSize.toNat_lt
    simp only [TreeOp.Storable, ← List.length_pos_iff, List.length_map, List.length_range]
    omega

theorem request_of_storable {node : Node (List UInt8)} (hn : TreeOp.Storable node) :
    ∃ buf size, ∀ name ext parentClusterNumber,
      requestNode ⟨buf, name, ext, parentClusterNumber, size⟩ = node := by
  cases node with
  | folder => exact ⟨zeroBytes, 0, fun _ _ _ => rfl⟩
  | file bytes =>
    obtain ⟨hne, hlt⟩ := hn
    have hsize : (UInt32.ofNat bytes.length).toNat = bytes.length := UInt32.toNat_ofNat_of_lt' hlt
    refine ⟨fun k => bytes.getD k 0, UInt32.ofNat bytes.length, fun name ext p => ?_⟩
    have hz : UInt32.ofNat bytes.length ≠ 0 := by
      intro h
      rw [h] at hsize
      exact hne (List.length_eq_zero_iff.mp hsize.symm)
    rw [requestNode, if_neg hz, hsize]
    congr 1
    exact List.ext_getElem (by simp) fun k hk _ => by simp_all

theorem stated_iff (h : Represents s m) (hw : WellFormed s) {op : TreeOp} :
    op.Stated m ↔ ∃ call : Call, call.Names s op := by
  constructor
  · intro hop
    cases op with
    | write dir name node =>
      obtain ⟨hdir, hnode⟩ := hop
      obtain ⟨buf, size, hreq⟩ := request_of_storable hnode
      obtain ⟨p, hp⟩ := names_of_folder h hw hdir buf name size
      exact ⟨.write _, hp, (hreq ..).symm⟩
    | delete dir name =>
      obtain ⟨p, hp⟩ := names_of_folder h hw hop zeroBytes name 0
      exact ⟨.delete _, hp⟩
    | deleteTree dir name =>
      obtain ⟨p, hp⟩ := names_of_folder h hw hop zeroBytes name 0
      exact ⟨.deleteFolderRec _, hp⟩
    | copy srcDir src destDir dest =>
      obtain ⟨p, hp⟩ := names_of_folder h hw hop.1 zeroBytes src 0
      obtain ⟨q, hq⟩ := names_of_folder h hw hop.2 zeroBytes dest 0
      exact ⟨.copyFile _ _, hp, hq⟩
  · rintro ⟨call, hn⟩
    cases call <;> cases op <;> try exact hn.elim
    · obtain ⟨hn, rfl⟩ := hn
      exact ⟨h.folder hn.1, storable_requestNode _⟩
    · exact h.folder hn.1
    · exact h.folder hn.1
    · exact ⟨h.folder hn.1.1, h.folder hn.2.1⟩

/-- What a call performs fits: the clusters of the map are on the disk afterwards. -/
theorem Performs.fits {x x' : FileSystem × Contents} {e : TreeOp × Int} (h : Performs x e x') :
    e.1.Fits x.2 := by
  rw [TreeOp.Fits, h.run_eq]
  exact space_fits h.represents h.wellFormed

theorem performs_iff (h : Represents s m) (hw : WellFormed s) {e : TreeOp × Int} :
    (∃ s', Performs (s, m) e (s', m')) ↔ FittingStep m e m' := by
  constructor
  · rintro ⟨s', hp⟩
    obtain ⟨call, hn, -⟩ := hp.call
    exact ⟨(stated_iff h hw).mpr ⟨call, hn⟩, hp.fits, hp.run_eq⟩
  · rintro ⟨hs, hf, hrun⟩
    obtain ⟨call, hn⟩ := (stated_iff h hw).mp hs
    have ha := (admissible_iff h hw hn).mpr hf
    obtain ⟨code, s', m₁, hcall, hop, hrep⟩ := call_refines h hw ha hn
    obtain ⟨rfl, rfl⟩ : code = e.2 ∧ m₁ = m' := by simpa using hop.symm.trans hrun
    exact ⟨s', hrun, callStep_wellFormed s call s' hw ⟨ha, _, hcall⟩, hrep, call, hn, hcall⟩

theorem performs_run_iff (h : Represents s m) (hw : WellFormed s) :
    (∃ s', Run Performs (s, m) es (s', m')) ↔ Run FittingStep m es m' := by
  constructor
  · rintro ⟨s', hrun⟩
    induction es generalizing s m with
    | nil =>
      cases hrun
      exact .nil _
    | cons e es ih =>
      cases hrun with
      | @cons _ x _ _ _ hstep hrest =>
        exact .cons ((performs_iff h hw).mp ⟨x.1, hstep⟩)
          (ih hstep.represents hstep.wellFormed hrest)
  · intro hrun
    induction es generalizing s m with
    | nil =>
      cases hrun
      exact ⟨s, .nil _⟩
    | cons e es ih =>
      cases hrun with
      | cons hstep hrest =>
        obtain ⟨s₁, hp⟩ := (performs_iff h hw).mpr hstep
        obtain ⟨s', hrun⟩ := ih hp.represents hp.wellFormed hrest
        exact ⟨s', .cons hp hrun⟩

/-- On a new disk the driver performs every run of operations that fits, with the codes of the
map, and no other run: whatever a call returns for what does not fit, the disk does not show it. -/
theorem fitting_runs (root : Name) (disk : Nat → UInt8) :
    (∃ s, Run Performs (createFat32 root (boot disk), .empty) es (s, m)) ↔
      Run FittingStep .empty es m :=
  performs_run_iff (createFat32_represents root disk) (createFat32_wellFormed root disk)

/-- In every run no cluster is lost: what is not free is taken by what the map holds. -/
theorem space_exact (root : Name) (disk : Nat → UInt8) {calls : List (Call × Int)}
    (h : Run CodedStep (createFat32 root (boot disk)) calls s) :
    ∃ m, Run LockStep (createFat32 root (boot disk), .empty) calls (s, m) ∧
      s.freeClusters.length + spaceTaken m = diskClusters := by
  have hw : WellFormed s := h.invariant
    (fun s e s' hw hs => callStep_wellFormed s e.1 s' hw ⟨hs.1, _, hs.2⟩)
    (createFat32_wellFormed root disk)
  obtain ⟨m, hrun, hm⟩ := lockStep_of_run (createFat32_represents root disk)
    (createFat32_wellFormed root disk) h
  exact ⟨m, hrun, free_add_taken hm hw⟩

/-- The folder `a` takes one cluster of a new disk. -/
theorem space_exact_mkdir : ∃ s m, Run LockStep (createFat32 (fun _ => 0) (boot zeroBytes), .empty)
    [(.write mkdirRequest, 0)] (s, m) ∧ s.freeClusters.length + spaceTaken m = diskClusters := by
  obtain ⟨s, i, cs, hs, -, -⟩ := createFat32_written (fun _ => 0) zeroBytes mkdirRequest
    (by rfl) (by decide)
  have hroom : HasRoom (createFat32 (fun _ => 0) (boot zeroBytes)) mkdirRequest := fun _ _ => by
    rw [createFat32_room]
    decide
  have hstep : CodedStep (createFat32 (fun _ => 0) (boot zeroBytes)) (.write mkdirRequest, 0) s :=
    ⟨⟨reach_root, hroom⟩, hs⟩
  obtain ⟨m, hrun, hspace⟩ := space_exact (fun _ => 0) zeroBytes (.cons hstep (.nil _))
  exact ⟨s, m, hrun, hspace⟩

end Runs

end Doors.Fat32
