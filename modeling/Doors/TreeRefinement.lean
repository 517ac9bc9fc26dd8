import Doors.FilePaths
import Doors.PathStore
import Doors.ReadBuffer

/-! The driver as a map from paths to files and folders. Each request that changes the
tree does to the map what its code says, over whole runs. -/

namespace Doors.Fat32

open PointerTree FileSystem PathStore Store

abbrev Contents := Store (Name × Ext) (List UInt8)

/-- Entries that a directory has room for, behind the two that describe it. -/
abbrev directoryRoom : Nat := entryCount - 2

/-- The requests on paths instead of clusters. -/
inductive TreeOp
  | write (dir : List (Name × Ext)) (name : Name × Ext) (node : Node (List UInt8))
  | delete (dir : List (Name × Ext)) (name : Name × Ext)
  | deleteTree (dir : List (Name × Ext)) (name : Name × Ext)
  | copy (srcDir : List (Name × Ext)) (src : Name × Ext) (destDir : List (Name × Ext))
      (dest : Name × Ext)

namespace TreeOp

open Classical in
noncomputable def runWrite (m : Contents) (dir : List (Name × Ext)) (name : Name × Ext)
    (node : Node (List UInt8)) : Int × Contents :=
  if m (dir ++ [name]) ≠ none then (1, m)
  else if directoryRoom ≤ (m.entries dir).ncard then (-1, m)
  else (0, m.put (dir ++ [name]) node)

open Classical in
noncomputable def runDelete (m : Contents) (path : List (Name × Ext)) : Int × Contents :=
  match m path with
  | none => (1, m)
  | some (.file _) => (0, m.prune path)
  | some .folder => if (m.entries path).Nonempty then (2, m) else (0, m.prune path)

noncomputable def runDeleteTree (m : Contents) (path : List (Name × Ext)) : Int × Contents :=
  match m path with
  | none => (2, m)
  | some (.file _) => (1, m)
  | some .folder => (0, m.prune path)

/-- A file is replaced where it stands, a folder of that name is not. -/
noncomputable def runCopy (m : Contents) (src destDir : List (Name × Ext)) (dest : Name × Ext) :
    Int × Contents :=
  match m src with
  | some (.file bytes) =>
    match m (destDir ++ [dest]) with
    | some (.file _) => (0, m.put (destDir ++ [dest]) (.file bytes))
    | _ => runWrite m destDir dest (.file bytes)
  | _ => (1, m)

noncomputable def run (m : Contents) : TreeOp → Int × Contents
  | .write dir name node => runWrite m dir name node
  | .delete dir name => runDelete m (dir ++ [name])
  | .deleteTree dir name => runDeleteTree m (dir ++ [name])
  | .copy srcDir src destDir dest => runCopy m (srcDir ++ [src]) destDir dest

theorem runWrite_kept {m : Contents} {dir path : List (Name × Ext)} {name : Name × Ext}
    {node node' : Node (List UInt8)} (h : m path = some node) :
    (runWrite m dir name node').2 path = some node := by
  rw [runWrite]
  split_ifs with hold
  · exact h
  · exact h
  · refine (put_of_ne ?_).trans h
    rintro rfl
    simp [h] at hold

theorem runCopy_missing {m : Contents} {src destDir : List (Name × Ext)} {dest : Name × Ext}
    (h : ∀ bytes, m src ≠ some (.file bytes)) : runCopy m src destDir dest = (1, m) := by
  rw [runCopy]
  split
  · next bytes hm => exact absurd hm (h bytes)
  · rfl

theorem runCopy_new {m : Contents} {src destDir : List (Name × Ext)} {dest : Name × Ext}
    {bytes : List UInt8} (h : m src = some (.file bytes))
    (hd : ∀ old, m (destDir ++ [dest]) ≠ some (.file old)) :
    runCopy m src destDir dest = runWrite m destDir dest (.file bytes) := by
  rw [runCopy, h]
  dsimp only
  split
  · next old hm => exact absurd hm (hd old)
  · rfl

theorem runCopy_over {m : Contents} {src destDir : List (Name × Ext)} {dest : Name × Ext}
    {bytes old : List UInt8} (h : m src = some (.file bytes))
    (hd : m (destDir ++ [dest]) = some (.file old)) :
    runCopy m src destDir dest = (0, m.put (destDir ++ [dest]) (.file bytes)) := by
  rw [runCopy, h, hd]

theorem runCopy_kept {m : Contents} {src destDir path : List (Name × Ext)} {dest : Name × Ext}
    (h : m path = some .folder) : (runCopy m src destDir dest).2 path = some .folder := by
  rw [runCopy]
  split
  · split
    · next bytes hold =>
      refine (put_of_ne ?_).trans h
      rintro rfl
      simp [h] at hold
    · exact runWrite_kept h
  · exact h

/-- The file that is copied is a file afterwards. -/
theorem runCopy_file {m : Contents} {src : List (Name × Ext)} {bytes : List UInt8}
    (h : m src = some (.file bytes)) (destDir : List (Name × Ext)) (dest : Name × Ext) :
    ∃ bytes', (runCopy m src destDir dest).2 src = some (.file bytes') := by
  rw [runCopy, h]
  dsimp only
  split
  · by_cases heq : src = destDir ++ [dest]
    · exact ⟨bytes, by rw [heq]; exact put_self⟩
    · exact ⟨bytes, (put_of_ne heq).trans h⟩
  · exact ⟨bytes, runWrite_kept h⟩

/-- A deleted file takes no folder with it. -/
theorem runDelete_file {m : Contents} {path dir : List (Name × Ext)} {bytes : List UInt8}
    (hm : Sound m) (h : m path = some (.file bytes)) (hdir : m dir = some .folder) :
    (runDelete m path).2 dir = some .folder := by
  rw [runDelete, h]
  dsimp only
  rw [prune_of_not_below, hdir]
  intro hpre
  rcases hm.below_file h hpre with rfl | hnone
  · simp [h] at hdir
  · simp [hnone] at hdir

end TreeOp

/-- What a `write` is asked to store. -/
def requestNode (request : Request) : Node (List UInt8) :=
  if request.bufferSize = 0 then .folder
  else .file ((List.range request.bufferSize.toNat).map request.buf)

/-- The entry that a request speaks about, with the path of its parent. -/
def Names (s : FileSystem) (request : Request) (dir : List (Name × Ext)) (name : Name × Ext) :
    Prop :=
  FolderPath s rootClusterNumber dir request.parent ∧ name = (request.name, request.ext)

def Call.Names (s : FileSystem) : Call → TreeOp → Prop
  | .write request, .write dir name node =>
    Fat32.Names s request dir name ∧ node = requestNode request
  | .delete request, .delete dir name => Fat32.Names s request dir name
  | .deleteFolderRec request, .deleteTree dir name => Fat32.Names s request dir name
  | .copyFile src dest, .copy srcDir srcName destDir destName =>
    Fat32.Names s src srcDir srcName ∧ Fat32.Names s dest destDir destName
  | _, _ => False

def nodeOf (s : FileSystem) (e : FAT32DirectoryEntry) : Node (List UInt8) :=
  if e.isSubdirectory then .folder else .file (fileBytes s e)

/-- The map holds the entries of the tree, each at its path, and nothing else. -/
structure Represents (s : FileSystem) (m : Contents) : Prop where
  root : m [] = some .folder
  entry : ∀ dir name node, m (dir ++ [name]) = some node ↔ ∃ d i,
    FolderPath s rootClusterNumber dir d ∧ LiveSlot s d i ∧ entryName (s.table d i) = name ∧
      nodeOf s (s.table d i) = node

/-- `read` answers for the path as the map has it. -/
def ReadsAs (s : FileSystem) (m : Contents) (request : Request) (path : List (Name × Ext)) : Prop :=
  match m path with
  | some (.file bytes) =>
    if bytes.length ≤ request.bufferSize.toNat then
      ∃ buf, readBack s request = .ok (0, buf) ∧ (List.range bytes.length).map buf = bytes
    else readBack s request = .ok (-1, request.buf)
  | _ => ∃ code, code ≠ 0 ∧ readBack s request = .ok (code, request.buf)

section Paths

variable {s s' : FileSystem} {p d : Nat} {i j : Fin entryCount} {dir path : List (Name × Ext)}

theorem folderPath_unique {Fits : UInt32 → Nat → Prop} (hw : Formed Fits s)
    (h : FolderPath s rootClusterNumber dir p) (h' : FolderPath s rootClusterNumber dir d) :
    p = d :=
  h.unique hw.directories.labelsDiffer reach_root h'

theorem entryName_unique {Fits : UInt32 → Nat → Prop} (hw : Formed Fits s) (hd : LiveDir s d)
    (hi : LiveSlot s d i) (hj : LiveSlot s d j)
    (h : entryName (s.table d i) = entryName (s.table d j)) : i = j :=
  hw.names_unique hd hi hj (congrArg Prod.fst h) (congrArg Prod.snd h)

/-- Where paths are kept going one way they are kept going back. -/
theorem folderPath_back {Fits : UInt32 → Nat → Prop} (hw : Formed Fits s') (hd : LiveDir s d)
    (hkeep : ∀ path, FolderPath s rootClusterNumber path d →
      FolderPath s' rootClusterNumber path d)
    (h : FolderPath s' rootClusterNumber dir d) : FolderPath s rootClusterNumber dir d := by
  obtain ⟨path, hp⟩ := Descends.of_reach hd
  rwa [h.path_unique hw.tree (hkeep path hp)]

end Paths

section Represents

variable {s s' : FileSystem} {m : Contents} {p d : Nat} {i : Fin entryCount}
  {dir : List (Name × Ext)} {request : Request}

theorem nodeOf_loadDir (d : Nat) : nodeOf (s.loadDir d) = nodeOf s := by
  funext e
  simp only [nodeOf, fileBytes, readChain_loadDir]

/-- An entry stands for the same node when the bytes of a file are kept. -/
theorem nodeOf_kept (hi : LiveSlot s d i)
    (hbytes : FileSlot s d i → fileBytes s' (s.table d i) = fileBytes s (s.table d i)) :
    nodeOf s' (s.table d i) = nodeOf s (s.table d i) := by
  rcases hi.kind with hf | hc
  · rw [nodeOf, nodeOf, hbytes hf]
  · rw [nodeOf, nodeOf, if_pos (folderChild_eq_some.mp hc).2.1,
      if_pos (folderChild_eq_some.mp hc).2.1]

theorem Represents.loadDir (h : Represents s m) (d : Nat) : Represents (s.loadDir d) m where
  root := h.root
  entry dir name node := by
    rw [h.entry, nodeOf_loadDir]
    rfl

theorem read_disk {request : Request} {code : Int} {buf : Nat → UInt8}
    {s' : FileSystem} (h : read s request = .ok (code, buf, s')) : s' = s ∨ s' = s.loadDir request.parent := by
  obtain ⟨entry, -, h⟩ := bind_ok h
  split_ifs at h
  · cases h
    exact .inl rfl
  · obtain ⟨r, -, h⟩ := bind_ok h
    cases h
    exact .inr rfl

theorem Represents.slot (h : Represents s m) (hd : FolderPath s rootClusterNumber dir d)
    (hi : LiveSlot s d i) :
    m (dir ++ [entryName (s.table d i)]) = some (nodeOf s (s.table d i)) :=
  (h.entry _ _ _).mpr ⟨d, i, hd, hi, rfl, rfl⟩

theorem Represents.folder (h : Represents s m) (hd : FolderPath s rootClusterNumber dir d) :
    m dir = some .folder := by
  induction dir using List.reverseRecOn with
  | nil => exact h.root
  | append_singleton dir name _ =>
    obtain ⟨x, i, hx, hc, rfl⟩ := hd.last
    obtain ⟨hl, hk, -⟩ := folderChild_eq_some.mp hc
    rw [h.slot hx hl, nodeOf, if_pos hk]

theorem Represents.folder_exists (h : Represents s m) (hm : m dir = some .folder) :
    ∃ d, FolderPath s rootClusterNumber dir d := by
  rcases dir.eq_nil_or_concat' with rfl | ⟨dir, name, rfl⟩
  · exact ⟨_, .here _⟩
  · obtain ⟨d, i, hd, hi, rfl, hnode⟩ := (h.entry dir name _).mp hm
    rw [nodeOf] at hnode
    split_ifs at hnode with hk
    exact ⟨_, hd.append (.single (folderChild_eq_some.mpr ⟨hi, hk, rfl⟩))⟩

theorem Represents.sound (h : Represents s m) : Sound m where
  root := h.root
  parent dir name hm := by
    obtain ⟨node, hn⟩ := Option.ne_none_iff_exists'.mp hm
    obtain ⟨d, i, hd, -⟩ := (h.entry dir name node).mp hn
    exact h.folder hd

/-- The names in a directory, read off its slots. -/
theorem Represents.mem_entries (h : Represents s m) {Fits : UInt32 → Nat → Prop}
    (hw : Formed Fits s) (hd : FolderPath s rootClusterNumber dir d) {name : Name × Ext} :
    name ∈ m.entries dir ↔ ∃ i, LiveSlot s d i ∧ entryName (s.table d i) = name := by
  constructor
  · intro hm
    obtain ⟨node, hn⟩ := Option.ne_none_iff_exists'.mp hm
    obtain ⟨x, i, hx, hi, he, -⟩ := (h.entry dir name node).mp hn
    obtain rfl := folderPath_unique hw hx hd
    exact ⟨i, hi, he⟩
  · rintro ⟨i, hi, rfl⟩
    exact Option.ne_none_iff_exists'.mpr ⟨_, h.slot hd hi⟩

theorem slots_ncard : {i : Fin entryCount | 2 ≤ i.val}.ncard = directoryRoom := by
  rw [Set.ncard_eq_toFinset_card']
  decide

theorem fileBytes_length {Fits : UInt32 → Nat → Prop} (hw : Formed Fits s) (hd : LiveDir s d)
    (hf : FileSlot s d i) : (fileBytes s (s.table d i)).length = (s.table d i).filesize.toNat := by
  obtain ⟨l, -, hread⟩ := readChain_file hw hd hf zeroBytes
  rw [fileBytes, hread, List.length_map, List.length_range]

/-- A directory is full when its names have used up the room. -/
theorem Represents.full_iff (h : Represents s m) {Fits : UInt32 → Nat → Prop}
    (hw : Formed Fits s) (hd : FolderPath s rootClusterNumber dir d) :
    firstFree s d = none ↔ directoryRoom ≤ (m.entries dir).ncard := by
  have hlive := hd.reach reach_root
  have himage : m.entries dir = (fun i => entryName (s.table d i)) '' {i | LiveSlot s d i} :=
    Set.ext fun name => h.mem_entries hw hd
  have hcard : (m.entries dir).ncard = {i | LiveSlot s d i}.ncard := by
    rw [himage]
    exact Set.InjOn.ncard_image fun i hi j hj he => entryName_unique hw hlive hi hj he
  have hsub : {i | LiveSlot s d i} ⊆ {i : Fin entryCount | 2 ≤ i.val} := fun i hi => hi.1
  rw [hcard, ← slots_ncard]
  constructor
  · intro hnone
    refine Set.ncard_le_ncard fun i hi => ⟨hi, ?_⟩
    by_contra hl
    obtain ⟨j, hj⟩ := firstFree_exists hi (Bool.eq_false_iff.mpr hl)
    simp [hnone] at hj
  · intro hle
    have heq := Set.eq_of_subset_of_ncard_le hsub hle
    cases hf : firstFree s d with
    | none => rfl
    | some i =>
      obtain ⟨hi, hl⟩ := firstFree_some hf
      have hmem : i ∈ {i | LiveSlot s d i} := by
        rw [heq]
        exact hi
      simp [hmem.2] at hl

theorem Represents.clash_iff (h : Represents s m) {name : Name × Ext} {Fits : UInt32 → Nat → Prop}
    (hw : Formed Fits s) (hn : Names s request dir name) :
    Clash s request ↔ m (dir ++ [name]) ≠ none := by
  obtain ⟨hd, rfl⟩ := hn
  rw [show m (dir ++ [(request.name, request.ext)]) ≠ none ↔
    (request.name, request.ext) ∈ m.entries dir from Iff.rfl, h.mem_entries hw hd]
  refine exists_congr fun i => and_congr_right fun _ => ?_
  rw [FAT32DriverRequest.names_iff, entryName, Prod.mk.injEq]

end Represents

section Steps

variable {s s' : FileSystem} {m : Contents} {p : Nat} {i : Fin entryCount}
  {dir : List (Name × Ext)} {name : Name × Ext} {request : Request}

/-- A new entry is put at its path. -/
theorem Represents.grown (h : Represents s m) (hw : WellFormed s) (hw' : WellFormed s')
    {e : FAT32DirectoryEntry} {cs : List Nat} (hg : Grown s s' p i e cs)
    (hp : FolderPath s rootClusterNumber dir p) :
    Represents s' (m.put (dir ++ [entryName e]) (nodeOf s' e)) := by
  have hkeep : ∀ {d : Nat} {path : List (Name × Ext)}, FolderPath s rootClusterNumber path d →
      FolderPath s' rootClusterNumber path d := fun hd =>
    ((hg.extends hw').entriesKept hw).folderPath reach_root hd
  have hold : ∀ {d : Nat} {j : Fin entryCount}, LiveDir s d → LiveSlot s d j →
      LiveSlot s' d j ∧ s'.table d j = s.table d j ∧
        nodeOf s' (s.table d j) = nodeOf s (s.table d j) := by
    intro d j hd hj
    obtain ⟨hj', he⟩ := hg.liveSlot_old hw hd hj
    refine ⟨hj', he, nodeOf_kept hj fun hf => ?_⟩
    obtain ⟨l, hl⟩ := hg.keepsFile hw hd hf
    exact hl.bytes hw hw' hd ((hg.extends hw').liveDir hw hd) hf
  refine ⟨?_, fun path k node => ?_⟩
  · rw [put_of_ne (by simp), h.root]
  -- Only the new entry is at the new path: names in a directory differ.
  by_cases heq : path ++ [k] = dir ++ [entryName e]
  · obtain ⟨rfl, rfl⟩ := snoc_inj.mp heq
    rw [put_self, Option.some.injEq]
    constructor
    · rintro rfl
      exact ⟨p, i, hkeep hp, hg.liveSlot_new, by rw [hg.entry_new], by rw [hg.entry_new]⟩
    · rintro ⟨d, j, hd, hj, hname, rfl⟩
      obtain rfl := folderPath_unique hw' hd (hkeep hp)
      rw [← hg.entry_new] at hname
      rw [entryName_unique hw' (hd.reach reach_root) hj hg.liveSlot_new hname, hg.entry_new]
  · rw [put_of_ne heq, h.entry]
    constructor
    · rintro ⟨d, j, hd, hj, rfl, rfl⟩
      obtain ⟨hj', he, hn⟩ := hold (hd.reach reach_root) hj
      exact ⟨d, j, hkeep hd, hj', by rw [he], by rw [he, hn]⟩
    · rintro ⟨d, j, hd, hj, rfl, rfl⟩
      rcases hg.liveSlot_cases hw (hd.reach reach_root) hj with ⟨rfl, rfl⟩ | ⟨hlive, hj', he, -⟩
      · rw [hg.entry_new] at heq
        exact absurd (by rw [hd.path_unique hw'.tree (hkeep hp)]) heq
      · obtain ⟨-, -, hn⟩ := hold hlive hj'
        refine ⟨d, j, folderPath_back hw' hlive (fun _ => hkeep) hd, hj', by rw [he], ?_⟩
        rw [he, hn]

/-- The paths that go when a slot is cleared are those at and below its entry. -/
theorem region_path_iff (hw : WellFormed s) (hp : FolderPath s rootClusterNumber dir p)
    (hi : LiveSlot s p i) {d : Nat} {j : Fin entryCount} {path : List (Name × Ext)}
    (hd : FolderPath s rootClusterNumber path d) (hj : LiveSlot s d j) :
    (EntryRegion s p i d ∨ d = p ∧ j = i) ↔
      dir ++ [entryName (s.table p i)] <+: path ++ [entryName (s.table d j)] := by
  have hlive := hp.reach reach_root
  constructor
  · rintro (hr | ⟨rfl, rfl⟩)
    · obtain ⟨a, ha, hb⟩ := (region_dir_iff hw hlive (hd.reach reach_root)).mp hr
      obtain ⟨rest, hrest⟩ : ∃ rest, FolderPath s a rest d := Descends.of_below hb
      rw [hd.path_unique hw.tree (hp.append (.step ha hrest))]
      exact ⟨rest ++ [entryName (s.table d j)], by simp⟩
    · rw [hd.path_unique hw.tree hp]
  · intro hpre
    rcases prefix_snoc hpre with heq | ⟨rest, hrest⟩
    · obtain ⟨rfl, hname⟩ := snoc_inj.mp heq
      obtain rfl := folderPath_unique hw hp hd
      exact .inr ⟨rfl, entryName_unique hw hlive hj hi hname.symm⟩
    · rw [← hrest] at hd
      obtain ⟨x, hx, hxd⟩ := hd.split
      obtain ⟨y, k, hy, hc, hname⟩ := hx.last
      obtain rfl := folderPath_unique hw hp hy
      obtain rfl := entryName_unique hw hlive (folderChild_eq_some.mp hc).1 hi hname
      exact .inl ((region_dir_iff hw hlive (hd.reach reach_root)).mpr ⟨x, hc, hxd.toBelow⟩)

/-- A cleared slot takes its path, and all that lies below it. -/
theorem Represents.pruned (h : Represents s m) (hw : WellFormed s) (hw' : WellFormed s')
    (hg : Pruned s s' p i) (hp : FolderPath s rootClusterNumber dir p) :
    Represents s' (m.prune (dir ++ [entryName (s.table p i)])) := by
  refine ⟨?_, fun path k node => ?_⟩
  · rw [prune_of_not_below (by simp), h.root]
  have hback : ∀ {d : Nat} {path : List (Name × Ext)}, LiveDir s d → ¬ EntryRegion s p i d →
      FolderPath s' rootClusterNumber path d → FolderPath s rootClusterNumber path d :=
    fun hlive hr => folderPath_back hw' hlive fun _ => hg.folderPath hw hr
  have hnode : ∀ {d : Nat} {j : Fin entryCount}, LiveDir s d → ¬ EntryRegion s p i d →
      (d = p → j ≠ i) → LiveSlot s d j →
      nodeOf s' (s.table d j) = nodeOf s (s.table d j) := by
    intro d j hd hr hne hj
    refine nodeOf_kept hj fun hf => ?_
    obtain ⟨l, hl⟩ := hg.keepsFile hw hd hr hne hf
    exact hl.bytes hw hw' hd ((hg.liveDir_iff hw).mpr ⟨hd, hr⟩) hf
  by_cases hpre : dir ++ [entryName (s.table p i)] <+: path ++ [k]
  · rw [prune_below hpre]
    refine iff_of_false (by simp) ?_
    rintro ⟨d, j, hd, hj, rfl, rfl⟩
    obtain ⟨hlive, hr, hne, hj', he⟩ := hg.liveSlot_cases hw (hd.reach reach_root) hj
    rw [he] at hpre
    rcases (region_path_iff hw hp hg.slot (hback hlive hr hd) hj').mpr hpre with hr' | ⟨hdp, hji⟩
    · exact hr hr'
    · exact hne hdp hji
  · rw [prune_of_not_below hpre, h.entry]
    constructor
    · rintro ⟨d, j, hd, hj, rfl, rfl⟩
      have hout := mt (region_path_iff hw hp hg.slot hd hj).mp hpre
      rw [not_or, not_and] at hout
      have he := hg.entry_eq hw (hd.reach reach_root) hout.1 hout.2
      refine ⟨d, j, hg.folderPath hw hout.1 hd, ⟨hj.1, by rw [he, hj.2]⟩, by rw [he], ?_⟩
      rw [he, hnode (hd.reach reach_root) hout.1 hout.2 hj]
    · rintro ⟨d, j, hd, hj, rfl, rfl⟩
      obtain ⟨hlive, hr, hne, hj', he⟩ := hg.liveSlot_cases hw (hd.reach reach_root) hj
      exact ⟨d, j, hback hlive hr hd, hj', by rw [he], by rw [he, hnode hlive hr hne hj']⟩

theorem Names.entryName (hn : Names s request dir name) {e : FAT32DirectoryEntry}
    (he : request.names e = true) : entryName e = name := by
  obtain ⟨hname, hext⟩ := FAT32DriverRequest.names_iff.mp he
  rw [hn.2, Fat32.entryName, hname, hext]

theorem Names.absent (h : Represents s m) (hw : WellFormed s) (hn : Names s request dir name)
    (hc : ¬ Clash s request) : m (dir ++ [name]) = none :=
  not_not.mp (mt (h.clash_iff hw hn).mpr hc)

theorem Names.found (h : Represents s m) (hn : Names s request dir name)
    (hl : LiveSlot s request.parent i) (hi : request.names (s.table request.parent i) = true) :
    m (dir ++ [name]) = some (nodeOf s (s.table request.parent i)) := by
  rw [← hn.entryName hi]
  exact h.slot hn.1 hl

theorem Names.file (h : Represents s m) (hn : Names s request dir name)
    (hf : FileSlot s request.parent i) (hi : request.names (s.table request.parent i) = true) :
    m (dir ++ [name]) = some (.file (fileBytes s (s.table request.parent i))) := by
  rw [hn.found h hf.1 hi, nodeOf, hf.2]
  rfl

theorem Names.folder (h : Represents s m) (hn : Names s request dir name) {a : Nat}
    (ha : folderChild s request.parent i = some a)
    (hi : request.names (s.table request.parent i) = true) :
    m (dir ++ [name]) = some .folder ∧ FolderPath s rootClusterNumber (dir ++ [name]) a := by
  have hp := hn.1.append (.single ha)
  rw [hn.entryName hi] at hp
  exact ⟨h.folder hp, hp⟩

theorem Names.pruned (h : Represents s m) (hw : WellFormed s) (hn : Names s request dir name)
    (hi : request.names (s.table request.parent i) = true)
    (hg : Pruned s s' request.parent i) : Represents s' (m.prune (dir ++ [name])) := by
  rw [← hn.entryName hi]
  exact h.pruned hw (hg.wellFormed hw) hg hn.1

/-- What a successful `write` has stored. -/
theorem Written.nodeOf {cs : List Nat} (h : Written s s' request i cs) (hw : WellFormed s)
    (hc : ¬ Clash s request) : nodeOf s' (s'.table request.parent i) = requestNode request := by
  by_cases hz : request.bufferSize = 0
  · rw [Fat32.nodeOf, requestNode, if_pos hz, h.entry, newEntry_isSubdirectory,
      if_pos (decide_eq_true hz)]
  · have hf := h.fileSlot hz
    rw [Fat32.nodeOf, requestNode, if_neg hz, hf.2,
      fileBytes_eq (h.wellFormed hw hc) (h.liveParent hw) hf h.walk, h.filesize]
    exact congrArg Node.file
      (List.map_congr_left fun k hk => h.readAll_eq hz zeroBytes (List.mem_range.mp hk))

theorem write_refines (h : Represents s m) (hw : WellFormed s) (hn : Names s request dir name)
    (hroom : HasRoom s request) : ∃ code s' m', write s request = .ok (code, s') ∧
      TreeOp.runWrite m dir name (requestNode request) = (code, m') ∧ Represents s' m' := by
  have hp := hn.1.reach reach_root
  by_cases hc : Clash s request
  · refine ⟨_, _, m, write_clash hw hp hc, ?_, h.loadDir _⟩
    rw [TreeOp.runWrite, if_pos ((h.clash_iff hw hn).mp hc)]
  have habsent := hn.absent h hw hc
  cases hf : firstFree s request.parent with
  | none =>
    refine ⟨_, _, m, write_full hw hp hc hf, ?_, h.loadDir _⟩
    rw [TreeOp.runWrite, if_neg (not_not.mpr habsent), if_pos ((h.full_iff hw hn.1).mp hf)]
  | some i =>
    obtain ⟨s', cs, hwrite, hwr⟩ := write_new hw hp hc hf (hroom hc (by simp [hf]))
    have hfull := mt (h.full_iff hw hn.1).mpr (by simp [hf])
    refine ⟨0, s', m.put (dir ++ [name]) (requestNode request), hwrite, ?_, ?_⟩
    · rw [TreeOp.runWrite, if_neg (not_not.mpr habsent), if_neg hfull]
    · rw [← hwr.nodeOf hw hc, hwr.entry, ← hn.entryName hwr.named, hwr.entry]
      exact h.grown hw (hwr.wellFormed hw hc) hwr.grown hn.1

theorem delete_refines (h : Represents s m) (hw : WellFormed s) (hn : Names s request dir name) :
    ∃ code s' m', delete s request = .ok (code, s') ∧
      TreeOp.runDelete m (dir ++ [name]) = (code, m') ∧ Represents s' m' := by
  have hp := hn.1.reach reach_root
  by_cases hc : Clash s request
  · obtain ⟨i, hl, hi⟩ := hc
    rcases hl.kind with hf | ha
    · obtain ⟨s', hs', hg⟩ := delete_file hw hp hf hi
      refine ⟨0, s', _, hs', ?_, hn.pruned h hw hi hg⟩
      rw [TreeOp.runDelete, hn.file h hf hi]
    · obtain ⟨hfolder, hpath⟩ := hn.folder h ha hi
      by_cases hne : ∃ j, LiveSlot s (s.table request.parent i).clusterNumber j
      · obtain ⟨j, hj⟩ := hne
        have hmem := (h.mem_entries hw hpath).mpr ⟨j, hj, rfl⟩
        refine ⟨2, _, m, (delete_found hw hp hl hi).trans (deleteAt_nonempty ha hj), ?_,
          h.loadDir _⟩
        rw [TreeOp.runDelete, hfolder]
        exact if_pos ⟨_, hmem⟩
      · obtain ⟨s', hs', hg⟩ := deleteAt_empty hw hp ha (not_exists.mp hne)
        refine ⟨0, s', _, (delete_found hw hp hl hi).trans hs', ?_, hn.pruned h hw hi hg⟩
        rw [TreeOp.runDelete, hfolder]
        refine if_neg ?_
        rintro ⟨k, hk⟩
        obtain ⟨j, hj, -⟩ := (h.mem_entries hw hpath).mp hk
        exact hne ⟨j, hj⟩
  · refine ⟨1, _, m, delete_absent hw hp fun i hl => ?_, ?_, h.loadDir _⟩
    · exact Bool.eq_false_iff.mpr fun hi => hc ⟨i, hl, hi⟩
    · rw [TreeOp.runDelete, hn.absent h hw hc]

theorem deleteFolderRec_refines (h : Represents s m) (hw : WellFormed s)
    (hn : Names s request dir name) : ∃ code s' m',
      deleteFolderRec s request = .ok (code, s') ∧
      TreeOp.runDeleteTree m (dir ++ [name]) = (code, m') ∧ Represents s' m' := by
  have hp := hn.1.reach reach_root
  have heq := deleteFolderRec_eq hw.directories hp
  by_cases hc : Clash s request
  · obtain ⟨i, hl, hi⟩ := hc
    rcases hl.kind with hf | ha
    · rw [find_named hw.directories hp hl hi] at heq
      refine ⟨1, _, m, heq.trans (if_neg (by simp [hf.2])), ?_, h.loadDir _⟩
      rw [TreeOp.runDeleteTree, hn.file h hf hi]
    · obtain ⟨s', hs', hg⟩ := deleteFolderRec_folder hw hp ha hi
      refine ⟨0, s', _, hs', ?_, hn.pruned h hw hi hg⟩
      rw [TreeOp.runDeleteTree, (hn.folder h ha hi).1]
  · rw [find_unnamed fun i hl => Bool.eq_false_iff.mpr fun hi => hc ⟨i, hl, hi⟩] at heq
    refine ⟨2, _, m, heq, ?_, h.loadDir _⟩
    rw [TreeOp.runDeleteTree, hn.absent h hw hc]

theorem Names.findFile (h : Represents s m) (hw : WellFormed s) (hn : Names s request dir name)
    {bytes : List UInt8} (hm : m (dir ++ [name]) = some (.file bytes)) :
    ∃ i, findFile (s.loadDir request.parent) request = some i := by
  obtain ⟨d, i, hd, hl, hname, hnode⟩ := (h.entry _ _ _).mp hm
  obtain rfl := folderPath_unique hw hn.1 hd
  rw [hn.2, Fat32.entryName, Prod.mk.injEq] at hname
  have hf : FileSlot s request.parent i := by
    refine ⟨hl, Bool.eq_false_iff.mpr fun hk => ?_⟩
    simp [nodeOf, hk] at hnode
  exact ⟨i, findFile_eq hw (hd.reach reach_root) hf (FAT32DriverRequest.names_iff.mpr hname)⟩

theorem Names.not_file (h : Represents s m) (hw : WellFormed s) (hn : Names s request dir name)
    (hnone : Fat32.findFile (s.loadDir request.parent) request = none) (bytes : List UInt8) :
    m (dir ++ [name]) ≠ some (.file bytes) := by
  intro hm
  obtain ⟨i, hi⟩ := hn.findFile h hw hm
  simp [hnone] at hi

variable {src dest : Request} {l : List Nat} {srcDir destDir : List (Name × Ext)}
  {srcName destName : Name × Ext}

theorem Represents.reads (h : Represents s m) (hw : WellFormed s)
    (hn : Names s request dir name) : ReadsAs s m request (dir ++ [name]) := by
  have hp := hn.1.reach reach_root
  rw [ReadsAs]
  split
  · next bytes hm =>
    obtain ⟨i, hi⟩ := hn.findFile h hw hm
    obtain ⟨hf, hni⟩ := findFile_some hi
    obtain ⟨l, hl, -⟩ := readChain_file hw hp hf zeroBytes
    obtain rfl : fileBytes s (s.table request.parent i) = bytes := by
      simpa using (hn.file h hf hni).symm.trans hm
    have hlen : (fileBytes s (s.table request.parent i)).length =
        (s.table request.parent i).filesize.toNat := by
      rw [fileBytes_eq hw hp hf hl, List.length_map, List.length_range]
    rw [hlen]
    by_cases hsize : (s.table request.parent i).filesize ≤ request.bufferSize
    · have hr : Readable s request i := ⟨hp, hf, hni, hsize⟩
      rw [if_pos (UInt32.le_iff_toNat_le.mp hsize)]
      refine ⟨_, hr.readBack_eq hw hl, ?_⟩
      rw [fileBytes_eq hw hp hf hl]
      refine List.map_congr_left fun k hk => ?_
      have hin := hr.length_le hw hl
      rw [readAll_from_start, readAll_from_start, if_pos, if_pos] <;>
        exact (List.mem_range.mp hk).trans_le hin
    · rw [if_neg (mt UInt32.le_iff_toNat_le.mpr hsize), readBack_file hw hp hf hni hl,
        if_pos (UInt32.not_le.mp hsize)]
  · next hm =>
    refine readBack_missing (hw.dir_range hp).2 (hw.dir_mark hp) ?_
    cases hfind : Fat32.findFile (s.loadDir request.parent) request with
    | none => rfl
    | some i =>
      obtain ⟨hf, hni⟩ := findFile_some hfind
      exact absurd (hn.file h hf hni) (hm _)

theorem copyOf_node (hw : WellFormed s) (hs : LiveDir s src.parent) (hf : FileSlot s src.parent i)
    (hl : Walk s.next fatEndOfFile (s.table src.parent i).clusterNumber l) :
    requestNode (copyOf s src dest i l) = .file (fileBytes s (s.table src.parent i)) := by
  have hz : (copyOf s src dest i l).bufferSize ≠ 0 := filesize_ne_zero hw hs hf
  rw [requestNode, if_neg hz, fileBytes_eq hw hs hf hl]
  rfl

/-- The old file goes, and the new one takes its place. -/
theorem write_over (h : Represents s m) (hw : WellFormed s) (hn : Names s request destDir destName)
    (hf : FileSlot s request.parent i) (hi : request.names (s.table request.parent i) = true)
    (hg : Pruned s s' request.parent i) (hroom : HasRoom s' request) :
    ∃ t, write s' request = .ok (0, t) ∧
      Represents t (m.put (destDir ++ [destName]) (requestNode request)) := by
  have hw' := hg.wellFormed hw
  have h' := hn.pruned h hw hi hg
  have hn' : Names s' request destDir destName :=
    ⟨hg.folderPath hw (region_not_parent hw hg.parent) hn.1, hn.2⟩
  obtain ⟨code, t, m', hwrite, hm', ht⟩ := write_refines h' hw' hn' hroom
  obtain ⟨j, hj⟩ := firstFree_exists (s := s') hf.1.1 (by rw [hg.entry_cleared]; rfl)
  have hfull := mt (h'.full_iff hw' hn'.1).mpr (by simp [hj])
  rw [TreeOp.runWrite, if_neg (by simp [prune_below]), if_neg hfull,
    h.sound.put_prune_file (hn.file h hf hi), Prod.mk.injEq] at hm'
  obtain ⟨rfl, rfl⟩ := hm'
  exact ⟨t, hwrite, ht⟩

theorem copyFile_refines (h : Represents s m) (hw : WellFormed s) (hs : Names s src srcDir srcName)
    (hd : Names s dest destDir destName) (hroom : HasRoomForCopy s src dest) :
    ∃ code s' m', copyFile s src dest = .ok (code, s') ∧
      TreeOp.runCopy m (srcDir ++ [srcName]) destDir destName = (code, m') ∧
      Represents s' m' := by
  have hsp := hs.1.reach reach_root
  cases hsrc : findFile (s.loadDir src.parent) src with
  | none =>
    refine ⟨1, s.loadDir src.parent, m, ?_, ?_, h.loadDir _⟩
    · rw [copyFile, s.withParent_accepted (hw.dir_range hsp).2 (hw.dir_mark hsp)]
      simp only [hsrc]
      rfl
    · exact TreeOp.runCopy_missing (hs.not_file h hw hsrc)
  | some i =>
    obtain ⟨hfile, hi⟩ := findFile_some hsrc
    obtain ⟨l, hl, -⟩ := readChain_file hw hsp hfile zeroBytes
    have hw₁ := (hw.loadDir src.parent).loadDir dest.parent
    have h₁ := (h.loadDir src.parent).loadDir dest.parent
    have hd₁ : Names ((s.loadDir src.parent).loadDir dest.parent) (copyOf s src dest i l)
      destDir destName := hd
    have hroom := hroom i hsrc
    have hnode : requestNode (copyOf s src dest i l) = _ := copyOf_node hw hsp hfile hl
    rw [copyFile_found hw hsp hfile hi hl]
    cases hdest : findFile (s.loadDir dest.parent) dest with
    | none =>
      rw [hdest] at hroom
      obtain ⟨code, s', m', hwrite, hm', h'⟩ := write_refines h₁ hw₁ hd₁ hroom
      refine ⟨code, s', m', hwrite, ?_, h'⟩
      rw [TreeOp.runCopy_new (hs.file h hfile hi) (hd.not_file h hw hdest), ← hnode]
      exact hm'
    | some j =>
      -- `delete` frees the old file before `write` looks for room.
      rw [hdest] at hroom
      obtain ⟨hfj, hnj⟩ := findFile_some hdest
      obtain ⟨s₂, hs₂, hg⟩ :=
        @delete_file _ _ hw₁ (copyOf s src dest i l) (hd.1.reach reach_root) _ hfj hnj
      have hneeded : clustersNeeded (copyOf s src dest i l) =
          clusterCount (s.table src.parent i).filesize.toNat :=
        if_neg (filesize_ne_zero hw hsp hfile)
      obtain ⟨t, ht, hrep⟩ := write_over h₁ hw₁ hd₁ hfj hnj hg fun _ _ => by
        rw [hneeded]
        exact hroom.trans (hg.room hw₁ hfj)
      refine ⟨0, t, _, ?_, ?_, hrep⟩
      · rw [hs₂]
        exact ht
      · rw [TreeOp.runCopy_over (hs.file h hfile hi) (hd.file h hfj hnj), ← hnode]

end Steps

/-- A call and the operation on paths that it stands for return the same code. -/
theorem call_refines {s : FileSystem} {m : Contents} {call : Call} {op : TreeOp}
    (h : Represents s m) (hw : WellFormed s) (ha : call.Admissible s) (hn : call.Names s op) :
    ∃ code s' m', call.run s = .ok (code, s') ∧ op.run m = (code, m') ∧ Represents s' m' := by
  cases call with
  | write request =>
    cases op with
    | write dir name node =>
      obtain ⟨hn, rfl⟩ := hn
      exact write_refines h hw hn ha.2
    | _ => exact hn.elim
  | delete request =>
    cases op with
    | delete dir name => exact delete_refines h hw hn
    | _ => exact hn.elim
  | deleteFolderRec request =>
    cases op with
    | deleteTree dir name => exact deleteFolderRec_refines h hw hn
    | _ => exact hn.elim
  | copyFile src dest =>
    cases op with
    | copy srcDir srcName destDir destName => exact copyFile_refines h hw hn.1 hn.2 ha.2.2
    | _ => exact hn.elim

theorem liveDir_names {s : FileSystem} {request : Request} (hp : LiveDir s request.parent) :
    ∃ dir, Names s request dir (request.name, request.ext) :=
  (Descends.of_reach hp).imp fun _ hd => ⟨hd, rfl⟩

/-- Every admissible call stands for an operation. -/
theorem call_names {s : FileSystem} {call : Call} (ha : call.Admissible s) :
    ∃ op, call.Names s op := by
  cases call with
  | write request =>
    obtain ⟨dir, hd⟩ := liveDir_names ha.1
    exact ⟨.write dir _ _, hd, rfl⟩
  | delete request =>
    obtain ⟨dir, hd⟩ := liveDir_names ha
    exact ⟨.delete dir _, hd⟩
  | deleteFolderRec request =>
    obtain ⟨dir, hd⟩ := liveDir_names ha
    exact ⟨.deleteTree dir _, hd⟩
  | copyFile src dest =>
    obtain ⟨srcDir, hs⟩ := liveDir_names ha.1
    obtain ⟨destDir, hd⟩ := liveDir_names ha.2.1
    exact ⟨.copy srcDir _ destDir _, hs, hd⟩

/-- A call with the code it returns. -/
def CodedStep (s : FileSystem) (e : Call × Int) (s' : FileSystem) : Prop :=
  e.1.Admissible s ∧ e.1.run s = .ok (e.2, s')

/-- The call and its operation side by side. -/
def LockStep (x : FileSystem × Contents) (e : Call × Int) (x' : FileSystem × Contents) : Prop :=
  CodedStep x.1 e x'.1 ∧ ∃ op, e.1.Names x.1 op ∧ op.run x.2 = (e.2, x'.2)

theorem createFat32_represents (root : Name) (disk : Nat → UInt8) :
    Represents (createFat32 root (boot disk)) .empty where
  root := rfl
  entry dir name node := by
    rw [empty_snoc]
    refine iff_of_false (by simp) ?_
    rintro ⟨d, i, hd, hi, -⟩
    exact createFat32_liveSlot root disk (hd.reach reach_root) hi

theorem lockStep_of_step {s s' : FileSystem} {m : Contents} {e : Call × Int}
    (h : Represents s m) (hw : WellFormed s) (hs : CodedStep s e s') :
    ∃ m', LockStep (s, m) e (s', m') ∧ Represents s' m' ∧ WellFormed s' := by
  obtain ⟨op, hop⟩ := call_names hs.1
  obtain ⟨code, t, m', hrun, hm', ht⟩ := call_refines h hw hs.1 hop
  obtain ⟨rfl, rfl⟩ : code = e.2 ∧ t = s' := by
    simpa using hrun.symm.trans hs.2
  exact ⟨m', ⟨hs, op, hop, hm'⟩, ht, callStep_wellFormed s e.1 t hw ⟨hs.1, _, hs.2⟩⟩

theorem lockStep_of_run {s s' : FileSystem} {m : Contents} {es : List (Call × Int)}
    (h : Represents s m) (hw : WellFormed s) (hrun : Run CodedStep s es s') :
    ∃ m', Run LockStep (s, m) es (s', m') ∧ Represents s' m' := by
  induction hrun generalizing m with
  | nil s => exact ⟨m, .nil _, h⟩
  | cons hs _ ih =>
    obtain ⟨m₁, hstep, h₁, hw₁⟩ := lockStep_of_step h hw hs
    obtain ⟨m', hrest, h'⟩ := ih h₁ hw₁
    exact ⟨m', .cons hstep hrest, h'⟩

/-- From a new disk on, the driver is the map of paths with the operations above, and what is
read is what the map holds. -/
theorem run_refines (root : Name) (disk : Nat → UInt8) {es : List (Call × Int)} {s : FileSystem}
    (h : Run CodedStep (createFat32 root (boot disk)) es s) :
    ∃ m, Run LockStep (createFat32 root (boot disk), .empty) es (s, m) ∧ Represents s m ∧
      ∀ request dir name, Names s request dir name → ReadsAs s m request (dir ++ [name]) := by
  have hw : WellFormed s := h.invariant
    (fun s e s' hw hs => callStep_wellFormed s e.1 s' hw ⟨hs.1, _, hs.2⟩)
    (createFat32_wellFormed root disk)
  obtain ⟨m, hrun, hm⟩ := lockStep_of_run (createFat32_represents root disk)
    (createFat32_wellFormed root disk) h
  exact ⟨m, hrun, hm, fun request dir name hn => hm.reads hw hn⟩

/-- What the first write puts on a new disk. -/
theorem first_write (root : Name) (disk : Nat → UInt8) {request : Request}
    (hp : request.parent = rootClusterNumber) (hn : clustersNeeded request ≤ 509) :
    ∃ s m, Run CallStep (createFat32 root (boot disk)) [.write request] s ∧ WellFormed s ∧
      Represents s m ∧ m [(request.name, request.ext)] = some (requestNode request) := by
  have hlive : LiveDir (createFat32 root (boot disk)) request.parent := by
    rw [hp]
    exact reach_root
  have ha : Call.Admissible (createFat32 root (boot disk)) (.write request) := by
    refine ⟨hlive, fun _ _ => ?_⟩
    rw [createFat32_room]
    exact hn
  have hnames : Call.Names (createFat32 root (boot disk)) (.write request)
      (.write [] (request.name, request.ext) (requestNode request)) := by
    refine ⟨⟨?_, rfl⟩, rfl⟩
    rw [hp]
    exact .here _
  obtain ⟨code, s, m, hs, hm, hrep⟩ := call_refines (createFat32_represents root disk)
    (createFat32_wellFormed root disk) ha hnames
  refine ⟨s, m, .cons ⟨ha, code, hs⟩ (.nil s),
    callStep_wellFormed _ _ s (createFat32_wellFormed root disk) ⟨ha, code, hs⟩, hrep, ?_⟩
  rw [TreeOp.run, TreeOp.runWrite, if_neg (not_not.mpr (PathStore.Store.empty_snoc _ _)),
    PathStore.Store.empty_entries, Set.ncard_empty, if_neg (by decide)] at hm
  obtain ⟨-, rfl⟩ := Prod.mk.inj hm
  exact PathStore.Store.put_self

def mkdirRequest : Request := ⟨zeroBytes, fun _ => 'a'.toUInt8, fun _ => 0, 2, 0⟩

/-- The folder `a` made on a new disk, and refused the second time. -/
theorem run_refines_mkdir : ∃ s m, Run LockStep (createFat32 (fun _ => 0) (boot zeroBytes), .empty)
    [(.write mkdirRequest, 0), (.write mkdirRequest, 1)] (s, m) ∧ Represents s m := by
  obtain ⟨s, i, cs, hs, hw, hwr⟩ := createFat32_written (fun _ => 0) zeroBytes mkdirRequest
    (by rfl) (by decide)
  have hp : LiveDir (createFat32 (fun _ => 0) (boot zeroBytes)) mkdirRequest.parent := reach_root
  have hclash : Clash s mkdirRequest := ⟨i, hwr.grown.liveSlot_new, hwr.named⟩
  have hagain := write_clash hw reach_root hclash
  have hroom : HasRoom (createFat32 (fun _ => 0) (boot zeroBytes)) mkdirRequest := fun _ _ => by
    rw [createFat32_room]
    decide
  have hfirst : CodedStep (createFat32 (fun _ => 0) (boot zeroBytes)) (.write mkdirRequest, 0) s :=
    ⟨⟨hp, hroom⟩, hs⟩
  have hsecond : CodedStep s (.write mkdirRequest, 1) (s.loadDir mkdirRequest.parent) :=
    ⟨⟨reach_root, fun hc => absurd hclash hc⟩, hagain⟩
  obtain ⟨m, hrun, hm, -⟩ :=
    run_refines (fun _ => 0) zeroBytes (.cons hfirst (.cons hsecond (.nil _)))
  exact ⟨_, m, hrun, hm⟩

end Doors.Fat32
