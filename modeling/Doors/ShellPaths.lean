import Doors.CdPath
import Doors.ListCommand
import Doors.Remount
import Doors.TreeRefinement

/-! The shell's commands on paths. The shell keeps the cluster of its working directory and
follows clusters from there; to its user it is a shell on the map of paths. -/

namespace Doors.Shell

open PointerTree Fat32 FileSystem
open PathStore (Node)

/-- A directory by the names that lead to it from the root. -/
abbrev Dir := List (Name × Ext)

/-- One component of a path. The root is its own parent. -/
def enterDir (m : Contents) (dir : Dir) (row : List UInt8) : Option Dir :=
  if 8 < row.length then none
  else if toName row = dotDot then some dir.dropLast
  else match m (dir ++ [(toName row, noExt)]) with
    | some .folder => some (dir ++ [(toName row, noExt)])
    | _ => none

/-- The folders of a path and its last component: the rows up to the first empty one behind the
first. -/
def lookedAt : List (List UInt8) → List (List UInt8) × List UInt8
  | [] => ([], [])
  | [row] => ([], row)
  | row :: next :: rows =>
    if next = [] then ([], row)
    else (row :: (lookedAt (next :: rows)).1, (lookedAt (next :: rows)).2)

/-- What a path names: a directory and a name in it. -/
def target (m : Contents) (dir : Dir) (path : List UInt8) : Option (Dir × (Name × Ext)) := do
  let looked := lookedAt (path.splitOn slash)
  let parent ← looked.1.foldlM (enterDir m) dir
  if 8 < (namePart looked.2).length ∨ 3 < (extPart looked.2).length then none
  else some (parent, (toName (namePart looked.2), toExt (extPart looked.2)))

namespace PathShell

def cd (m : Contents) (dir : Dir) (name : List UInt8) : Dir :=
  ((components name).foldlM (enterDir m) dir).getD dir

noncomputable def mkdir (m : Contents) (dir : Dir) (name : List UInt8) : Contents :=
  if 8 < name.length ∨ dot ∈ name then m
  else (TreeOp.runWrite m dir (toName name, noExt) .folder).2

noncomputable def rm (m : Contents) (dir : Dir) (path : List UInt8) : Contents :=
  match target m dir path with
  | none => m
  | some (parent, name) => (TreeOp.runDelete m (parent ++ [name])).2

/-- A folder is removed under its name without the extension. -/
noncomputable def rmRec (m : Contents) (dir : Dir) (path : List UInt8) : Contents :=
  match target m dir path with
  | none => m
  | some (parent, name) =>
    match m (parent ++ [name]) with
    | some .folder => (TreeOp.runDeleteTree m (parent ++ [(name.1, noExt)])).2
    | _ => m

/-- A file goes into a folder of that name, under its own name, or takes the name. -/
def place (m : Contents) (srcName : Name × Ext) (parent : Dir) (name : Name × Ext) :
    Dir × (Name × Ext) :=
  match m (parent ++ [name]) with
  | some .folder => (parent ++ [name], srcName)
  | _ => (parent, name)

/-- The copy, and the path of the file that was copied. -/
noncomputable def copied (m : Contents) (dir : Dir) (src dest : List UInt8) :
    Option (Int × Contents × Dir) :=
  match target m dir src, target m dir dest with
  | some (parent, name), some (parent', name') =>
    match m (parent ++ [name]) with
    | some (.file _) =>
      let (destDir, destName) := place m name parent' name'
      let (code, m') := TreeOp.runCopy m (parent ++ [name]) destDir destName
      some (code, m', parent ++ [name])
    | _ => none
  | _, _ => none

noncomputable def cp (m : Contents) (dir : Dir) (src dest : List UInt8) : Contents :=
  match copied m dir src dest with
  | none => m
  | some (_, m', _) => m'

/-- `mv` of a file. The file goes when the copy has succeeded, also when it was copied over
itself. -/
noncomputable def mv (m : Contents) (dir : Dir) (src dest : List UInt8) : Contents :=
  match copied m dir src dest with
  | none => m
  | some (code, m', path) => if code ≠ 0 then m' else (TreeOp.runDelete m' path).2

/-- The commands that make, copy and remove single files and folders or remove a tree. -/
noncomputable def run (x : Dir × Contents) : Command → Dir × Contents
  | .cd name => (cd x.2 x.1 name, x.2)
  | .mkdir name => (x.1, mkdir x.2 x.1 name)
  | .rm filename => (x.1, rm x.2 x.1 filename)
  | .rmRec foldername => (x.1, rmRec x.2 x.1 foldername)
  | .cp src dest => (x.1, cp x.2 x.1 src dest)
  | .mv src dest => (x.1, mv x.2 x.1 src dest)
  | .cpRec .. => x

end PathShell

section LookedAt

variable {rows : List (List UInt8)}

theorem lookedAt_looksAt (h : rows ≠ []) : LooksAt rows (lookedAt rows).1 (lookedAt rows).2 := by
  induction rows with
  | nil => exact absurd rfl h
  | cons row rows ih =>
    cases rows with
    | nil => exact ⟨⟨[], rfl, by simp⟩, by simp [lookedAt]⟩
    | cons next rows =>
      obtain ⟨⟨behind, hcut, hhead⟩, hne⟩ := ih (List.cons_ne_nil _ _)
      rw [lookedAt]
      split_ifs with hnext
      · exact ⟨⟨next :: rows, rfl, by simp [hnext]⟩, by simp⟩
      · refine ⟨⟨behind, by rw [List.cons_append, ← hcut], hhead⟩, ?_⟩
        generalize (lookedAt (next :: rows)).1 = folders at hcut hne ⊢
        cases folders with
        | nil =>
          rw [List.nil_append, List.cons.injEq] at hcut
          simpa [← hcut.1] using hnext
        | cons folder folders =>
          rw [List.cons_append, List.cons.injEq] at hcut
          intro r hr
          rcases List.mem_cons.mp hr with rfl | hr
          · rwa [← hcut.1]
          · exact hne r hr

end LookedAt

/-- The shell on the disk shows the shell on the map. -/
structure OnMap (state : ShellState) (s : FileSystem) (dir : Dir) (m : Contents) : Prop where
  represents : Represents s m
  wellFormed : WellFormed s
  plain : PlainParents s
  slots : PlainSlots s
  workDir : Fat32.FolderPath s rootClusterNumber dir state.workDir
  workDirName : state.workDirName.length < 256

section Resolving

variable {s : FileSystem} {m : Contents} {dir : Dir} {d : Nat} {row : List UInt8}

theorem folderPath_parent (hw : WellFormed s) (hd : Fat32.FolderPath s rootClusterNumber dir d)
    {p : Nat} (hp : ParentOf s d p) : Fat32.FolderPath s rootClusterNumber dir.dropLast p := by
  rcases hp with ⟨rfl, rfl⟩ | ⟨k, hp, hk⟩
  · rw [hd.path_unique hw.tree (.here _)]
    exact .here _
  · obtain ⟨path, hpath⟩ := Descends.of_reach hp
    rw [hd.path_unique hw.tree (hpath.append (.single hk)), List.dropLast_concat]
    exact hpath

/-- What the map says of a name in a directory, found in the table of the directory. -/
theorem findEntry_node (h : Represents s m) (hw : WellFormed s)
    (hd : Fat32.FolderPath s rootClusterNumber dir d) {name : Name} {ext : Ext}
    (hn : name ≠ dotDot) :
    m (dir ++ [(name, ext)]) = (findEntry (readTable s d) name ext).map (nodeOf s) := by
  have hlive := hd.reach reach_root
  cases he : findEntry (readTable s d) name ext with
  | none =>
    by_contra hm
    obtain ⟨node, hnode⟩ := Option.ne_none_iff_exists'.mp hm
    obtain ⟨c, i, hc, hi, hname, -⟩ := (h.entry _ _ _).mp hnode
    obtain rfl := folderPath_unique hw hc hd
    obtain ⟨rfl, rfl⟩ := Prod.ext_iff.mp hname
    exact (findEntry_none_iff hw hlive hn).mp he i ⟨hi, rfl, rfl⟩
  | some e =>
    obtain ⟨i, ⟨hi, rfl, rfl⟩, rfl⟩ := (findEntry_iff hw hlive hn).mp he
    exact h.slot hd hi

theorem findEntry_folder (hw : WellFormed s) (hd : Fat32.FolderPath s rootClusterNumber dir d)
    {name : Name} {ext : Ext} (hn : name ≠ dotDot) {e : FAT32DirectoryEntry}
    (he : findEntry (readTable s d) name ext = some e) (hk : e.isSubdirectory = true) :
    Fat32.FolderPath s rootClusterNumber (dir ++ [(name, ext)]) e.clusterNumber := by
  obtain ⟨i, ⟨hi, rfl, rfl⟩, rfl⟩ := (findEntry_iff hw (hd.reach reach_root) hn).mp he
  exact hd.append (.single (folderChild_eq_some.mpr ⟨hi, hk, rfl⟩))

/-- A component leads to the same directory on the map and on the disk, or to none on either. -/
theorem enter_refines (h : Represents s m) (hw : WellFormed s) (hx : PlainParents s)
    (hd : Fat32.FolderPath s rootClusterNumber dir d) (row : List UInt8) :
    (enterDir m dir row = none ∧ enter s d row = none) ∨
      ∃ dir' c, enterDir m dir row = some dir' ∧ enter s d row = some c ∧
        Fat32.FolderPath s rootClusterNumber dir' c := by
  have hlive := hd.reach reach_root
  rw [enterDir, enter]
  split_ifs with hlen hdots
  · exact .inl ⟨rfl, rfl⟩
  · obtain ⟨q, hh, -⟩ := hw.dir_header hlive
    rw [hdots, findEntry_parent hw hlive (hx d hlive)]
    simp only [hh.parent_kind.2]
    exact .inr ⟨_, _, rfl, rfl, folderPath_parent hw hd ((parentOf_iff hw hlive).mpr rfl)⟩
  · rw [findEntry_node h hw hd hdots]
    cases he : findEntry (readTable s d) (toName row) noExt with
    | none => exact .inl ⟨rfl, rfl⟩
    | some e =>
      cases hk : e.isSubdirectory with
      | false => exact .inl ⟨by simp [nodeOf, hk], by simp [hk]⟩
      | true =>
        refine .inr ⟨_, e.clusterNumber, ?_, by simp [hk], findEntry_folder hw hd hdots he hk⟩
        simp [nodeOf, hk]

theorem enters_refine (h : Represents s m) (hw : WellFormed s) (hx : PlainParents s)
    (hd : Fat32.FolderPath s rootClusterNumber dir d) (rows : List (List UInt8)) :
    (rows.foldlM (enterDir m) dir = none ∧ rows.foldlM (enter s) d = none) ∨
      ∃ dir' c, rows.foldlM (enterDir m) dir = some dir' ∧ rows.foldlM (enter s) d = some c ∧
        Fat32.FolderPath s rootClusterNumber dir' c := by
  induction rows generalizing dir d with
  | nil => exact .inr ⟨dir, d, rfl, rfl, hd⟩
  | cons row rows ih =>
    rw [List.foldlM_cons, List.foldlM_cons]
    rcases enter_refines h hw hx hd row with ⟨hdir, hc⟩ | ⟨dir', c, hdir, hc, hd'⟩
    · rw [hdir, hc]
      exact .inl ⟨rfl, rfl⟩
    · rw [hdir, hc]
      exact ih hd'

/-- The kind of what a path names, as the resolver reports it. -/
def kindCode : Option (Node (List UInt8)) → Int
  | none => 2
  | some .folder => 1
  | some (.file _) => 0

/-- The answer of the resolver for what a path names on the map. -/
inductive Answers (s : FileSystem) (m : Contents) : Option (Dir × (Name × Ext)) → Resolved → Prop
  | none {r : Resolved} : r.code = 3 ∨ r.code = 4 ∨ r.code = 5 → Answers s m none r
  | some {parent : Dir} {name : Name × Ext} {r : Resolved} :
    Fat32.FolderPath s rootClusterNumber parent r.parentCluster → name = (r.filename, r.ext) →
    r.code = kindCode (m (parent ++ [name])) →
    (m (parent ++ [name]) = some .folder →
      Fat32.FolderPath s rootClusterNumber (parent ++ [name]) r.currentCluster) →
    Answers s m (some (parent, name)) r

/-- The last component in its directory. -/
theorem last_refines (h : Represents s m) (hw : WellFormed s)
    (hd : Fat32.FolderPath s rootClusterNumber dir d) (last : List UInt8) :
    Answers s m (if 8 < (namePart last).length ∨ 3 < (extPart last).length then none
      else some (dir, (toName (namePart last), toExt (extPart last)))) (resolvedIn s d last) := by
  have hn : toName (namePart last) ≠ dotDot := toName_ne_dotDot (dot_not_mem_namePart last)
  rw [resolvedIn]
  by_cases hname : 8 < (namePart last).length
  · rw [if_pos (.inl hname), if_pos hname]
    exact .none (.inr (.inl rfl))
  by_cases hext : 3 < (extPart last).length
  · rw [if_pos (.inr hext), if_neg hname, if_pos hext]
    exact .none (.inr (.inr rfl))
  rw [if_neg (not_or.mpr ⟨hname, hext⟩), if_neg hname, if_neg hext]
  have hnode : m (dir ++ [(_, toExt (extPart last))]) = _ := findEntry_node h hw hd hn
  cases he : findEntry (readTable s d) (toName (namePart last)) (toExt (extPart last)) with
  | none =>
    rw [he, Option.map_none] at hnode
    exact .some hd rfl (by rw [hnode, kindCode]) (by simp [hnode])
  | some e =>
    rw [he, Option.map_some] at hnode
    refine .some hd rfl ?_ fun hfolder => ?_
    · cases hk : e.isSubdirectory <;> simp [hnode, nodeOf, hk, kindCode]
    · refine findEntry_folder hw hd hn he ?_
      by_contra hk
      simp [hnode, nodeOf, hk] at hfolder

/-- The resolver answers as the map does, when it stays inside its arrays. -/
theorem resolve_refines (h : Represents s m) (hw : WellFormed s) (hx : PlainParents s)
    (hd : Fat32.FolderPath s rootClusterNumber dir d) {path : List UInt8} {r : Resolved}
    (hr : getCurrAndParentCluster s path d = .ok r) : Answers s m (target m dir path) r := by
  have hlook := lookedAt_looksAt (List.splitOn_ne_nil slash path)
  obtain ⟨rows, hrows, -⟩ := bind_ok hr
  rcases enters_refine h hw hx hd (lookedAt (path.splitOn slash)).1 with
    ⟨hdir, hc⟩ | ⟨dir', c, hdir, hc, hd'⟩
  · rw [resolve_refused hrows hlook hc] at hr
    cases hr
    rw [target, hdir]
    exact .none (.inl rfl)
  · by_cases hfits : Fits path (lookedAt (path.splitOn slash)).1 (lookedAt (path.splitOn slash)).2
    · rw [resolve_entered hlook hfits hc] at hr
      cases hr
      rw [target, hdir]
      exact last_refines h hw hd' _
    · rw [resolve_outside hrows hlook hc hfits] at hr
      cases hr

end Resolving

section Calls

variable {s s' : FileSystem} {m m' : Contents} {dir : Dir} {d d' : Nat} {c : Call} {code : Int}

theorem Keeps.folderPath (h : Keeps s s') {c : Nat} (hc : LiveDir s c)
    (hd : Fat32.FolderPath s c dir d) : Fat32.FolderPath s' c dir d := by
  induction hd with
  | here => exact .here _
  | @step c b x i path hb _ ih =>
    rw [← h.folder c i b hc hb]
    exact .step (h.child hc hb) (ih (hc.step hb))

theorem copyFileFinds_of_room (hw : WellFormed s) {src dest : Request} (hs : LiveDir s src.parent)
    (hd : LiveDir s dest.parent) (hroom : HasRoomForCopy s src dest) :
    CopyFileFinds s src dest := by
  intro i buf hi _
  have hroom := hroom i hi
  obtain ⟨hfile, -⟩ := findFile_some hi
  cases hdest : findFile (s.loadDir dest.parent) dest with
  | none =>
    rw [hdest] at hroom
    exact findsCluster_of_room hroom
  | some j =>
    rw [hdest] at hroom
    intro req code s' hdel
    obtain ⟨hfj, hnj⟩ := findFile_some hdest
    have hw₁ := (hw.loadDir src.parent).loadDir dest.parent
    obtain ⟨s₂, hs₂, hpr⟩ := @delete_file _ _ hw₁ ⟨buf, dest.name, dest.ext,
      dest.parentClusterNumber, (s.table src.parent i).filesize⟩ hd _ hfj hnj
    obtain ⟨-, rfl⟩ : code = 0 ∧ s' = s₂ := by simpa using hdel.symm.trans hs₂
    refine findsCluster_of_room fun _ _ => ?_
    rw [clustersNeeded, if_neg (filesize_ne_zero hw hs hfile)]
    exact hroom.trans (hpr.room hw₁ hfj)

/-- A directory that is still there is the one that was there. -/
theorem Edit.folderPath (h : Edit s s') (hw : WellFormed s)
    (hd : Fat32.FolderPath s rootClusterNumber dir d)
    (hd' : Fat32.FolderPath s' rootClusterNumber dir d') :
    Fat32.FolderPath s' rootClusterNumber dir d := by
  have hw' := h.wellFormed hw
  cases h with
  | loadDir => exact hd
  | written hc hwr => exact ((hwr.grown.extends hw').entriesKept hw).folderPath reach_root hd
  | pruned hp =>
    obtain ⟨hlive, hr⟩ := (hp.liveDir_iff hw).mp (hd'.reach reach_root)
    have hback := folderPath_back hw' hlive (fun _ => hp.folderPath hw hr) hd'
    rwa [folderPath_unique hw hd hback]

theorem call_folderPath (hw : WellFormed s) (ha : c.Admissible s)
    (hrun : c.run s = .ok (code, s')) (hd : Fat32.FolderPath s rootClusterNumber dir d)
    (hd' : Fat32.FolderPath s' rootClusterNumber dir d') :
    Fat32.FolderPath s' rootClusterNumber dir d := by
  have hsingle {code' : Int} {t : FileSystem} (ht : c.run s = .ok (code', t))
      (he : Edit s t) : Fat32.FolderPath s' rootClusterNumber dir d := by
    obtain ⟨-, rfl⟩ : code = code' ∧ s' = t := by simpa using hrun.symm.trans ht
    exact Edit.folderPath he hw hd hd'
  cases c with
  | write request =>
    obtain ⟨code, t, ht, he⟩ := write_edit hw ha.1 ha.2
    exact hsingle ht he
  | delete request =>
    rcases delete_outcome hw ha with ⟨code, -, ht⟩ | ⟨i, t, -, -, ht, hpr⟩
    · exact hsingle ht (.loadDir _)
    · exact hsingle ht (.pruned hpr)
  | deleteFolderRec request =>
    rcases deleteFolderRec_outcome hw ha with ⟨code, ht⟩ | ⟨i, c, t, -, -, ht, hpr⟩
    · exact hsingle ht (.loadDir _)
    · exact hsingle ht (.pruned hpr)
  | copyFile src dest =>
    have hfinds := copyFileFinds_of_room hw ha.1 ha.2.1 ha.2.2
    exact Keeps.folderPath (copyFile_keeps hw.loose ha.1 ha.2.1 hfinds hrun) reach_root hd

/-- A call of the shell and the operation it stands for, as long as the working directory stays. -/
theorem OnMap.call {state : ShellState} (h : OnMap state s dir m) (c : Call) (op : TreeOp)
    (ha : c.Admissible s) (hn : c.Names s op) (hstays : (op.run m).2 dir = some .folder)
    (hrun : c.run s = .ok (code, s')) :
    (op.run m).1 = code ∧ OnMap state s' dir (op.run m).2 := by
  obtain ⟨code', t, m', ht, hm', hrep⟩ := call_refines h.represents h.wellFormed ha hn
  obtain ⟨rfl, rfl⟩ : code = code' ∧ s' = t := by simpa using hrun.symm.trans ht
  have hstep : CallStep s c s' := ⟨ha, code, hrun⟩
  have hedits := callStep_edits h.wellFormed hstep
  obtain ⟨hw', hx'⟩ := hedits.invariant plainParents_edit h.wellFormed h.plain
  obtain ⟨-, hslots'⟩ := hedits.invariant plainSlots_edit h.wellFormed h.slots
  rw [hm'] at hstays ⊢
  obtain ⟨d', hd'⟩ := hrep.folder_exists hstays
  exact ⟨rfl, hrep, hw', hx', hslots', call_folderPath h.wellFormed ha hrun h.workDir hd',
    h.workDirName⟩

end Calls

section Commands

variable {s s' : FileSystem} {m : Contents} {dir : Dir} {d : Nat} {state state' : ShellState}
  {name path src dest : List UInt8}

theorem request_names (hw : WellFormed s) (hd : Fat32.FolderPath s rootClusterNumber dir d)
    (name : Name) (ext : Ext) : Names s (request name ext d) dir (name, ext) := by
  have hparent : (request name ext d).parent = d := by
    have hrange := hw.dir_range (hd.reach reach_root)
    exact UInt32.toNat_ofNat_of_lt' (by simp only [UInt32.size]; omega)
  exact ⟨hparent.symm ▸ hd, rfl⟩

theorem cd_refines (h : OnMap state s dir m) (hrun : cd state s name = .ok state') :
    OnMap state' s (PathShell.cd m dir name) m := by
  obtain ⟨rows, hrows, hrun⟩ := bind_ok hrun
  obtain ⟨found, hloop, hfound⟩ := bind_ok hrun
  obtain ⟨behind, hsplit⟩ := strsplit_behind hrows
  have hcomps : ∀ row ∈ components name, row ≠ [] := fun row hr =>
    by simpa using List.mem_takeWhile_imp hr
  rw [hsplit] at hloop
  by_cases hfit : EditsFit s (state.workDir, state.workDirName) (components name)
  · rw [cdLoop_enters hcomps hfit] at hloop
    have hfst := foldlM_fst (s := s) (components name) state.workDir state.workDirName
    rw [PathShell.cd]
    rcases enters_refine h.represents h.wellFormed h.plain h.workDir (components name) with
      ⟨hdir, hc⟩ | ⟨dir', c, hdir, hc, hd⟩
    · rw [hc, Option.map_eq_none_iff] at hfst
      rw [hfst] at hloop
      cases hloop
      cases hfound
      rwa [hdir]
    · rw [hc] at hfst
      obtain ⟨⟨c', path'⟩, hpath, rfl⟩ := Option.map_eq_some_iff.mp hfst
      rw [hpath] at hloop
      have hshort : path'.length < 256 :=
        hfit (components name).length c' path' (by rwa [List.take_length])
      -- Behind the components is an empty row, which ends the loop, or none, where the loop goes
      -- on out of the array.
      rcases strsplit_components hrows with ⟨-, behind', hbehind⟩ | ⟨-, hnone⟩
      · obtain rfl : behind = [] :: behind' := List.append_cancel_left (hsplit.symm.trans hbehind)
        cases hloop
        cases hfound
        rw [hdir]
        exact ⟨h.represents, h.wellFormed, h.plain, h.slots, hd, hshort⟩
      · obtain rfl : behind = [] :=
          List.append_cancel_left (hsplit.symm.trans (hnone.trans (List.append_nil _).symm))
        cases hloop
  · rw [cdLoop_overflows hcomps h.workDirName hfit] at hloop
    cases hloop

theorem mkdir_refines (h : OnMap state s dir m)
    (hroom : HasRoom s (request (toName name) noExt state.workDir))
    (hrun : mkdir state s name = .ok s') : OnMap state s' dir (PathShell.mkdir m dir name) := by
  rw [mkdir] at hrun
  rw [PathShell.mkdir]
  by_cases hlen : 8 < name.length
  · rw [if_pos hlen] at hrun
    cases hrun
    rwa [if_pos (.inl hlen)]
  by_cases hdot : dot ∈ name
  · rw [if_neg hlen, if_pos (List.contains_iff_mem.mpr hdot)] at hrun
    cases hrun
    rwa [if_pos (.inr hdot)]
  rw [if_neg hlen, if_neg (by simpa using hdot)] at hrun
  rw [if_neg (not_or.mpr ⟨hlen, hdot⟩)]
  obtain ⟨⟨code, t⟩, hwrite, ht⟩ := bind_ok hrun
  cases ht
  have hn := request_names h.wellFormed h.workDir (toName name) noExt
  have hstays : (TreeOp.runWrite m dir (toName name, noExt) .folder).2 dir = some .folder :=
    TreeOp.runWrite_kept (h.represents.folder h.workDir)
  exact (h.call (.write (request (toName name) noExt state.workDir))
    (.write dir (toName name, noExt) .folder) ⟨hn.1.reach reach_root, hroom⟩ ⟨hn, rfl⟩ hstays
    hwrite).2

theorem kindCode_missing {node : Option (Node (List UInt8))} (h : kindCode node ≠ 0)
    (h' : kindCode node ≠ 1) : node = none := by
  rcases node with _ | ⟨_ | bytes⟩
  · rfl
  · exact absurd rfl h'
  · exact absurd rfl h

theorem kindCode_folder {node : Option (Node (List UInt8))} (h : kindCode node = 1) :
    node = some .folder := by
  rcases node with _ | ⟨_ | bytes⟩
  · cases h
  · rfl
  · cases h

theorem kindCode_file {node : Option (Node (List UInt8))} (h : kindCode node = 0) :
    ∃ bytes, node = some (.file bytes) := by
  rcases node with _ | ⟨_ | bytes⟩
  · cases h
  · cases h
  · exact ⟨bytes, rfl⟩

theorem kindCode_cases (node : Option (Node (List UInt8))) :
    kindCode node = 0 ∨ kindCode node = 1 ∨ kindCode node = 2 := by
  rcases node with _ | ⟨_ | bytes⟩ <;> simp [kindCode]

theorem rm_refines (h : OnMap state s dir m)
    (hstays : PathShell.rm m dir path dir = some .folder) (hrun : rm state s path = .ok s') :
    OnMap state s' dir (PathShell.rm m dir path) := by
  obtain ⟨r, hr, hrun⟩ := bind_ok hrun
  have hanswers := resolve_refines h.represents h.wellFormed h.plain h.workDir hr
  rw [PathShell.rm] at hstays ⊢
  generalize target m dir path = found at hanswers hstays ⊢
  cases hanswers with
  | none hcode =>
    rw [if_pos (by omega)] at hrun
    cases hrun
    exact h
  | @some parent name r hparent hname hcode _ =>
    by_cases hk : r.code ≠ 0 ∧ r.code ≠ 1
    · rw [if_pos hk] at hrun
      cases hrun
      rw [hcode] at hk
      simpa only [TreeOp.runDelete, kindCode_missing hk.1 hk.2] using h
    · rw [if_neg hk] at hrun
      obtain ⟨⟨code, t⟩, hdelete, ht⟩ := bind_ok hrun
      cases ht
      have hn := request_names h.wellFormed hparent r.filename r.ext
      rw [← hname] at hn
      exact (h.call (.delete (request r.filename r.ext r.parentCluster)) (.delete parent name)
        (hn.1.reach reach_root) hn hstays hdelete).2

theorem rmRec_refines (h : OnMap state s dir m)
    (hstays : PathShell.rmRec m dir path dir = some .folder)
    (hrun : rmRec state s path = .ok s') : OnMap state s' dir (PathShell.rmRec m dir path) := by
  obtain ⟨r, hr, hrun⟩ := bind_ok hrun
  have hanswers := resolve_refines h.represents h.wellFormed h.plain h.workDir hr
  rw [PathShell.rmRec] at hstays ⊢
  generalize target m dir path = found at hanswers hstays ⊢
  cases hanswers with
  | none hcode =>
    rw [if_pos (by omega)] at hrun
    cases hrun
    exact h
  | @some parent name r hparent hname hcode _ =>
    by_cases hk : r.code ≠ 1
    · rw [if_pos hk] at hrun
      cases hrun
      rw [hcode] at hk
      dsimp only
      split
      · next hm => simp [hm, kindCode] at hk
      · exact h
    · rw [if_neg hk] at hrun
      rw [not_not, hcode] at hk
      have hm := kindCode_folder hk
      simp only [hm] at hstays ⊢
      obtain ⟨⟨code, t⟩, hdelete, ht⟩ := bind_ok hrun
      cases ht
      -- The request has no extension, whatever the path had.
      have hn := request_names h.wellFormed hparent r.filename noExt
      rw [hname] at hstays ⊢
      exact (h.call (.deleteFolderRec (request r.filename noExt r.parentCluster))
        (.deleteTree parent (r.filename, noExt)) (hn.1.reach reach_root) hn hstays hdelete).2

/-- The two requests of a copy, and the paths that they name. -/
structure Copies (s : FileSystem) (m : Contents) (dir : Dir) (src dest : List UInt8)
    (source destination : Resolved) (parent : Dir) (name : Name × Ext)
    (place : Dir × (Name × Ext)) : Prop where
  sourceNames : Names s (request source.filename source.ext source.parentCluster) parent name
  targetNames : Names s (fileTarget source destination) place.1 place.2
  file : ∃ bytes, m (parent ++ [name]) = some (.file bytes)
  copied : PathShell.copied m dir src dest =
    some ((TreeOp.runCopy m (parent ++ [name]) place.1 place.2).1,
      (TreeOp.runCopy m (parent ++ [name]) place.1 place.2).2, parent ++ [name])

theorem copies_of_resolved (h : OnMap state s dir m) {source destination : Resolved}
    (hsrc : getCurrAndParentCluster s src state.workDir = .ok source)
    (hdest : getCurrAndParentCluster s dest state.workDir = .ok destination)
    (hfile : source.code = 0)
    (hfound : ¬ (destination.code = 3 ∨ destination.code = 4 ∨ destination.code = 5)) :
    ∃ parent name place, Copies s m dir src dest source destination parent name place := by
  have hsource := resolve_refines h.represents h.wellFormed h.plain h.workDir hsrc
  have hdestination := resolve_refines h.represents h.wellFormed h.plain h.workDir hdest
  generalize htarget : target m dir src = found at hsource
  generalize htarget' : target m dir dest = found' at hdestination
  cases hsource with
  | none hcode => omega
  | @some parent name source hparent hname hcode _ =>
    cases hdestination with
    | none hcode' => exact absurd hcode' hfound
    | @some parent' name' destination hparent' hname' hcode' hfolder' =>
      obtain ⟨bytes, hm⟩ := kindCode_file (hcode.symm.trans hfile)
      have hn := request_names h.wellFormed hparent source.filename source.ext
      rw [← hname] at hn
      refine ⟨parent, name, PathShell.place m name parent' name', hn, ?_, ⟨bytes, hm⟩, ?_⟩
      · rw [fileTarget, PathShell.place]
        by_cases hk : destination.code = 1
        · have hm' := kindCode_folder (hcode'.symm.trans hk)
          rw [if_pos hk, hm', hname]
          exact request_names h.wellFormed (hfolder' hm') _ _
        · rw [if_neg hk]
          have hother : m (parent' ++ [name']) ≠ some .folder := by
            intro hm'
            rw [hm', kindCode] at hcode'
            exact hk hcode'
          have hn' := request_names h.wellFormed hparent' destination.filename destination.ext
          rw [← hname'] at hn'
          split
          · next hm' => exact absurd hm' hother
          · exact hn'
      · simp only [PathShell.copied, htarget, htarget', hm]

theorem copy_refines (h : OnMap state s dir m) {source destination : Resolved} {parent : Dir}
    {name : Name × Ext} {place : Dir × (Name × Ext)}
    (hc : Copies s m dir src dest source destination parent name place)
    (hroom : HasRoomForCopy s (request source.filename source.ext source.parentCluster)
      (fileTarget source destination)) {code : Int}
    (hrun : copyFile s (request source.filename source.ext source.parentCluster)
      (fileTarget source destination) = .ok (code, s')) :
    (TreeOp.runCopy m (parent ++ [name]) place.1 place.2).1 = code ∧
      OnMap state s' dir (TreeOp.runCopy m (parent ++ [name]) place.1 place.2).2 ∧
      Names s' (request source.filename source.ext source.parentCluster) parent name := by
  have hs := hc.sourceNames.1.reach reach_root
  have hd := hc.targetNames.1.reach reach_root
  have hfinds := copyFileFinds_of_room h.wellFormed hs hd hroom
  have hkeeps := copyFile_keeps h.wellFormed.loose hs hd hfinds hrun
  obtain ⟨hcode, hshows⟩ := h.call (.copyFile _ _) (.copy parent name place.1 place.2)
    ⟨hs, hd, hroom⟩ ⟨hc.sourceNames, hc.targetNames⟩
    (TreeOp.runCopy_kept (h.represents.folder h.workDir)) hrun
  exact ⟨hcode, hshows, Keeps.folderPath hkeeps reach_root hc.sourceNames.1, hc.sourceNames.2⟩

/-- There is room for what a copy of a file writes. -/
def RoomForCopy (state : ShellState) (s : FileSystem) (src dest : List UInt8) : Prop :=
  ∀ source destination, getCurrAndParentCluster s src state.workDir = .ok source →
    getCurrAndParentCluster s dest state.workDir = .ok destination →
    HasRoomForCopy s (request source.filename source.ext source.parentCluster)
      (fileTarget source destination)

/-- Nothing is copied on the map where nothing is copied on the disk. -/
theorem copied_none (h : OnMap state s dir m) {source : Resolved}
    (hsrc : getCurrAndParentCluster s src state.workDir = .ok source)
    (hnone : source.code ≠ 0 ∨ ∃ destination,
      getCurrAndParentCluster s dest state.workDir = .ok destination ∧
        (destination.code = 3 ∨ destination.code = 4 ∨ destination.code = 5)) :
    PathShell.copied m dir src dest = none := by
  rcases hnone with hcode | ⟨destination, hdest, hcode⟩
  · have hsource := resolve_refines h.represents h.wellFormed h.plain h.workDir hsrc
    generalize htarget : target m dir src = found at hsource
    cases hsource with
    | none => simp only [PathShell.copied, htarget]
    | @some parent name source hparent hname hkind _ =>
      rw [hkind] at hcode
      cases htarget' : target m dir dest with
      | none => simp only [PathShell.copied, htarget, htarget']
      | some found' =>
        rcases hm : m (parent ++ [name]) with _ | ⟨_ | bytes⟩
        · simp only [PathShell.copied, htarget, htarget', hm]
        · simp only [PathShell.copied, htarget, htarget', hm]
        · exact absurd (congrArg kindCode hm) hcode
  · have hdestination := resolve_refines h.represents h.wellFormed h.plain h.workDir hdest
    generalize htarget' : target m dir dest = found' at hdestination
    cases hdestination with
    | none => cases htarget : target m dir src <;> simp only [PathShell.copied, htarget, htarget']
    | @some parent' name' destination hparent' hname' hkind' _ =>
      have hkinds := kindCode_cases (m (parent' ++ [name']))
      omega

theorem cp_refines (h : OnMap state s dir m) (hroom : RoomForCopy state s src dest)
    (hrun : cp state s src dest = .ok s') : OnMap state s' dir (PathShell.cp m dir src dest) := by
  obtain ⟨source, hsrc, hrun⟩ := bind_ok hrun
  rw [PathShell.cp]
  by_cases hfile : source.code ≠ 0
  · rw [if_pos hfile] at hrun
    cases hrun
    rwa [copied_none h hsrc (.inl hfile)]
  rw [if_neg hfile] at hrun
  obtain ⟨destination, hdest, hrun⟩ := bind_ok hrun
  by_cases hlost : destination.code = 3 ∨ destination.code = 4 ∨ destination.code = 5
  · rw [if_pos hlost] at hrun
    cases hrun
    rwa [copied_none h hsrc (.inr ⟨destination, hdest, hlost⟩)]
  rw [if_neg hlost] at hrun
  obtain ⟨⟨code, t⟩, hcopy, ht⟩ := bind_ok hrun
  cases ht
  obtain ⟨parent, name, place, hc⟩ :=
    copies_of_resolved h hsrc hdest (not_not.mp hfile) hlost
  rw [hc.copied]
  exact (copy_refines h hc (hroom source destination hsrc hdest) hcopy).2.1

/-- The source of `mv` is not a folder. -/
def MovesNoFolder (state : ShellState) (s : FileSystem) (src : List UInt8) : Prop :=
  ∀ source, getCurrAndParentCluster s src state.workDir = .ok source → source.code ≠ 1

theorem mv_refines (h : OnMap state s dir m) (hroom : RoomForCopy state s src dest)
    (hno : MovesNoFolder state s src)
    (hrun : mv state s src dest = .ok s') : OnMap state s' dir (PathShell.mv m dir src dest) := by
  obtain ⟨source, hsrc, hrun⟩ := bind_ok hrun
  rw [PathShell.mv]
  have hnf := hno source hsrc
  by_cases hfile : source.code ≠ 0
  · rw [if_pos ⟨hfile, hnf⟩] at hrun
    cases hrun
    rwa [copied_none h hsrc (.inl hfile)]
  rw [if_neg fun hk => hfile hk.1] at hrun
  obtain ⟨destination, hdest, hrun⟩ := bind_ok hrun
  by_cases hlost : destination.code = 3 ∨ destination.code = 4 ∨ destination.code = 5
  · rw [if_pos hlost] at hrun
    cases hrun
    rwa [copied_none h hsrc (.inr ⟨destination, hdest, hlost⟩)]
  rw [if_neg hlost, if_pos (not_not.mp hfile)] at hrun
  obtain ⟨⟨code, t⟩, hcopy, hrun⟩ := bind_ok hrun
  obtain ⟨parent, name, place, hc⟩ :=
    copies_of_resolved h hsrc hdest (not_not.mp hfile) hlost
  rw [hc.copied]
  obtain ⟨hcode, h₁, hn⟩ := copy_refines h hc (hroom source destination hsrc hdest) hcopy
  dsimp only at hrun ⊢
  by_cases hres : code ≠ 0
  · rw [if_pos hres] at hrun
    cases hrun
    rwa [if_pos (hcode ▸ hres)]
  rw [if_neg hres] at hrun
  rw [if_neg (hcode ▸ hres)]
  obtain ⟨⟨code', t'⟩, hdelete, ht⟩ := bind_ok hrun
  cases ht
  obtain ⟨bytes, hm⟩ := hc.file
  obtain ⟨bytes', hm'⟩ := TreeOp.runCopy_file hm place.1 place.2
  exact (h₁.call (.delete _) (.delete parent name) (hn.1.reach reach_root) hn
    (TreeOp.runDelete_file h₁.represents.sound hm' (h₁.represents.folder h₁.workDir)) hdelete).2

end Commands

/-- A command on single files and folders, or one that removes a tree, with room for what it
writes. -/
def Command.Plain (state : ShellState) (s : FileSystem) : Command → Prop
  | .cd _ | .rm _ | .rmRec _ => True
  | .mkdir name => HasRoom s (request (toName name) noExt state.workDir)
  | .cp src dest => RoomForCopy state s src dest
  | .mv src dest => RoomForCopy state s src dest ∧ MovesNoFolder state s src
  | .cpRec _ _ => False

def PlainStep (x : ShellState × FileSystem) (c : Command) (x' : ShellState × FileSystem) : Prop :=
  c.Plain x.1 x.2 ∧ c.run x.1 x.2 = .ok x'

/-- No command takes away the directory that the shell is in. -/
def Stays : Dir × Contents → List Command → Prop
  | _, [] => True
  | x, c :: cs => (PathShell.run x c).2 (PathShell.run x c).1 = some .folder ∧
      Stays (PathShell.run x c) cs

section Sessions

variable {s s' : FileSystem} {m : Contents} {dir : Dir} {state state' : ShellState} {c : Command}
  {cs : List Command}

theorem command_refines (h : OnMap state s dir m) (hs : PlainStep (state, s) c (state', s'))
    (hstays : (PathShell.run (dir, m) c).2 (PathShell.run (dir, m) c).1 = some .folder) :
    OnMap state' s' (PathShell.run (dir, m) c).1 (PathShell.run (dir, m) c).2 := by
  obtain ⟨hplain, hrun⟩ := hs
  cases c with
  | cd name =>
    obtain ⟨t, ht, he⟩ := map_ok hrun
    cases he
    exact cd_refines h ht
  | mkdir name =>
    obtain ⟨t, ht, he⟩ := map_ok hrun
    cases he
    exact mkdir_refines h hplain ht
  | rm filename =>
    obtain ⟨t, ht, he⟩ := map_ok hrun
    cases he
    exact rm_refines h hstays ht
  | rmRec foldername =>
    obtain ⟨t, ht, he⟩ := map_ok hrun
    cases he
    exact rmRec_refines h hstays ht
  | cp src dest =>
    obtain ⟨t, ht, he⟩ := map_ok hrun
    cases he
    exact cp_refines h hplain ht
  | mv src dest =>
    obtain ⟨t, ht, he⟩ := map_ok hrun
    cases he
    exact mv_refines h hplain.1 hplain.2 ht
  | cpRec src dest => exact hplain.elim

theorem commands_refine (h : OnMap state s dir m) {x : ShellState × FileSystem}
    (hrun : Run PlainStep (state, s) cs x) (hstays : Stays (dir, m) cs) :
    OnMap x.1 x.2 (cs.foldl PathShell.run (dir, m)).1 (cs.foldl PathShell.run (dir, m)).2 := by
  induction cs generalizing state s dir m with
  | nil =>
    cases hrun
    exact h
  | cons c cs ih =>
    cases hrun with
    | cons hs hrest => exact ih (command_refines h hs hstays.1) hrest hstays.2

/-- The shell starts on a disk that calls of the driver have made of a new one. -/
theorem onMap_start (root : Name) (disk : Nat → UInt8) {calls : List Call}
    (hcalls : Run CallStep (createFat32 root (boot disk)) calls s) (hm : Represents s m) :
    OnMap initial s [] m := by
  obtain ⟨hw, hx, hslots⟩ : WellFormed s ∧ PlainParents s ∧ PlainSlots s := by
    refine hcalls.invariant (P := fun s => WellFormed s ∧ PlainParents s ∧ PlainSlots s) ?_
      ⟨createFat32_wellFormed root disk, createFat32_plainParents root disk,
        createFat32_plainSlots root disk⟩
    rintro s call s' ⟨hw, hx, hslots⟩ hstep
    have hedits := callStep_edits hw hstep
    exact ⟨(hedits.invariant plainParents_edit hw hx).1,
      (hedits.invariant plainParents_edit hw hx).2, (hedits.invariant plainSlots_edit hw hslots).2⟩
  exact ⟨hm, hw, hx, hslots, .here _, by decide⟩

/-- On every disk that the driver can make, the shell's commands do to the map of paths what their
arguments say, and a path means the same on the disk as on the map. -/
theorem session_refines (root : Name) (disk : Nat → UInt8) {calls : List Call}
    (hcalls : Run CallStep (createFat32 root (boot disk)) calls s) (hm : Represents s m)
    {x : ShellState × FileSystem} (hrun : Run PlainStep (initial, s) cs x)
    (hstays : Stays ([], m) cs) :
    Represents x.2 (cs.foldl PathShell.run ([], m)).2 ∧
      Fat32.FolderPath x.2 rootClusterNumber (cs.foldl PathShell.run ([], m)).1 x.1.workDir ∧
      ∀ path r, getCurrAndParentCluster x.2 path x.1.workDir = .ok r →
        Answers x.2 (cs.foldl PathShell.run ([], m)).2
          (target (cs.foldl PathShell.run ([], m)).2
            (cs.foldl PathShell.run ([], m)).1 path) r := by
  have h := commands_refine (onMap_start root disk hcalls hm) hrun hstays
  exact ⟨h.represents, h.workDir, fun path r hr =>
    resolve_refines h.represents h.wellFormed h.plain h.workDir hr⟩

/-- A disk with a file of one byte. -/
theorem byteDisk : ∃ (s : FileSystem) (m : Contents),
    Run CallStep (createFat32 (fun _ => 0) (boot zeroBytes)) [.write byteRequest] s ∧
      Represents s m ∧ m [(byteRequest.name, byteRequest.ext)] = some (.file [7]) := by
  obtain ⟨s, m, hs, -, hm, hfile⟩ :=
    first_write (fun _ => 0) zeroBytes (show byteRequest.parent = rootClusterNumber from rfl)
      (by decide)
  exact ⟨s, m, hs, hm, hfile⟩

theorem bytePath_resolves (s : FileSystem) : ∃ r,
    getCurrAndParentCluster s bytePath initial.workDir = .ok r ∧
      r.parentCluster = rootClusterNumber := by
  rw [resolve_row (by rfl) (by rfl) (by decide)]
  cases findEntry (readTable s initial.workDir) (toName bytePath) (toExt []) <;>
    exact ⟨_, rfl, rfl⟩

theorem rm_bytePath (hw : WellFormed s) : ∃ s', rm initial s bytePath = .ok s' := by
  obtain ⟨r, hr, hp⟩ := bytePath_resolves s
  have ha : Call.Admissible s (.delete (request r.filename r.ext r.parentCluster)) := by
    rw [hp]
    exact reach_root
  obtain ⟨code, t, ht, -⟩ := call_edits hw ha
  by_cases hcode : r.code ≠ 0 ∧ r.code ≠ 1
  · refine ⟨s, ?_⟩
    simp only [rm, hr, bind, Except.bind, if_pos hcode]
    rfl
  · refine ⟨t, ?_⟩
    simp only [rm, hr, bind, Except.bind, if_neg hcode, show delete s _ = _ from ht]
    rfl

theorem rm_bytePath_stays (h : OnMap initial s [] m) {bytes : List UInt8}
    (hfile : m [(byteRequest.name, byteRequest.ext)] = some (.file bytes)) :
    Stays ([], m) [.rm bytePath] := by
  have htarget : target m [] bytePath = some ([], (byteRequest.name, byteRequest.ext)) := by
    rw [show (byteRequest.name, byteRequest.ext) = (toName bytePath, toExt []) by decide]
    rfl
  refine ⟨?_, trivial⟩
  rw [PathShell.run, PathShell.rm, htarget]
  exact TreeOp.runDelete_file h.represents.sound hfile (h.represents.folder h.workDir)

/-- The file is removed. -/
theorem session_refines_rm : ∃ (s s' : FileSystem) (m : Contents),
    m [(byteRequest.name, byteRequest.ext)] = some (.file [7]) ∧ Represents s m ∧
      Run PlainStep (initial, s) [.rm bytePath] (initial, s') ∧
      Represents s' (PathShell.run ([], m) (.rm bytePath)).2 := by
  obtain ⟨s, m, hcalls, hm, hfile⟩ := byteDisk
  have h := onMap_start (fun _ => 0) zeroBytes hcalls hm
  obtain ⟨s', hs'⟩ := rm_bytePath h.wellFormed
  have hrun : Run PlainStep (initial, s) [.rm bytePath] (initial, s') :=
    .cons ⟨trivial, by rw [Command.run, hs']; rfl⟩ (.nil _)
  exact ⟨s, s', m, hfile, hm, hrun,
    (session_refines (fun _ => 0) zeroBytes hcalls hm hrun (rm_bytePath_stays h hfile)).1⟩

/-- `ls` shows the entries of the working directory of the map, numbered from 1. -/
theorem ls_shows (root : Name) (disk : Nat → UInt8) {calls : List Call}
    (hcalls : Run CallStep (createFat32 root (boot disk)) calls s) (hm : Represents s m)
    {x : ShellState × FileSystem} (hrun : Run PlainStep (initial, s) cs x)
    (hstays : Stays ([], m) cs) : ∃ listing : List ((Name × Ext) × Node (List UInt8)),
    (listing.map Prod.fst).Nodup ∧
      (∀ name node, (name, node) ∈ listing ↔ (cs.foldl PathShell.run ([], m)).2
        ((cs.foldl PathShell.run ([], m)).1 ++ [name]) = some node) ∧
      (ls x.2 x.1).2 = (listing.zipIdx 1).map fun line => shownLine line.1 line.2 := by
  have h := commands_refine (onMap_start root disk hcalls hm) hrun hstays
  have hlive := h.workDir.reach reach_root
  exact ⟨entriesAt x.2 x.1.workDir, entriesAt_names_nodup h.wellFormed hlive,
    fun name node => mem_entriesAt h.represents h.wellFormed h.workDir,
    ls_lines h.wellFormed h.slots hlive⟩

/-- `ls` on a disk with a file. -/
theorem ls_shows_file : ∃ (s : FileSystem) (listing : List ((Name × Ext) × Node (List UInt8))),
    ((byteRequest.name, byteRequest.ext), Node.file [7]) ∈ listing ∧
      (ls s initial).2 = (listing.zipIdx 1).map fun line => shownLine line.1 line.2 := by
  obtain ⟨s, m, hcalls, hm, hfile⟩ := byteDisk
  obtain ⟨listing, -, hmem, hlines⟩ := ls_shows (fun _ => 0) zeroBytes hcalls hm (.nil _) trivial
  exact ⟨s, listing, (hmem _ _).mpr hfile, hlines⟩

end Sessions

end Doors.Shell
