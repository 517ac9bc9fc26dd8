import Doors.MoveSteps

/-! Moving a folder by its paths. The files survive if the new folder is made apart from the
source, is the one that the copy goes to, and the folders of the source have no extensions. -/

namespace Doors.Shell

open PointerTree Fat32 FileSystem

/-- The request that `mv` makes for the new folder. -/
def targetRequest (target : Resolved) : Request :=
  request target.filename target.ext target.parentCluster

/-- A source path that leads to a folder and a target path, with room for the copy. -/
structure FolderMove (state : ShellState) (s : FileSystem) (src dest : List UInt8)
    (source target : Resolved) (sp tp : List (Name × Ext)) : Prop where
  wellFormed : WellFormed s
  workDir : LiveDir s state.workDir
  resolves : getCurrAndParentCluster s src state.workDir = .ok source
  folder : source.code = 1
  leads : getCurrAndParentCluster s dest state.workDir = .ok target
  sourcePath : FolderPath s rootClusterNumber sp source.parentCluster
  targetPath : FolderPath s rootClusterNumber tp target.parentCluster
  slot : target.code = 2 → ∃ j : Fin entryCount, 2 ≤ j.val ∧ ¬ LiveSlot s target.parentCluster j
  room : (subtreeClusters s source.currentCluster).ncard + 1 ≤ s.freeClusters.length

/-- `mv` refuses, or the new folder is apart from the source and takes all of the copy. -/
def MovesSafely (s : FileSystem) (source target : Resolved) : Prop :=
  target.code ≠ 1 ∧ target.code ≠ 2 ∨
    ¬ Below (folderChild s) source.currentCluster target.parentCluster ∧
    (target.code = 1 → ¬ Below (folderChild s) target.currentCluster source.currentCluster) ∧
    PlainBelow s source.currentCluster ∧ NameFirst s (targetRequest target)

section Resolve

variable {s : FileSystem} {path : List UInt8} {d : Nat} {r : Resolved}

theorem resolved_folder (hw : WellFormed s) (hd : LiveDir s d)
    (h : getCurrAndParentCluster s path d = .ok r) (hcode : r.code = 1) :
    LiveDir s r.parentCluster ∧ ∃ i, folderChild s r.parentCluster i = some r.currentCluster ∧
      entryName (s.table r.parentCluster i) = (r.filename, r.ext) := by
  obtain ⟨hp, hfail | ⟨hcode', -⟩ | ⟨i, hi, hname, hext, hc, hkind⟩⟩ := resolved_cases hw hd h
  · omega
  · omega
  · refine ⟨hp, i, folderChild_eq_some.mpr ⟨hi, ?_, hc⟩, Prod.ext hname hext⟩
    by_contra hk
    rw [if_neg hk, hcode] at hkind
    cases hkind

theorem findEntry_absent {name : Name} {ext : Ext}
    (h : findEntry (readTable s d) name ext = none) (i : Fin entryCount) :
    ¬ EntryAt s d name ext i := by
  rintro ⟨hl, rfl, rfl⟩
  have hnone := List.find?_eq_none.mp (Option.map_eq_none_iff.mp h) i
    (mem_slotsFrom.mpr (Nat.le_of_succ_le hl.1))
  have hit : readTable s d i = s.table d i := rfl
  simp [hit, hl.2] at hnone

theorem resolved_absent (hw : WellFormed s) (hd : LiveDir s d)
    (h : getCurrAndParentCluster s path d = .ok r) (hcode : r.code = 2) :
    LiveDir s r.parentCluster ∧ ∀ i, ¬ EntryAt s r.parentCluster r.filename r.ext i := by
  obtain ⟨hp, hfail | ⟨-, hnone⟩ | ⟨i, -, -, -, -, hkind⟩⟩ := resolved_cases hw hd h
  · omega
  · exact ⟨hp, findEntry_absent hnone⟩
  · split at hkind <;> omega

end Resolve

section Unfold

variable {state : ShellState} {s s₁ : FileSystem} {src dest : List UInt8}
  {source target : Resolved}

theorem mv_refused (hs : getCurrAndParentCluster s src state.workDir = .ok source)
    (hsc : source.code = 1) (ht : getCurrAndParentCluster s dest state.workDir = .ok target)
    (hcode : target.code = 0 ∨ target.code = 3 ∨ target.code = 4 ∨ target.code = 5) :
    mv state s src dest = .ok s := by
  simp only [mv, bind, Except.bind, hs, ht, hsc]
  rcases hcode with hcode | hcode | hcode | hcode <;> rw [hcode] <;> rfl

theorem mv_absent (hs : getCurrAndParentCluster s src state.workDir = .ok source)
    (hsc : source.code = 1) (ht : getCurrAndParentCluster s dest state.workDir = .ok target)
    (hcode : target.code = 2) : mv state s src dest =
      moveInto s (targetRequest target) (sourceRequest source) source.currentCluster := by
  simp only [mv, bind, Except.bind, hs, ht, hsc, hcode]
  rfl

theorem mv_existing (hs : getCurrAndParentCluster s src state.workDir = .ok source)
    (hsc : source.code = 1) (ht : getCurrAndParentCluster s dest state.workDir = .ok target)
    (hcode : target.code = 1) (hdelete : deleteFolderRec s (targetRequest target) = .ok (0, s₁)) :
    mv state s src dest =
      moveInto s₁ (targetRequest target) (sourceRequest source) source.currentCluster := by
  simp only [targetRequest] at hdelete
  simp only [mv, moveFolder, bind, Except.bind, hs, ht, hsc, hcode, decide_true, if_true, hdelete]
  rfl

end Unfold

section Outcome

variable {state : ShellState} {s : FileSystem} {src dest : List UInt8} {source target : Resolved}
  {sp tp : List (Name × Ext)}

/-- `mv` ends, and every file of the source is then at its old path or at its new one. -/
def KeepsFiles (state : ShellState) (s : FileSystem) (src dest : List UInt8)
    (source target : Resolved) (sp tp : List (Name × Ext)) : Prop :=
  ∃ s', mv state s src dest = .ok s' ∧ FilesKept s s' source.currentCluster
    (sp ++ [(source.filename, source.ext)]) (tp ++ [(target.filename, target.ext)])

/-- There is a file below `d`. -/
def HasFile (s : FileSystem) (d : Nat) : Prop := ∃ path name bytes, FileAt s d path name bytes

/-- There is a file below `a`, and below each folder there that has an extension. -/
structure Populated (s : FileSystem) (a : Nat) : Prop where
  file : HasFile s a
  folders : ∀ d i c, Below (folderChild s) a d → folderChild s d i = some c →
    (s.table d i).ext ≠ noExt → HasFile s c

namespace FolderMove

theorem slotOf (h : FolderMove state s src dest source target sp tp) :
    ∃ i, MoveSource s (sourceRequest source) source.parentCluster i source.currentCluster ∧
      entryName (s.table source.parentCluster i) = (source.filename, source.ext) := by
  obtain ⟨hp, i, hi, hname⟩ := resolved_folder h.wellFormed h.workDir h.resolves h.folder
  refine ⟨i, ⟨hp, hi, ?_, request_parent h.wellFormed.loose hp⟩, hname⟩
  obtain ⟨hn, hx⟩ := Prod.mk.inj hname
  exact FAT32DriverRequest.names_iff.mpr ⟨hn, hx⟩

/-- The state in which the new folder is made, with what is gone by then. -/
theorem cleared (h : FolderMove state s src dest source target sp tp)
    (hcode : target.code = 1 ∨ target.code = 2) : ∃ s₁ gone,
      mv state s src dest =
        moveInto s₁ (targetRequest target) (sourceRequest source) source.currentCluster ∧
      (targetRequest target).parent = target.parentCluster ∧
      Cleared s s₁ (targetRequest target) gone ∧
      (∀ d, gone d ↔ target.code = 1 ∧ Below (folderChild s) target.currentCluster d) ∧
      ¬ gone target.parentCluster ∧
      ∃ j : Fin entryCount, 2 ≤ j.val ∧ ¬ LiveSlot s₁ (targetRequest target).parent j := by
  have hw := h.wellFormed
  rcases hcode with hcode | hcode
  · obtain ⟨hp, j, hj, hname⟩ := resolved_folder hw h.workDir h.leads hcode
    have hparent : (targetRequest target).parent = target.parentCluster :=
      request_parent hw.loose hp
    obtain ⟨hn, hx⟩ := Prod.mk.inj hname
    have hnames : (targetRequest target).names (s.table target.parentCluster j) = true :=
      FAT32DriverRequest.names_iff.mpr ⟨hn, hx⟩
    have hl := (folderChild_eq_some.mp hj).1
    rw [← hparent] at hp hj hnames
    obtain ⟨s₁, hdelete, hpr⟩ := deleteFolderRec_folder hw hp hj hnames
    have hc := Cleared.of_pruned hw hj hnames hpr
    refine ⟨s₁, _, mv_existing h.resolves h.folder h.leads hcode hdelete, hparent, hc,
      fun d => (and_iff_right hcode).symm, ?_, j, hl.1, hc.dead fun _ => hnames⟩
    rw [← hparent]
    exact not_below_child hw.tree hp hj
  · obtain ⟨hp, hnone⟩ := resolved_absent hw h.workDir h.leads hcode
    have hparent : (targetRequest target).parent = target.parentCluster :=
      request_parent hw.loose hp
    have hclash : ¬ Clash s (targetRequest target) := by
      rintro ⟨i, hi, hn⟩
      rw [hparent] at hi hn
      obtain ⟨hn, hx⟩ := FAT32DriverRequest.names_iff.mp hn
      exact hnone i ⟨hi, hn, hx⟩
    obtain ⟨j, hj, hdead⟩ := h.slot hcode
    have hc : Cleared s s (targetRequest target) fun _ => False :=
      .of_absent hw (by rwa [hparent]) hclash fun _ => id
    refine ⟨s, _, mv_absent h.resolves h.folder h.leads hcode, hparent, hc, fun d => ?_, id, j, hj,
      by rwa [hparent]⟩
    simp [hcode]

theorem refused (h : FolderMove state s src dest source target sp tp)
    (hcode : target.code ≠ 1 ∧ target.code ≠ 2) : mv state s src dest = .ok s := by
  refine mv_refused h.resolves h.folder h.leads ?_
  obtain ⟨-, hfail | ⟨htwo, -⟩ | ⟨i, -, -, -, -, hkind⟩⟩ :=
    resolved_cases h.wellFormed h.workDir h.leads
  · exact .inr hfail
  · exact absurd htwo hcode.2
  · split at hkind
    · exact absurd hkind hcode.1
    · exact .inl hkind

theorem clusters (h : FolderMove state s src dest source target sp tp) :
    FileTree.clustersAll (listing s clusterMapSize source.currentCluster) + 1 ≤
      s.freeClusters.length := by
  obtain ⟨i, hsrc, -⟩ := h.slotOf
  have hle := clustersAll_le h.wellFormed clusterMapSize (hsrc.liveDir.step hsrc.child)
  have hroom := h.room
  omega

theorem keeps (h : FolderMove state s src dest source target sp tp)
    (hsafe : MovesSafely s source target) : KeepsFiles state s src dest source target sp tp := by
  obtain ⟨i, hsrc, hname⟩ := h.slotOf
  by_cases hcode : target.code = 1 ∨ target.code = 2
  · obtain ⟨hout, hnot, hplain, hfirst⟩ := hsafe.resolve_left fun hno => by omega
    obtain ⟨s₁, gone, hmv, hparent, hc, hgone, hq, j, hj, hdead⟩ := h.cleared hcode
    have hgonea : ¬ gone source.currentCluster := fun hg =>
      hnot ((hgone _).mp hg).1 ((hgone _).mp hg).2
    rw [← hparent] at hout hq
    obtain ⟨k, hready⟩ := hc.ready hsrc hgonea rfl hj hdead hout hplain hfirst h.clusters
    obtain ⟨s', hrun, hkept⟩ := moveInto_keeps h.wellFormed hsrc hc hready hgonea hq hout
      (by rw [hparent]; exact h.targetPath)
    rw [hname] at hkept
    exact ⟨s', hmv.trans hrun, hkept⟩
  · refine ⟨s, h.refused (not_or.mp hcode), fun path name bytes hf => .inl ?_⟩
    rw [← hname]
    exact hf.below (h.sourcePath.append (.single hsrc.child))

theorem freed (h : FolderMove state s src dest source target sp tp) {s₁ : FileSystem}
    {gone : Nat → Prop} (hc : Cleared s s₁ (targetRequest target) gone) :
    1 ≤ s₁.freeClusters.length := by
  have hroom := h.room
  have hmore := hc.room
  omega

theorem gone_dead (h : FolderMove state s src dest source target sp tp) (hcode : target.code = 1)
    (hb : Below (folderChild s) target.currentCluster source.currentCluster) {s' : FileSystem}
    (hrun : mv state s src dest = .ok s') (path : List (Name × Ext)) (name : Name × Ext)
    (bytes : List UInt8) : ¬ FileAt s' rootClusterNumber
      (tp ++ [(target.filename, target.ext)] ++ path) name bytes := by
  obtain ⟨i, hsrc, -⟩ := h.slotOf
  obtain ⟨s₁, gone, hmv, hparent, hc, hgone, hq, j, hj, hdead⟩ := h.cleared (.inl hcode)
  exact moveInto_gone h.wellFormed (by rw [hsrc.parent]; exact hsrc.liveDir)
    (hsrc.liveDir.step hsrc.child) hc ((hgone _).mpr ⟨hcode, hb⟩) (by rwa [hparent]) rfl hj hdead
    (h.freed hc) (by rw [hparent]; exact h.targetPath) (hmv.symm.trans hrun)

theorem not_gone (h : FolderMove state s src dest source target sp tp)
    (hfile : HasFile s source.currentCluster)
    (hkeeps : KeepsFiles state s src dest source target sp tp) (hcode : target.code = 1) :
    ¬ Below (folderChild s) target.currentCluster source.currentCluster := by
  intro hb
  obtain ⟨i, hsrc, hname⟩ := h.slotOf
  obtain ⟨path, name, bytes, hf⟩ := hfile
  obtain ⟨s', hrun, hkept⟩ := hkeeps
  have hlost := h.gone_dead hcode hb hrun
  rcases hkept path name bytes hf with hold | hnew
  · -- the old path goes through the old target
    obtain ⟨-, k, hk, htarget⟩ := resolved_folder h.wellFormed h.workDir h.leads hcode
    obtain ⟨rest, hrest⟩ := Descends.of_below hb
    have hvia := (h.targetPath.append (.single hk)).append hrest
    have hpath := (h.sourcePath.append (.single hsrc.child)).path_unique h.wellFormed.tree hvia
    rw [hname, htarget] at hpath
    rw [hpath, List.append_assoc] at hold
    exact hlost _ name bytes hold
  · exact hlost path name bytes hnew

/-- A folder moved to its own path is gone with all its files, and `mv` ends. -/
theorem onto_itself {s : FileSystem} (h : FolderMove state s src dest source source sp sp) :
    ∃ s', mv state s src dest = .ok s' ∧ ∀ path name bytes, ¬ FileAt s' rootClusterNumber
      (sp ++ [(source.filename, source.ext)] ++ path) name bytes := by
  obtain ⟨i, hsrc, -⟩ := h.slotOf
  obtain ⟨s₁, gone, hmv, hparent, hc, hgone, -, j, hj, hdead⟩ := h.cleared (.inl h.folder)
  have ha := hsrc.liveDir.step hsrc.child
  obtain ⟨copied, t, k, c, hcopy, hwt, hmade, -⟩ := copyInto_freed_source hc.wellFormed hc.parent
    rfl hc.fresh hj hdead (h.freed hc) (h.wellFormed.dir_range ha).2
    (hc.freed _ ha ((hgone _).mpr ⟨h.folder, .refl⟩))
  obtain ⟨hn, hx⟩ := Prod.mk.inj hmade.name
  obtain ⟨s', hdelete, -⟩ := deleteFolderRec_folder hwt (hmade.kept.liveDir hc.parent) hmade.child
    (FAT32DriverRequest.names_iff.mpr ⟨hn, hx⟩)
  have hends : ∃ s', mv state s src dest = .ok s' := by
    rw [hmv]
    cases copied with
    | false => exact ⟨t, by simp only [moveInto, bind, Except.bind, hcopy]; rfl⟩
    | true =>
      refine ⟨s', ?_⟩
      simp only [targetRequest] at hdelete
      simp only [moveInto, bind, Except.bind, hcopy, sourceRequest, hdelete]
      rfl
  obtain ⟨s', hrun⟩ := hends
  exact ⟨s', hrun, h.gone_dead h.folder .refl hrun⟩

theorem source_dead (h : FolderMove state s src dest source target sp tp)
    (hcode : target.code = 1 ∨ target.code = 2)
    (hnot : target.code = 1 → ¬ Below (folderChild s) target.currentCluster source.currentCluster)
    {s' : FileSystem} (hrun : mv state s src dest = .ok s') (rest : List (Name × Ext)) (x : Nat) :
    ¬ FolderPath s' rootClusterNumber (sp ++ [(source.filename, source.ext)] ++ rest) x := by
  obtain ⟨i, hsrc, hname⟩ := h.slotOf
  obtain ⟨s₁, gone, hmv, -, hc, hgone, -, j, hj, hdead⟩ := h.cleared hcode
  have hgonea : ¬ gone source.currentCluster := fun hg =>
    hnot ((hgone _).mp hg).1 ((hgone _).mp hg).2
  rw [List.append_assoc, List.singleton_append, ← hname]
  exact moveInto_source hsrc hc hgonea rfl hj hdead (h.freed hc) h.sourcePath
    (hmv.symm.trans hrun)

theorem not_inside (h : FolderMove state s src dest source target sp tp)
    (hcode : target.code = 1 ∨ target.code = 2)
    (hnot : target.code = 1 → ¬ Below (folderChild s) target.currentCluster source.currentCluster)
    (hfile : HasFile s source.currentCluster)
    (hkeeps : KeepsFiles state s src dest source target sp tp) :
    ¬ Below (folderChild s) source.currentCluster target.parentCluster := by
  intro hb
  obtain ⟨i, hsrc, hname⟩ := h.slotOf
  obtain ⟨path, name, bytes, hf⟩ := hfile
  obtain ⟨s', hrun, hkept⟩ := hkeeps
  have hdead := h.source_dead hcode hnot hrun
  rcases hkept path name bytes hf with ⟨x, -, -, hx, -⟩ | ⟨x, -, -, hx, -⟩
  · exact hdead path x hx
  · -- the new path goes through the source
    obtain ⟨rest, hrest⟩ := Descends.of_below hb
    have hvia := (h.sourcePath.append (.single hsrc.child)).append hrest
    rw [h.targetPath.path_unique h.wellFormed.tree hvia, hname] at hx
    simp only [List.append_assoc] at hx hdead
    exact hdead _ x hx

/-- Where the new folder is apart from the source, a file that is left tells that the copy went
to it, along folders without extensions. -/
theorem file_tells (h : FolderMove state s src dest source target sp tp)
    (hcode : target.code = 1 ∨ target.code = 2)
    (hnot : target.code = 1 → ¬ Below (folderChild s) target.currentCluster source.currentCluster)
    (hout : ¬ Below (folderChild s) source.currentCluster target.parentCluster)
    (hbeside : SourceBeside s (targetRequest target) source.currentCluster)
    (hkeeps : KeepsFiles state s src dest source target sp tp) {path : List (Name × Ext)}
    {name : Name × Ext} {bytes : List UInt8} (hf : FileAt s source.currentCluster path name bytes) :
    NameFirst s (targetRequest target) ∧ ∀ n ∈ path, n.2 = noExt := by
  obtain ⟨i, hsrc, -⟩ := h.slotOf
  obtain ⟨s', hrun, hkept⟩ := hkeeps
  rcases hkept path name bytes hf with ⟨x, -, -, hx, -⟩ | hnew
  · exact absurd hx (h.source_dead hcode hnot hrun path x)
  · obtain ⟨s₁, gone, hmv, hparent, hc, hgone, hq, j, hj, hdead⟩ := h.cleared hcode
    have hgonea : ¬ gone source.currentCluster := fun hg =>
      hnot ((hgone _).mp hg).1 ((hgone _).mp hg).2
    exact moveInto_apart hsrc hc hgonea (by rwa [hparent]) rfl hj hdead h.clusters
      (by rwa [hparent]) hbeside (by rw [hparent]; exact h.targetPath) (hmv.symm.trans hrun) hnew

theorem safe (h : FolderMove state s src dest source target sp tp)
    (hfiles : Populated s source.currentCluster)
    (hbeside : SourceBeside s (targetRequest target) source.currentCluster)
    (hkeeps : KeepsFiles state s src dest source target sp tp) : MovesSafely s source target := by
  by_cases hcode : target.code = 1 ∨ target.code = 2
  · have hnot := h.not_gone hfiles.file hkeeps
    have hout := h.not_inside hcode hnot hfiles.file hkeeps
    obtain ⟨path, name, bytes, hf⟩ := hfiles.file
    have hfirst := (h.file_tells hcode hnot hout hbeside hkeeps hf).1
    refine .inr ⟨hout, hnot, fun d i c hd hc => ?_, hfirst⟩
    by_contra hx
    obtain ⟨path, name, bytes, hf⟩ := hfiles.folders d i c hd hc hx
    obtain ⟨rest, hrest⟩ := Descends.of_below hd
    have hplain := (h.file_tells hcode hnot hout hbeside hkeeps
      (hf.below (hrest.append (.single hc)))).2
    exact hx (hplain (entryName (s.table d i)) (by simp))
  · exact .inl (not_or.mp hcode)

end FolderMove

/-- Moving a folder loses no file if it moves safely; and only then, where the files tell. -/
theorem mv_folder_iff (h : FolderMove state s src dest source target sp tp) :
    (MovesSafely s source target → KeepsFiles state s src dest source target sp tp) ∧
      (Populated s source.currentCluster →
        SourceBeside s (targetRequest target) source.currentCluster →
        KeepsFiles state s src dest source target sp tp → MovesSafely s source target) :=
  ⟨h.keeps, h.safe⟩

end Outcome

/-- The paths to a folder that holds one file, and to `b`. -/
theorem resolve_filled : ∃ s a k f, WellFormed s ∧ folderChild s rootClusterNumber k = some a ∧
    (∀ i, LiveSlot s rootClusterNumber i → i = k) ∧
    (s.table rootClusterNumber k).name = (fun _ => 'a'.toUInt8) ∧
    FileSlot s a f ∧ (∀ i, LiveSlot s a i → i = f) ∧
    (subtreeClusters s a).ncard + 1 ≤ s.freeClusters.length ∧
    getCurrAndParentCluster s bytePath initial.workDir =
      .ok ⟨1, rootClusterNumber, a, toName bytePath, noExt⟩ ∧
    getCurrAndParentCluster s [98] initial.workDir =
      .ok ⟨2, rootClusterNumber, 0, toName [98], toExt []⟩ := by
  obtain ⟨s, a, k, f, hw, ha, hname, hext, honly, hf, -, hsize, honlyf, hfree⟩ :=
    file_below_root (show (1 : UInt32) ≠ 0 by decide) (by decide)
  have hcost : clusterCount (1 : UInt32).toNat = 1 := by decide
  have hda := reach_root.step ha
  refine ⟨s, a, k, f, hw, ha, honly, hname, hf, honlyf, ?_, resolve_bytePath hw ha hname hext, ?_⟩
  · obtain ⟨l, hl, -, hlen, -⟩ := hw.file_chain hda hf
    have hsub : subtreeClusters s a ⊆ l.toFinset := by
      rintro c ⟨i, hi⟩
      rw [honlyf i (region_live hi)] at hi
      simpa using (region_of_file hda hf hl).mp hi
    have hcard := Set.ncard_le_ncard hsub
    rw [Set.ncard_coe_finset] at hcard
    have hle := l.toFinset_card_le
    rw [hlen, hsize, hcost] at hle
    omega
  · refine resolve_new hw reach_root (by rfl) (by rfl) (by decide) (by decide) fun j hj hn => ?_
    rw [honly j hj] at hn
    exact absurd (congrFun (hname.symm.trans hn) 0) (by decide)

theorem hasFile_of_slot {s : FileSystem} {a : Nat} {f : Fin entryCount} (hw : WellFormed s)
    (ha : LiveDir s a) (hf : FileSlot s a f) : HasFile s a :=
  ⟨[], _, _, (fileAt_iff hw ha).mpr ⟨a, f, .here a, hf, rfl, rfl⟩⟩

/-- Moving the folder with its file to `b`. -/
theorem mv_folder_iff_away : ∃ s source target, HasFile s source.currentCluster ∧
    KeepsFiles initial s bytePath [98] source target [] [] := by
  obtain ⟨s, a, k, f, hw, ha, honly, hname, hf, honlyf, hroom, hsource, htarget⟩ := resolve_filled
  have hleaf : ∀ j, folderChild s a j = none := fun j => Option.eq_none_iff_forall_ne_some.mpr
    fun b hb => by
      rw [honlyf j (folderChild_eq_some.mp hb).1, folderChild_of_fileSlot hf] at hb
      cases hb
  have hslot : ∃ j : Fin entryCount, 2 ≤ j.val ∧ ¬ LiveSlot s rootClusterNumber j := by
    by_contra hno
    simp only [not_exists, not_and, not_not] at hno
    have htwo := honly 2 (hno 2 (by decide))
    have hthree := honly 3 (hno 3 (by decide))
    exact absurd (htwo.trans hthree.symm) (by decide)
  obtain ⟨source, hs⟩ : ∃ r : Resolved, r = ⟨1, rootClusterNumber, a, toName bytePath, noExt⟩ :=
    ⟨_, rfl⟩
  obtain ⟨target, ht⟩ : ∃ r : Resolved, r = ⟨2, rootClusterNumber, 0, toName [98], toExt []⟩ :=
    ⟨_, rfl⟩
  have hmove : FolderMove initial s bytePath [98] source target [] [] :=
    ⟨hw, reach_root, hs ▸ hsource, hs ▸ rfl, ht ▸ htarget, hs ▸ .here _, ht ▸ .here _,
      fun _ => ht ▸ hslot, hs ▸ hroom⟩
  have hq : target.parentCluster = rootClusterNumber := ht ▸ rfl
  have hparent : (targetRequest target).parent = rootClusterNumber := by
    rw [targetRequest, hq, request_parent hw.loose reach_root]
  have hcluster : source.currentCluster = a := hs ▸ rfl
  refine ⟨s, source, target, ?_, (mv_folder_iff hmove).1 (.inr ⟨?_, fun hcode => ?_, ?_, ?_⟩)⟩
  · rw [hcluster]
    exact hasFile_of_slot hw (reach_root.step ha) hf
  · rw [hcluster, hq]
    exact not_below_child hw.tree reach_root ha
  · rw [ht] at hcode
    cases hcode
  · rw [hcluster]
    exact plainBelow_leaf hleaf
  · intro j b hb hn
    rw [hparent] at hb hn
    rw [honly j (folderChild_eq_some.mp hb).1, hname, ht] at hn
    exact absurd (congrFun hn 0) (by decide)

/-- Moving the folder to its own path loses the file. -/
theorem mv_folder_lost : ∃ s source s', FolderMove initial s bytePath bytePath source source [] [] ∧
    HasFile s source.currentCluster ∧ mv initial s bytePath bytePath = .ok s' ∧
    ¬ FilesKept s s' source.currentCluster [(source.filename, source.ext)]
      [(source.filename, source.ext)] := by
  obtain ⟨s, a, k, f, hw, ha, -, -, hf, -, hroom, hsource, -⟩ := resolve_filled
  have hmove : FolderMove initial s bytePath bytePath ⟨1, rootClusterNumber, a, toName bytePath,
      noExt⟩ ⟨1, rootClusterNumber, a, toName bytePath, noExt⟩ [] [] :=
    ⟨hw, reach_root, hsource, rfl, hsource, .here _, .here _, nofun, hroom⟩
  have hfile := hasFile_of_slot hw (reach_root.step ha) hf
  obtain ⟨s', hrun, hlost⟩ := hmove.onto_itself
  refine ⟨s, _, s', hmove, hfile, hrun, fun hkept => ?_⟩
  obtain ⟨path, name, bytes, hfound⟩ := hfile
  rcases hkept path name bytes hfound with h | h
  · exact hlost path name bytes h
  · exact hlost path name bytes h

end Doors.Shell
