import Doors.SingleDelete

/-! Clusters 0 and 1 over runs of the requests that change the tree. No request
reaches them as long as every write that fills a slot finds a cluster to take. -/

namespace Doors.Fat32

open PointerTree FileSystem

/-- A state whose files need not have all the clusters of their size. -/
abbrev Loose (s : FileSystem) : Prop := Formed (fun _ _ => True) s

theorem WellFormed.loose {s : FileSystem} (hw : WellFormed s) : Loose s :=
  hw.mono fun _ _ _ => trivial

/-- What a request leaves: a tree with all its directories, and cluster 0. -/
structure Keeps (s s' : FileSystem) : Prop where
  loose : Loose s'
  folder : ∀ d i a, LiveDir s d → folderChild s d i = some a → s'.table d i = s.table d i
  boot : s'.cluster 0 = s.cluster 0

/-- A request that may also remove directories. -/
structure Spares (s s' : FileSystem) : Prop where
  loose : Loose s'
  boot : s'.cluster 0 = s.cluster 0

/-- If the parent is accepted and a slot is filled, there is a cluster to take. -/
def FindsCluster (s : FileSystem) (request : Request) : Prop :=
  s.next request.parent = fatEndOfFile → TakesCluster s request

/-- Every write that the loop of `copy_folder` makes finds a cluster. -/
def CopyLoopFinds (finds : FileSystem → Nat → Nat → Prop)
    (copyFolder : FileSystem → Nat → Nat → Except Fault (Int × FileSystem))
    (srcCluster destCluster : Nat) : List (Fin entryCount) → FileSystem → Prop
  | [], _ => True
  | i :: is, s =>
    let e := s.dirTableBuf i
    if !e.live then CopyLoopFinds finds copyFolder srcCluster destCluster is s
    else if e.isSubdirectory then
      let req : Request := ⟨zeroBytes, e.name, fun _ => 0, UInt32.ofNat destCluster, 0⟩
      FindsCluster s req ∧ ∀ code₁ s₁ c s₂, write s req = .ok (code₁, s₁) →
        getClusterNumber s₁ req = .ok (c, s₂) → finds s₂ e.clusterNumber c ∧
          ∀ code₂ s₃, copyFolder s₂ e.clusterNumber c = .ok (code₂, s₃) →
            CopyLoopFinds finds copyFolder srcCluster destCluster is (s₃.loadDir srcCluster)
    else ∀ buf, readChain s clusterMapSize zeroBytes 0 e.clusterNumber = .ok buf →
      let req : Request := ⟨buf, e.name, e.ext, UInt32.ofNat destCluster, e.filesize⟩
      FindsCluster s req ∧ ∀ code₁ s₁, write s req = .ok (code₁, s₁) →
        CopyLoopFinds finds copyFolder srcCluster destCluster is (s₁.loadDir srcCluster)

/-- Every write that `copy_folder` makes finds a cluster. -/
def CopyFolderFinds : Nat → FileSystem → Nat → Nat → Prop
  | 0, _, _, _ => True
  | fuel + 1, s, srcCluster, destCluster =>
    CopyLoopFinds (CopyFolderFinds fuel) (copyFolder fuel) srcCluster destCluster (slotsFrom 2)
      (s.loadDir srcCluster)

/-- The write of `copy_file` finds a cluster. -/
def CopyFileFinds (s : FileSystem) (src dest : Request) : Prop :=
  ∀ i buf, findFile (s.loadDir src.parent) src = some i →
    readChain s clusterMapSize zeroBytes 0 (s.table src.parent i).clusterNumber = .ok buf →
    let req : Request := ⟨buf, dest.name, dest.ext, dest.parentClusterNumber,
      (s.table src.parent i).filesize⟩
    match findFile (s.loadDir dest.parent) dest with
    | none => FindsCluster s req
    | some _ => ∀ code s', delete ((s.loadDir src.parent).loadDir dest.parent) req = .ok (code, s') →
        FindsCluster s' req

/-- The requests of a user, copies of folders included. -/
inductive DiskCall
  | write (request : Request)
  | delete (request : Request)
  | deleteFolderRec (request : Request)
  | copyFile (src dest : Request)
  | copyFolder (src dest : Nat)

def DiskCall.run (s : FileSystem) : DiskCall → Except Fault (Int × FileSystem)
  | .write request => Fat32.write s request
  | .delete request => Fat32.delete s request
  | .deleteFolderRec request => Fat32.deleteFolderRec s request
  | .copyFile src dest => Fat32.copyFile s src dest
  | .copyFolder src dest => Fat32.copyFolder clusterMapSize s src dest

def DiskCall.LiveParents (s : FileSystem) : DiskCall → Prop
  | .write request => LiveDir s request.parent
  | .delete request => LiveDir s request.parent
  | .deleteFolderRec request => LiveDir s request.parent
  | .copyFile src dest => LiveDir s src.parent ∧ LiveDir s dest.parent
  | .copyFolder src dest => LiveDir s src ∧ LiveDir s dest

/-- Every write of the call that fills a slot finds a cluster to take. -/
def DiskCall.FindsClusters (s : FileSystem) : DiskCall → Prop
  | .write request => FindsCluster s request
  | .delete _ => True
  | .deleteFolderRec _ => True
  | .copyFile src dest => CopyFileFinds s src dest
  | .copyFolder src dest => CopyFolderFinds clusterMapSize s src dest

def DiskStep (s : FileSystem) (call : DiskCall) (s' : FileSystem) : Prop :=
  call.LiveParents s ∧ ∃ code, call.run s = .ok (code, s')

namespace Keeps

variable {s s' s'' : FileSystem}

theorem child (h : Keeps s s') {d a : Nat} {i : Fin entryCount} (hd : LiveDir s d)
    (ha : folderChild s d i = some a) : folderChild s' d i = some a := by
  rw [folderChild_congr (h.folder d i a hd ha), ha]

theorem liveDir (h : Keeps s s') (d : Nat) (hd : LiveDir s d) : LiveDir s' d := by
  obtain ⟨n, hn⟩ := hd
  induction hn with
  | root => exact reach_root
  | child hd hc ih => exact ih.step (h.child ⟨_, hd⟩ hc)

theorem refl (hw : Loose s) : Keeps s s := ⟨hw, fun _ _ _ _ _ => rfl, rfl⟩

theorem trans (h : Keeps s s') (h' : Keeps s' s'') : Keeps s s'' where
  loose := h'.loose
  folder d i a hd ha := by
    rw [h'.folder d i a (h.liveDir d hd) (h.child hd ha), h.folder d i a hd ha]
  boot := h'.boot.trans h.boot

theorem loadDir (h : Keeps s s') (d : Nat) : Keeps s (s'.loadDir d) :=
  ⟨h.loose.loadDir d, h.folder, h.boot⟩

theorem spares (h : Keeps s s') : Spares s s' := ⟨h.loose, h.boot⟩

end Keeps

theorem bind_ok {α β : Type} {x : Except Fault α} {f : α → Except Fault β} {b : β}
    (h : x >>= f = .ok b) : ∃ a, x = .ok a ∧ f a = .ok b := by
  cases x with
  | error e => cases h
  | ok a => exact ⟨a, rfl, h⟩

theorem Taken.keeps {s s' : FileSystem} {request : Request} {i : Fin entryCount}
    {cs : List Nat} (h : Taken s s' request i cs) (hw : Loose s) (hc : ¬ Clash s request) :
    Keeps s s' where
  loose := h.formed hw (fun _ => trivial) hc
  folder d i a hd ha := (h.grown.liveSlot_old hw hd (folderChild_eq_some.mp ha).1).2
  boot := by
    have hp := hw.dir_range h.grown.parent
    refine h.grown.cluster_eq 0 (by decide) (by decide) (by omega) fun hm => ?_
    have := (h.grown.fresh 0 hm).1
    omega

theorem Pruned.spares {s s' : FileSystem} {p : Nat} {i : Fin entryCount} (h : Pruned s s' p i)
    (hw : Loose s) : Spares s s' where
  loose := h.wellFormed hw
  boot := by
    have hp := hw.dir_range h.parent
    refine h.cluster_eq 0 (by decide) (by decide) (by omega) fun hr => ?_
    have := region_range hw hr
    omega

theorem findsCluster_loadDir {s : FileSystem} {request : Request} (d : Nat) :
    FindsCluster (s.loadDir d) request ↔ FindsCluster s request := Iff.rfl

theorem write_keeps {s s' : FileSystem} {request : Request} {code : Int} (hw : Loose s)
    (hp : LiveDir s request.parent) (hfinds : FindsCluster s request)
    (hs : write s request = .ok (code, s')) : Keeps s s' := by
  by_cases hc : Clash s request
  · rw [write_clash hw hp hc] at hs
    cases hs
    exact (Keeps.refl hw).loadDir _
  · cases hf : firstFree s request.parent with
    | none =>
      rw [write_full hw hp hc hf] at hs
      cases hs
      exact (Keeps.refl hw).loadDir _
    | some i =>
      have hroom := hfinds (hw.dir_mark hp) hc (by rw [hf]; exact Option.some_ne_none i)
      obtain ⟨t, cs, ht, htaken⟩ := write_taken hw hp hc hf fun h => take_eq_nil_iff.mp h hroom
      rw [hs] at ht
      cases ht
      exact htaken.keeps hw hc

theorem write_nowhere {s : FileSystem} {request : Request} (hw : Loose s)
    (hp : request.parent = 0) : write s request = .ok (2, s) := by
  refine s.withParent_refused (by omega) ?_ _ _
  rw [hp, hw.reserved0]
  decide

/-- A destination of a nested copy: a directory, or 0 if there is no folder of that name. -/
def Destination (s : FileSystem) (d : Nat) : Prop := LiveDir s d ∨ d = 0

theorem Keeps.destination {s s' : FileSystem} (h : Keeps s s') {d : Nat} (hd : Destination s d) :
    Destination s' d := hd.imp_left (h.liveDir d)

theorem Destination.lt {s : FileSystem} {d : Nat} (h : Destination s d) (hw : Loose s) :
    d < 512 := by
  rcases h with h | rfl
  · exact (hw.dir_range h).2
  · decide

theorem nested_write_keeps {s s' : FileSystem} {request : Request} {code : Int} {d : Nat}
    (hw : Loose s) (hd : Destination s d) (hp : request.parent = d)
    (hfinds : FindsCluster s request) (hs : write s request = .ok (code, s')) : Keeps s s' := by
  subst hp
  rcases hd with hd | hd
  · exact write_keeps hw hd hfinds hs
  · rw [write_nowhere hw hd] at hs
    cases hs
    exact .refl hw

theorem getClusterNumber_keeps {s s' : FileSystem} {request : Request} {c : Nat} (hw : Loose s)
    (hd : Destination s request.parent) (hs : getClusterNumber s request = .ok (c, s')) :
    Keeps s s' ∧ Destination s' c := by
  rcases hd with hd | hd
  · rw [getClusterNumber, s.withParent_accepted (hw.dir_range hd).2 (hw.dir_mark hd)] at hs
    simp only [dirTableBuf_loadDir] at hs
    cases hfind : (slotsFrom 2).find? fun i => (s.table request.parent i).live &&
        request.matchesName (s.table request.parent i) &&
        (s.table request.parent i).isSubdirectory with
    | none =>
      rw [hfind] at hs
      cases hs
      exact ⟨(Keeps.refl hw).loadDir _, .inr rfl⟩
    | some i =>
      rw [hfind] at hs
      cases hs
      have hi := List.find?_some hfind
      simp only [Bool.and_eq_true] at hi
      have hslot : LiveSlot s request.parent i :=
        ⟨mem_slotsFrom.mp (List.mem_of_find?_eq_some hfind), hi.1.1⟩
      have hc := folderChild_eq_some.mpr ⟨hslot, hi.2, rfl⟩
      exact ⟨(Keeps.refl hw).loadDir _, .inl (hd.step hc)⟩
  · have hne : s.next request.parent ≠ fatEndOfFile := by
      rw [hd, hw.reserved0]
      decide
    rw [getClusterNumber, s.withParent_refused (by omega) hne] at hs
    cases hs
    exact ⟨.refl hw, .inr rfl⟩

theorem ofNat_parent {buf : Nat → UInt8} {name : Name} {ext : Ext} {size : UInt32} {d : Nat}
    (hd : d < 512) :
    FAT32DriverRequest.parent (⟨buf, name, ext, UInt32.ofNat d, size⟩ : Request) = d := by
  simp only [FAT32DriverRequest.parent, UInt32.toNat_ofNat']
  omega

/-- The loop keeps the tree if the recursive call does. -/
theorem copyFolderLoop_keeps {finds : FileSystem → Nat → Nat → Prop}
    {rec : FileSystem → Nat → Nat → Except Fault (Int × FileSystem)}
    (hrec : ∀ t t' a d code, Loose t → LiveDir t a → Destination t d → finds t a d →
      rec t a d = .ok (code, t') → Keeps t t')
    {src dest : Nat} {is : List (Fin entryCount)} (hr : ∀ i ∈ is, 2 ≤ i.val)
    {s s' : FileSystem} {code : Int} (hw : Loose s) (hsrc : LiveDir s src)
    (hdest : Destination s dest) (hbuf : s.dirTableBuf = s.table src)
    (hfinds : CopyLoopFinds finds rec src dest is s)
    (hs : copyFolderLoop rec src dest is s = .ok (code, s')) : Keeps s s' := by
  induction is generalizing s with
  | nil =>
    cases hs
    exact .refl hw
  | cons i is ih =>
    have ih := fun t ht => ih (fun j hj => hr j (List.mem_cons_of_mem i hj)) (s := t) ht
    simp only [copyFolderLoop, CopyLoopFinds] at hs hfinds
    cases hl : (s.dirTableBuf i).live with
    | false =>
      simp only [hl, Bool.not_false, if_true] at hs hfinds
      exact ih s hw hsrc hdest hbuf hfinds hs
    | true =>
      simp only [hl, Bool.not_true, Bool.false_eq_true, if_false] at hs hfinds
      have hslot : LiveSlot s src i := ⟨hr i (by simp), by rw [← hbuf, hl]⟩
      cases hk : (s.dirTableBuf i).isSubdirectory with
      | false =>
        simp only [hk, Bool.false_eq_true, if_false] at hs hfinds
        obtain ⟨buf, hread, hs⟩ := bind_ok hs
        obtain ⟨⟨code₁, s₁⟩, hwrite, hs⟩ := bind_ok hs
        obtain ⟨hf, hrest⟩ := hfinds buf hread
        have h₁ := (nested_write_keeps hw hdest (ofNat_parent (hdest.lt hw)) hf hwrite).loadDir src
        exact h₁.trans (ih _ h₁.loose (h₁.liveDir _ hsrc) (h₁.destination hdest) rfl
          (hrest code₁ s₁ hwrite) hs)
      | true =>
        simp only [hk, if_true] at hs hfinds
        obtain ⟨⟨code₁, s₁⟩, hwrite, hs⟩ := bind_ok hs
        obtain ⟨⟨c, s₂⟩, hnumber, hs⟩ := bind_ok hs
        obtain ⟨⟨code₂, s₃⟩, hcopy, hs⟩ := bind_ok hs
        have h₁ := nested_write_keeps hw hdest (ofNat_parent (hdest.lt hw)) hfinds.1 hwrite
        obtain ⟨h₂, hc⟩ := getClusterNumber_keeps h₁.loose
          (by rw [ofNat_parent (hdest.lt hw)]; exact h₁.destination hdest) hnumber
        have hchild : folderChild s src i = some (s.dirTableBuf i).clusterNumber := by
          rw [hbuf] at hk ⊢
          exact folderChild_eq_some.mpr ⟨hslot, hk, rfl⟩
        have ha := h₂.liveDir _ (h₁.liveDir _ (hsrc.step hchild))
        obtain ⟨hf, hrest⟩ := hfinds.2 code₁ s₁ c s₂ hwrite hnumber
        have h₃ := hrec s₂ s₃ _ c code₂ h₂.loose ha hc hf hcopy
        have h := ((h₁.trans h₂).trans h₃).loadDir src
        exact h.trans (ih _ h.loose (h.liveDir _ hsrc) (h.destination hdest) rfl
          (hrest code₂ s₃ hcopy) hs)

theorem copyFolder_keeps {fuel : Nat} {s s' : FileSystem} {src dest : Nat} {code : Int}
    (hw : Loose s) (hsrc : LiveDir s src) (hdest : Destination s dest)
    (hfinds : CopyFolderFinds fuel s src dest)
    (hs : copyFolder fuel s src dest = .ok (code, s')) : Keeps s s' := by
  induction fuel generalizing s s' src dest code with
  | zero => cases hs
  | succ fuel ih =>
    rw [copyFolder, s.withParent_accepted (hw.dir_range hsrc).2 (hw.dir_mark hsrc)] at hs
    have h := (Keeps.refl hw).loadDir src
    exact h.trans (copyFolderLoop_keeps (fun t t' a d code hw ha hd hf ht => ih hw ha hd hf ht)
      (fun i hi => mem_slotsFrom.mp hi) h.loose (h.liveDir _ hsrc) (h.destination hdest) rfl
      hfinds hs)

theorem delete_spares {s s' : FileSystem} {request : Request} {code : Int} (hw : Loose s)
    (hp : LiveDir s request.parent) (hs : delete s request = .ok (code, s')) : Spares s s' := by
  rcases delete_outcome hw hp with ⟨c, -, h⟩ | ⟨i, t, -, -, h, hpr⟩
  · rw [hs] at h
    cases h
    exact ⟨hw.loadDir _, rfl⟩
  · rw [hs] at h
    cases h
    exact hpr.spares hw

theorem deleteFolderRec_spares {s s' : FileSystem} {request : Request} {code : Int}
    (hw : Loose s) (hp : LiveDir s request.parent)
    (hs : deleteFolderRec s request = .ok (code, s')) : Spares s s' := by
  rcases deleteFolderRec_outcome hw hp with ⟨c, h⟩ | ⟨i, c, t, -, -, h, hpr⟩
  · rw [hs] at h
    cases h
    exact ⟨hw.loadDir _, rfl⟩
  · rw [hs] at h
    cases h
    exact hpr.spares hw

theorem delete_file_keeps {s s' : FileSystem} {request : Request} {code : Int}
    {i : Fin entryCount} (hw : Loose s) (hp : LiveDir s request.parent)
    (hf : FileSlot s request.parent i) (hn : request.names (s.table request.parent i) = true)
    (hs : delete s request = .ok (code, s')) : Keeps s s' := by
  obtain ⟨t, ht, hpr⟩ := delete_file hw hp hf hn
  rw [hs] at ht
  cases ht
  have hspares := hpr.spares hw
  refine ⟨hspares.loose, fun d j a hd ha => hpr.entry_eq hw hd (fun hr => ?_) ?_, hspares.boot⟩
  · obtain ⟨b, hb, -⟩ := (region_dir_iff hw hp hd).mp hr
    rw [folderChild_of_fileSlot hf] at hb
    simp at hb
  · rintro rfl rfl
    rw [folderChild_of_fileSlot hf] at ha
    simp at ha

theorem copyFile_keeps {s s' : FileSystem} {src dest : Request} {code : Int} (hw : Loose s)
    (hsrc : LiveDir s src.parent) (hdest : LiveDir s dest.parent)
    (hfinds : CopyFileFinds s src dest) (hs : copyFile s src dest = .ok (code, s')) :
    Keeps s s' := by
  rw [copyFile, s.withParent_accepted (hw.dir_range hsrc).2 (hw.dir_mark hsrc)] at hs
  have hload := (Keeps.refl hw).loadDir src.parent
  cases hfind : findFile (s.loadDir src.parent) src with
  | none =>
    simp only [hfind] at hs
    cases hs
    exact hload
  | some i =>
    have hc0 : (s.table src.parent i).clusterNumber ≠ 0 := by
      have := hw.file_start hsrc (findFile_some hfind).1
      omega
    simp only [hfind, dirTableBuf_loadDir, hc0, if_false] at hs
    obtain ⟨buf, hread, hs⟩ := bind_ok hs
    rw [readChain_loadDir] at hread
    have hf := hfinds i buf hfind hread
    have hfile : findFile ((s.loadDir src.parent).loadDir dest.parent) dest =
        findFile (s.loadDir dest.parent) dest := rfl
    generalize hreq : (⟨buf, dest.name, dest.ext, dest.parentClusterNumber,
      (s.table src.parent i).filesize⟩ : Request) = req at hs hf
    have hparent : req.parent = dest.parent := by
      rw [← hreq]
      rfl
    rw [← hparent] at hdest hs hf hfile
    have hload₂ := hload.loadDir req.parent
    rw [hfile] at hs
    cases hd : findFile (s.loadDir req.parent) dest with
    | none =>
      simp only [hd] at hs hf
      rw [← findsCluster_loadDir src.parent, ← findsCluster_loadDir req.parent] at hf
      exact hload₂.trans (write_keeps hload₂.loose hdest hf hs)
    | some j =>
      simp only [hd] at hs hf
      obtain ⟨⟨code₁, s₁⟩, hdel, hs⟩ := bind_ok hs
      have hfind : findFile (s.loadDir dest.parent) dest = some j := by rw [← hparent, hd]
      obtain ⟨hfj, hnj⟩ := findFile_some hfind
      have hnames : req.names (s.table req.parent j) = true := by
        rw [FAT32DriverRequest.names_iff] at hnj ⊢
        rw [hparent, ← hreq]
        exact hnj
      rw [← hparent] at hfj
      have h₁ := hload₂.trans (delete_file_keeps hload₂.loose hdest hfj hnames hdel)
      exact h₁.trans (write_keeps h₁.loose (h₁.liveDir _ hdest) (hf code₁ s₁ hdel) hs)

theorem diskStep_spares {s s' : FileSystem} {call : DiskCall} (hw : Loose s)
    (hfinds : call.FindsClusters s) (h : DiskStep s call s') : Spares s s' := by
  obtain ⟨hp, code, hs⟩ := h
  cases call with
  | write request => exact (write_keeps hw hp hfinds hs).spares
  | delete request => exact delete_spares hw hp hs
  | deleteFolderRec request => exact deleteFolderRec_spares hw hp hs
  | copyFile src dest => exact (copyFile_keeps hw hp.1 hp.2 hfinds hs).spares
  | copyFolder src dest => exact (copyFolder_keeps hw hp.1 (.inl hp.2) hfinds hs).spares

/-- The disk still counts as formatted and starts up with the same table of clusters. -/
structure Reserved (s₀ s : FileSystem) : Prop where
  bootCluster : s.cluster 0 = s₀.cluster 0
  fat : s.cluster fatClusterNumber = s.fatImage
  formatted : isEmptyStorage s = false
  reboot : ∀ root, (initializeFilesystemFat32 root (boot s.disk)).disk = s.disk ∧
    (initializeFilesystemFat32 root (boot s.disk)).clusterMap = s.clusterMap

theorem isEmptyStorage_congr {s s' : FileSystem} (h : s'.cluster 0 = s.cluster 0) :
    isEmptyStorage s' = isEmptyStorage s := by
  have hall : ∀ k ∈ List.range blockSize, s'.disk (blockAddress 0 + k) = s.disk (blockAddress 0 + k) := by
    intro k hk
    have hlt : k < clusterSize := (List.mem_range.mp hk).trans (by decide)
    exact congrFun h ⟨k, hlt⟩
  rw [isEmptyStorage, isEmptyStorage, Bool.not_inj_iff, Bool.eq_iff_iff, List.all_eq_true,
    List.all_eq_true]
  exact forall₂_congr fun k hk => by rw [hall k hk]

theorem createFat32_formatted (root : Name) (disk : Nat → UInt8) :
    isEmptyStorage (createFat32 root (boot disk)) = false := by
  rw [isEmptyStorage, Bool.not_eq_false', List.all_eq_true]
  intro k hk
  have hlt : k < 512 := List.mem_range.mp hk
  have hc : (createFat32 root (boot disk)).cluster 0 =
      asCluster fun k => writeBlocks disk fsSignature 0 1 (0 + k) := by
    simp only [createFat32]
    rw [cluster_stored_of_ne (by decide) (by decide) (by decide) (by decide)]
    rfl
  have hk' := congrFun hc ⟨k, hlt.trans (by decide)⟩
  have hsig : writeBlocks disk fsSignature 0 1 (0 + k) = fsSignature k := by
    simp [writeBlocks, blit, blockAddress, blockSize, hlt]
  exact beq_iff_eq.mpr (hk'.trans hsig)

theorem initialize_mirrored {s : FileSystem} (hf : s.cluster fatClusterNumber = s.fatImage)
    (he : isEmptyStorage s = false) (root : Name) :
    initializeFilesystemFat32 root (boot s.disk) =
      { boot s.disk with clusterMap := s.clusterMap } := by
  have hempty : isEmptyStorage (boot s.disk) = false := he
  have hget : clusterMapCodec.get (fun k => (boot s.disk).disk
      (blockAddress (clusterToLba 1) + k)) = s.clusterMap :=
    clusterMapCodec.get_eq _ _ fun k hk => congrFun hf ⟨k, hk⟩
  rw [initializeFilesystemFat32, hempty, hget]
  rfl

/-- In a run whose writes find clusters the reserved clusters survive. -/
theorem reserved_survive (root : Name) (disk : Nat → UInt8) {calls : List DiskCall}
    {s : FileSystem}
    (h : Run (fun s call s' => call.FindsClusters s ∧ DiskStep s call s')
      (createFat32 root (boot disk)) calls s) : Reserved (createFat32 root (boot disk)) s := by
  have hinv : Spares (createFat32 root (boot disk)) s := by
    refine h.invariant (P := Spares (createFat32 root (boot disk))) ?_
      ⟨(createFat32_wellFormed root disk).loose, rfl⟩
    rintro t call t' ht ⟨hfinds, hstep⟩
    have hspares := diskStep_spares ht.loose hfinds hstep
    exact ⟨hspares.loose, hspares.boot.trans ht.boot⟩
  have hformatted : isEmptyStorage s = false := by
    rw [isEmptyStorage_congr hinv.boot, createFat32_formatted]
  refine ⟨hinv.boot, hinv.loose.mirrored, hformatted, fun root => ?_⟩
  rw [initialize_mirrored hinv.loose.mirrored hformatted]
  exact ⟨rfl, rfl⟩

/-- A folder made on a new disk. -/
theorem reserved_survive_mkdir : ∃ s,
    Run (fun s call s' => call.FindsClusters s ∧ DiskStep s call s')
      (createFat32 (fun _ => 0) (boot zeroBytes))
      [.write ⟨zeroBytes, fun _ => 'a'.toUInt8, fun _ => 0, 2, 0⟩] s ∧
    Reserved (createFat32 (fun _ => 0) (boot zeroBytes)) s := by
  obtain ⟨s, i, cs, hs, -, -⟩ := createFat32_written (fun _ => 0) zeroBytes
    ⟨zeroBytes, fun _ => 'a'.toUInt8, fun _ => 0, 2, 0⟩ rfl (by decide)
  have hfinds : DiskCall.FindsClusters (createFat32 (fun _ => 0) (boot zeroBytes))
      (.write ⟨zeroBytes, fun _ => 'a'.toUInt8, fun _ => 0, 2, 0⟩) := by
    refine fun _ _ _ => ⟨?_, by decide⟩
    rw [← List.length_pos_iff, createFat32_room]
    decide
  have hrun : Run (fun s call s' => call.FindsClusters s ∧ DiskStep s call s')
      (createFat32 (fun _ => 0) (boot zeroBytes))
      [.write ⟨zeroBytes, fun _ => 'a'.toUInt8, fun _ => 0, 2, 0⟩] s :=
    .cons ⟨hfinds, reach_root, 0, hs⟩ (.nil s)
  exact ⟨s, hrun, reserved_survive _ _ hrun⟩

theorem createFat32_filled (root : Name) (disk : Nat → UInt8) : ∃ s i cs,
    write (createFat32 root (boot disk)) ⟨zeroBytes, fun _ => 'a'.toUInt8, fun _ => 0, 2, 1042432⟩ =
      .ok (0, s) ∧ WellFormed s ∧ s.freeClusters = [] ∧
    Written (createFat32 root (boot disk)) s
      ⟨zeroBytes, fun _ => 'a'.toUInt8, fun _ => 0, 2, 1042432⟩ i cs := by
  obtain ⟨s, i, cs, hs, hw, hwr⟩ := createFat32_written root disk
    ⟨zeroBytes, fun _ => 'a'.toUInt8, fun _ => 0, 2, 1042432⟩ rfl (by decide)
  refine ⟨s, i, cs, hs, hw, List.filter_eq_nil_iff.mpr fun c hc => ?_, hwr⟩
  have hall : cs = dataClusters := by
    rw [hwr.clusters, createFat32_freeClusters, List.take_of_length_le]
    have hlen := createFat32_room root disk
    rw [createFat32_freeClusters] at hlen
    rw [hlen]
    decide
  simpa using hwr.grown.chain_used (hall ▸ hc)

/-- On a full disk a file of one byte is stored nowhere; deleting it zeroes cluster 0. -/
theorem reserved_lost : ¬ ∀ (root : Name) (disk : Nat → UInt8) (calls : List DiskCall)
    (s : FileSystem), Run DiskStep (createFat32 root (boot disk)) calls s →
      Reserved (createFat32 root (boot disk)) s := by
  intro h
  have hw₀ := createFat32_wellFormed (fun _ => 0) zeroBytes
  obtain ⟨s₁, i, cs, hs₁, hw₁, hfull, hwr⟩ := createFat32_filled (fun _ => 0) zeroBytes
  have hg := hwr.grown
  have honly : ∀ j, LiveSlot s₁ 2 j → j = i := by
    intro j hj
    rcases hg.liveSlot_cases hw₀ reach_root hj with ⟨-, h⟩ | ⟨-, h, -⟩
    · exact h
    · exact absurd h (createFat32_liveSlot _ _ reach_root)
  obtain ⟨j, hj, hji⟩ : ∃ j : Fin entryCount, 2 ≤ j.val ∧ j ≠ i := by
    by_cases h : i = 2
    · exact ⟨3, by decide, by rw [h]; decide⟩
    · exact ⟨2, by decide, Ne.symm h⟩
  have hdead : (s₁.table 2 j).live = false := by
    cases hl : (s₁.table 2 j).live with
    | false => rfl
    | true => exact absurd (honly j ⟨hj, hl⟩) hji
  obtain ⟨k, hk⟩ := firstFree_exists hj hdead
  have hc : ¬ Clash s₁ ⟨zeroBytes, fun _ => 'b'.toUInt8, fun _ => 0, 2, 1⟩ := by
    rintro ⟨m, hm, hn⟩
    obtain rfl := honly m hm
    have hname := (FAT32DriverRequest.names_iff.mp hn).1
    have hentry : s₁.table 2 m = _ := hg.entry_new
    have hab : 'a'.toUInt8 = 'b'.toUInt8 := by
      refine Eq.trans ?_ (congrFun hname 0)
      exact (congrFun (congrArg FAT32DirectoryEntry.name hentry) 0).symm
    exact absurd hab (by decide)
  have hp : LiveDir s₁
      (⟨zeroBytes, fun _ => 'b'.toUInt8, fun _ => 0, 2, 1⟩ : Request).parent := reach_root
  obtain ⟨s₂, s₃, hs₂, hs₃, -, hzero⟩ := write_untaken_file hw₁ hp hc hk
    (by decide) (by rw [hfull, List.take_nil])
  have hrun : Run DiskStep (createFat32 (fun _ => 0) (boot zeroBytes))
      [.write ⟨zeroBytes, fun _ => 'a'.toUInt8, fun _ => 0, 2, 1042432⟩,
        .write ⟨zeroBytes, fun _ => 'b'.toUInt8, fun _ => 0, 2, 1⟩,
        .delete ⟨zeroBytes, fun _ => 'b'.toUInt8, fun _ => 0, 2, 1⟩] s₃ :=
    .cons ⟨reach_root, 0, hs₁⟩ (.cons ⟨reach_root, 0, hs₂⟩ (.cons ⟨reach_root, 0, hs₃⟩ (.nil s₃)))
  have hformatted := (h _ _ _ _ hrun).formatted
  rw [isEmptyStorage, Bool.not_eq_false', List.all_eq_true] at hformatted
  have hsig := beq_iff_eq.mp (hformatted 0 (List.mem_range.mpr (by decide)))
  have hz : s₃.disk (blockAddress 0 + 0) = 0 := congrFun hzero ⟨0, by decide⟩
  rw [hz] at hsig
  exact absurd hsig (by decide)

end Doors.Fat32
