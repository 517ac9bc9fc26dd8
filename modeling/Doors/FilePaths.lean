import Doors.DirectoryGrowth
import Doors.TreePath

/-! Files by their paths. A file stays at its path in a tree with equal contents. -/

namespace Doors.Fat32

open PointerTree FileSystem

def entryName (e : FAT32DirectoryEntry) : Name × Ext := (e.name, e.ext)

/-- The folders of these names lead from one directory to another. -/
abbrev FolderPath (s : FileSystem) : Nat → List (Name × Ext) → Nat → Prop :=
  Descends (folderChild s) fun d i => entryName (s.table d i)

/-- The request for the whole file in slot `i` of `d`. -/
def fileRequest (s : FileSystem) (d : Nat) (i : Fin entryCount) : Request :=
  ⟨zeroBytes, (s.table d i).name, (s.table d i).ext, UInt32.ofNat d, (s.table d i).filesize⟩

/-- Below `d`, at the end of a path, there is a file of that name which reads as `bytes`. -/
def FileAt (s : FileSystem) (d : Nat) (path : List (Name × Ext)) (name : Name × Ext)
    (bytes : List UInt8) : Prop :=
  ∃ x i buf, FolderPath s d path x ∧ FileSlot s x i ∧ entryName (s.table x i) = name ∧
    readBack s (fileRequest s x i) = .ok (0, buf) ∧
    bytes = (List.range (s.table x i).filesize.toNat).map buf

/-- The directories have equal contents, at every depth. -/
def SameTree (s : FileSystem) (d : Nat) (s' : FileSystem) (x : Nat) : Prop :=
  ∀ m, listing s m d = listing s' m x

/-- The entries correspond: equal names and kinds, and folders with equal contents. -/
structure SameEntry (s : FileSystem) (d : Nat) (i : Fin entryCount) (s' : FileSystem) (x : Nat)
    (j : Fin entryCount) : Prop where
  name : (s'.table x j).name = (s.table d i).name
  ext : (s'.table x j).ext = (s.table d i).ext
  child : ∀ a, folderChild s d i = some a →
    ∃ b, folderChild s' x j = some b ∧ SameTree s a s' b

section SameTree

variable {s s' : FileSystem} {d x : Nat}

theorem SameTree.symm (h : SameTree s d s' x) : SameTree s' x s d := fun m => (h m).symm

theorem SameTree.trans {t : FileSystem} {y : Nat} (h : SameTree s d s' x)
    (h' : SameTree s' x t y) : SameTree s d t y := fun m => (h m).trans (h' m)

theorem SameTree.length_eq (h : SameTree s d s' x) :
    (liveSlots s d).length = (liveSlots s' x).length := by
  have hone := congrArg List.length (h 1)
  simpa only [listing, List.length_map] using hone

theorem SameTree.slot (h : SameTree s d s' x) {i : Fin entryCount} (hi : LiveSlot s d i) :
    ∃ j, LiveSlot s' x j ∧ ∀ m, slotTree s' (listing s' m) (s'.table x j) =
      slotTree s (listing s m) (s.table d i) := by
  obtain ⟨n, hn, rfl⟩ := List.getElem_of_mem (mem_liveSlots.mpr hi)
  have hn' : n < (liveSlots s' x).length := h.length_eq ▸ hn
  refine ⟨_, mem_liveSlots.mp (List.getElem_mem hn'), fun m => ?_⟩
  have hm := congrArg (fun l => l[n]?) (h (m + 1))
  simpa [listing, hn, hn'] using hm.symm

theorem SameTree.entry (h : SameTree s d s' x) {i : Fin entryCount} (hi : LiveSlot s d i) :
    ∃ j, LiveSlot s' x j ∧ SameEntry s d i s' x j := by
  obtain ⟨j, hj, htree⟩ := h.slot hi
  have hname := congrArg FileTree.name (htree 0)
  have hext := congrArg FileTree.ext (htree 0)
  rw [slotTree_name, slotTree_name] at hname
  rw [slotTree_ext, slotTree_ext] at hext
  refine ⟨j, hj, hname, hext, fun a ha => ?_⟩
  obtain ⟨-, hk, rfl⟩ := folderChild_eq_some.mp ha
  have hk' := (slotTree_kind (htree 0)).trans hk
  refine ⟨_, folderChild_eq_some.mpr ⟨hj, hk', rfl⟩, fun m => ?_⟩
  have hm := htree m
  rw [slotTree_folder hk, slotTree_folder hk', FileTree.folder.injEq] at hm
  exact hm.2.2.2.symm

theorem SameTree.file (h : SameTree s d s' x) {i : Fin entryCount} (hi : FileSlot s d i) :
    ∃ j, FileSlot s' x j ∧ entryName (s'.table x j) = entryName (s.table d i) ∧
      fileBytes s' (s'.table x j) = fileBytes s (s.table d i) := by
  obtain ⟨j, hj, htree⟩ := h.slot hi.1
  have hk' := (slotTree_kind (htree 0)).trans hi.2
  have hfile := htree 0
  rw [slotTree_file hi.2, slotTree_file hk', FileTree.file.injEq] at hfile
  obtain ⟨hname, hext, -, hbytes⟩ := hfile
  refine ⟨j, ⟨hj, hk'⟩, ?_, hbytes⟩
  rw [entryName, entryName, hname, hext]

theorem SameTree.below (h : SameTree s d s' x) {a : Nat} (ha : Below (folderChild s) d a) :
    ∃ b, Below (folderChild s') x b ∧ SameTree s a s' b := by
  induction ha with
  | refl => exact ⟨x, .refl, h⟩
  | tail _ he ih =>
    obtain ⟨b, hb, hsame⟩ := ih
    obtain ⟨i, hi⟩ := he
    obtain ⟨j, -, hj⟩ := hsame.entry (folderChild_eq_some.mp hi).1
    obtain ⟨c, hc, hsame⟩ := hj.child _ hi
    exact ⟨c, hb.tail ⟨j, hc⟩, hsame⟩

theorem SameTree.plainBelow (h : SameTree s d s' x) (hplain : PlainBelow s' x) :
    PlainBelow s d := by
  intro a i c ha hc
  obtain ⟨b, hb, hsame⟩ := h.below ha
  obtain ⟨j, -, hj⟩ := hsame.entry (folderChild_eq_some.mp hc).1
  obtain ⟨c', hc', -⟩ := hj.child c hc
  rw [← hj.ext]
  exact hplain b j c' hb hc'

end SameTree

section Kept

variable {s s' : FileSystem} {d x : Nat}

theorem KeepsFile.bytes {i : Fin entryCount} {l : List Nat} (h : KeepsFile s s' d i l)
    (hw : WellFormed s) (hw' : WellFormed s') (hd : LiveDir s d) (hd' : LiveDir s' d)
    (hf : FileSlot s d i) : fileBytes s' (s.table d i) = fileBytes s (s.table d i) := by
  have hread := fileBytes_eq hw' hd' (h.fileSlot hf) (by rw [h.entry]; exact h.chain')
  rw [h.entry] at hread
  rw [hread, fileBytes_eq hw hd hf h.chain, readAll_congr h.contents]

/-- Where the tables and files at and below `d` are kept the contents are the same. -/
theorem sameTree_of_kept (hw : WellFormed s) (hw' : WellFormed s') (hd : LiveDir s d)
    (hkeep : ∀ y, Below (folderChild s) d y → LiveDir s' y ∧ s'.table y = s.table y ∧
      ∀ i, FileSlot s y i → ∃ l, KeepsFile s s' y i l) : SameTree s d s' d := by
  intro m
  induction m generalizing d with
  | zero => rfl
  | succ m ih =>
    obtain ⟨hd', htable, hfiles⟩ := hkeep d .refl
    simp only [listing, liveSlots, htable]
    refine List.map_congr_left fun i hi => ?_
    rcases (mem_liveSlots.mp hi).kind with hf | hf
    · obtain ⟨l, hl⟩ := hfiles i hf
      rw [slotTree_file hf.2, slotTree_file hf.2, hl.bytes hw hw' hd hd' hf]
    · have hk := (folderChild_eq_some.mp hf).2.1
      rw [slotTree_folder hk, slotTree_folder hk,
        ih (hd.step hf) fun y hy => hkeep y (hy.head ⟨i, hf⟩)]

theorem Extends.sameTree {p : Nat} (h : Extends s s' p) (hw : WellFormed s) (hp : LiveDir s p)
    (hd : LiveDir s d) (hb : ¬ Below (Fat32.folderChild s) d p) : SameTree s d s' d :=
  fun m => (h.listing hw hp m hd hb).symm

/-- The subtree of `d` is apart from the slot that is cleared and all it leads to. -/
theorem Pruned.apart {p y : Nat} {i : Fin entryCount} (hg : Pruned s s' p i) (hw : WellFormed s)
    (hd : LiveDir s d) (hr : ¬ EntryRegion s p i d) (hb : ¬ Below (folderChild s) d p)
    (hy : Below (folderChild s) d y) : ¬ EntryRegion s p i y ∧ y ≠ p := by
  have hne : ∀ {y}, Below (folderChild s) d y → y ≠ p := by
    rintro y hy rfl
    exact hb hy
  refine ⟨?_, hne hy⟩
  induction hy with
  | refl => exact hr
  | tail hz he ih =>
    obtain ⟨j, hj⟩ := he
    have hlive := below_reach hz hd
    intro hreg
    obtain ⟨a, ha, hab⟩ := (region_dir_iff hw hg.parent (hlive.step hj)).mp hreg
    rcases Relation.ReflTransGen.cases_tail hab with rfl | ⟨w, haw, k, hk⟩
    · exact hne hz (hw.tree.parent_unique hlive hg.parent hj ha).1
    · obtain ⟨rfl, -⟩ := hw.tree.parent_unique (below_reach haw (hg.parent.step ha)) hlive hk hj
      exact ih ((region_dir_iff hw hg.parent hlive).mpr ⟨a, ha, haw⟩)

/-- A deletion elsewhere keeps the contents of `d`. -/
theorem Pruned.sameTree {p : Nat} {i : Fin entryCount} (hg : Pruned s s' p i) (hw : WellFormed s)
    (hd : LiveDir s d) (hr : ¬ EntryRegion s p i d) (hb : ¬ Below (folderChild s) d p) :
    SameTree s d s' d := by
  refine sameTree_of_kept hw (hg.wellFormed hw) hd fun y hy => ?_
  obtain ⟨hry, hyp⟩ := hg.apart hw hd hr hb hy
  have hlive := below_reach hy hd
  refine ⟨(hg.liveDir_iff hw).mpr ⟨hlive, hry⟩, ?_, fun j hf =>
    hg.keepsFile hw hlive hry (fun h => absurd h hyp) hf⟩
  funext j
  exact hg.entry_eq hw hlive hry fun h => absurd h hyp

end Kept

section FileAt

variable {s s' : FileSystem} {d x : Nat} {path rest : List (Name × Ext)} {name : Name × Ext}
  {bytes : List UInt8}

theorem readBack_fileRequest {i : Fin entryCount} (hw : WellFormed s) (hx : LiveDir s x)
    (hf : FileSlot s x i) : ∃ buf, readBack s (fileRequest s x i) = .ok (0, buf) ∧
      fileBytes s (s.table x i) = (List.range (s.table x i).filesize.toNat).map buf := by
  obtain ⟨l, hl, -⟩ := hw.file_chain hx hf
  obtain ⟨request, hreq⟩ : ∃ request, request = fileRequest s x i := ⟨_, rfl⟩
  have hparent : request.parent = x := hreq ▸ ofNat_parent (hw.dir_range hx).2
  have hn : request.names (s.table x i) = true :=
    FAT32DriverRequest.names_iff.mpr ⟨hreq ▸ rfl, hreq ▸ rfl⟩
  have hb : (s.table x i).filesize ≤ request.bufferSize := by
    rw [hreq]
    exact UInt32.le_refl _
  rw [← hreq]
  refine ⟨readAll s request.buf 0 l, ?_, hreq ▸ fileBytes_eq hw hx hf hl⟩
  clear hreq
  subst hparent
  exact readBack_fits hw hx hf hn hb hl

theorem fileAt_iff (hw : WellFormed s) (hd : LiveDir s d) : FileAt s d path name bytes ↔
    ∃ x i, FolderPath s d path x ∧ FileSlot s x i ∧ entryName (s.table x i) = name ∧
      fileBytes s (s.table x i) = bytes := by
  constructor
  · rintro ⟨x, i, buf, hx, hf, hn, hb, rfl⟩
    obtain ⟨buf', hb', hbytes⟩ := readBack_fileRequest hw (hx.reach hd) hf
    cases hb.symm.trans hb'
    exact ⟨x, i, hx, hf, hn, hbytes⟩
  · rintro ⟨x, i, hx, hf, hn, rfl⟩
    obtain ⟨buf, hb, hbytes⟩ := readBack_fileRequest hw (hx.reach hd) hf
    exact ⟨x, i, buf, hx, hf, hn, hb, hbytes⟩

theorem FileAt.below (h : FileAt s x path name bytes) (hp : FolderPath s d rest x) :
    FileAt s d (rest ++ path) name bytes := by
  obtain ⟨y, i, buf, hy, hfile⟩ := h
  exact ⟨y, i, buf, hp.append hy, hfile⟩

theorem SameTree.folderPath (h : SameTree s d s' x) {y : Nat} (hy : FolderPath s d path y) :
    ∃ z, FolderPath s' x path z ∧ SameTree s y s' z := by
  induction hy generalizing x with
  | here d => exact ⟨x, .here x, h⟩
  | @step d b y i path hb _ ih =>
    obtain ⟨j, -, hj⟩ := h.entry (folderChild_eq_some.mp hb).1
    obtain ⟨c, hc, hsame⟩ := hj.child b hb
    obtain ⟨z, hz, hyz⟩ := ih hsame
    have hname : entryName (s.table d i) = entryName (s'.table x j) := by
      rw [entryName, entryName, hj.name, hj.ext]
    rw [hname]
    exact ⟨z, .step hc hz, hyz⟩

theorem SameTree.fileAt (h : SameTree s d s' x) (hw : WellFormed s) (hw' : WellFormed s')
    (hd : LiveDir s d) (hx : LiveDir s' x) (hf : FileAt s d path name bytes) :
    FileAt s' x path name bytes := by
  obtain ⟨y, i, hy, hfile, rfl, rfl⟩ := (fileAt_iff hw hd).mp hf
  obtain ⟨z, hz, hsame⟩ := h.folderPath hy
  obtain ⟨j, hj, hname, hbytes⟩ := hsame.file hfile
  exact (fileAt_iff hw' hx).mpr ⟨z, j, hz, hj, hname, hbytes⟩

end FileAt

theorem Extends.entriesKept {s s' : FileSystem} {p : Nat} (h : Extends s s' p)
    (hw : WellFormed s) : EntriesKept s s' where
  liveDir hd := h.liveDir hw hd
  entry {d i} hd hl := by
    by_cases hdp : d = p
    · subst hdp
      by_cases hi : i.val < 2
      · exact h.slot_eq i (.inl hi)
      · exact h.slot_eq i (.inr ⟨by omega, hl⟩)
    · rw [h.table_eq hw hd hdp]

section Paths

variable {s s' : FileSystem} {d x y : Nat} {path : List (Name × Ext)}

theorem Directories.labelsDiffer (hs : Directories s) :
    LabelsDiffer (folderChild s) (fun d i => entryName (s.table d i)) rootClusterNumber := by
  intro d i j b c hd hb hc hn
  exact hs.unique hd (folderChild_eq_some.mp hb).1 (folderChild_eq_some.mp hc).1
    (congrArg Prod.fst hn) (congrArg Prod.snd hn)

theorem EntriesKept.folderPath (h : EntriesKept s s') (hd : LiveDir s d)
    (hp : FolderPath s d path x) : FolderPath s' d path x := by
  refine hp.kept (P := LiveDir s) (fun y i b hy hb _ => ⟨h.child hy hb, ?_⟩)
    fun z hz _ => below_reach hz hd
  rw [h.entry hy (folderChild_eq_some.mp hb).1.2]

/-- The path to a directory that remains is not touched by a deletion. -/
theorem Pruned.folderPath {p : Nat} {i : Fin entryCount} (hg : Pruned s s' p i) (hw : WellFormed s)
    (hr : ¬ EntryRegion s p i x) (hp : FolderPath s rootClusterNumber path x) :
    FolderPath s' rootClusterNumber path x := by
  refine hp.kept (P := fun y => LiveDir s y ∧ ¬ EntryRegion s p i y) (fun y j b hy hb hb' => ?_)
    fun z hz hzx => ⟨below_reach hz reach_root, fun hreg => hr ?_⟩
  · have hne : y = p → j ≠ i := by
      rintro rfl rfl
      exact hb'.2 ((region_dir_iff hw hg.parent hb'.1).mpr ⟨b, hb, .refl⟩)
    have he := hg.entry_eq hw hy.1 hy.2 hne
    exact ⟨by rw [folderChild_congr he, hb], by rw [he]⟩
  · obtain ⟨a, ha, haz⟩ := (region_dir_iff hw hg.parent (below_reach hz reach_root)).mp hreg
    exact (region_dir_iff hw hg.parent (hp.reach reach_root)).mpr ⟨a, ha, haz.trans hzx⟩

theorem PlainBelow.folderPath (h : PlainBelow s x) (hp : FolderPath s x path y) :
    ∀ n ∈ path, n.2 = fun _ => 0 := by
  induction hp with
  | here => simp
  | step hb hp ih =>
    intro n hn
    rcases List.mem_cons.mp hn with rfl | hn
    · exact h _ _ _ .refl hb
    · exact ih (fun d i c hd => h d i c (hd.head ⟨_, hb⟩)) n hn

end Paths

end Doors.Fat32
