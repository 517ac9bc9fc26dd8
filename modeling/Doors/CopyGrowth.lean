import Doors.FileOverwrite
import Doors.FilePaths

/-! Copying into a folder that need not be empty, from a source apart from it. Whatever names
meet, all that is new hangs below the destination, and the room that the source takes is enough. -/

namespace Doors.Fat32

open PointerTree FileSystem

/-- The state `s'` holds all that `s` holds, and what is new hangs below `x`. -/
structure GrowsBelow (s s' : FileSystem) (x : Nat) : Prop where
  wellFormed : WellFormed s'
  kept : EntriesKept s s'
  table : ∀ d, LiveDir s d → ¬ Below (folderChild s) x d → s'.table d = s.table d
  file : ∀ d i, LiveDir s d → FileSlot s d i → ∃ l, KeepsFile s s' d i l

/-- Neither directory is at or below the other. -/
structure Apart (s : FileSystem) (d x : Nat) : Prop where
  left : ¬ Below (folderChild s) d x
  right : ¬ Below (folderChild s) x d

theorem Apart.child {s : FileSystem} {d x c : Nat} {i : Fin entryCount} (h : Apart s d x)
    (hw : WellFormed s) (hd : LiveDir s d) (hx : LiveDir s x) (hc : folderChild s d i = some c) :
    Apart s c x := by
  refine ⟨fun hb => h.left (hb.head ⟨i, hc⟩), fun hb => ?_⟩
  rcases Relation.ReflTransGen.cases_tail hb with rfl | ⟨e, he, j, hj⟩
  · exact h.left (.single ⟨i, hc⟩)
  · obtain ⟨rfl, -⟩ := hw.tree.parent_unique (below_reach he hx) hd hj hc
    exact h.right he

namespace GrowsBelow

variable {s t s' : FileSystem} {d x : Nat}

theorem refl (hw : WellFormed s) (x : Nat) : GrowsBelow s s x :=
  ⟨hw, .refl s, fun _ _ _ => rfl, fun _ _ hd hf => KeepsFile.refl hw hd hf⟩

theorem loadDir (h : GrowsBelow s s' x) (d : Nat) : GrowsBelow s (s'.loadDir d) x :=
  ⟨h.wellFormed.loadDir d, h.kept.loadDir d, h.table, fun e i he hf => by
    obtain ⟨l, hl⟩ := h.file e i he hf
    exact ⟨l, hl.entry, hl.chain, hl.chain', hl.contents⟩⟩

theorem of_loadDir {d : Nat} (h : GrowsBelow (s.loadDir d) s' x) : GrowsBelow s s' x :=
  ⟨h.wellFormed, ⟨h.kept.liveDir, h.kept.entry⟩, h.table, fun e i he hf => by
    obtain ⟨l, hl⟩ := h.file e i he hf
    exact ⟨l, hl.entry, hl.chain, hl.chain', hl.contents⟩⟩

/-- Old directories are below `x` only as before. -/
theorem below_old (h : GrowsBelow s s' x) (hx : LiveDir s x)
    (hd : LiveDir s d) (hb : Below (folderChild s') x d) : Below (folderChild s) x d := by
  have hx' := h.kept.liveDir hx
  induction hb with
  | refl => exact .refl
  | @tail e d hb he ih =>
    obtain ⟨i, hi⟩ := he
    have he' := below_reach hb hx'
    rcases hd.parent with rfl | ⟨e₀, j, he₀, hj⟩
    · exact absurd hi (h.wellFormed.tree.root_orphan he')
    · obtain ⟨rfl, -⟩ :=
        h.wellFormed.tree.parent_unique he' (h.kept.liveDir he₀) hi (h.kept.child he₀ hj)
      exact (ih he₀).tail ⟨j, hj⟩

theorem trans (h : GrowsBelow s t x) (h' : GrowsBelow t s' x) (hx : LiveDir s x) :
    GrowsBelow s s' x := by
  refine ⟨h'.wellFormed, h.kept.trans h'.kept, fun d hd hb => ?_, fun d i hd hf => ?_⟩
  · rw [h'.table d (h.kept.liveDir hd) fun hb' => hb (h.below_old hx hd hb'), h.table d hd hb]
  · obtain ⟨l, hl⟩ := h.file d i hd hf
    obtain ⟨l', hl'⟩ := h'.file d i (h.kept.liveDir hd) (hl.fileSlot hf)
    exact ⟨l, hl.trans hl'⟩

/-- Below a directory apart from `x` there is nothing new. -/
theorem below_apart (h : GrowsBelow s s' x) (hw : WellFormed s) (hx : LiveDir s x)
    (hd : LiveDir s d) (ha : Apart s d x) {y : Nat} (hy : Below (folderChild s') d y) :
    Below (folderChild s) d y := by
  induction hy with
  | refl => exact .refl
  | @tail e y _ he ih =>
    obtain ⟨i, hi⟩ := he
    have hxe : ¬ Below (folderChild s) x e := by
      intro hb
      rcases below_comparable hw.tree hd hx ih hb with hb | hb
      · exact ha.left hb
      · exact ha.right hb
    rw [folderChild_congr (congrFun (h.table e (below_reach ih hd) hxe) i)] at hi
    exact ih.tail ⟨i, hi⟩

theorem apart (h : GrowsBelow s s' x) (hw : WellFormed s) (hx : LiveDir s x) (hd : LiveDir s d)
    (ha : Apart s d x) : Apart s' d x :=
  ⟨fun hb => ha.left (h.below_apart hw hx hd ha hb), fun hb => ha.right (h.below_old hx hd hb)⟩

theorem sameTree (h : GrowsBelow s s' x) (hw : WellFormed s) (hx : LiveDir s x)
    (hd : LiveDir s d) (ha : Apart s d x) : SameTree s d s' d := by
  refine sameTree_of_kept hw h.wellFormed hd fun y hy => ?_
  have hlive := below_reach hy hd
  refine ⟨h.kept.liveDir hlive, h.table y hlive fun hb => ?_, fun i hf => h.file y i hlive hf⟩
  rcases below_comparable hw.tree hd hx hy hb with hb | hb
  · exact ha.left hb
  · exact ha.right hb

end GrowsBelow

/-- A place that a copy writes to: at or below `x`, or cluster 0 where a folder is missing. -/
def CopyPlace (s : FileSystem) (x dest : Nat) : Prop := dest = 0 ∨ Below (folderChild s) x dest

section Calls

variable {s t s' : FileSystem} {x dest : Nat} {request : Request}

theorem CopyPlace.kept (h : CopyPlace s x dest) (hg : EntriesKept s s') (hx : LiveDir s x) :
    CopyPlace s' x dest := by
  rcases h with h | h
  · exact .inl h
  · refine .inr ?_
    induction h with
    | refl => exact .refl
    | tail hb he ih =>
      obtain ⟨i, hi⟩ := he
      exact ih.tail ⟨i, hg.child (below_reach hb hx) hi⟩

theorem not_marked (hw : WellFormed s) (hp : request.parent = 0) :
    request.parent < 512 ∧ s.next request.parent ≠ fatEndOfFile := by
  rw [hp, hw.reserved0]
  exact ⟨by decide, by decide⟩

/-- A write at such a place takes no more clusters than it needs. -/
theorem write_growsBelow (hw : WellFormed s) (hx : LiveDir s x)
    (hplace : CopyPlace s x request.parent)
    (hroom : clustersNeeded request ≤ s.freeClusters.length) {code : Int}
    (h : write s request = .ok (code, s')) : GrowsBelow s s' x ∧
      s.freeClusters.length ≤ s'.freeClusters.length + clustersNeeded request := by
  have hrefl := GrowsBelow.refl hw x
  rcases hplace with hp | hb
  · obtain ⟨hlt, hm⟩ := not_marked hw hp
    rw [write, s.withParent_refused hlt hm] at h
    cases h
    exact ⟨hrefl, Nat.le_add_right _ _⟩
  · have hp := below_reach hb hx
    by_cases hc : Clash s request
    · rw [write_clash hw hp hc] at h
      cases h
      exact ⟨hrefl.loadDir _, Nat.le_add_right _ _⟩
    · cases hf : firstFree s request.parent with
      | none =>
        rw [write_full hw hp hc hf] at h
        cases h
        exact ⟨hrefl.loadDir _, Nat.le_add_right _ _⟩
      | some k =>
        obtain ⟨t, cs, hwrite, hwr⟩ := write_new hw hp hc hf hroom
        cases hwrite.symm.trans h
        have hext := (hwr.placed hw (hwr.wellFormed hw hc)).extension
        refine ⟨⟨hext.wellFormed, hext.entriesKept hw, fun d hd hout => ?_, fun d i hd hf =>
          hwr.grown.keepsFile hw hd hf⟩, hwr.room.le⟩
        refine hext.table_eq hw hd ?_
        rintro rfl
        exact hout hb

/-- The folder that is found is below `x` again, or there is none. -/
theorem getClusterNumber_place (hw : WellFormed s) (hx : LiveDir s x)
    (hplace : CopyPlace s x request.parent) {c : Nat}
    (h : getClusterNumber s request = .ok (c, s')) :
    GrowsBelow s s' x ∧ CopyPlace s x c ∧ s'.freeClusters = s.freeClusters := by
  have hrefl := GrowsBelow.refl hw x
  rcases hplace with hp | hb
  · obtain ⟨hlt, hm⟩ := not_marked hw hp
    rw [getClusterNumber, s.withParent_refused hlt hm] at h
    cases h
    exact ⟨hrefl, .inl rfl, rfl⟩
  · obtain ⟨c', hfound, hcases⟩ := getClusterNumber_found hw (below_reach hb hx)
    cases hfound.symm.trans h
    refine ⟨hrefl.loadDir _, ?_, rfl⟩
    rcases hcases with ⟨rfl, -⟩ | ⟨i, hi, -⟩
    · exact .inl rfl
    · exact .inr (hb.tail ⟨i, hi⟩)

end Calls

/-- `rec` copies within the room that its source takes, from a source apart from `x`. -/
def CopiesBelow (x m : Nat) (rec : FileSystem → Nat → Nat → Except Fault (Int × FileSystem)) :
    Prop :=
  ∀ t s' src dest code, WellFormed t → LiveDir t x → LiveDir t src → Apart t src x →
    CopyPlace t x dest → FileTree.clustersAll (listing t m src) ≤ t.freeClusters.length →
    rec t src dest = .ok (code, s') → GrowsBelow t s' x ∧
      t.freeClusters.length ≤ s'.freeClusters.length + FileTree.clustersAll (listing t m src)

section Copy

variable {s t s' : FileSystem} {x m src dest : Nat} {i : Fin entryCount}
  {rec : FileSystem → Nat → Nat → Except Fault (Int × FileSystem)}

theorem SlotCalls.growsBelow (hrec : CopiesBelow x m rec) (hw : WellFormed t) (hx : LiveDir t x)
    (hsrc : LiveDir t src) (ha : Apart t src x) (hplace : CopyPlace t x dest)
    (hi : LiveSlot t src i)
    (hroom : (slotTree t (listing t m) (t.table src i)).clusters ≤ t.freeClusters.length)
    (h : SlotCalls rec dest (t.table src i) t s') : GrowsBelow t s' x ∧
      t.freeClusters.length ≤ s'.freeClusters.length +
        (slotTree t (listing t m) (t.table src i)).clusters := by
  have hparent : ∀ (buf : Nat → UInt8) (name : Name) (ext : Ext) (size : UInt32),
      FAT32DriverRequest.parent (⟨buf, name, ext, UInt32.ofNat dest, size⟩ : Request) = dest := by
    intro buf name ext size
    refine ofNat_parent ?_
    rcases hplace with rfl | hb
    · decide
    · exact (hw.dir_range (below_reach hb hx)).2
  cases h with
  | file hk hwrite =>
    have hfile : FileSlot t src i := ⟨hi, hk⟩
    rw [slotTree_file hk, FileTree.clusters] at hroom ⊢
    have hsize : (t.table src i).filesize ≠ 0 := filesize_ne_zero hw hsrc hfile
    have hneeded : ∀ (buf : Nat → UInt8) (parent : UInt32), clustersNeeded (⟨buf,
        (t.table src i).name, (t.table src i).ext, parent, (t.table src i).filesize⟩ : Request) =
        clusterCount (t.table src i).filesize.toNat := fun _ _ => if_neg hsize
    have hgrow := write_growsBelow hw hx (by rwa [hparent]) (by rwa [hneeded]) hwrite
    rwa [hneeded] at hgrow
  | @folder code₁ code₂ s₁ s₂ s₃ c hk hwrite hnumber hrun =>
    have hc : folderChild t src i = some (t.table src i).clusterNumber :=
      folderChild_eq_some.mpr ⟨hi, hk, rfl⟩
    have hchild := hsrc.step hc
    have hachild := ha.child hw hsrc hx hc
    rw [slotTree_folder hk, FileTree.clusters] at hroom ⊢
    obtain ⟨hg₁, hroom₁⟩ := write_growsBelow hw hx (by rwa [hparent]) (by
      rw [clustersNeeded, if_pos rfl]
      omega) hwrite
    rw [clustersNeeded, if_pos rfl] at hroom₁
    have hx₁ := hg₁.kept.liveDir hx
    obtain ⟨hg₂, hplace₂, hfree₂⟩ := getClusterNumber_place hg₁.wellFormed hx₁
      (by rw [hparent]; exact hplace.kept hg₁.kept hx) hnumber
    have hg := hg₁.trans hg₂ hx
    have hlist := hg.sameTree hw hx hchild hachild m
    obtain ⟨hg₃, hroom₃⟩ := hrec s₂ s' _ c code₂ hg.wellFormed (hg.kept.liveDir hx)
      (hg.kept.liveDir hchild) (hg.apart hw hx hchild hachild) (hplace₂.kept hg₂.kept hx₁)
      (by rw [← hlist, hfree₂]; omega) hrun
    rw [← hlist, hfree₂] at hroom₃
    exact ⟨hg.trans hg₃ hx, by omega⟩

theorem GrowsBelow.slotTree_eq (h : GrowsBelow s t x) (hw : WellFormed s) (hx : LiveDir s x)
    (hsrc : LiveDir s src) (ha : Apart s src x) (hi : LiveSlot s src i) :
    (slotTree t (listing t m) (s.table src i)).clusters =
      (slotTree s (listing s m) (s.table src i)).clusters := by
  rcases hi.kind with hf | hc
  · rw [slotTree_file hf.2, slotTree_file hf.2, FileTree.clusters, FileTree.clusters]
  · have hk := (folderChild_eq_some.mp hc).2.1
    rw [slotTree_folder hk, slotTree_folder hk,
      h.sameTree hw hx (hsrc.step hc) (ha.child hw hsrc hx hc) m]

theorem copyFolderLoop_growsBelow (hrec : CopiesBelow x m rec) (hw : WellFormed s)
    (hx : LiveDir s x) (hsrc : LiveDir s src) (ha : Apart s src x) (hplace : CopyPlace s x dest)
    {is : List (Fin entryCount)} (hr : ∀ i ∈ is, 2 ≤ i.val) (hg : GrowsBelow s t x)
    (hbuf : t.dirTableBuf = s.table src)
    (hroom : FileTree.clustersAll (slotTrees s m src (copied s src is)) ≤ t.freeClusters.length)
    {code : Int} (h : copyFolderLoop rec src dest is t = .ok (code, s')) :
    GrowsBelow s s' x ∧ t.freeClusters.length ≤ s'.freeClusters.length +
      FileTree.clustersAll (slotTrees s m src (copied s src is)) := by
  induction is generalizing t with
  | nil =>
    cases h
    exact ⟨hg, Nat.le_add_right _ _⟩
  | cons i is ih =>
    have hr' : ∀ j ∈ is, 2 ≤ j.val := fun j hj => hr j (List.mem_cons_of_mem i hj)
    have htable := hg.table src hsrc ha.right
    rcases copyFolderLoop_cons h with ⟨hl, h⟩ | ⟨hl, t', hcalls, h⟩
    · rw [hbuf] at hl
      rw [copied_cons_dead hl] at hroom ⊢
      exact ih hr' hg hbuf hroom h
    · rw [hbuf] at hl hcalls
      rw [clustersAll_cons hl] at hroom ⊢
      have hi : LiveSlot s src i := ⟨hr i List.mem_cons_self, hl⟩
      have htree := hg.slotTree_eq (m := m) hw hx hsrc ha hi
      have hi' : LiveSlot t src i := by rwa [LiveSlot, htable]
      rw [← htable] at hcalls htree
      obtain ⟨hg₁, hroom₁⟩ := hcalls.growsBelow hrec hg.wellFormed (hg.kept.liveDir hx)
        (hg.kept.liveDir hsrc) (hg.apart hw hx hsrc ha) (hplace.kept hg.kept hx) hi'
        (by rw [htree, htable]; omega)
      rw [htree, htable] at hroom₁
      have hg' := hg.trans hg₁ hx
      obtain ⟨hg₂, hroom₂⟩ := ih hr' (hg'.loadDir src) (hg'.table src hsrc ha.right)
        (by rw [freeClusters_loadDir]; omega) h
      rw [freeClusters_loadDir] at hroom₂
      exact ⟨hg₂, by omega⟩

/-- Copying from a source apart from `x` to a place below it. -/
theorem copyFolder_growsBelow (fuel : Nat) : CopiesBelow x fuel (copyFolder fuel) := by
  induction fuel with
  | zero =>
    intro t s' src dest code _ _ _ _ _ _ h
    cases h
  | succ fuel ih =>
    intro t s' src dest code hw hx hsrc ha hplace hroom h
    rw [copyFolder, t.withParent_accepted (hw.dir_range hsrc).2 (hw.dir_mark hsrc)] at h
    exact copyFolderLoop_growsBelow (t := t.loadDir src) ih hw hx hsrc ha hplace
      (fun i hi => mem_slotsFrom.mp hi) ((GrowsBelow.refl hw x).loadDir src) rfl hroom h

end Copy

end Doors.Fat32
