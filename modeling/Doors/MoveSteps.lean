import Doors.CopyGrowth
import Doors.CopyInside
import Doors.FolderLoss
import Doors.FolderLookup
import Doors.WorkDir

/-! Moving a folder. The old target is deleted first, the source last; the files survive if
the new folder lies apart from both and is the one that the copy goes to. -/

namespace Doors.Shell

open PointerTree Fat32 FileSystem

/-- The state in which `mv` makes its new folder, in slot `k`, and copies `a` to it. -/
structure MoveReady (s : FileSystem) (req : Request) (a : Nat) (k : Fin entryCount) : Prop where
  wellFormed : WellFormed s
  parent : LiveDir s req.parent
  folder : req.bufferSize = 0
  fresh : ¬ Clash s req
  slot : firstFree s req.parent = some k
  /-- No folder of that name comes before it. -/
  first : ∀ j b, folderChild s req.parent j = some b →
    (s.table req.parent j).name = req.name → k ≤ j
  source : LiveDir s a
  outside : ¬ Below (folderChild s) a req.parent
  plain : PlainBelow s a
  room : FileTree.clustersAll (listing s clusterMapSize a) + 1 ≤ s.freeClusters.length

/-- The new folder `c` in slot `k` is a copy of `a`, apart from everything that was there. -/
structure MovedInto (s s' : FileSystem) (req : Request) (a : Nat) (k : Fin entryCount) (c : Nat) :
    Prop where
  wellFormed : WellFormed s'
  kept : EntriesKept s s'
  child : folderChild s' req.parent k = some c
  name : entryName (s'.table req.parent k) = (req.name, req.ext)
  same : SameTree s a s' c
  source : ¬ Below (folderChild s') a c
  apart : ∀ d, LiveDir s d → ¬ Below (folderChild s') c d

section Copy

variable {s s' s₁ : FileSystem} {req : Request} {a c : Nat} {k : Fin entryCount}

theorem new_outside (hw : WellFormed s) (hp : LiveDir s req.parent) (ha : LiveDir s a)
    (hout : ¬ Below (folderChild s) a req.parent) (hext : Extends s s₁ req.parent)
    (hc : folderChild s₁ req.parent k = some c) (hfree : s.next c = fatEmptyEntry) :
    ¬ Below (folderChild s₁) a c := by
  intro hb
  rcases Relation.ReflTransGen.cases_tail hb with rfl | ⟨d, hd, i, hi⟩
  · rw [hw.dir_mark ha] at hfree
    exact absurd hfree (by decide)
  · obtain ⟨rfl, -⟩ := hext.wellFormed.tree.parent_unique
      (below_reach hd (hext.liveDir hw ha)) (hext.liveDir hw hp) hi hc
    exact hout (hext.below hw ha hp hd)

theorem new_apart (hw : WellFormed s) (hempty : ∀ j, ¬ LiveSlot s₁ c j)
    (hfree : s.next c = fatEmptyEntry) {d : Nat} (hd : LiveDir s d) :
    ¬ Below (folderChild s₁) c d := by
  intro hb
  rcases Relation.ReflTransGen.cases_head hb with rfl | ⟨e, ⟨j, hj⟩, -⟩
  · rw [hw.dir_mark hd] at hfree
    exact absurd hfree (by decide)
  · exact hempty j (folderChild_eq_some.mp hj).1

/-- Making the folder and copying succeeds. -/
theorem MoveReady.copyInto (h : MoveReady s req a k) :
    ∃ s' c, copyInto s req a = .ok (true, s') ∧ MovedInto s s' req a k c := by
  have hw := h.wellFormed
  have hneeded : clustersNeeded req = 1 := if_pos h.folder
  have hroom := h.room
  obtain ⟨s₁, cs, hwrite, hwr⟩ := write_new hw h.parent h.fresh h.slot (by omega)
  have hw₁ := hwr.wellFormed hw h.fresh
  have hp := hwr.placed hw hw₁
  have hext := hp.extension
  obtain ⟨c, hc, hfree, hempty⟩ := hp.folder h.folder
  have hp₁ := hext.liveDir hw h.parent
  have ha₁ := hext.liveDir hw h.source
  have hfirst : ∀ j b, folderChild s₁ req.parent j = some b →
      (s₁.table req.parent j).name = req.name → k ≤ j := by
    intro j b hj hn
    rcases hwr.grown.liveSlot_cases hw hp₁ (folderChild_eq_some.mp hj).1 with
      ⟨-, rfl⟩ | ⟨-, -, he, -⟩
    · exact le_refl _
    · rw [he] at hn
      exact h.first j b (by rw [← folderChild_congr he, hj]) hn
  have hnumber := getClusterNumber_first hw₁ hp₁ hc hp.name hfirst
  have hsame : SameTree s a s₁ a := hext.sameTree hw h.parent h.source h.outside
  have hout := new_outside hw h.parent h.source h.outside hext hc hfree
  have hrooms : FileTree.clustersAll (listing s₁ clusterMapSize a) ≤ s₁.freeClusters.length := by
    have hone := hp.room
    rw [← hsame clusterMapSize]
    omega
  obtain ⟨n, hn⟩ := ha₁
  have hready : CopyReady clusterMapSize (s₁.loadDir req.parent) a c :=
    ⟨⟨hw₁.loadDir _, ⟨n, hn, Nat.le_add_right _ _⟩, hp₁.step hc, hout⟩,
      copyFits_empty (hsame.symm.plainBelow h.plain) hempty (by rw [listing_loadDir]; exact hrooms)⟩
  obtain ⟨s', hrun, hdone⟩ := copyFolder_copies hready
  have hext' : Extends s₁ s' c := hdone.copying.extension.of_loadDir
  have hdc := hp₁.step hc
  refine ⟨s', c, ?_, hext'.wellFormed, (hext.entriesKept hw).trans (hext'.entriesKept hw₁),
    hext'.folderChild hw₁ hp₁ hc, ?_, ?_, ?_, ?_⟩
  · simp only [Shell.copyInto, bind, Except.bind, hwrite, hnumber, hrun]
    rfl
  · rw [hext'.entry_eq hw₁ hp₁ (folderChild_eq_some.mp hc).1, entryName, hp.name, hp.ext]
  · intro m
    have hlist := hdone.copying.listing hempty m
    rw [listing_loadDir] at hlist
    rw [hlist]
    exact hsame m
  · exact fun hb => hout (hext'.below hw₁ (hext.liveDir hw h.source) hdc hb)
  · intro d hd hb
    exact new_apart hw hempty hfree hd (hext'.below hw₁ hdc (hext.liveDir hw hd) hb)

end Copy

/-- The old target is gone, and with it all that was at or below it. -/
structure Cleared (s s' : FileSystem) (req : Request) (gone : Nat → Prop) : Prop where
  wellFormed : WellFormed s'
  parent : LiveDir s' req.parent
  fresh : ¬ Clash s' req
  closed : ∀ d x, gone d → Below (folderChild s) d x → gone x
  child : ∀ d i b, LiveDir s d → folderChild s d i = some b → ¬ gone b →
    LiveDir s' d ∧ s'.table d i = s.table d i
  old : ∀ d i, LiveDir s' d → LiveSlot s' d i → LiveDir s d ∧ s'.table d i = s.table d i
  slot : ∀ i, LiveSlot s req.parent i → ¬ LiveSlot s' req.parent i →
    req.names (s.table req.parent i) = true
  same : ∀ d, LiveDir s d → ¬ gone d → ¬ Below (folderChild s) d req.parent → SameTree s d s' d
  freed : ∀ d, LiveDir s d → gone d → s'.next d = fatEmptyEntry
  room : s.freeClusters.length ≤ s'.freeClusters.length

section Clear

variable {s s' : FileSystem} {req : Request} {gone : Nat → Prop}

theorem Cleared.of_absent (hw : WellFormed s) (hp : LiveDir s req.parent) (hc : ¬ Clash s req)
    (hgone : ∀ d, ¬ gone d) : Cleared s s req gone where
  wellFormed := hw
  parent := hp
  fresh := hc
  closed d _ hd := absurd hd (hgone d)
  child _ _ _ hd _ _ := ⟨hd, rfl⟩
  old _ _ hd _ := ⟨hd, rfl⟩
  slot _ hl hdead := absurd hl hdead
  same _ _ _ _ _ := rfl
  freed d _ hd := absurd hd (hgone d)
  room := le_refl _

theorem Cleared.of_pruned (hw : WellFormed s) {j : Fin entryCount} {t : Nat}
    (ht : folderChild s req.parent j = some t)
    (hn : req.names (s.table req.parent j) = true) (hg : Pruned s s' req.parent j) :
    Cleared s s' req (Below (folderChild s) t) := by
  have hp := hg.parent
  have hregion : ∀ d, LiveDir s d →
      (EntryRegion s req.parent j d ↔ Below (folderChild s) t d) := by
    intro d hd
    refine (region_dir_iff hw hp hd).trans ⟨?_, fun hb => ⟨t, ht, hb⟩⟩
    rintro ⟨a, ha, hb⟩
    cases ht.symm.trans ha
    exact hb
  have hparent := not_below_child hw.tree hp ht
  refine ⟨hg.wellFormed hw, (hg.liveDir_iff hw).mpr ⟨hp, region_not_parent hw hp⟩, ?_,
    fun _ _ hd hx => hd.trans hx, ?_, ?_, ?_, ?_, ?_, hg.freeClusters_le⟩
  · rintro ⟨i, hi, hni⟩
    obtain ⟨-, -, hne, hl, he⟩ := hg.liveSlot_cases hw
      ((hg.liveDir_iff hw).mpr ⟨hp, region_not_parent hw hp⟩) hi
    rw [he] at hni
    exact hne rfl (named_unique hw.directories hp hl (folderChild_eq_some.mp ht).1 hni hn)
  · intro d i b hd hb hgone
    have hr : ¬ EntryRegion s req.parent j d := fun h =>
      hgone (((hregion d hd).mp h).tail ⟨i, hb⟩)
    refine ⟨(hg.liveDir_iff hw).mpr ⟨hd, hr⟩, hg.entry_eq hw hd hr ?_⟩
    rintro rfl rfl
    cases ht.symm.trans hb
    exact hgone .refl
  · intro d i hd hl
    obtain ⟨hd, -, -, -, he⟩ := hg.liveSlot_cases hw hd hl
    exact ⟨hd, he⟩
  · intro i hl hdead
    by_cases hij : i = j
    · rw [hij, hn]
    · rw [LiveSlot, hg.entry_eq hw hp (region_not_parent hw hp) fun _ => hij] at hdead
      exact absurd hl hdead
  · exact fun d hd hgone hb => hg.sameTree hw hd (fun h => hgone ((hregion d hd).mp h)) hb
  · exact fun d hd hgone => hg.next_in d (hw.dir_range hd).2 ((hregion d hd).mpr hgone)

/-- A path to a directory that is not gone is left. -/
theorem Cleared.folderPath (h : Cleared s s' req gone) {path : List (Name × Ext)} {x : Nat}
    (hx : ¬ gone x) (hp : FolderPath s rootClusterNumber path x) :
    FolderPath s' rootClusterNumber path x := by
  refine hp.kept (P := fun y => LiveDir s y ∧ ¬ gone y) (fun y i b hy hb hb' => ?_)
    fun z hz hzx => ⟨below_reach hz reach_root, fun hgone => hx (h.closed z x hgone hzx)⟩
  have he := (h.child y i b hy.1 hb hb'.2).2
  exact ⟨by rw [folderChild_congr he, hb], by rw [he]⟩

theorem Cleared.folderChild (h : Cleared s s' req gone) {d b : Nat} {i : Fin entryCount}
    (hd : LiveDir s d) (hb : folderChild s d i = some b) (hgone : ¬ gone b) :
    folderChild s' d i = some b := by
  rw [folderChild_congr (h.child d i b hd hb hgone).2, hb]

theorem Cleared.below (h : Cleared s s' req gone) {d x : Nat} (hd : LiveDir s' d)
    (hb : Below (Fat32.folderChild s') d x) : Below (Fat32.folderChild s) d x := by
  induction hb with
  | refl => exact .refl
  | tail hb he ih =>
    obtain ⟨i, hi⟩ := he
    have ho := h.old _ i (below_reach hb hd) (folderChild_eq_some.mp hi).1
    rw [folderChild_congr ho.2] at hi
    exact ih.tail ⟨i, hi⟩

theorem Cleared.sibling (h : Cleared s s' req gone) {j : Fin entryCount}
    (hl : LiveSlot s req.parent j) (hn : req.names (s.table req.parent j) = false) :
    LiveSlot s' req.parent j ∧ s'.table req.parent j = s.table req.parent j := by
  have hl' : LiveSlot s' req.parent j := by
    by_contra hdead
    rw [h.slot j hl hdead] at hn
    cases hn
  exact ⟨hl', (h.old _ j h.parent hl').2⟩

theorem Cleared.dead (h : Cleared s s' req gone) {k : Fin entryCount}
    (hk : LiveSlot s req.parent k → req.names (s.table req.parent k) = true) :
    ¬ LiveSlot s' req.parent k := by
  intro hl
  have he := (h.old _ k h.parent hl).2
  refine h.fresh ⟨k, hl, ?_⟩
  rw [he]
  exact hk (by rwa [LiveSlot, ← he])

end Clear

/-- `mv` of a folder once an old target is gone. -/
def moveInto (s : FileSystem) (req srcReq : Request) (a : Nat) : Except Fault FileSystem := do
  let (copied, s) ← copyInto s req a
  if !copied then return s
  else
    let (_, s) ← deleteFolderRec s srcReq
    return s

/-- Every file that was below `a` reads as before, at its old path or at its new one. -/
def FilesKept (s s' : FileSystem) (a : Nat) (old new : List (Name × Ext)) : Prop :=
  ∀ path name bytes, FileAt s a path name bytes →
    FileAt s' rootClusterNumber (old ++ path) name bytes ∨
      FileAt s' rootClusterNumber (new ++ path) name bytes

/-- The source of a move, in slot `i` of directory `p`. -/
structure MoveSource (s : FileSystem) (srcReq : Request) (p : Nat) (i : Fin entryCount) (a : Nat) :
    Prop where
  liveDir : LiveDir s p
  child : folderChild s p i = some a
  named : srcReq.names (s.table p i) = true
  parent : srcReq.parent = p

section Finish

variable {s s₁ s' : FileSystem} {req srcReq : Request} {gone : Nat → Prop} {p a : Nat}
  {i : Fin entryCount} {sp tp : List (Name × Ext)}

theorem MoveSource.cleared (h : MoveSource s srcReq p i a) (hc : Cleared s s₁ req gone)
    (hgone : ¬ gone a) : MoveSource s₁ srcReq p i a := by
  obtain ⟨hp, he⟩ := hc.child p i a h.liveDir h.child hgone
  exact ⟨hp, hc.folderChild h.liveDir h.child hgone, by rw [he, h.named], h.parent⟩

theorem MoveSource.kept (h : MoveSource s srcReq p i a) (hk : EntriesKept s s₁) :
    MoveSource s₁ srcReq p i a := by
  have he := hk.entry h.liveDir (folderChild_eq_some.mp h.child).1.2
  exact ⟨hk.liveDir h.liveDir, hk.child h.liveDir h.child, by rw [he, h.named], h.parent⟩

/-- A move apart from its source keeps the files, at the new path. -/
theorem moveInto_keeps (hw : WellFormed s) (hsrc : MoveSource s srcReq p i a)
    (hc : Cleared s s₁ req gone) {k : Fin entryCount} (hready : MoveReady s₁ req a k)
    (hgone : ¬ gone a) (hq : ¬ gone req.parent) (hout : ¬ Below (folderChild s) a req.parent)
    (htp : FolderPath s rootClusterNumber tp req.parent) :
    ∃ s', moveInto s₁ req srcReq a = .ok s' ∧
      FilesKept s s' a (sp ++ [entryName (s.table p i)]) (tp ++ [(req.name, req.ext)]) := by
  obtain rfl := hsrc.parent
  have ha := hsrc.liveDir.step hsrc.child
  obtain ⟨s₂, c, hcopy, hm⟩ := hready.copyInto
  have hw₂ := hm.wellFormed
  have hsrc₁ := hsrc.cleared hc hgone
  have hsrc₂ := hsrc₁.kept hm.kept
  obtain ⟨s', hdelete, hpr⟩ :=
    deleteFolderRec_folder hw₂ hsrc₂.liveDir hsrc₂.child hsrc₂.named
  have hq₂ := hm.kept.liveDir hready.parent
  have hlive : LiveDir s₂ c := hq₂.step hm.child
  have hregion : ¬ EntryRegion s₂ srcReq.parent i c := by
    intro hr
    obtain ⟨a', ha', hb⟩ := (region_dir_iff hw₂ hsrc₂.liveDir hlive).mp hr
    cases hsrc₂.child.symm.trans ha'
    exact hm.source hb
  have hpath : FolderPath s₂ rootClusterNumber (tp ++ [(req.name, req.ext)]) c := by
    rw [← hm.name]
    exact (hm.kept.folderPath reach_root (hc.folderPath hq htp)).append (.single hm.child)
  have hsame : SameTree s a s' c :=
    ((hc.same a ha hgone hout).trans hm.same).trans
      (hpr.sameTree hw₂ hlive hregion (hm.apart _ hsrc₁.liveDir))
  have hlive' : LiveDir s' c := (hpr.liveDir_iff hw₂).mpr ⟨hlive, hregion⟩
  refine ⟨s', ?_, fun path name bytes hf => .inr ?_⟩
  · simp only [moveInto, bind, Except.bind, hcopy, hdelete]
    rfl
  · exact (hsame.fileAt hw (hpr.wellFormed hw₂) ha hlive' hf).below
      (hpr.folderPath hw₂ hregion hpath)

/-- The new folder in slot `k`, whatever has become of the copy. -/
structure MadeFolder (s s' : FileSystem) (req : Request) (k : Fin entryCount) (c : Nat) : Prop where
  directories : Directories s'
  kept : EntriesKept s s'
  child : folderChild s' req.parent k = some c
  name : entryName (s'.table req.parent k) = (req.name, req.ext)

theorem MadeFolder.loadDir {k : Fin entryCount} {c : Nat} (h : MadeFolder s s' req k c) (d : Nat) :
    MadeFolder s (s'.loadDir d) req k c :=
  ⟨h.directories.loadDir d, h.kept.loadDir d, h.child, h.name⟩

theorem write_made (hw : WellFormed s) (hp : LiveDir s req.parent) (hz : req.bufferSize = 0)
    (hc : ¬ Clash s req) {j : Fin entryCount} (hj : 2 ≤ j.val)
    (hdead : ¬ LiveSlot s req.parent j) (hroom : 1 ≤ s.freeClusters.length) :
    ∃ k cs s₁, write s req = .ok (0, s₁) ∧ Written s s₁ req k cs ∧ WellFormed s₁ := by
  obtain ⟨k, hf⟩ := firstFree_exists hj (not_live hj hdead)
  have hneeded : clustersNeeded req = 1 := if_pos hz
  obtain ⟨s₁, cs, hwrite, hwr⟩ := write_new hw hp hc hf (by omega)
  exact ⟨k, cs, s₁, hwrite, hwr, hwr.wellFormed hw hc⟩

/-- A source whose cluster was freed is not copied, or is the new folder itself. -/
theorem copyInto_freed_source (hw : WellFormed s) (hp : LiveDir s req.parent)
    (hz : req.bufferSize = 0) (hc : ¬ Clash s req) {j : Fin entryCount} (hj : 2 ≤ j.val)
    (hdead : ¬ LiveSlot s req.parent j) (hroom : 1 ≤ s.freeClusters.length) (ha : a < 512)
    (hfree : s.next a = fatEmptyEntry) : ∃ copied s' k c, copyInto s req a = .ok (copied, s') ∧
      WellFormed s' ∧ MadeFolder s s' req k c ∧ ∀ j, ¬ LiveSlot s' c j := by
  obtain ⟨k, cs, s₁, hwrite, hwr, hw₁⟩ := write_made hw hp hz hc hj hdead hroom
  obtain ⟨c, hcs, -, hnew⟩ := hwr.folderChild_new hz
  have hplaced := hwr.placed hw hw₁
  obtain ⟨c', hc', -, hempty⟩ := hplaced.folder hz
  cases hnew.symm.trans hc'
  have hp₁ := hplaced.extension.liveDir hw hp
  have hmade : MadeFolder s s₁ req k c := by
    refine ⟨hw₁.directories, hplaced.extension.entriesKept hw, hnew, ?_⟩
    rw [entryName, hplaced.name, hplaced.ext]
  obtain ⟨b, hfound, -⟩ := getClusterNumber_found hw₁ hp₁
  by_cases hac : a = c
  · subst hac
    have hcopy : copyFolder clusterMapSize (s₁.loadDir req.parent) a b = _ :=
      copyFolder_empty (hw₁.loadDir req.parent) (hp₁.step hnew) hempty 511 b
    refine ⟨true, (s₁.loadDir req.parent).loadDir a, k, a, ?_, (hw₁.loadDir _).loadDir _,
      (hmade.loadDir _).loadDir _, hempty⟩
    simp only [copyInto, bind, Except.bind, hwrite, hfound, hcopy]
    rfl
  · have hnot : a ∉ cs := by
      rw [hcs, List.mem_singleton]
      exact hac
    have hun : (s₁.loadDir req.parent).next a ≠ fatEndOfFile := by
      rw [next_loadDir, hwr.grown.next_eq a ha hnot, hfree]
      decide
    refine ⟨false, s₁.loadDir req.parent, k, c, ?_, hw₁.loadDir _, hmade.loadDir _, hempty⟩
    have hcopy : copyFolder clusterMapSize (s₁.loadDir req.parent) a b =
        .ok (-1, s₁.loadDir req.parent) := by
      rw [copyFolder, FileSystem.withParent_refused _ ha hun]
    simp only [copyInto, bind, Except.bind, hwrite, hfound, hcopy]
    rfl

/-- A source inside the old target: the new folder is empty in the end. -/
theorem moveInto_gone (hw : WellFormed s) (hsrc : LiveDir s srcReq.parent) (hsrca : LiveDir s a)
    (hc : Cleared s s₁ req gone) (hgone : gone a) (hq : ¬ gone req.parent)
    (hz : req.bufferSize = 0) {j : Fin entryCount} (hj : 2 ≤ j.val)
    (hdead : ¬ LiveSlot s₁ req.parent j) (hroom : 1 ≤ s₁.freeClusters.length)
    (htp : FolderPath s rootClusterNumber tp req.parent)
    (h : moveInto s₁ req srcReq a = .ok s') {path : List (Name × Ext)} {name : Name × Ext}
    {bytes : List UInt8} :
    ¬ FileAt s' rootClusterNumber (tp ++ [(req.name, req.ext)] ++ path) name bytes := by
  obtain ⟨⟨copied, s₂⟩, hcopy, h⟩ := bind_ok h
  obtain ⟨copied', s₂', k, c, hcopy', -, hmade, hempty⟩ := copyInto_freed_source hc.wellFormed
    hc.parent hz hc.fresh hj hdead hroom (hw.dir_range hsrca).2 (hc.freed a hsrca hgone)
  cases hcopy.symm.trans hcopy'
  have herodes : Erodes s₂ s' := by
    cases copied with
    | false =>
      cases h
      exact .refl _
    | true =>
      obtain ⟨⟨code, t⟩, hdelete, h⟩ := bind_ok h
      cases h
      exact deleteFolderRec_erodes (hw.dir_range hsrc).1 hdelete
  refine herodes.not_below hmade.directories ?_ hempty
  rw [← hmade.name]
  exact (hmade.kept.folderPath reach_root (hc.folderPath hq htp)).append (.single hmade.child)

/-- The calls of a move whose source is still there: the copy reports success, and then the
source's slot is cleared. -/
theorem moveInto_calls (hw : WellFormed s) (hp : LiveDir s req.parent) (hz : req.bufferSize = 0)
    (hc : ¬ Clash s req) {j : Fin entryCount} (hj : 2 ≤ j.val)
    (hdead : ¬ LiveSlot s req.parent j) (hroom : 1 ≤ s.freeClusters.length)
    (hsrc : MoveSource s srcReq p i a) (h : moveInto s req srcReq a = .ok s') :
    ∃ k cs c s₂ s₃, Written s s₂ req k cs ∧ WellFormed s₂ ∧
      getClusterNumber s₂ req = .ok (c, s₂.loadDir req.parent) ∧
      copyFolder clusterMapSize (s₂.loadDir req.parent) a c = .ok (0, s₃) ∧ Directories s₃ ∧
      EntriesKept s₂ s₃ ∧ Erodes s₃ s' ∧ (s'.table p i).live = false := by
  obtain rfl := hsrc.parent
  obtain ⟨⟨copied, s₃⟩, hcopied, h⟩ := bind_ok h
  obtain ⟨k, cs, s₂, hwrite, hwr, hw₂⟩ := write_made hw hp hz hc hj hdead hroom
  have hext := (hwr.placed hw hw₂).extension
  rcases copyInto_calls hcopied with ⟨res, hres, hwrite', -⟩ |
    ⟨t, c, t', code, hwrite', hnumber, hcopy, rfl⟩
  · cases hwrite.symm.trans hwrite'
    exact absurd rfl hres
  · cases hwrite.symm.trans hwrite'
    obtain ⟨c', hfound, -⟩ := getClusterNumber_found hw₂ (hext.liveDir hw hp)
    cases hnumber.symm.trans hfound
    have ha := hext.liveDir hw (hsrc.liveDir.step hsrc.child)
    obtain rfl := copyFolder_code (hw₂.loadDir _) ha hcopy
    obtain ⟨hdirs, hkept⟩ := copyFolder_grows clusterMapSize _ _ _ _ _
      (hw₂.loadDir req.parent).directories hcopy
    have hkept : EntriesKept s₂ s₃ := ((EntriesKept.refl s₂).loadDir _).trans hkept
    obtain ⟨⟨code, t⟩, hdelete, h⟩ := bind_ok h
    cases h
    have hsrc₃ := hsrc.kept ((hext.entriesKept hw).trans hkept)
    obtain ⟨herodes, hcleared⟩ :=
      deleteFolderRec_clears hdirs hsrc₃.liveDir hsrc₃.child hsrc₃.named hdelete
    exact ⟨k, cs, c, s₂, s₃, hwr, hw₂, hnumber, hcopy, hdirs, hkept, herodes, hcleared⟩

theorem moveInto_source (hsrc : MoveSource s srcReq p i a) (hc : Cleared s s₁ req gone)
    (hgone : ¬ gone a) (hz : req.bufferSize = 0) {j : Fin entryCount} (hj : 2 ≤ j.val)
    (hdead : ¬ LiveSlot s₁ req.parent j) (hroom : 1 ≤ s₁.freeClusters.length)
    (hsp : FolderPath s rootClusterNumber sp p) (h : moveInto s₁ req srcReq a = .ok s')
    {path : List (Name × Ext)} {x : Nat} :
    ¬ FolderPath s' rootClusterNumber (sp ++ entryName (s.table p i) :: path) x := by
  have hsrc₁ := hsrc.cleared hc hgone
  obtain ⟨k, cs, c, s₂, s₃, hwr, hw₂, -, -, hdirs, hkept, herodes, hcleared⟩ :=
    moveInto_calls hc.wellFormed hc.parent hz hc.fresh hj hdead hroom hsrc₁ h
  have hkept := ((hwr.placed hc.wellFormed hw₂).extension.entriesKept hc.wellFormed).trans hkept
  have hpgone : ¬ gone p := fun hp => hgone (hc.closed p a hp (.single ⟨i, hsrc.child⟩))
  have he : s₃.table p i = s.table p i :=
    (hkept.entry hsrc₁.liveDir (folderChild_eq_some.mp hsrc₁.child).1.2).trans
      (hc.child p i a hsrc.liveDir hsrc.child hgone).2
  rw [← he]
  exact herodes.not_through hdirs (hkept.folderPath reach_root (hc.folderPath hpgone hsp))
    (folderChild_eq_some.mp (hsrc₁.kept hkept).child).1 hcleared

/-- Every folder of the new name comes behind a slot that is free for the new folder. -/
def NameFirst (s : FileSystem) (req : Request) : Prop :=
  ∀ j b, folderChild s req.parent j = some b → (s.table req.parent j).name = req.name →
    (s.table req.parent j).ext ≠ req.ext → ∃ k : Fin entryCount, 2 ≤ k.val ∧ k < j ∧
      (LiveSlot s req.parent k → req.names (s.table req.parent k) = true)

theorem nameFirst_of_found (hc : Cleared s s₁ req gone) {k : Fin entryCount}
    (hslot : firstFree s₁ req.parent = some k)
    (hfirst : ∀ j b, folderChild s₁ req.parent j = some b →
      (s₁.table req.parent j).name = req.name → k ≤ j) : NameFirst s req := by
  intro j b hb hn hx
  obtain ⟨h2, hdead⟩ := firstFree_some hslot
  have hnot : req.names (s.table req.parent j) = false := by
    rw [Bool.eq_false_iff]
    exact fun hh => hx (FAT32DriverRequest.names_iff.mp hh).2
  obtain ⟨hl, he⟩ := hc.sibling (folderChild_eq_some.mp hb).1 hnot
  have hle := hfirst j b (by rw [folderChild_congr he, hb]) (by rw [he, hn])
  refine ⟨k, h2, lt_of_le_of_ne hle ?_, fun hlive => hc.slot k hlive fun h => ?_⟩
  · rintro rfl
    rw [hl.2] at hdead
    cases hdead
  · rw [h.2] at hdead
    cases hdead

/-- The new folder goes to the first free slot, which comes before the folders of its name. -/
theorem Cleared.ready (hc : Cleared s s₁ req gone) (hsrc : MoveSource s srcReq p i a)
    (hgone : ¬ gone a) (hz : req.bufferSize = 0) {j : Fin entryCount} (hj : 2 ≤ j.val)
    (hdead : ¬ LiveSlot s₁ req.parent j) (hout : ¬ Below (Fat32.folderChild s) a req.parent)
    (hplain : PlainBelow s a) (hfirst : NameFirst s req)
    (hroom : FileTree.clustersAll (listing s clusterMapSize a) + 1 ≤ s.freeClusters.length) :
    ∃ k, MoveReady s₁ req a k := by
  have hsame := hc.same a (hsrc.liveDir.step hsrc.child) hgone hout
  have hsrc₁ := hsrc.cleared hc hgone
  have ha₁ := hsrc₁.liveDir.step hsrc₁.child
  obtain ⟨k, hk⟩ := firstFree_exists hj (not_live hj hdead)
  refine ⟨k, hc.wellFormed, hc.parent, hz, hc.fresh, hk, fun m b hm hn => ?_, ha₁,
    fun hb => hout (hc.below ha₁ hb), hsame.symm.plainBelow hplain, ?_⟩
  · have hl := (folderChild_eq_some.mp hm).1
    have he := (hc.old _ m hc.parent hl).2
    have hx := not_clash hc.fresh hl hn
    rw [folderChild_congr he] at hm
    rw [he] at hn hx
    obtain ⟨k', h2, hlt, hfree⟩ := hfirst m b hm hn hx
    refine le_of_lt (lt_of_le_of_lt (find_le (slotsFrom_sorted 2) hk (mem_slotsFrom.mpr h2) ?_) hlt)
    rw [not_live h2 (hc.dead hfree)]
    rfl
  · have hmore := hc.room
    rw [← hsame clusterMapSize]
    omega

/-- A folder of the new name outside of the source is apart from it, if it is not above it. -/
theorem sibling_apart (hw : WellFormed s) (hp : LiveDir s req.parent) (ha : LiveDir s a)
    (hout : ¬ Below (folderChild s) a req.parent) {j : Fin entryCount} {c : Nat}
    (hc : folderChild s req.parent j = some c) (habove : ¬ Below (folderChild s) c a) :
    Apart s a c := by
  refine ⟨fun hb => ?_, habove⟩
  rcases Relation.ReflTransGen.cases_tail hb with rfl | ⟨d, hd, m, hm⟩
  · exact habove .refl
  · obtain ⟨rfl, -⟩ := hw.tree.parent_unique (below_reach hd ha) hp hm hc
    exact hout hd

theorem found_elsewhere (hw : WellFormed s₁) (ha : LiveDir s₁ a) (hp : LiveDir s₁ req.parent)
    (hout : ¬ Below (folderChild s₁) a req.parent) {m k : Fin entryCount} {c x : Nat}
    (hm : folderChild s₁ req.parent m = some c) (hx : folderChild s₁ req.parent k = some x)
    (hmk : m ≠ k) (habove : Below (folderChild s₁) c a → c = a ∧ PlainBelow s₁ a)
    (hroom : FileTree.clustersAll (listing s₁ clusterMapSize a) ≤ s₁.freeClusters.length)
    {code : Int} (h : copyFolder clusterMapSize (s₁.loadDir req.parent) a c = .ok (code, s')) :
    s'.table x = s₁.table x := by
  by_cases hb : Below (folderChild s₁) c a
  · obtain ⟨rfl, hplain⟩ := habove hb
    obtain ⟨e, rfl⟩ := copyFolder_onto_self hw _ _ _ _ _ ha hplain h
    rfl
  · have hapart := sibling_apart hw hp ha hout hm hb
    have hgrows := (copyFolder_growsBelow clusterMapSize (s₁.loadDir req.parent) s' a c code
      (hw.loadDir _) (hp.step hm) ha ⟨hapart.left, hapart.right⟩ (.inr .refl)
      (by rwa [listing_loadDir, freeClusters_loadDir]) h).1.of_loadDir
    exact hgrows.table x (hp.step hx) fun hb => hmk (siblings_disjoint hw.tree hp hm hx hb .refl)

/-- A copy to a new folder makes folders without extensions. -/
theorem copied_plain (hw : WellFormed s₁) (ha : LiveDir s₁ a) {x : Nat} (hx : LiveDir s₁ x)
    (hempty : ∀ i, ¬ LiveSlot s₁ x i) (hout : ¬ Below (folderChild s₁) a x) (hxa : x ≠ a)
    (hroom : FileTree.clustersAll (listing s₁ clusterMapSize a) ≤ s₁.freeClusters.length)
    {d : Nat} {code : Int} (h : copyFolder clusterMapSize (s₁.loadDir d) a x = .ok (code, s')) :
    PlainBelow s' x := by
  have hapart : Apart (s₁.loadDir d) a x := by
    refine ⟨hout, fun hb => ?_⟩
    rcases Relation.ReflTransGen.cases_head hb with he | ⟨e, ⟨j, hj⟩, -⟩
    · exact hxa he
    · exact hempty j (folderChild_eq_some.mp hj).1
  have hgrows := (copyFolder_growsBelow clusterMapSize (s₁.loadDir d) s' a x code
    (hw.loadDir _) hx ha hapart (.inr .refl)
    (by rwa [listing_loadDir, freeClusters_loadDir]) h).1
  exact copyFolder_plainBelow clusterMapSize _ _ _ _ _ (hw.loadDir d).directories hx ha
    (plainBelow_leaf fun j => Option.eq_none_iff_forall_ne_some.mpr fun b hb =>
      hempty j (folderChild_eq_some.mp hb).1) h
    fun d i hd hf => filesize_ne_zero hgrows.wellFormed hd hf

/-- A folder of the new name with another extension is not above the source; it may be the
source itself if its folders have no extensions. -/
def SourceBeside (s : FileSystem) (req : Request) (a : Nat) : Prop :=
  ∀ j b, folderChild s req.parent j = some b → (s.table req.parent j).name = req.name →
    (s.table req.parent j).ext ≠ req.ext → Below (folderChild s) b a → b = a ∧ PlainBelow s a

/-- A file at the new path is there only if the copy went to the new folder and the path has
folders without extensions only. -/
theorem moveInto_apart (hsrc : MoveSource s srcReq p i a)
    (hc : Cleared s s₁ req gone) (hgone : ¬ gone a) (hq : ¬ gone req.parent)
    (hz : req.bufferSize = 0) {j : Fin entryCount} (hj : 2 ≤ j.val)
    (hdead : ¬ LiveSlot s₁ req.parent j)
    (hroom : FileTree.clustersAll (listing s clusterMapSize a) + 1 ≤ s.freeClusters.length)
    (hout : ¬ Below (folderChild s) a req.parent) (hbeside : SourceBeside s req a)
    (htp : FolderPath s rootClusterNumber tp req.parent) (h : moveInto s₁ req srcReq a = .ok s')
    {path : List (Name × Ext)} {name : Name × Ext} {bytes : List UInt8}
    (hf : FileAt s' rootClusterNumber (tp ++ [(req.name, req.ext)] ++ path) name bytes) :
    NameFirst s req ∧ ∀ n ∈ path, n.2 = noExt := by
  have hsrc₁ := hsrc.cleared hc hgone
  have hroom₁ := hc.room
  have hw₁ := hc.wellFormed
  obtain ⟨k, cs, c, s₂, s₃, hwr, hw₂, hnumber, hcopy, hdirs, hkept, herodes, -⟩ :=
    moveInto_calls hw₁ hc.parent hz hc.fresh hj hdead (by omega) hsrc₁ h
  have hplaced := hwr.placed hw₁ hw₂
  have hext := hplaced.extension
  obtain ⟨x, hx, hfree, hempty⟩ := hplaced.folder hz
  have hp₂ := hext.liveDir hw₁ hc.parent
  have ha := hsrc.liveDir.step hsrc.child
  have ha₁ := hsrc₁.liveDir.step hsrc₁.child
  have ha₂ := hext.liveDir hw₁ ha₁
  have hout₁ : ¬ Below (folderChild s₁) a req.parent := fun hb => hout (hc.below ha₁ hb)
  have hsame : SameTree s a s₂ a :=
    (hc.same a ha hgone hout).trans (hext.sameTree hw₁ hc.parent ha₁ hout₁)
  have hlist : FileTree.clustersAll (listing s₂ clusterMapSize a) ≤ s₂.freeClusters.length := by
    have hone := hplaced.room
    have hneeded : clustersNeeded req = 1 := if_pos hz
    rw [← hsame clusterMapSize]
    omega
  have hpath : FolderPath s₃ rootClusterNumber (tp ++ [(req.name, req.ext)]) x := by
    have hname : entryName (s₂.table req.parent k) = (req.name, req.ext) := by
      rw [entryName, hplaced.name, hplaced.ext]
    rw [← hname]
    exact hkept.folderPath reach_root (((hext.entriesKept hw₁).folderPath reach_root
      (hc.folderPath hq htp)).append (.single hx))
  obtain ⟨c', hfound, hcases⟩ := getClusterNumber_found hw₂ hp₂
  cases hfound.symm.trans hnumber
  rcases hcases with ⟨-, hnone⟩ | ⟨m, hm, hn, hfirst⟩
  · exact absurd hplaced.name (hnone k x hx)
  by_cases hmk : m = k
  · subst hmk
    obtain rfl := Option.some.inj (hx.symm.trans hm)
    refine ⟨nameFirst_of_found hc hwr.slot fun j b hb hn => ?_, ?_⟩
    · refine hfirst j b (hext.folderChild hw₁ hc.parent hb) ?_
      rw [hext.entry_eq hw₁ hc.parent (folderChild_eq_some.mp hb).1, hn]
    · have hout₂ := new_outside hw₁ hc.parent ha₁ hout₁ hext hx hfree
      have hplain := copied_plain hw₂ ha₂ (hp₂.step hx) hempty hout₂
        (fun he => hout₂ (he ▸ .refl)) hlist hcopy
      obtain ⟨y, -, -, hy, -⟩ := hf
      exact hplain.folderPath (herodes.behind hdirs hpath hy)
  · have htable : s₃.table x = s₂.table x := by
      refine found_elsewhere hw₂ ha₂ hp₂ (fun hb => hout₁ (hext.below hw₁ ha₁ hc.parent hb)) hm hx
        hmk (fun hb => ?_) hlist hcopy
      rcases hwr.grown.liveSlot_cases hw₁ hp₂ (folderChild_eq_some.mp hm).1 with
        ⟨-, rfl⟩ | ⟨-, -, he, -⟩
      · exact absurd rfl hmk
      · -- an old folder of that name, with another extension
        rw [folderChild_congr he] at hm
        rw [he] at hn
        have hl := (folderChild_eq_some.mp hm).1
        have ho := (hc.old _ m hc.parent hl).2
        have hx := not_clash hc.fresh hl hn
        have hlive := hc.parent.step hm
        have habove := hc.below hlive (hext.below hw₁ hlive ha₁ hb)
        rw [folderChild_congr ho] at hm
        rw [ho] at hn hx
        obtain ⟨rfl, hplain⟩ := hbeside m _ hm hn hx habove
        exact ⟨rfl, hsame.symm.plainBelow hplain⟩
    have hleaf : ∀ i, ¬ LiveSlot s₃ x i := by
      intro i hl
      rw [LiveSlot, htable] at hl
      exact hempty i hl
    exact absurd hf (herodes.not_below hdirs hpath hleaf)

end Finish

end Doors.Shell
