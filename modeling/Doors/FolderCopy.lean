import Doors.FileTree
import Doors.FatWrite

/-! `copy_folder`. The loop fills the free slots of the destination in order with the
live slots of the source; what is already copied keeps its tree while more is added. -/

namespace Doors.Fat32

open PointerTree FileSystem

/-- Folders carry no extension; the copy looks its new folder up by name. -/
def PlainFolders (s : FileSystem) : Prop :=
  ∀ d i c, LiveDir s d → folderChild s d i = some c → (s.table d i).ext = fun _ => 0

/-- The trees in the given slots of a directory. -/
def slotTrees (s : FileSystem) (m d : Nat) (is : List (Fin entryCount)) : List FileTree :=
  is.map fun i => slotTree s (listing s m) (s.table d i)

/-- The slots that `write` fills, in the order in which it fills them. -/
def freeSlots (s : FileSystem) (d : Nat) : List (Fin entryCount) :=
  (slotsFrom 2).filter fun i => !(s.table d i).live

theorem mem_freeSlots {s : FileSystem} {d : Nat} {i : Fin entryCount} :
    i ∈ freeSlots s d ↔ 2 ≤ i.val ∧ (s.table d i).live = false := by
  simp [freeSlots, mem_slotsFrom]

theorem freeSlots_nodup (s : FileSystem) (d : Nat) : (freeSlots s d).Nodup :=
  (slotsFrom_nodup 2).filter _

theorem firstFree_eq (s : FileSystem) (d : Nat) : firstFree s d = (freeSlots s d).head? :=
  List.head?_filter.symm

theorem freeSlots_of_empty {s : FileSystem} {d : Nat} (h : ∀ i, ¬ LiveSlot s d i) :
    freeSlots s d = slotsFrom 2 := by
  refine List.filter_eq_self.mpr fun i hi => ?_
  cases hl : (s.table d i).live with
  | false => rfl
  | true => exact absurd ⟨mem_slotsFrom.mp hi, hl⟩ (h i)

/-- Filling the first free slot. -/
theorem freeSlots_update {s t : FileSystem} {d : Nat} {k : Fin entryCount}
    {ks : List (Fin entryCount)} {e : FAT32DirectoryEntry} (hk : freeSlots s d = k :: ks)
    (he : e.live = true) (htable : t.table d = Function.update (s.table d) k e) :
    freeSlots t d = ks := by
  have hnd := freeSlots_nodup s d
  rw [hk] at hnd
  have hsame : ∀ i ∈ slotsFrom 2, (!(t.table d i).live) =
      (!(s.table d i).live && decide (i ≠ k)) := by
    intro i _
    by_cases hi : i = k
    · subst hi
      simp [htable, he]
    · simp [htable, hi]
  have hkeep : ks.filter (fun i => decide (i ≠ k)) = ks := by
    refine List.filter_eq_self.mpr fun i hi => ?_
    have hne : i ≠ k := fun h => (List.nodup_cons.mp hnd).1 (h ▸ hi)
    simpa using hne
  calc freeSlots t d
      = (slotsFrom 2).filter fun i => !(s.table d i).live && decide (i ≠ k) :=
        List.filter_congr hsame
    _ = (freeSlots s d).filter fun i => decide (i ≠ k) := by
        rw [freeSlots, List.filter_filter]
        exact List.filter_congr fun i _ => Bool.and_comm _ _
    _ = ks := by rw [hk, List.filter_cons_of_neg (by simp), hkeep]

/-- The live slots of `src` among those visited. -/
def copied (s : FileSystem) (src : Nat) (done : List (Fin entryCount)) : List (Fin entryCount) :=
  done.filter fun i => (s.table src i).live

theorem copied_live {s : FileSystem} {src : Nat} {done : List (Fin entryCount)}
    {i : Fin entryCount} (hl : (s.table src i).live = true) :
    copied s src (done ++ [i]) = copied s src done ++ [i] := by
  rw [copied, List.filter_append, List.filter_singleton, hl]
  rfl

theorem copied_dead {s : FileSystem} {src : Nat} {done : List (Fin entryCount)}
    {i : Fin entryCount} (hl : (s.table src i).live = false) :
    copied s src (done ++ [i]) = copied s src done := by
  rw [copied, List.filter_append, List.filter_singleton, hl]
  exact List.append_nil _

theorem copied_cons_dead {s : FileSystem} {src : Nat} {is : List (Fin entryCount)}
    {i : Fin entryCount} (hl : (s.table src i).live = false) :
    copied s src (i :: is) = copied s src is :=
  List.filter_cons_of_neg (by simp [hl])

theorem clustersAll_cons {s : FileSystem} {src m : Nat} {is : List (Fin entryCount)}
    {i : Fin entryCount} (hl : (s.table src i).live = true) :
    FileTree.clustersAll (slotTrees s m src (copied s src (i :: is))) =
      (slotTree s (listing s m) (s.table src i)).clusters +
        FileTree.clustersAll (slotTrees s m src (copied s src is)) := by
  rw [copied, List.filter_cons_of_pos (by simpa using hl)]
  rfl

theorem liveSlots_split {s : FileSystem} {src : Nat} {done is : List (Fin entryCount)}
    {i : Fin entryCount} (hs : slotsFrom 2 = done ++ i :: is)
    (hl : (s.table src i).live = true) :
    liveSlots s src = copied s src done ++ i :: copied s src is := by
  rw [liveSlots, hs, List.filter_append, List.filter_cons_of_pos (by simpa using hl)]
  rfl

theorem idxOf_liveSlots {s : FileSystem} {src : Nat} {done is : List (Fin entryCount)}
    {i : Fin entryCount} (hs : slotsFrom 2 = done ++ i :: is)
    (hl : (s.table src i).live = true) :
    (liveSlots s src).idxOf i = (copied s src done).length := by
  have hnd := slotsFrom_nodup 2
  rw [hs] at hnd
  have hnew : i ∉ copied s src done := fun hm =>
    (List.nodup_append'.mp hnd).2.2 (List.mem_of_mem_filter hm) (by simp)
  rw [liveSlots_split hs hl, List.idxOf_append_of_notMem hnew, List.idxOf_cons_self, Nat.add_zero]

/-- The slots `done` of `src` are copied: they fill the first slots of `dest` that were free. -/
structure Copying (s t : FileSystem) (src dest : Nat) (done : List (Fin entryCount)) : Prop where
  extension : Extends s t dest
  slots : freeSlots t dest = (freeSlots s dest).drop (copied s src done).length
  same : ∀ m, slotTrees t m dest ((freeSlots s dest).take (copied s src done).length) =
    slotTrees s m src (copied s src done)

namespace Copying

variable {s t t' : FileSystem} {src dest : Nat} {done : List (Fin entryCount)} {i k : Fin entryCount}

theorem live_cases (h : Copying s t src dest done) {j : Fin entryCount} (hj : LiveSlot t dest j) :
    LiveSlot s dest j ∨ j ∈ (freeSlots s dest).take (copied s src done).length := by
  by_cases hs : (s.table dest j).live = true
  · exact .inl ⟨hj.1, hs⟩
  · have hm : j ∈ freeSlots s dest := mem_freeSlots.mpr ⟨hj.1, by simpa using hs⟩
    rw [← List.take_append_drop (copied s src done).length (freeSlots s dest),
      List.mem_append, ← h.slots] at hm
    rcases hm with hm | hm
    · exact .inr hm
    · have hdead := (mem_freeSlots.mp hm).2
      rw [hj.2] at hdead
      exact absurd hdead (by decide)

theorem live_new (h : Copying s t src dest done) {j : Fin entryCount}
    (hj : j ∈ (freeSlots s dest).take (copied s src done).length) : LiveSlot t dest j := by
  have hm := mem_freeSlots.mp (List.mem_of_mem_take hj)
  refine ⟨hm.1, ?_⟩
  by_contra hl
  have hfree : j ∈ freeSlots t dest := mem_freeSlots.mpr ⟨hm.1, by simpa using hl⟩
  rw [h.slots] at hfree
  have hnd := freeSlots_nodup s dest
  rw [← List.take_append_drop (copied s src done).length (freeSlots s dest)] at hnd
  exact (List.nodup_append'.mp hnd).2.2 hj hfree

theorem length_eq (h : Copying s t src dest done) :
    ((freeSlots s dest).take (copied s src done).length).length = (copied s src done).length := by
  have hlen := congrArg List.length (h.same 0)
  simpa only [slotTrees, List.length_map] using hlen

theorem tree_eq (h : Copying s t src dest done) {n : Nat}
    (hn : n < ((freeSlots s dest).take (copied s src done).length).length)
    (hn' : n < (copied s src done).length) (m : Nat) :
    slotTree t (listing t m)
        (t.table dest ((freeSlots s dest).take (copied s src done).length)[n]) =
      slotTree s (listing s m) (s.table src (copied s src done)[n]) := by
  have hsame := congrArg (fun l => l[n]?) (h.same m)
  simp only [slotTrees, List.getElem?_map, List.getElem?_eq_getElem hn,
    List.getElem?_eq_getElem hn', Option.map_some, Option.some.injEq] at hsame
  exact hsame

theorem source (h : Copying s t src dest done) {j : Fin entryCount}
    (hj : j ∈ (freeSlots s dest).take (copied s src done).length) :
    ∃ i ∈ done, (s.table src i).live = true ∧ ∀ m,
      slotTree t (listing t m) (t.table dest j) = slotTree s (listing s m) (s.table src i) := by
  obtain ⟨n, hn, rfl⟩ := List.getElem_of_mem hj
  have hn' := h.length_eq ▸ hn
  have hm := List.mem_filter.mp (List.getElem_mem hn')
  exact ⟨_, hm.1, hm.2, h.tree_eq hn hn'⟩

theorem copy (h : Copying s t src dest done) (hi : i ∈ done)
    (hl : (s.table src i).live = true) : ∃ k, LiveSlot t dest k ∧ ∀ m,
      slotTree t (listing t m) (t.table dest k) = slotTree s (listing s m) (s.table src i) := by
  have hm : i ∈ copied s src done := List.mem_filter.mpr ⟨hi, hl⟩
  obtain ⟨n, hn, rfl⟩ := List.getElem_of_mem hm
  have hn' := h.length_eq.symm ▸ hn
  exact ⟨_, h.live_new (List.getElem_mem hn'), h.tree_eq hn' hn⟩

theorem no_clash (h : Copying s t src dest done) (hw : WellFormed s) (hsrc : LiveDir s src)
    (hi : LiveSlot s src i) (hnew : i ∉ done) (hr : ∀ j ∈ done, 2 ≤ j.val) {request : Request}
    (hp : request.parent = dest) (hn : request.names (s.table src i) = true)
    (hold : ¬ Clash s request) :
    ¬ Clash t request := by
  rintro ⟨j, hj, hnames⟩
  rw [hp] at hj hnames
  rcases h.live_cases hj with hj' | hj'
  · refine hold ⟨j, hp ▸ hj', ?_⟩
    rwa [hp, ← h.extension.slot_eq j (.inr hj')]
  · obtain ⟨j', hdone, hlive, he⟩ := h.source hj'
    have hname := congrArg FileTree.name (he 0)
    have hext := congrArg FileTree.ext (he 0)
    rw [slotTree_name, slotTree_name] at hname
    rw [slotTree_ext, slotTree_ext] at hext
    rw [FAT32DriverRequest.names_iff] at hn hnames
    have hsame := hw.names_unique hsrc ⟨hr j' hdone, hlive⟩ hi
      (hname.symm.trans (hnames.1.trans hn.1.symm)) (hext.symm.trans (hnames.2.trans hn.2.symm))
    exact hnew (hsame ▸ hdone)

theorem first (h : Copying s t src dest done) :
    firstFree t dest = (freeSlots s dest)[(copied s src done).length]? := by
  rw [firstFree_eq, h.slots, List.head?_drop]

theorem loadDir (h : Copying s t src dest done) (d : Nat) :
    Copying s (t.loadDir d) src dest done where
  extension := h.extension.loadDir d
  slots := h.slots
  same := by
    intro m
    rw [← h.same m, slotTrees, listing_loadDir, slotTree_loadDir]
    rfl

theorem skip (h : Copying s t src dest done) (hl : (s.table src i).live = false) :
    Copying s t src dest (done ++ [i]) where
  extension := h.extension
  slots := by rw [copied_dead hl, h.slots]
  same m := by rw [copied_dead hl, h.same m]

/-- One more entry: it takes the first free slot and the others keep their trees. -/
theorem step (h : Copying s t src dest done) (hw : WellFormed s) (hd : LiveDir s dest)
    (hl : (s.table src i).live = true) (hk : firstFree t dest = some k) (hext : Extends t t' dest)
    {e : FAT32DirectoryEntry} (he : e.live = true)
    (htable : t'.table dest = Function.update (t.table dest) k e)
    (hsame : ∀ m, slotTree t' (listing t' m) (t'.table dest k) =
      slotTree s (listing s m) (s.table src i)) :
    Copying s t' src dest (done ++ [i]) := by
  have hwt := h.extension.wellFormed
  have hdt := h.extension.liveDir hw hd
  have hget := h.first.symm.trans hk
  rw [firstFree_eq] at hk
  obtain ⟨ks, hks⟩ := List.head?_eq_some_iff.mp hk
  have hdrop : (freeSlots s dest).drop (copied s src done).length = k :: ks := by
    rw [← h.slots, hks]
  have htake : (freeSlots s dest).take ((copied s src done).length + 1) =
      (freeSlots s dest).take (copied s src done).length ++ [k] := by
    rw [List.take_add_one, hget]
    rfl
  refine ⟨h.extension.trans hw hd hext (.inl rfl), ?_, fun m => ?_⟩
  · rw [copied_live hl, List.length_append, List.length_singleton, ← List.tail_drop, hdrop,
      freeSlots_update hks he htable]
    rfl
  · have hkeep : slotTrees t' m dest ((freeSlots s dest).take (copied s src done).length) =
        slotTrees t m dest ((freeSlots s dest).take (copied s src done).length) := by
      refine List.map_congr_left fun j hj => ?_
      exact hext.slotTree hwt hdt m hdt (h.live_new hj) fun a ha =>
        not_below_child hwt.tree hdt ha
    have hnew : slotTrees t' m dest [k] = slotTrees s m src [i] :=
      congrArg (fun x => [x]) (hsame m)
    have hsplit : slotTrees t' m dest
        ((freeSlots s dest).take (copied s src done).length ++ [k]) =
        slotTrees t' m dest ((freeSlots s dest).take (copied s src done).length) ++
          slotTrees t' m dest [k] := List.map_append
    rw [copied_live hl, List.length_append, List.length_singleton, htake, hsplit, hkeep, hnew,
      h.same m]
    exact List.map_append.symm

end Copying

/-- Into an empty directory the copy is the whole listing. -/
theorem Copying.listing {s t : FileSystem} {src dest : Nat}
    (h : Copying s t src dest (slotsFrom 2)) (hempty : ∀ i, ¬ LiveSlot s dest i) (m : Nat) :
    listing t m dest = listing s m src := by
  cases m with
  | zero => rfl
  | succ m =>
    have hfree := freeSlots_of_empty hempty
    have hslots := h.slots
    have hsame := h.same m
    rw [hfree] at hslots hsame
    have hlive : liveSlots t dest = (slotsFrom 2).take (copied s src (slotsFrom 2)).length := by
      have htake : ∀ j ∈ (slotsFrom 2).take (copied s src (slotsFrom 2)).length,
          (t.table dest j).live = true := fun j hj => (h.live_new (by rwa [hfree])).2
      have hdrop : ∀ j ∈ (slotsFrom 2).drop (copied s src (slotsFrom 2)).length,
          (t.table dest j).live = false := by
        rw [← hslots]
        exact fun j hj => (mem_freeSlots.mp hj).2
      rw [liveSlots]
      conv_lhs =>
        rw [← List.take_append_drop (copied s src (slotsFrom 2)).length (slotsFrom 2)]
      rw [List.filter_append, List.filter_eq_self.mpr htake,
        List.filter_eq_nil_iff.mpr fun j hj => by simp [hdrop j hj], List.append_nil]
    rw [Fat32.listing, hlive]
    exact hsame

end Doors.Fat32
