import Doors.FatRead
import Doors.FatGrowth
import Doors.FatDelete
import Mathlib.Data.Set.Card

/-! A directory's subtree as a value: names, kinds, sizes and bytes in slot order.
States that only add below one directory leave every subtree away from it alone. -/

namespace Doors.Fat32

open PointerTree FileSystem

inductive FileTree
  | file (name : Name) (ext : Ext) (size : UInt32) (bytes : List UInt8)
  | folder (name : Name) (ext : Ext) (size : UInt32) (children : List FileTree)

namespace FileTree

def name : FileTree → Name
  | .file name _ _ _ => name
  | .folder name _ _ _ => name

def ext : FileTree → Ext
  | .file _ ext _ _ => ext
  | .folder _ ext _ _ => ext

mutual

/-- The clusters that a copy of the tree takes. -/
def clusters : FileTree → Nat
  | .file _ _ size _ => clusterCount size.toNat
  | .folder _ _ _ children => 1 + clustersAll children

def clustersAll : List FileTree → Nat
  | [] => 0
  | t :: ts => t.clusters + clustersAll ts

end

end FileTree

def liveSlots (s : FileSystem) (d : Nat) : List (Fin entryCount) :=
  (slotsFrom 2).filter fun i => (s.table d i).live

theorem mem_liveSlots {s : FileSystem} {d : Nat} {i : Fin entryCount} :
    i ∈ liveSlots s d ↔ LiveSlot s d i := by
  simp [liveSlots, LiveSlot, mem_slotsFrom]

/-- The first `filesize` bytes of the chain, as `read` delivers them. -/
def fileBytes (s : FileSystem) (e : FAT32DirectoryEntry) : List UInt8 :=
  match readChain s clusterMapSize zeroBytes 0 e.clusterNumber with
  | .ok mem => (List.range e.filesize.toNat).map mem
  | .error _ => []

def slotTree (s : FileSystem) (children : Nat → List FileTree) (e : FAT32DirectoryEntry) :
    FileTree :=
  if e.isSubdirectory then .folder e.name e.ext e.filesize (children e.clusterNumber)
  else .file e.name e.ext e.filesize (fileBytes s e)

/-- The subtree below `d`, down to the given depth. -/
def listing (s : FileSystem) : Nat → Nat → List FileTree
  | 0, _ => []
  | m + 1, d => (liveSlots s d).map fun i => slotTree s (listing s m) (s.table d i)

theorem slotTree_file {s : FileSystem} {children : Nat → List FileTree} {e : FAT32DirectoryEntry}
    (hk : e.isSubdirectory = false) :
    slotTree s children e = .file e.name e.ext e.filesize (fileBytes s e) :=
  if_neg (by rw [hk]; decide)

theorem slotTree_folder {s : FileSystem} {children : Nat → List FileTree} {e : FAT32DirectoryEntry}
    (hk : e.isSubdirectory = true) :
    slotTree s children e = .folder e.name e.ext e.filesize (children e.clusterNumber) :=
  if_pos hk

theorem slotTree_name (s : FileSystem) (children : Nat → List FileTree)
    (e : FAT32DirectoryEntry) : (slotTree s children e).name = e.name := by
  unfold slotTree
  split_ifs <;> rfl

theorem slotTree_ext (s : FileSystem) (children : Nat → List FileTree)
    (e : FAT32DirectoryEntry) : (slotTree s children e).ext = e.ext := by
  unfold slotTree
  split_ifs <;> rfl

theorem slotTree_kind {s s' : FileSystem} {children children' : Nat → List FileTree}
    {e e' : FAT32DirectoryEntry} (h : slotTree s children e = slotTree s' children' e') :
    e.isSubdirectory = e'.isSubdirectory := by
  unfold slotTree at h
  split_ifs at h with h₁ h₂ h₂
  · rw [h₁, h₂]
  · rw [Bool.eq_false_of_not_eq_true h₁, Bool.eq_false_of_not_eq_true h₂]

theorem slotTree_loadDir (s : FileSystem) (d : Nat) : slotTree (s.loadDir d) = slotTree s := by
  have hbytes : fileBytes (s.loadDir d) = fileBytes s := by
    funext e
    rw [fileBytes, readChain_loadDir, fileBytes]
  funext children e
  rw [slotTree, hbytes, slotTree]

theorem listing_loadDir (s : FileSystem) (d m : Nat) : listing (s.loadDir d) m = listing s m := by
  induction m with
  | zero => rfl
  | succ m ih =>
    funext c
    rw [listing, ih, slotTree_loadDir, listing]
    rfl

theorem listing_empty {s : FileSystem} {d : Nat} (h : ∀ i, ¬ LiveSlot s d i) (m : Nat) :
    listing s m d = [] := by
  cases m with
  | zero => rfl
  | succ m =>
    have hnil : liveSlots s d = [] :=
      List.eq_nil_iff_forall_not_mem.mpr fun i hi => h i (mem_liveSlots.mp hi)
    rw [listing, hnil, List.map_nil]

theorem fileBytes_eq {s : FileSystem} (hw : WellFormed s) {d : Nat} {i : Fin entryCount}
    (hd : LiveDir s d) (hf : FileSlot s d i) {l : List Nat}
    (hl : Walk s.next fatEndOfFile (s.table d i).clusterNumber l) :
    fileBytes s (s.table d i) =
      (List.range (s.table d i).filesize.toNat).map (readAll s zeroBytes 0 l) := by
  obtain ⟨l', hl', hread⟩ := readChain_file hw hd hf zeroBytes
  rw [fileBytes, hread, hl.unique hl']

/-- The state `s'` holds all that `s` holds; what is new hangs below directory `p`. -/
structure Extends (s s' : FileSystem) (p : Nat) : Prop where
  wellFormed : WellFormed s'
  next_eq : ∀ c < 512, s.next c ≠ fatEmptyEntry → s'.next c = s.next c
  cluster_eq : ∀ c < 512, s.next c ≠ fatEmptyEntry → c ≠ fatClusterNumber → c ≠ p →
    s'.cluster c = s.cluster c
  slot_eq : ∀ i : Fin entryCount, i.val < 2 ∨ LiveSlot s p i → s'.table p i = s.table p i

namespace Extends

variable {s s' s'' : FileSystem} {p q : Nat}

theorem refl (hw : WellFormed s) : Extends s s p where
  wellFormed := hw
  next_eq _ _ _ := rfl
  cluster_eq _ _ _ _ _ := rfl
  slot_eq _ _ := rfl

theorem loadDir (h : Extends s s' p) (d : Nat) : Extends s (s'.loadDir d) p where
  wellFormed := h.wellFormed.loadDir d
  next_eq := h.next_eq
  cluster_eq := h.cluster_eq
  slot_eq := h.slot_eq

theorem of_loadDir {d : Nat} (h : Extends (s.loadDir d) s' p) : Extends s s' p :=
  ⟨h.wellFormed, h.next_eq, h.cluster_eq, h.slot_eq⟩

theorem free (h : Extends s s' p) {c : Nat} (hc : c < 512) (he : s'.next c = fatEmptyEntry) :
    s.next c = fatEmptyEntry := by
  by_contra hu
  exact hu ((h.next_eq c hc hu).symm.trans he)

theorem table_eq (h : Extends s s' p) (hw : WellFormed s) {d : Nat} (hd : LiveDir s d)
    (hne : d ≠ p) : s'.table d = s.table d := by
  have hused : s.next d ≠ fatEmptyEntry := by
    rw [hw.dir_mark hd]
    decide
  rw [FileSystem.table, h.cluster_eq d (hw.dir_range hd).2 hused (hw.dir_ne_fat hd) hne,
    FileSystem.table]

theorem entry_eq (h : Extends s s' p) (hw : WellFormed s) {d : Nat} (hd : LiveDir s d)
    {i : Fin entryCount} (hl : LiveSlot s d i) : s'.table d i = s.table d i := by
  by_cases he : d = p
  · subst d
    exact h.slot_eq i (.inr hl)
  · rw [h.table_eq hw hd he]

theorem liveSlot (h : Extends s s' p) (hw : WellFormed s) {d : Nat} (hd : LiveDir s d)
    {i : Fin entryCount} (hl : LiveSlot s d i) : LiveSlot s' d i :=
  ⟨hl.1, by rw [h.entry_eq hw hd hl, hl.2]⟩

theorem folderChild (h : Extends s s' p) (hw : WellFormed s) {d c : Nat} (hd : LiveDir s d)
    {i : Fin entryCount} (hc : folderChild s d i = some c) : folderChild s' d i = some c := by
  rw [folderChild_congr (h.entry_eq hw hd (folderChild_eq_some.mp hc).1), hc]

theorem reachIn (h : Extends s s' p) (hw : WellFormed s) {n c : Nat}
    (hc : ReachIn (Fat32.folderChild s) rootClusterNumber n c) :
    ReachIn (Fat32.folderChild s') rootClusterNumber n c := by
  induction hc with
  | root => exact .root
  | child hd hc ih => exact .child ih (h.folderChild hw ⟨_, hd⟩ hc)

theorem liveDir (h : Extends s s' p) (hw : WellFormed s) {c : Nat} (hc : LiveDir s c) :
    LiveDir s' c := by
  obtain ⟨n, hn⟩ := hc
  exact ⟨n, h.reachIn hw hn⟩

theorem walk (h : Extends s s' p) (hw : WellFormed s) {d : Nat} {i : Fin entryCount}
    {l : List Nat} (hd : LiveDir s d) (hf : FileSlot s d i)
    (hl : Walk s.next fatEndOfFile (s.table d i).clusterNumber l) :
    Walk s'.next fatEndOfFile (s.table d i).clusterNumber l := by
  refine hl.congr fun x hx => ?_
  have ho : Owns s (some (d, i)) x := .file hd hf hl hx
  exact h.next_eq x (hw.owned_range ho).2 (hw.owned_used ho)

theorem fileSlot (h : Extends s s' p) (hw : WellFormed s) {d : Nat} {i : Fin entryCount}
    (hd : LiveDir s d) (hf : FileSlot s d i) : FileSlot s' d i :=
  ⟨h.liveSlot hw hd hf.1, by rw [h.entry_eq hw hd hf.1, hf.2]⟩

theorem owns (h : Extends s s' p) (hw : WellFormed s) {o : Option (Nat × Fin entryCount)} {c : Nat}
    (ho : Owns s o c) : Owns s' o c := by
  cases ho with
  | root => exact .root
  | folder hd hc => exact .folder (h.liveDir hw hd) (h.folderChild hw hd hc)
  | file hd hf hl hc =>
    refine .file (h.liveDir hw hd) (h.fileSlot hw hd hf) ?_ hc
    rw [h.entry_eq hw hd hf.1]
    exact h.walk hw hd hf hl

/-- Old directories are below each other only as before. -/
theorem below (h : Extends s s' p) (hw : WellFormed s) {a c : Nat} (ha : LiveDir s a)
    (hc : LiveDir s c) (hb : Below (Fat32.folderChild s') a c) :
    Below (Fat32.folderChild s) a c := by
  induction hb with
  | refl => exact .refl
  | tail hd he ih =>
    rename_i d c
    obtain ⟨i, hi⟩ := he
    obtain ⟨o, ho⟩ := hw.dir_owned hc
    have hd' : LiveDir s' d := below_reach hd (h.liveDir hw ha)
    have hoi := h.wellFormed.owner_unique (h.owns hw ho) (.folder hd' hi)
    subst hoi
    exact (ih ho.slot.1).tail ⟨i, hw.folderChild_of_owns hc ho⟩

theorem trans (h : Extends s s' p) (hw : WellFormed s) (hp : LiveDir s p)
    (h' : Extends s' s'' q) (hq : q = p ∨ s.next q = fatEmptyEntry) : Extends s s'' p := by
  have hused : ∀ c < 512, s.next c ≠ fatEmptyEntry → s'.next c ≠ fatEmptyEntry := by
    intro c hc hu
    rwa [h.next_eq c hc hu]
  have hne : ∀ c, s.next c ≠ fatEmptyEntry → c ≠ p → c ≠ q := by
    intro c hu hcp hcq
    rcases hq with rfl | hq
    · exact hcp hcq
    · exact hu (hcq ▸ hq)
  exact {
    wellFormed := h'.wellFormed
    next_eq := fun c hc hu => (h'.next_eq c hc (hused c hc hu)).trans (h.next_eq c hc hu)
    cluster_eq := fun c hc hu h1 hcp =>
      (h'.cluster_eq c hc (hused c hc hu) h1 (hne c hu hcp)).trans (h.cluster_eq c hc hu h1 hcp)
    slot_eq := by
      intro i hi
      have hp' := h.liveDir hw hp
      rcases hq with rfl | hq
      · rw [h'.slot_eq i (hi.imp_right fun hl => h.liveSlot hw hp hl), h.slot_eq i hi]
      · have hpq : p ≠ q := by
          rintro rfl
          rw [hw.dir_mark hp] at hq
          exact absurd hq (by decide)
        rw [h'.table_eq h.wellFormed hp' hpq, h.slot_eq i hi] }

theorem file_cluster (h : Extends s s' p) (hw : WellFormed s) (hp : LiveDir s p) {d : Nat}
    {i : Fin entryCount} {l : List Nat} (hd : LiveDir s d) (hf : FileSlot s d i)
    (hl : Walk s.next fatEndOfFile (s.table d i).clusterNumber l) :
    ∀ c ∈ l, s'.cluster c = s.cluster c := by
  intro c hc
  have ho : Owns s (some (d, i)) c := .file hd hf hl hc
  refine h.cluster_eq c (hw.owned_range ho).2 (hw.owned_used ho) ?_ ?_
  · have := hw.owned_range ho
    simp only [fatClusterNumber]
    omega
  · -- a file owns no directory
    rintro rfl
    have := hw.folderChild_of_owns hp ho
    rw [folderChild_of_fileSlot hf] at this
    simp at this

theorem bytes (h : Extends s s' p) (hw : WellFormed s) (hp : LiveDir s p) {d : Nat}
    {i : Fin entryCount} (hd : LiveDir s d) (hf : FileSlot s d i) :
    fileBytes s' (s.table d i) = fileBytes s (s.table d i) := by
  obtain ⟨l, hl, -⟩ := hw.file_chain hd hf
  have he := h.entry_eq hw hd hf.1
  have hread := fileBytes_eq h.wellFormed (h.liveDir hw hd) (h.fileSlot hw hd hf)
    (by rw [he]; exact h.walk hw hd hf hl)
  rw [he] at hread
  rw [hread, fileBytes_eq hw hd hf hl, readAll_congr (h.file_cluster hw hp hd hf hl)]

theorem below_kept (h : Extends s s' p) (hw : WellFormed s) {a c : Nat} (ha : LiveDir s a)
    (hb : Below (Fat32.folderChild s) a c) : Below (Fat32.folderChild s') a c := by
  induction hb with
  | refl => exact .refl
  | tail hb he ih =>
    obtain ⟨i, hi⟩ := he
    exact ih.tail ⟨i, h.folderChild hw (below_reach hb ha) hi⟩

/-- Nothing is added below a directory that `p` is not below. -/
theorem below_away (h : Extends s s' p) (hw : WellFormed s) {a c : Nat} (ha : LiveDir s a)
    (hout : ¬ Below (Fat32.folderChild s) a p) (hb : Below (Fat32.folderChild s') a c) :
    Below (Fat32.folderChild s) a c := by
  induction hb with
  | refl => exact .refl
  | tail _ he ih =>
    obtain ⟨i, hi⟩ := he
    have ht := h.table_eq hw (below_reach ih ha) fun hp => hout (hp ▸ ih)
    rw [folderChild_congr (congrFun ht i)] at hi
    exact ih.tail ⟨i, hi⟩

/-- A subtree that does not contain `p` keeps its listing. -/
theorem listing (h : Extends s s' p) (hw : WellFormed s) (hp : LiveDir s p) (m : Nat) {d : Nat}
    (hd : LiveDir s d) (hb : ¬ Below (Fat32.folderChild s) d p) :
    listing s' m d = listing s m d := by
  induction m generalizing d with
  | zero => rfl
  | succ m ih =>
    have hdp : d ≠ p := by
      rintro rfl
      exact hb .refl
    have ht := h.table_eq hw hd hdp
    simp only [Fat32.listing, liveSlots, ht]
    refine List.map_congr_left fun i hi => ?_
    have hl : LiveSlot s d i := mem_liveSlots.mp hi
    rcases hl.kind with hf | hf
    · rw [slotTree_file hf.2, slotTree_file hf.2, h.bytes hw hp hd hf]
    · have hk := (folderChild_eq_some.mp hf).2.1
      rw [slotTree_folder hk, slotTree_folder hk, ih (hd.step hf) fun hh => hb (.head ⟨i, hf⟩ hh)]

/-- A live slot keeps its tree unless `p` is below it. -/
theorem slotTree (h : Extends s s' p) (hw : WellFormed s) (hp : LiveDir s p) (m : Nat) {d : Nat}
    (hd : LiveDir s d) {i : Fin entryCount} (hl : LiveSlot s d i)
    (hb : ∀ a, Fat32.folderChild s d i = some a → ¬ Below (Fat32.folderChild s) a p) :
    slotTree s' (Fat32.listing s' m) (s'.table d i) =
      slotTree s (Fat32.listing s m) (s.table d i) := by
  rw [h.entry_eq hw hd hl]
  rcases hl.kind with hf | hf
  · rw [slotTree_file hf.2, slotTree_file hf.2, h.bytes hw hp hd hf]
  · have hk := (folderChild_eq_some.mp hf).2.1
    rw [slotTree_folder hk, slotTree_folder hk, h.listing hw hp m (hd.step hf) (hb _ hf)]

end Extends

theorem Grown.extends {s s' : FileSystem} {p : Nat} {i : Fin entryCount} {e : FAT32DirectoryEntry}
    {cs : List Nat} (hg : Grown s s' p i e cs) (hw' : WellFormed s') : Extends s s' p where
  wellFormed := hw'
  next_eq c hc hu := hg.next_eq c hc fun hm => hu (hg.fresh c hm).2.2
  cluster_eq c hc hu h1 hp := hg.cluster_eq c hc h1 hp fun hm => hu (hg.fresh c hm).2.2
  slot_eq j hj := by
    rw [hg.table_eq, Function.update_of_ne]
    rintro rfl
    have hi := hg.slot_range
    have hfree := hg.slot_free
    rcases hj with hj | hj
    · omega
    · simp [LiveSlot, hfree] at hj

theorem Extends.fresh {s s' : FileSystem} {p : Nat} (h : Extends s s' p) (hw : WellFormed s)
    (hp : LiveDir s p) (hempty : ∀ i, ¬ LiveSlot s p i) {i : Fin entryCount} {c : Nat}
    (hr : EntryRegion s' p i c) : s.next c = fatEmptyEntry := by
  by_contra hu
  have hrange := region_range h.wellFormed hr
  obtain ⟨o, ho⟩ := (hw.used_iff hrange.1 hrange.2).mp hu
  have ho' := h.owns hw ho
  rcases hr with hr | ⟨a, d, j, ha, hb, hr⟩
  · obtain rfl := h.wellFormed.owner_unique ho' hr
    exact hempty i ho.slot.2
  · obtain rfl := h.wellFormed.owner_unique ho' hr
    have hp' := h.liveDir hw hp
    have hbelow := h.below hw hp ho.slot.1 (.head ⟨i, ha⟩ hb)
    rcases Relation.ReflTransGen.cases_head hbelow with rfl | ⟨b, ⟨k, hk⟩, -⟩
    · exact not_below_child h.wellFormed.tree hp' ha hb
    · exact hempty k (folderChild_eq_some.mp hk).1

end Doors.Fat32
