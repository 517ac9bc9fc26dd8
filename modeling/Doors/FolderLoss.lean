import Doors.FilePaths

/-! What a recursive deletion does to any state. Entries only disappear, so that a path
which is dead before it or goes through the deleted folder is dead afterwards. -/

namespace Doors.Fat32

open PointerTree FileSystem

/-- Entries of the clusters that the map covers only disappear. -/
def Erodes (s s' : FileSystem) : Prop :=
  ∀ d i, 2 ≤ d → d < 512 → s'.table d i = s.table d i ∨ (s'.table d i).live = false

namespace Erodes

variable {s s' s'' : FileSystem}

theorem refl (s : FileSystem) : Erodes s s := fun _ _ _ _ => .inl rfl

theorem loadDir (h : Erodes s s') (c : Nat) : Erodes s (s'.loadDir c) := h

theorem trans (h : Erodes s s') (h' : Erodes s' s'') : Erodes s s'' := by
  intro d i h2 hd
  rcases h' d i h2 hd with he | hdead
  · rcases h d i h2 hd with he' | hdead
    · exact .inl (he.trans he')
    · rw [he]
      exact .inr hdead
  · exact .inr hdead

end Erodes

section Deletion

variable {s s' : FileSystem}

theorem decodeTable_zero (i : Fin entryCount) :
    (decodeTable (asCluster zeroBytes) i).live = false := by
  have hzero : (fun k => if h : k < clusterSize then asCluster zeroBytes ⟨k, h⟩ else 0) =
      zeroBytes := by
    funext k
    split <;> rfl
  have hentry : directoryTableCodec.get zeroBytes i = FAT32DirectoryEntry.codec.get zeroBytes := rfl
  rw [decodeTable, hzero, hentry]
  decide

theorem erodes_zero {c : Nat} (v : Nat) (hc : c < 512) :
    Erodes s ((s.writeClusters zeroBytes c).setNext c v) := by
  intro d i _ hd
  by_cases hdc : d = c
  · right
    rw [table, cluster_setNext, cluster_writeClusters s hc hd, if_pos hdc]
    exact decodeTable_zero i
  · left
    rw [table, cluster_setNext, cluster_writeClusters s hc hd, if_neg hdc, table]

theorem assign_ok {c v : Nat} (h : s.assign c v = .ok s') : c < 512 ∧ s' = s.setNext c v := by
  by_cases hc : c < 512
  · rw [s.assign_of_lt hc] at h
    exact ⟨hc, (Except.ok.inj h).symm⟩
  · rw [assign, if_neg hc] at h
    cases h

theorem freeChain_erodes {fuel c : Nat} (h : freeChain fuel s c = .ok s') : Erodes s s' := by
  induction fuel generalizing s c with
  | zero =>
    rw [freeChain] at h
    split at h
    · cases h
      exact .refl _
    · cases h
  | succ fuel ih =>
    rw [freeChain] at h
    split at h
    · cases h
      exact .refl _
    · obtain ⟨v, -, h⟩ := bind_ok h
      obtain ⟨t, ht, h⟩ := bind_ok h
      obtain ⟨hc, rfl⟩ := assign_ok ht
      exact (erodes_zero _ hc).trans (ih h)

theorem recDeleteLoop_erodes {rec : FileSystem → Nat → Except Fault FileSystem}
    (hrec : ∀ s s' c, rec s c = .ok s' → Erodes s s') {d : Nat} {is : List (Fin entryCount)}
    (h : recDeleteLoop rec d is s = .ok s') : Erodes s s' := by
  induction is generalizing s with
  | nil =>
    cases h
    exact .refl _
  | cons i is ih =>
    simp only [recDeleteLoop] at h
    split at h
    · exact ih h
    · split at h
      · obtain ⟨t, ht, h⟩ := bind_ok h
        exact ((hrec _ _ _ ht).loadDir d).trans (ih h)
      · obtain ⟨t, ht, h⟩ := bind_ok h
        exact (freeChain_erodes ht).trans (ih h)

theorem recDelete_erodes {fuel c : Nat} (h : recDelete fuel s c = .ok s') : Erodes s s' := by
  induction fuel generalizing s s' c with
  | zero => cases h
  | succ fuel ih =>
    obtain ⟨t, ht, h⟩ := bind_ok h
    obtain ⟨hc, rfl⟩ := assign_ok h
    have hloop : Erodes (s.loadDir c) t := recDeleteLoop_erodes (fun _ _ _ => ih) ht
    exact hloop.trans (erodes_zero _ hc)

theorem clearSlot_table {p : Nat} (i : Fin entryCount) (h2 : 2 ≤ p) (hp : p < 512) :
    (clearSlot s p i).table p = Function.update (s.table p) i .zero := by
  rw [clearSlot, table_stored hp (by simp only [fatClusterNumber]; omega)]
  rfl

theorem clearSlot_erodes {p : Nat} (i : Fin entryCount) (h2 : 2 ≤ p) (hp : p < 512) :
    Erodes s (clearSlot s p i) := by
  intro d j _ hd
  by_cases hdp : d = p
  · subst hdp
    rw [clearSlot_table i h2 hp]
    by_cases hji : j = i
    · subst hji
      simp
    · exact .inl (Function.update_of_ne hji _ _)
  · left
    rw [table, clearSlot, cluster_stored_of_ne hp hd (by simp only [fatClusterNumber]; omega) hdp]
    rfl

theorem deleteFolderRecLoop_erodes {request : Request} (h2 : 2 ≤ request.parent)
    (hp : request.parent < 512) {is : List (Fin entryCount)} {code code' : Int}
    (h : deleteFolderRecLoop request is code s = .ok (code', s')) : Erodes s s' := by
  induction is generalizing code with
  | nil =>
    cases h
    exact .refl _
  | cons i is ih =>
    simp only [deleteFolderRecLoop] at h
    split at h
    · exact ih h
    · split at h
      · split at h
        · obtain ⟨t, ht, h⟩ := bind_ok h
          cases h
          exact (recDelete_erodes ht).trans (clearSlot_erodes i h2 hp)
        · exact ih h
      · exact ih h

theorem deleteFolderRec_erodes {request : Request} (h2 : 2 ≤ request.parent) {code : Int}
    (h : deleteFolderRec s request = .ok (code, s')) : Erodes s s' := by
  by_cases hp : request.parent < 512
  · by_cases hm : s.next request.parent = fatEndOfFile
    · rw [deleteFolderRec, s.withParent_accepted hp hm] at h
      have hloop : Erodes (s.loadDir request.parent) s' := deleteFolderRecLoop_erodes h2 hp h
      exact hloop
    · rw [deleteFolderRec, s.withParent_refused hp hm] at h
      cases h
      exact .refl _
  · rw [deleteFolderRec, s.withParent_outOfBounds (Nat.le_of_not_lt hp)] at h
    cases h

theorem deleteFolderRec_clears (hs : Directories s) {request : Request} {i : Fin entryCount}
    {a : Nat} {code : Int} (hp : LiveDir s request.parent)
    (ha : folderChild s request.parent i = some a)
    (hn : request.names (s.table request.parent i) = true)
    (h : deleteFolderRec s request = .ok (code, s')) :
    Erodes s s' ∧ (s'.table request.parent i).live = false := by
  obtain ⟨hl, hk, -⟩ := folderChild_eq_some.mp ha
  obtain ⟨h2, h512⟩ := hs.range hp
  refine ⟨deleteFolderRec_erodes h2 h, ?_⟩
  rw [deleteFolderRec_eq hs hp, find_named hs hp hl hn] at h
  simp only [hk, if_true] at h
  obtain ⟨t, -, h⟩ := bind_ok h
  cases h
  rw [clearSlot_table i h2 h512, Function.update_self, FAT32DirectoryEntry.zero_live]

end Deletion

section Dead

variable {s s' : FileSystem} {d x p : Nat} {path rest : List (Name × Ext)}

namespace Erodes

theorem entry (h : Erodes s s') (hs : Directories s) (hd : LiveDir s d) {i : Fin entryCount}
    (hl : LiveSlot s' d i) : s'.table d i = s.table d i := by
  obtain ⟨h2, h512⟩ := hs.range hd
  rcases h d i h2 h512 with he | hdead
  · exact he
  · rw [hl.2] at hdead
    cases hdead

theorem child (h : Erodes s s') (hs : Directories s) (hd : LiveDir s d) {i : Fin entryCount}
    {b : Nat} (hb : folderChild s' d i = some b) : folderChild s d i = some b := by
  rwa [← folderChild_congr (h.entry hs hd (folderChild_eq_some.mp hb).1)]

theorem below (h : Erodes s s') (hs : Directories s) (hd : LiveDir s d)
    (hx : Below (folderChild s') d x) : Below (folderChild s) d x := by
  induction hx with
  | refl => exact .refl
  | tail _ he ih =>
    obtain ⟨i, hi⟩ := he
    exact ih.tail ⟨i, h.child hs (below_reach ih hd) hi⟩

theorem folderPath (h : Erodes s s') (hs : Directories s) (hd : LiveDir s d)
    (hp : FolderPath s' d path x) : FolderPath s d path x := by
  refine hp.kept (P := LiveDir s) (fun y i b hy hb _ => ⟨h.child hs hy hb, ?_⟩)
    fun z hz _ => below_reach (h.below hs hd hz) hd
  rw [h.entry hs hy (folderChild_eq_some.mp hb).1]

theorem behind (h : Erodes s s') (hs : Directories s) (hp : FolderPath s rootClusterNumber path p)
    (hx : FolderPath s' rootClusterNumber (path ++ rest) x) : FolderPath s p rest x := by
  obtain ⟨y, hy, hrest⟩ := (h.folderPath hs reach_root hx).split
  rwa [hy.unique hs.labelsDiffer reach_root hp] at hrest

theorem not_through (h : Erodes s s') (hs : Directories s)
    (hp : FolderPath s rootClusterNumber path p) {i : Fin entryCount} (hi : LiveSlot s p i)
    (hdead : (s'.table p i).live = false) :
    ¬ FolderPath s' rootClusterNumber (path ++ entryName (s.table p i) :: rest) x := by
  intro hx
  have hlive : LiveDir s p := hp.reach reach_root
  obtain ⟨y, hy, hrest⟩ := hx.split
  obtain rfl := (h.folderPath hs reach_root hy).unique hs.labelsDiffer reach_root hp
  generalize hlabels : entryName (s.table y i) :: rest = labels at hrest
  cases hrest with
  | here => cases hlabels
  | @step _ b _ j _ hb _ =>
    have hj := (folderChild_eq_some.mp hb).1
    have he := h.entry hs hlive hj
    have hj' := (folderChild_eq_some.mp (h.child hs hlive hb)).1
    have hname := (List.cons.inj hlabels).1
    rw [he] at hname
    obtain rfl := hs.unique hlive hi hj' (congrArg Prod.fst hname) (congrArg Prod.snd hname)
    rw [hj.2] at hdead
    cases hdead

theorem not_below (h : Erodes s s') (hs : Directories s)
    (hp : FolderPath s rootClusterNumber path p) (hempty : ∀ i, ¬ LiveSlot s p i)
    {name : Name × Ext} {bytes : List UInt8} :
    ¬ FileAt s' rootClusterNumber (path ++ rest) name bytes := by
  rintro ⟨x, i, buf, hx, hf, -⟩
  cases h.behind hs hp hx with
  | here =>
    have he := h.entry hs (hp.reach reach_root) hf.1
    have hl := hf.1
    rw [LiveSlot, he] at hl
    exact hempty i hl
  | step hb _ => exact hempty _ (folderChild_eq_some.mp hb).1

end Erodes

end Dead

end Doors.Fat32
