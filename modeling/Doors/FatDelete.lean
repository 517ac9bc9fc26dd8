import Doors.FatPruning
import Doors.FatRead

/-! Freeing: a file's chain, a folder's cluster and the recursion over a subtree.
Each frees exactly the region of the slot it is called for, and clearing the slot
afterwards prunes the tree. -/

namespace Doors.Fat32

open PointerTree FileSystem

variable {Fits : UInt32 → Nat → Prop}

/-- The state `t'` is `t` with the clusters in `X` freed. -/
structure Freed (t t' : FileSystem) (X : Nat → Prop) : Prop where
  next_in : ∀ c < 512, X c → t'.next c = fatEmptyEntry
  next_eq : ∀ c < 512, ¬ X c → t'.next c = t.next c
  cluster_eq : ∀ c < 512, ¬ X c → t'.cluster c = t.cluster c

namespace Freed

variable {t t' t'' : FileSystem} {X Y : Nat → Prop}

theorem empty (h : ∀ c, ¬ X c) : Freed t t X where
  next_in c _ hc := absurd hc (h c)
  next_eq _ _ _ := rfl
  cluster_eq _ _ _ := rfl

theorem congr (h : Freed t t' X) (he : ∀ c, Y c ↔ X c) : Freed t t' Y where
  next_in c hc hy := h.next_in c hc ((he c).mp hy)
  next_eq c hc hy := h.next_eq c hc (mt (he c).mpr hy)
  cluster_eq c hc hy := h.cluster_eq c hc (mt (he c).mpr hy)

theorem trans (h : Freed t t' X) (h' : Freed t' t'' Y) : Freed t t'' fun c => X c ∨ Y c where
  next_in := by
    intro c hc hx
    by_cases hy : Y c
    · exact h'.next_in c hc hy
    · rw [h'.next_eq c hc hy, h.next_in c hc (hx.resolve_right hy)]
  next_eq := by
    intro c hc hx
    rw [h'.next_eq c hc (hx ∘ .inr), h.next_eq c hc (hx ∘ .inl)]
  cluster_eq := by
    intro c hc hx
    rw [h'.cluster_eq c hc (hx ∘ .inr), h.cluster_eq c hc (hx ∘ .inl)]

theorem loadDir (h : Freed t t' X) (d : Nat) : Freed t (t'.loadDir d) X :=
  ⟨h.next_in, h.next_eq, h.cluster_eq⟩

end Freed

theorem freed_one {t : FileSystem} {c : Nat} (hc : c < 512) :
    Freed t ((t.writeClusters zeroBytes c).setNext c fatEmptyEntry) fun d => d = c where
  next_in d hd h := by rw [next_setNext _ hd (by decide), if_pos h]
  next_eq d hd h := by
    rw [next_setNext _ hd (by decide), if_neg h]
    rfl
  cluster_eq d hd h := by rw [cluster_setNext, cluster_writeClusters _ hc hd, if_neg h]

theorem freeChain_freed {fuel c : Nat} {t : FileSystem} {l : List Nat}
    (hl : Walk t.next fatEndOfFile c l) (hnd : l.Nodup) (hr : ∀ x ∈ l, x < 512)
    (hf : l.length ≤ fuel) :
    ∃ t', freeChain fuel t c = .ok t' ∧ Freed t t' (fun x => x ∈ l) ∧
      t'.dirTableBuf = t.dirTableBuf := by
  induction l generalizing fuel c t with
  | nil =>
    cases hl with
    | stop =>
      refine ⟨t, ?_, .empty (by simp), rfl⟩
      cases fuel <;> simp [freeChain]
  | cons x l ih =>
    cases hl with
    | step hc hl =>
      obtain ⟨hx, hnd'⟩ := List.nodup_cons.mp hnd
      have hlt := hr x (by simp)
      cases fuel with
      | zero => simp at hf
      | succ fuel =>
        have hone := freed_one (t := t) hlt
        have hrest : ∀ y ∈ l, ((t.writeClusters zeroBytes x).setNext x fatEmptyEntry).next y =
            t.next y := by
          intro y hy
          refine hone.next_eq y (hr y (by simp [hy])) ?_
          rintro rfl
          exact hx hy
        obtain ⟨t', ht, hfree, hbuf⟩ := ih (hl.congr hrest) hnd'
          (fun y hy => hr y (by simp [hy])) (by simpa using hf)
        refine ⟨t', ?_, (hone.trans hfree).congr fun y => by simp, hbuf⟩
        simpa [freeChain, hc, lookup_of_lt _ hlt, assign_of_lt _ hlt, bind, Except.bind] using ht

section Region

variable {s : FileSystem} {p : Nat} {i j : Fin entryCount}

theorem region_of_dead (hl : (s.table p i).live = false) {c : Nat} : ¬ EntryRegion s p i c := by
  intro h
  have := (region_live h).2
  simp [hl] at this

theorem region_of_file (hp : LiveDir s p) (hf : FileSlot s p i) {l : List Nat}
    (hl : Walk s.next fatEndOfFile (s.table p i).clusterNumber l) {c : Nat} :
    EntryRegion s p i c ↔ c ∈ l := by
  rw [← hf.owns_iff hp hl]
  refine ⟨?_, .inl⟩
  rintro (h | ⟨a, d, k, ha, -, -⟩)
  · exact h
  · rw [folderChild_of_fileSlot hf] at ha
    simp at ha

theorem region_of_folder (hp : LiveDir s p) {a : Nat} (ha : folderChild s p i = some a) {c : Nat} :
    EntryRegion s p i c ↔ c = a ∨ ∃ k, EntryRegion s a k c := by
  constructor
  · rintro (h | ⟨b, d, k, hb, hd, h⟩)
    · cases h with
      | folder _ hc =>
        rw [ha] at hc
        exact .inl (Option.some.inj hc).symm
      | file _ hf _ _ =>
        rw [folderChild_of_fileSlot hf] at ha
        simp at ha
    · obtain rfl : a = b := Option.some.inj (ha.symm.trans hb)
      rcases Relation.ReflTransGen.cases_head hd with rfl | ⟨b, ⟨m, hm⟩, hd⟩
      · exact .inr ⟨k, .inl h⟩
      · exact .inr ⟨m, .inr ⟨b, d, k, hm, hd, h⟩⟩
  · rintro (rfl | ⟨k, h | ⟨b, d, m, hb, hd, h⟩⟩)
    · exact .inl (.folder hp ha)
    · exact .inr ⟨a, a, k, ha, .refl, h⟩
    · exact .inr ⟨a, d, m, ha, .head ⟨k, hb⟩ hd, h⟩

theorem region_disjoint (hw : Formed Fits s) (hp : LiveDir s p) {c : Nat}
    (h : EntryRegion s p i c) (h' : EntryRegion s p j c) : i = j := by
  rcases h with h | ⟨a, d, k, ha, hd, h⟩ <;> rcases h' with h' | ⟨b, d', k', hb, hd', h'⟩ <;>
    have he := hw.owner_unique h h' <;> simp only [Option.some.injEq, Prod.mk.injEq] at he
  · exact he.2
  · rw [← he.1] at hd'
    exact absurd hd' (not_below_child hw.tree hp hb)
  · rw [he.1] at hd
    exact absurd hd (not_below_child hw.tree hp ha)
  · rw [he.1] at hd
    exact siblings_disjoint hw.tree hp ha hb hd hd'

end Region

/-- A state that still holds the clusters in `Y` as `s` does. -/
def Agrees (s t : FileSystem) (Y : Nat → Prop) : Prop :=
  ∀ c < 512, Y c → t.next c = s.next c ∧ t.cluster c = s.cluster c

theorem Agrees.freed {s t t' : FileSystem} {X Y : Nat → Prop} (h : Agrees s t Y)
    (hf : Freed t t' X) (hd : ∀ c, Y c → ¬ X c) : Agrees s t' Y := by
  intro c hc hy
  rw [hf.next_eq c hc (hd c hy), hf.cluster_eq c hc (hd c hy)]
  exact h c hc hy

theorem Agrees.mono {s t : FileSystem} {Y Z : Nat → Prop} (h : Agrees s t Y)
    (hz : ∀ c, Z c → Y c) : Agrees s t Z := fun c hc hz' => h c hc (hz c hz')

/-- The clusters of directory `d` and of its slots. -/
def Subtree (s : FileSystem) (d c : Nat) : Prop := c = d ∨ ∃ i, EntryRegion s d i c

/-- The loop over the slots of `d`, when the recursive call frees the subtree it is given. -/
theorem recDeleteLoop_freed {s : FileSystem} {d : Nat} (hw : Formed Fits s) (hd : LiveDir s d)
    {rec : FileSystem → Nat → Except Fault FileSystem}
    (hrec : ∀ i a t, folderChild s d i = some a → Agrees s t (Subtree s a) →
      ∃ t', rec t a = .ok t' ∧ Freed t t' (Subtree s a))
    {is : List (Fin entryCount)} (hnd : is.Nodup) (hr : ∀ i ∈ is, 2 ≤ i.val) {t : FileSystem}
    (hbuf : t.dirTableBuf = s.table d) (hdir : t.cluster d = s.cluster d)
    (ha : Agrees s t fun c => ∃ i ∈ is, EntryRegion s d i c) :
    ∃ t', recDeleteLoop rec d is t = .ok t' ∧
      Freed t t' fun c => ∃ i ∈ is, EntryRegion s d i c := by
  induction is generalizing t with
  | nil => exact ⟨t, rfl, .empty (by simp)⟩
  | cons i is ih =>
    obtain ⟨hi, hnd'⟩ := List.nodup_cons.mp hnd
    have hr' : ∀ j ∈ is, 2 ≤ j.val := fun j hj => hr j (by simp [hj])
    have hsplit : ∀ c, (∃ j ∈ i :: is, EntryRegion s d j c) ↔
        EntryRegion s d i c ∨ ∃ j ∈ is, EntryRegion s d j c := by simp
    have hrest : ∀ c, (∃ j ∈ is, EntryRegion s d j c) → ¬ EntryRegion s d i c := by
      rintro c ⟨j, hj, h⟩ h'
      obtain rfl := region_disjoint hw hd h h'
      exact hi hj
    have harest := ha.mono fun c h => (hsplit c).mpr (.inr h)
    have hdne : ¬ EntryRegion s d i d := region_not_parent hw hd
    have hdlt := (hw.dir_range hd).2
    cases hl : (s.table d i).live with
    | false =>
      obtain ⟨t', ht, hf⟩ := ih hnd' hr' hbuf hdir harest
      refine ⟨t', by simpa [recDeleteLoop, hbuf, hl] using ht, hf.congr fun c => ?_⟩
      rw [hsplit c, or_iff_right (region_of_dead hl)]
    | true =>
      have hslot : LiveSlot s d i := ⟨hr i (by simp), hl⟩
      rcases hslot.kind with hfile | hfolder
      · obtain ⟨l, hwalk, hnodup, -, -, hrange⟩ := hw.file_chain hd hfile
        have hreg : ∀ c, EntryRegion s d i c ↔ c ∈ l := fun c => region_of_file hd hfile hwalk
        have hwalk' : Walk t.next fatEndOfFile (s.table d i).clusterNumber l :=
          hwalk.congr fun x hx =>
            (ha x (hrange x hx).2 ((hsplit x).mpr (.inl ((hreg x).mpr hx)))).1
        have hlt : ∀ x ∈ l, x < 512 := fun x hx => (hrange x hx).2
        obtain ⟨t₁, hone, hf₁, hbuf₁⟩ :=
          freeChain_freed hwalk' hnodup hlt (chain_length_le hnodup hlt)
        have hf₁ := hf₁.congr hreg
        obtain ⟨t', ht, hf⟩ := ih hnd' hr' (hbuf₁.trans hbuf)
          ((hf₁.cluster_eq d hdlt hdne).trans hdir) (harest.freed hf₁ hrest)
        refine ⟨t', ?_, (hf₁.trans hf).congr hsplit⟩
        simpa [recDeleteLoop, hbuf, hl, hfile.2, hone, bind, Except.bind] using ht
      · have hk := (folderChild_eq_some.mp hfolder).2.1
        have hreg : ∀ c, Subtree s (s.table d i).clusterNumber c ↔ EntryRegion s d i c :=
          fun c => (region_of_folder hd hfolder).symm
        obtain ⟨t₁, hone, hf₁⟩ := hrec i _ t hfolder
          (ha.mono fun c h => (hsplit c).mpr (.inl ((hreg c).mp h)))
        have hf₁ := (hf₁.congr fun c => (hreg c).symm).loadDir d
        have hdir₁ : t₁.cluster d = s.cluster d := (hf₁.cluster_eq d hdlt hdne).trans hdir
        obtain ⟨t', ht, hf⟩ := ih hnd' hr' (t := t₁.loadDir d)
          (by rw [dirTableBuf_loadDir, FileSystem.table, hdir₁, FileSystem.table]) hdir₁
          (harest.freed hf₁ hrest)
        refine ⟨t', ?_, (hf₁.trans hf).congr hsplit⟩
        simpa [recDeleteLoop, hbuf, hl, hk, hone, bind, Except.bind] using ht

/-- `rec_delete` ends and frees the subtree; a directory at depth `n` needs `512 - n` calls. -/
theorem recDelete_freed {s : FileSystem} (hw : Formed Fits s) {fuel n d : Nat}
    (hd : ReachIn (folderChild s) rootClusterNumber n d) (hfuel : 512 ≤ fuel + n) {t : FileSystem}
    (ha : Agrees s t (Subtree s d)) :
    ∃ t', recDelete fuel t d = .ok t' ∧ Freed t t' (Subtree s d) := by
  induction fuel generalizing n d t with
  | zero =>
    have := hw.dir_depth_lt hd
    omega
  | succ fuel ih =>
    have hlive : LiveDir s d := ⟨n, hd⟩
    have hdlt := (hw.dir_range hlive).2
    have hdir : t.cluster d = s.cluster d := (ha d hdlt (.inl rfl)).2
    have hslots : ∀ c, (∃ i ∈ slotsFrom 2, EntryRegion s d i c) ↔ ∃ i, EntryRegion s d i c := by
      intro c
      exact ⟨fun ⟨i, _, h⟩ => ⟨i, h⟩, fun ⟨i, h⟩ => ⟨i, mem_slotsFrom.mpr (region_live h).1, h⟩⟩
    obtain ⟨t₁, hloop, hf₁⟩ := recDeleteLoop_freed hw hlive
      (fun i a t ha' hag => ih (hd.child ha') (by omega) hag) (slotsFrom_nodup 2)
      (fun i hi => mem_slotsFrom.mp hi) (t := t.loadDir d)
      (by rw [dirTableBuf_loadDir, FileSystem.table, hdir, FileSystem.table]) hdir
      (ha.mono fun c h => .inr ((hslots c).mp h))
    have hf := hf₁.trans (freed_one (t := t₁) hdlt)
    refine ⟨_, ?_, ⟨hf.next_in, hf.next_eq, hf.cluster_eq⟩ |> fun h : Freed t _ _ => h.congr ?_⟩
    · simp [recDelete, hloop, assign_of_lt _ hdlt, bind, Except.bind]
    · intro c
      rw [Subtree, hslots c, or_comm]

theorem clearSlot_pruned {s t : FileSystem} {p : Nat} {i : Fin entryCount} (hw : Formed Fits s)
    (hp : LiveDir s p) (hl : LiveSlot s p i) (hf : Freed s t (EntryRegion s p i)) :
    Pruned s (clearSlot t p i) p i := by
  have hplt := (hw.dir_range hp).2
  have hpf := hw.dir_ne_fat hp
  have hcl := hf.cluster_eq p hplt (region_not_parent hw hp)
  exact {
    parent := hp
    slot := hl
    next_in := hf.next_in
    next_eq := hf.next_eq
    table_eq := by
      rw [clearSlot, table_stored hplt hpf, dirTableBuf_setEntry, dirTableBuf_loadDir,
        FileSystem.table, hcl, FileSystem.table]
    cluster_eq := by
      intro c hc h1 hne hr
      rw [clearSlot, cluster_stored_of_ne hplt hc h1 hne, cluster_setEntry, cluster_loadDir,
        hf.cluster_eq c hc hr]
    mirrored := mirrored_stored hplt }

end Doors.Fat32
