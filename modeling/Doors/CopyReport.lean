import Doors.TreeCopy
import Doors.WriteErrors
import Doors.ReservedClusters

/-! What the return code of `copy_folder` says. The codes of the nested calls are
dropped, so it is right exactly when the whole tree fits into the destination. -/

namespace Doors.Fat32

open PointerTree FileSystem

/-- Every nested call of the loop does its part: a write stores the entry of its source, and
the folder that is filled is the new one. -/
def CopyLoopDoes (does : FileSystem → Nat → Nat → Prop)
    (copyFolder : FileSystem → Nat → Nat → Except Fault (Int × FileSystem))
    (srcCluster destCluster : Nat) : List (Fin entryCount) → FileSystem → Prop
  | [], _ => True
  | i :: is, s =>
    let e := s.dirTableBuf i
    if !e.live then CopyLoopDoes does copyFolder srcCluster destCluster is s
    else if e.isSubdirectory then
      let req : Request := ⟨zeroBytes, e.name, fun _ => 0, UInt32.ofNat destCluster, 0⟩
      ∀ code₁ s₁ c s₂ code₂ s₃, write s req = .ok (code₁, s₁) →
        getClusterNumber s₁ req = .ok (c, s₂) →
        copyFolder s₂ e.clusterNumber c = .ok (code₂, s₃) →
        (code₁ = 0 ∧ req.ext = e.ext ∧ Stored s s₁ req) ∧
        (code₂ = 0 ∧ does s₂ e.clusterNumber c) ∧
        ((∃ m, LiveSlot s e.clusterNumber m) → s.next c = fatEmptyEntry) ∧
        CopyLoopDoes does copyFolder srcCluster destCluster is (s₃.loadDir srcCluster)
    else
      ∀ buf code₁ s₁, readChain s clusterMapSize zeroBytes 0 e.clusterNumber = .ok buf →
        let req : Request := ⟨buf, e.name, e.ext, UInt32.ofNat destCluster, e.filesize⟩
        write s req = .ok (code₁, s₁) → (code₁ = 0 ∧ Stored s s₁ req) ∧
          CopyLoopDoes does copyFolder srcCluster destCluster is (s₁.loadDir srcCluster)

/-- Every write and copy that `copy_folder` makes, at any depth, does its part. -/
def CopyFolderDoes : Nat → FileSystem → Nat → Nat → Prop
  | 0, _, _, _ => True
  | fuel + 1, s, srcCluster, destCluster =>
    CopyLoopDoes (CopyFolderDoes fuel) (copyFolder fuel) srcCluster destCluster (slotsFrom 2)
      (s.loadDir srcCluster)

/-- Every entry of `src` has a copy in `dest`, with all that is below it. -/
def TreeCopied (s s' : FileSystem) (src dest : Nat) : Prop :=
  ∀ i, LiveSlot s src i → ∃ k, LiveSlot s' dest k ∧ ∀ m,
    slotTree s' (listing s' m) (s'.table dest k) = slotTree s (listing s m) (s.table src i)

/-- Code 0 stands for a complete copy, and a call that fails inside is reported. -/
def CopyReports (s : FileSystem) (src dest : Nat) : Prop :=
  ∃ code s', copyFolder clusterMapSize s src dest = .ok (code, s') ∧
    (code = 0 → TreeCopied s s' src dest) ∧
    (¬ CopyFolderDoes clusterMapSize s src dest → code ≠ 0)

theorem Stored.room {s s' : FileSystem} {request : Request} (h : Stored s s' request)
    (hw : WellFormed s) : clustersNeeded request ≤ s.freeClusters.length := by
  obtain ⟨i, cs, -, -, -, -, -, hnd, hlen, hcs⟩ := h
  rw [← hlen]
  refine (hnd.subperm fun c hc => mem_freeClusters.mpr ?_).length_le
  obtain ⟨he, hu⟩ := (hcs c).mpr hc
  have hlt : c < 512 := by
    by_contra hlt
    rw [next, dif_neg hlt] at hu
    exact hu rfl
  have h0 : c ≠ 0 := by
    rintro rfl
    rw [hw.reserved0] at he
    exact absurd he (by decide)
  have h1 : c ≠ 1 := by
    rintro rfl
    rw [hw.reserved1] at he
    exact absurd he (by decide)
  have h2 : c ≠ 2 := by
    rintro rfl
    rw [hw.dir_mark reach_root] at he
    exact absurd he (by decide)
  exact ⟨⟨by omega, hlt⟩, he⟩

/-- A write that did its part found a name not used, a slot and the clusters. -/
theorem write_stored {s s' : FileSystem} {request : Request} (hw : WellFormed s)
    (hp : LiveDir s request.parent) (h : write s request = .ok (0, s'))
    (hst : Stored s s' request) :
    ¬ Clash s request ∧ ∃ i, Placed s s' request request.parent i := by
  obtain ⟨hc, i, hf⟩ := write_ok hw hp h
  obtain ⟨t, cs, ht, hwr⟩ := write_new hw hp hc hf (hst.room hw)
  cases h.symm.trans ht
  exact ⟨hc, i, hwr.placed hw (hwr.wellFormed hw hc)⟩

/-- The calls that the loop of `copy_folder` makes at one live slot. -/
inductive SlotCalls (rec : FileSystem → Nat → Nat → Except Fault (Int × FileSystem)) (dest : Nat)
    (e : FAT32DirectoryEntry) (s : FileSystem) : FileSystem → Prop
  | file {buf : Nat → UInt8} {code : Int} {s₁ : FileSystem} :
    e.isSubdirectory = false →
    write s ⟨buf, e.name, e.ext, UInt32.ofNat dest, e.filesize⟩ = .ok (code, s₁) →
    SlotCalls rec dest e s s₁
  | folder {code₁ code₂ : Int} {s₁ s₂ s₃ : FileSystem} {c : Nat} :
    e.isSubdirectory = true →
    write s ⟨zeroBytes, e.name, fun _ => 0, UInt32.ofNat dest, 0⟩ = .ok (code₁, s₁) →
    getClusterNumber s₁ ⟨zeroBytes, e.name, fun _ => 0, UInt32.ofNat dest, 0⟩ = .ok (c, s₂) →
    rec s₂ e.clusterNumber c = .ok (code₂, s₃) → SlotCalls rec dest e s s₃

/-- One round of the loop: a dead slot is passed over, a live one makes its calls. -/
theorem copyFolderLoop_cons {rec : FileSystem → Nat → Nat → Except Fault (Int × FileSystem)}
    {s s' : FileSystem} {src dest : Nat} {i : Fin entryCount} {is : List (Fin entryCount)}
    {code : Int} (h : copyFolderLoop rec src dest (i :: is) s = .ok (code, s')) :
    (s.dirTableBuf i).live = false ∧ copyFolderLoop rec src dest is s = .ok (code, s') ∨
      (s.dirTableBuf i).live = true ∧ ∃ t, SlotCalls rec dest (s.dirTableBuf i) s t ∧
        copyFolderLoop rec src dest is (t.loadDir src) = .ok (code, s') := by
  simp only [copyFolderLoop] at h
  cases hl : (s.dirTableBuf i).live with
  | false =>
    simp only [hl, Bool.not_false, if_true] at h
    exact .inl ⟨rfl, h⟩
  | true =>
    simp only [hl, Bool.not_true, Bool.false_eq_true, if_false] at h
    refine .inr ⟨rfl, ?_⟩
    cases hk : (s.dirTableBuf i).isSubdirectory with
    | false =>
      simp only [hk, Bool.false_eq_true, if_false] at h
      obtain ⟨buf, -, h⟩ := bind_ok h
      obtain ⟨⟨code₁, s₁⟩, hwrite, h⟩ := bind_ok h
      exact ⟨s₁, .file hk hwrite, h⟩
    | true =>
      simp only [hk, if_true] at h
      obtain ⟨⟨code₁, s₁⟩, hwrite, h⟩ := bind_ok h
      obtain ⟨⟨c, s₂⟩, hnumber, h⟩ := bind_ok h
      obtain ⟨⟨code₂, s₃⟩, hcopy, h⟩ := bind_ok h
      exact ⟨s₃, .folder hk hwrite hnumber hcopy, h⟩

theorem copyFolderLoop_code {rec : FileSystem → Nat → Nat → Except Fault (Int × FileSystem)}
    {src dest : Nat} {is : List (Fin entryCount)} {s s' : FileSystem} {code : Int}
    (h : copyFolderLoop rec src dest is s = .ok (code, s')) : code = 0 := by
  induction is generalizing s with
  | nil =>
    cases h
    rfl
  | cons i is ih =>
    rcases copyFolderLoop_cons h with ⟨-, h⟩ | ⟨-, t, -, h⟩
    · exact ih h
    · exact ih h

/-- From a directory the code is 0, whatever happened inside. -/
theorem copyFolder_code {fuel : Nat} {s s' : FileSystem} {src dest : Nat} {code : Int}
    (hw : WellFormed s) (hsrc : LiveDir s src)
    (h : copyFolder fuel s src dest = .ok (code, s')) : code = 0 := by
  cases fuel with
  | zero => cases h
  | succ fuel =>
    rw [copyFolder, s.withParent_accepted (hw.dir_range hsrc).2 (hw.dir_mark hsrc)] at h
    exact copyFolderLoop_code h

theorem Copying.treeCopied {s s' : FileSystem} {src dest : Nat}
    (h : Copying s s' src dest (slotsFrom 2)) : TreeCopied s s' src dest :=
  fun _ hi => h.copy (mem_slotsFrom.mpr hi.1) hi.2

theorem write_room_stored {s s' : FileSystem} {request : Request} (hw : WellFormed s)
    (hp : LiveDir s request.parent) (h : write s request = .ok (0, s'))
    (hroom : clustersNeeded request ≤ s.freeClusters.length) : Stored s s' request := by
  obtain ⟨hc, i, hf⟩ := write_ok hw hp h
  obtain ⟨t, cs, ht, hwr⟩ := write_new hw hp hc hf hroom
  cases h.symm.trans ht
  exact hwr.stored

theorem copyLoopDoes_dead {does : FileSystem → Nat → Nat → Prop}
    {rec : FileSystem → Nat → Nat → Except Fault (Int × FileSystem)} {s : FileSystem}
    {src dest : Nat} {is : List (Fin entryCount)} (h : ∀ i ∈ is, (s.dirTableBuf i).live = false) :
    CopyLoopDoes does rec src dest is s := by
  induction is with
  | nil => trivial
  | cons i is ih =>
    simp only [CopyLoopDoes, h i (by simp), Bool.not_false, if_true]
    exact ih fun j hj => h j (by simp [hj])

theorem copyFolderDoes_empty {s : FileSystem} {src : Nat} (hempty : ∀ j, ¬ LiveSlot s src j)
    (fuel dest : Nat) : CopyFolderDoes fuel s src dest := by
  cases fuel with
  | zero => trivial
  | succ fuel =>
    refine copyLoopDoes_dead fun i hi => ?_
    cases hl : (s.table src i).live with
    | false => exact hl
    | true => exact absurd ⟨mem_slotsFrom.mp hi, hl⟩ (hempty i)

section Does

variable {fuel : Nat} {s t : FileSystem} {src dest : Nat} {done is : List (Fin entryCount)}

/-- If the copy fits, each slot's calls do their part. -/
theorem copyLoop_does (hr : CopyReady (fuel + 1) s src dest)
    (hdoes : ∀ t a c, CopyReady fuel t a c → CopyFolderDoes fuel t a c)
    (hs : slotsFrom 2 = done ++ is) (h : Copying s t src dest done)
    (hbuf : t.dirTableBuf = s.table src)
    (hroom : FileTree.clustersAll (slotTrees s fuel src (copied s src is)) ≤
      t.freeClusters.length) :
    CopyLoopDoes (CopyFolderDoes fuel) (copyFolder fuel) src dest is t := by
  have hw := hr.wellFormed
  induction is generalizing done t with
  | nil => trivial
  | cons i is ih =>
    have hs' : slotsFrom 2 = (done ++ [i]) ++ is := by rw [hs, List.append_assoc]; rfl
    have hlive := h.extension.liveDir hw hr.dest_live
    have hdlt := (hw.dir_range hr.dest_live).2
    have hwt := h.extension.wellFormed
    simp only [CopyLoopDoes, hbuf]
    cases hl : (s.table src i).live with
    | false =>
      rw [copied_cons_dead hl] at hroom
      exact ih hs' (h.skip hl) hbuf hroom
    | true =>
      have hslot : LiveSlot s src i := ⟨mem_slotsFrom.mp (by rw [hs]; simp), hl⟩
      rw [clustersAll_cons hl] at hroom
      rcases hslot.kind with hf | hf
      · rw [slotTree_file hf.2, FileTree.clusters] at hroom
        obtain ⟨buf, t₁, hread, hwrite, hcopy, hfree⟩ := copy_file_step hr h hs hf (by omega)
        simp only [hf.2, Bool.not_true, Bool.false_eq_true, if_false]
        intro buf' code₁ s₁ hread' hwrite'
        rw [hread] at hread'
        cases hread'
        rw [copyRequest] at hwrite
        rw [hwrite] at hwrite'
        cases hwrite'
        refine ⟨⟨rfl, write_room_stored hwt ?_ hwrite ?_⟩, ih hs' (hcopy.loadDir src) ?_ ?_⟩
        · have hparent : (copyRequest s src dest i buf).parent = dest := copyRequest_parent hdlt buf
          exact hparent.symm ▸ hlive
        · have hneeded : clustersNeeded (copyRequest s src dest i buf) =
              clusterCount (s.table src i).filesize.toNat :=
            if_neg (filesize_ne_zero hw hr.src_live hf)
          rw [copyRequest] at hneeded
          omega
        · exact hcopy.extension.table_eq hw hr.src_live hr.src_ne
        · rw [freeClusters_loadDir]
          omega
      · have hk := (folderChild_eq_some.mp hf).2.1
        rw [slotTree_folder hk, FileTree.clusters] at hroom
        obtain ⟨t₁, c, t₂, hwrite, hnumber, hrun, hcopy, hfree, hext, hnew⟩ := copy_folder_step hr h hs hf
          (fun t c hready => copyFolder_copies hready) (by omega)
        simp only [hk, Bool.not_true, Bool.false_eq_true, if_false, if_true]
        intro code₁ s₁ c' s₂ code₂ s₃ hwrite' hnumber' hrun'
        rw [hwrite] at hwrite'
        cases hwrite'
        rw [hnumber] at hnumber'
        cases hnumber'
        rw [hrun] at hrun'
        cases hrun'
        have hext₁ := (hr.plain src i _ .refl hf).symm
        refine ⟨⟨rfl, hext₁, write_room_stored hwt ?_ hwrite ?_⟩, ⟨rfl, ?_⟩, fun hne => ?_,
          ih hs' hcopy ?_ ?_⟩
        · rw [ofNat_parent hdlt]
          exact hlive
        · show 1 ≤ t.freeClusters.length
          omega
        · by_cases hne : ∃ m, LiveSlot s (s.table src i).clusterNumber m
          · exact hdoes _ _ _ (hnew hne).2
          · refine copyFolderDoes_empty (fun m hm => hne ⟨m, ?_⟩) fuel c
            exact (child_slot hr.toCopySetting hf hext).mp hm
        · obtain ⟨m, hm⟩ := hne
          exact (hnew ⟨m, (child_slot hr.toCopySetting hf h.extension).mp hm⟩).1
        · exact hcopy.extension.table_eq hw hr.src_live hr.src_ne
        · rw [freeClusters_loadDir]
          omega

end Does

theorem copyFolder_does {fuel : Nat} {s : FileSystem} {src dest : Nat}
    (hr : CopyReady fuel s src dest) : CopyFolderDoes fuel s src dest := by
  induction fuel generalizing s src dest with
  | zero => trivial
  | succ fuel ih =>
    exact copyLoop_does hr (fun t a c hready => ih hready)
      (show slotsFrom 2 = [] ++ slotsFrom 2 from rfl) hr.start rfl hr.room

/-- What the slot `i` of `src` needs of the destination. -/
structure SlotFits (s : FileSystem) (src dest : Nat) (i : Fin entryCount) : Prop where
  plain : ∀ a, folderChild s src i = some a → (s.table src i).ext = (fun _ => 0) ∧ PlainBelow s a
  distinct : ∀ j, LiveSlot s dest j → (s.table dest j).name = (s.table src i).name →
    (s.table dest j).ext ≠ (s.table src i).ext
  lookup : ∀ a j b k, folderChild s src i = some a → (∃ m, LiveSlot s a m) →
    folderChild s dest j = some b → (s.table dest j).name = (s.table src i).name →
    (freeSlots s dest)[(liveSlots s src).idxOf i]? = some k → k < j

section Needs

variable {fuel : Nat} {s t t₁ t₂ t₃ : FileSystem} {src dest : Nat}
  {done is : List (Fin entryCount)} {i : Fin entryCount}

/-- A name that does not clash now was not in the destination at the start. -/
theorem distinct_of_not_clash (hr : CopySetting (fuel + 1) s src dest)
    (h : Copying s t src dest done) {buf : Nat → UInt8}
    (hc : ¬ Clash t (copyRequest s src dest i buf)) (j : Fin entryCount) (hj : LiveSlot s dest j)
    (hn : (s.table dest j).name = (s.table src i).name) :
    (s.table dest j).ext ≠ (s.table src i).ext := by
  intro he
  have hparent : (copyRequest s src dest i buf).parent = dest :=
    copyRequest_parent (hr.wellFormed.dir_range hr.dest_live).2 buf
  refine hc ⟨j, ?_, FAT32DriverRequest.names_iff.mpr ?_⟩
  · rw [hparent]
    exact h.extension.liveSlot hr.wellFormed hr.dest_live hj
  · rw [hparent, h.extension.slot_eq j (.inr hj)]
    exact ⟨hn, he⟩

theorem file_needs (hr : CopySetting (fuel + 1) s src dest) (h : Copying s t src dest done)
    (hf : FileSlot s src i) {buf : Nat → UInt8}
    (hread : readChain t clusterMapSize zeroBytes 0 (s.table src i).clusterNumber = .ok buf)
    (hwrite : write t (copyRequest s src dest i buf) = .ok (0, t₁))
    (hst : Stored t t₁ (copyRequest s src dest i buf)) :
    SlotFits s src dest i ∧ Copying s t₁ src dest (done ++ [i]) ∧ t.freeClusters.length =
      t₁.freeClusters.length + clusterCount (s.table src i).filesize.toNat := by
  have hparent : (copyRequest s src dest i buf).parent = dest :=
    copyRequest_parent (hr.wellFormed.dir_range hr.dest_live).2 buf
  have hlive := h.extension.liveDir hr.wellFormed hr.dest_live
  obtain ⟨hc, k, hp⟩ := write_stored h.extension.wellFormed (by rwa [hparent]) hwrite hst
  rw [hparent] at hp
  have hnone := folderChild_of_fileSlot hf
  refine ⟨⟨fun a ha => ?_, distinct_of_not_clash hr h hc, fun a j b k ha => ?_⟩,
    file_copied hr h hf hread hp⟩
  · rw [hnone] at ha
    cases ha
  · rw [hnone] at ha
    cases ha

theorem plainBelow_of (hr : CopySetting (fuel + 1) s src dest) {a : Nat}
    (ha : folderChild s src i = some a) (hext : Extends s t dest) (h : PlainBelow t a) :
    PlainBelow s a := by
  intro d j b hb hc
  have hw := hr.wellFormed
  have hda := hr.src_live.step ha
  have hd := below_reach hb hda
  rw [← hext.entry_eq hw hd (folderChild_eq_some.mp hc).1]
  exact h d j b (hext.below_kept hw hda hb) (hext.folderChild hw hd hc)

/-- A nonempty folder goes to the new one, so the lookup found no other. -/
theorem lookup_needs (hr : CopySetting (fuel + 1) s src dest) (h : Copying s t src dest done)
    (hs : slotsFrom 2 = done ++ i :: is) (hl : (s.table src i).live = true) {c c₀ : Nat}
    {k : Fin entryCount} {buf : Nat → UInt8}
    (hp : Placed t t₁ (copyRequest s src dest i buf) dest k)
    (hc₀ : folderChild t₁ dest k = some c₀)
    (hnumber : getClusterNumber t₁ (copyRequest s src dest i buf) = .ok (c, t₂))
    (hnew : t.next c = fatEmptyEntry) : c = c₀ ∧ ∀ j b k',
      folderChild s dest j = some b → (s.table dest j).name = (s.table src i).name →
      (freeSlots s dest)[(liveSlots s src).idxOf i]? = some k' → k' < j := by
  have hw := hr.wellFormed
  have hwt := h.extension.wellFormed
  have hlive := h.extension.liveDir hw hr.dest_live
  have hparent : (copyRequest s src dest i buf).parent = dest :=
    copyRequest_parent (hw.dir_range hr.dest_live).2 buf
  have hlive₁ : LiveDir t₁ (copyRequest s src dest i buf).parent := by
    rw [hparent]
    exact hp.extension.liveDir hwt hlive
  obtain ⟨c', hfound, hcase⟩ := getClusterNumber_found hp.extension.wellFormed hlive₁
  rw [hnumber] at hfound
  cases hfound
  rw [hparent] at hcase
  rcases hcase with ⟨rfl, -⟩ | ⟨f, hf, -, hfirst⟩
  · rw [hwt.reserved0] at hnew
    exact absurd hnew (by decide)
  · obtain ⟨e, htable, -⟩ := hp.table
    have hold : ∀ j, j ≠ k → t₁.table dest j = t.table dest j := fun j hj => by
      rw [htable, Function.update_of_ne hj]
    have hfk : f = k := by
      by_contra hne
      rw [folderChild_congr (hold f hne)] at hf
      rw [hwt.dir_mark (hlive.step hf)] at hnew
      exact absurd hnew (by decide)
    subst hfk
    refine ⟨Option.some.inj (hf.symm.trans hc₀), fun j b k' hb hn hk' => ?_⟩
    rw [idxOf_liveSlots hs hl, ← h.first, hp.slot] at hk'
    cases hk'
    have hslot := (folderChild_eq_some.mp hb).1
    have hjt := h.extension.slot_eq j (.inr hslot)
    have hne : j ≠ f := by
      rintro rfl
      have hdead := (firstFree_some hp.slot).2
      rw [hjt, hslot.2] at hdead
      exact absurd hdead (by decide)
    refine lt_of_le_of_ne (hfirst j b ?_ ?_) (Ne.symm hne)
    · rw [folderChild_congr ((hold j hne).trans hjt), hb]
    · rw [hold j hne, hjt]
      exact hn

theorem folder_needs (hr : CopySetting (fuel + 1) s src dest) (h : Copying s t src dest done)
    (hneeds : ∀ t a c code t', CopySetting fuel t a c → copyFolder fuel t a c = .ok (code, t') →
      CopyFolderDoes fuel t a c → CopyFits fuel t a c)
    (hs : slotsFrom 2 = done ++ i :: is) {a c : Nat} {code : Int}
    (ha : folderChild s src i = some a) (hplain : (s.table src i).ext = fun _ => 0)
    (hwrite : write t (copyRequest s src dest i zeroBytes) = .ok (0, t₁))
    (hst : Stored t t₁ (copyRequest s src dest i zeroBytes))
    (hnumber : getClusterNumber t₁ (copyRequest s src dest i zeroBytes) = .ok (c, t₂))
    (hcopy : copyFolder fuel t₂ a c = .ok (code, t₃)) (hdoes : CopyFolderDoes fuel t₂ a c)
    (hnew : (∃ m, LiveSlot t a m) → t.next c = fatEmptyEntry) :
    SlotFits s src dest i ∧ Copying s (t₃.loadDir src) src dest (done ++ [i]) ∧
      t.freeClusters.length =
        t₃.freeClusters.length + (1 + FileTree.clustersAll (listing s fuel a)) := by
  have hw := hr.wellFormed
  have hwt := h.extension.wellFormed
  have hlive := h.extension.liveDir hw hr.dest_live
  have hl := (folderChild_eq_some.mp ha).1
  have hz := hw.folder_size hr.src_live ha
  have hparent : (copyRequest s src dest i zeroBytes).parent = dest :=
    copyRequest_parent (hw.dir_range hr.dest_live).2 zeroBytes
  obtain ⟨hclash, k, hp⟩ := write_stored hwt (by rwa [hparent]) hwrite hst
  rw [hparent] at hp
  have hroom₁ := hp.room
  have hneeded : clustersNeeded (copyRequest s src dest i zeroBytes) = 1 := if_pos hz
  rw [hneeded] at hroom₁
  obtain ⟨c₀, hc₀, hfree, hempty⟩ := hp.folder hz
  have hw₁ := hp.extension.wellFormed
  have hext₁ : Extends s t₁ dest := h.extension.trans hw hr.dest_live hp.extension (.inl rfl)
  have hlive₁ : LiveDir t₁ (copyRequest s src dest i zeroBytes).parent := by
    rw [hparent]
    exact hp.extension.liveDir hwt hlive
  have hfresh := h.extension.free (hw₁.dir_range ((hparent ▸ hlive₁).step hc₀)).2 hfree
  obtain ⟨hsetting, hlist⟩ := child_setting hr ha (hext₁.loadDir dest) hc₀ hfresh
  obtain ⟨c', hfound, -⟩ := getClusterNumber_found hw₁ hlive₁
  have hstate : t₂ = t₁.loadDir dest := by
    rw [hnumber] at hfound
    cases hfound
    rw [hparent]
  subst hstate
  by_cases hne : ∃ m, LiveSlot s a m
  · obtain ⟨m, hm⟩ := hne
    obtain ⟨rfl, hlookup⟩ := lookup_needs hr h hs hl.2 hp hc₀ hnumber
      (hnew ⟨m, (child_slot hr ha h.extension).mpr hm⟩)
    have hfits := hneeds _ a c code t₃ hsetting hcopy hdoes
    obtain ⟨t', hrun, hdone⟩ := copyFolder_copies ⟨hsetting, hfits⟩
    rw [hcopy] at hrun
    cases hrun
    have hroom₂ := hdone.room
    rw [hlist, freeClusters_loadDir] at hroom₂
    have hlist₂ := hdone.copying.listing hempty
    refine ⟨⟨fun b hb => ?_, distinct_of_not_clash hr h hclash, fun b j b' k' _ _ => hlookup j b' k'⟩,
      (folder_copied hr h ha hp hc₀ hfree hdone.copying.extension.of_loadDir fun m => ?_).loadDir src,
      by omega⟩
    · obtain rfl := Option.some.inj (ha.symm.trans hb)
      exact ⟨hplain, plainBelow_of hr ha (hext₁.loadDir dest) hfits.plain⟩
    · rw [hlist₂, hlist]
  · have hnone := not_exists.mp hne
    obtain ⟨n, rfl⟩ := hsetting.fuel_pos
    have hnone₁ : ∀ j, ¬ LiveSlot (t₁.loadDir dest) a j := fun j hj =>
      hnone j ((child_slot hr ha hext₁).mp hj)
    rw [copyFolder_empty (hw₁.loadDir dest) hsetting.src_live hnone₁ n c] at hcopy
    cases hcopy
    refine ⟨⟨fun b hb => ?_, distinct_of_not_clash hr h hclash, fun b j b' k' hb hm => ?_⟩,
      (folder_copied hr h ha hp hc₀ hfree (((Extends.refl hw₁).loadDir dest).loadDir a)
        fun m => ?_).loadDir src, ?_⟩
    · obtain rfl := Option.some.inj (ha.symm.trans hb)
      refine ⟨hplain, fun d j b hb hc => ?_⟩
      rcases Relation.ReflTransGen.cases_head hb with rfl | ⟨e, ⟨m, hm⟩, -⟩
      · exact absurd (folderChild_eq_some.mp hc).1 (hnone j)
      · exact absurd (folderChild_eq_some.mp hm).1 (hnone m)
    · obtain rfl := Option.some.inj (ha.symm.trans hb)
      exact absurd hm hne
    · rw [listing_loadDir, listing_loadDir, listing_empty hempty, listing_empty hnone]
    · rw [listing_empty hnone, FileTree.clustersAll, freeClusters_loadDir, freeClusters_loadDir]
      omega

/-- If every call did its part, each slot had what it needs. -/
theorem copyFolderLoop_needs (hr : CopySetting (fuel + 1) s src dest)
    (hneeds : ∀ t a c code t', CopySetting fuel t a c → copyFolder fuel t a c = .ok (code, t') →
      CopyFolderDoes fuel t a c → CopyFits fuel t a c)
    (hs : slotsFrom 2 = done ++ is) (h : Copying s t src dest done)
    (hbuf : t.dirTableBuf = s.table src) {code : Int} {t' : FileSystem}
    (hrun : copyFolderLoop (copyFolder fuel) src dest is t = .ok (code, t'))
    (hdoes : CopyLoopDoes (CopyFolderDoes fuel) (copyFolder fuel) src dest is t) :
    Copying s t' src dest (slotsFrom 2) ∧ t.freeClusters.length =
      t'.freeClusters.length + FileTree.clustersAll (slotTrees s fuel src (copied s src is)) ∧
    ∀ i ∈ is, LiveSlot s src i → SlotFits s src dest i := by
  have hw := hr.wellFormed
  induction is generalizing done t with
  | nil =>
    cases hrun
    rw [List.append_nil] at hs
    rw [hs]
    exact ⟨h, rfl, fun i hi => absurd hi (List.not_mem_nil)⟩
  | cons i is ih =>
    have hs' : slotsFrom 2 = (done ++ [i]) ++ is := by rw [hs, List.append_assoc]; rfl
    have hdlt := (hw.dir_range hr.dest_live).2
    simp only [copyFolderLoop, CopyLoopDoes, hbuf] at hrun hdoes
    cases hl : (s.table src i).live with
    | false =>
      simp only [hl, Bool.not_false, if_true] at hrun hdoes
      obtain ⟨hcopy, hroom, hfits⟩ := ih hs' (h.skip hl) hbuf hrun hdoes
      refine ⟨hcopy, by rwa [copied_cons_dead hl], fun j hj hlive => ?_⟩
      rcases List.mem_cons.mp hj with rfl | hj
      · rw [LiveSlot, hl] at hlive
        exact absurd hlive.2 (by decide)
      · exact hfits j hj hlive
    | true =>
      simp only [hl, Bool.not_true, Bool.false_eq_true, if_false] at hrun hdoes
      have hslot : LiveSlot s src i := ⟨mem_slotsFrom.mp (by rw [hs]; simp), hl⟩
      rw [clustersAll_cons hl]
      rcases hslot.kind with hf | hf
      · simp only [hf.2, Bool.false_eq_true, if_false] at hrun hdoes
        obtain ⟨buf, hread, hrun⟩ := bind_ok hrun
        obtain ⟨⟨code₁, t₁⟩, hwrite, hrun⟩ := bind_ok hrun
        obtain ⟨⟨rfl, hst⟩, hdoes⟩ := hdoes buf code₁ t₁ hread hwrite
        obtain ⟨hfit, hcopy, hroom⟩ := file_needs hr h hf hread hwrite hst
        obtain ⟨hcopy', hroom', hfits⟩ := ih hs' (hcopy.loadDir src)
          (hcopy.extension.table_eq hw hr.src_live hr.src_ne) hrun hdoes
        rw [freeClusters_loadDir] at hroom'
        refine ⟨hcopy', ?_, fun j hj hlive => ?_⟩
        · rw [slotTree_file hf.2, FileTree.clusters]
          omega
        · rcases List.mem_cons.mp hj with rfl | hj
          · exact hfit
          · exact hfits j hj hlive
      · have hk := (folderChild_eq_some.mp hf).2.1
        simp only [hk, if_true] at hrun hdoes
        obtain ⟨⟨code₁, t₁⟩, hwrite, hrun₁⟩ := bind_ok hrun
        obtain ⟨⟨c, t₂⟩, hnumber, hrun₂⟩ := bind_ok hrun₁
        obtain ⟨⟨code₂, t₃⟩, hnested, hrun₃⟩ := bind_ok hrun₂
        obtain ⟨⟨rfl, hplain, hst⟩, ⟨-, hnesteddoes⟩, hnew, hdoes⟩ :=
          hdoes code₁ t₁ c t₂ code₂ t₃ hwrite hnumber hnested
        have hname : copyRequest s src dest i zeroBytes =
            ⟨zeroBytes, (s.table src i).name, fun _ => 0, UInt32.ofNat dest, 0⟩ := by
          rw [copyRequest, ← hplain, hw.folder_size hr.src_live hf]
        rw [← hname] at hwrite hst hnumber
        obtain ⟨hfit, hcopy, hroom⟩ := folder_needs hr h hneeds hs hf hplain.symm hwrite hst
          hnumber hnested hnesteddoes hnew
        obtain ⟨hcopy', hroom', hfits⟩ := ih hs' hcopy
          (hcopy.extension.table_eq hw hr.src_live hr.src_ne) hrun₃ hdoes
        rw [freeClusters_loadDir] at hroom'
        refine ⟨hcopy', ?_, fun j hj hlive => ?_⟩
        · rw [slotTree_folder hk, FileTree.clusters]
          omega
        · rcases List.mem_cons.mp hj with rfl | hj
          · exact hfit
          · exact hfits j hj hlive

end Needs

theorem copyFolder_needs {fuel : Nat} {s s' : FileSystem} {src dest : Nat} {code : Int}
    (hr : CopySetting fuel s src dest) (hrun : copyFolder fuel s src dest = .ok (code, s'))
    (hdoes : CopyFolderDoes fuel s src dest) : CopyFits fuel s src dest := by
  induction fuel generalizing s s' src dest code with
  | zero => cases hrun
  | succ fuel ih =>
    have hw := hr.wellFormed
    rw [copyFolder, s.withParent_accepted (hw.dir_range hr.src_live).2
      (hw.dir_mark hr.src_live)] at hrun
    obtain ⟨hcopy, hroom, hfits⟩ := copyFolderLoop_needs hr
      (fun t a c code t' hset hcopy hdo => ih hset hcopy hdo)
      (show slotsFrom 2 = [] ++ slotsFrom 2 from rfl) hr.start rfl hrun hdoes
    have hslot : ∀ i, LiveSlot s src i → SlotFits s src dest i :=
      fun i hi => hfits i (mem_slotsFrom.mpr hi.1) hi
    refine ⟨fun d j c hb hc => ?_, fun i j hi => (hslot i hi).distinct j, ?_,
      fun i a j b k ha => (hslot i (folderChild_eq_some.mp ha).1).lookup a j b k ha, ?_⟩
    · rcases Relation.ReflTransGen.cases_head hb with rfl | ⟨a, ⟨i, hi⟩, hb⟩
      · exact ((hslot j (folderChild_eq_some.mp hc).1).plain c hc).1
      · exact ((hslot i (folderChild_eq_some.mp hi).1).plain a hi).2 d j c hb hc
    · have hlen := hcopy.length_eq
      rw [List.length_take] at hlen
      have hlive : (liveSlots s src).length = (copied s src (slotsFrom 2)).length := rfl
      omega
    · rw [freeClusters_loadDir] at hroom
      have hcost : FileTree.clustersAll (listing s (fuel + 1) src) =
          FileTree.clustersAll (slotTrees s fuel src (copied s src (slotsFrom 2))) := rfl
      omega

/-- A directory with entries cannot be copied into itself: the first name clashes. -/
theorem copyFolder_self {s s' : FileSystem} (hw : WellFormed s) {src : Nat}
    (hsrc : LiveDir s src) {fuel : Nat} {code : Int}
    (hrun : copyFolder fuel s src src = .ok (code, s')) (hdoes : CopyFolderDoes fuel s src src)
    (i : Fin entryCount) : ¬ LiveSlot s src i := by
  cases fuel with
  | zero => cases hrun
  | succ fuel =>
    have hlt := (hw.dir_range hsrc).2
    have hmark := hw.dir_mark hsrc
    rw [copyFolder, s.withParent_accepted hlt hmark] at hrun
    have hloop : ∀ is : List (Fin entryCount), (∀ j ∈ is, 2 ≤ j.val) →
        copyFolderLoop (copyFolder fuel) src src is (s.loadDir src) = .ok (code, s') →
        CopyLoopDoes (CopyFolderDoes fuel) (copyFolder fuel) src src is (s.loadDir src) →
        ∀ j ∈ is, (s.table src j).live = false := by
      intro is hr hrun hdoes
      induction is with
      | nil => exact fun j hj => absurd hj List.not_mem_nil
      | cons j is ih =>
        simp only [copyFolderLoop, CopyLoopDoes, dirTableBuf_loadDir] at hrun hdoes
        have hnames : ∀ {t : FileSystem} {buf : Nat → UInt8} {ext : Ext} {size : UInt32},
            (s.table src j).live = true → ext = (s.table src j).ext →
            write (s.loadDir src) ⟨buf, (s.table src j).name, ext, UInt32.ofNat src, size⟩ =
              .ok (0, t) →
            ¬ Stored (s.loadDir src) t
              ⟨buf, (s.table src j).name, ext, UInt32.ofNat src, size⟩ := by
          intro t buf ext size hl hext hwrite hst
          refine (write_stored (hw.loadDir src) ?_ hwrite hst).1 ⟨j, ?_, ?_⟩
          · rw [ofNat_parent hlt]
            exact hsrc
          · rw [ofNat_parent hlt]
            exact ⟨hr j (by simp), hl⟩
          · rw [ofNat_parent hlt, FAT32DriverRequest.names_iff]
            exact ⟨rfl, hext.symm⟩
        cases hl : (s.table src j).live with
        | false =>
          simp only [hl, Bool.not_false, if_true] at hrun hdoes
          intro k hk
          rcases List.mem_cons.mp hk with rfl | hk
          · exact hl
          · exact ih (fun k hk => hr k (by simp [hk])) hrun hdoes k hk
        | true =>
          simp only [hl, Bool.not_true, Bool.false_eq_true, if_false] at hrun hdoes
          cases hk : (s.table src j).isSubdirectory with
          | false =>
            simp only [hk, Bool.false_eq_true, if_false] at hrun hdoes
            obtain ⟨buf, hread, hrun⟩ := bind_ok hrun
            obtain ⟨⟨code₁, t₁⟩, hwrite, hrun⟩ := bind_ok hrun
            obtain ⟨⟨hcode, hst⟩, -⟩ := hdoes buf code₁ t₁ hread hwrite
            exact absurd hst (hnames hl rfl (hcode ▸ hwrite))
          | true =>
            simp only [hk, if_true] at hrun hdoes
            obtain ⟨⟨code₁, t₁⟩, hwrite, hrun⟩ := bind_ok hrun
            obtain ⟨⟨c, t₂⟩, hnumber, hrun⟩ := bind_ok hrun
            obtain ⟨⟨code₂, t₃⟩, hnested, hrun⟩ := bind_ok hrun
            obtain ⟨⟨hcode, hext, hst⟩, -⟩ := hdoes code₁ t₁ c t₂ code₂ t₃ hwrite hnumber hnested
            exact absurd hst (hnames hl hext (hcode ▸ hwrite))
    intro hi
    have hdead := hloop (slotsFrom 2) (fun j hj => mem_slotsFrom.mp hj) hrun hdoes i
      (mem_slotsFrom.mpr hi.1)
    rw [hi.2] at hdead
    exact absurd hdead (by decide)

/-- Code 0 without a complete copy is avoided only if the call does its part. -/
theorem CopyReports.does {s : FileSystem} (hw : WellFormed s) {src dest : Nat}
    (hsrc : LiveDir s src) (h : CopyReports s src dest) : ∃ s',
      copyFolder clusterMapSize s src dest = .ok (0, s') ∧
      CopyFolderDoes clusterMapSize s src dest := by
  obtain ⟨code, s', hrun, -, hfail⟩ := h
  obtain rfl := copyFolder_code hw hsrc hrun
  refine ⟨s', hrun, ?_⟩
  by_contra hdoes
  exact hfail hdoes rfl

theorem copyFits_of_reports {s : FileSystem} (hw : WellFormed s) {src dest : Nat}
    (hsrc : LiveDir s src) (hdest : LiveDir s dest)
    (hout : Below (folderChild s) src dest → dest = src) (h : CopyReports s src dest) :
    CopyFits clusterMapSize s src dest := by
  obtain ⟨s', hrun, hdoes⟩ := h.does hw hsrc
  by_cases hb : Below (folderChild s) src dest
  · obtain rfl := hout hb
    have hempty := copyFolder_self hw hsrc hrun hdoes
    exact ⟨fun d j c hb hc => by
      rcases Relation.ReflTransGen.cases_head hb with rfl | ⟨a, ⟨i, hi⟩, -⟩
      · exact absurd (folderChild_eq_some.mp hc).1 (hempty j)
      · exact absurd (folderChild_eq_some.mp hi).1 (hempty i),
      fun i _ hi => absurd hi (hempty i), by
        rw [freeSlots_of_empty hempty]
        exact List.length_filter_le _ _,
      fun i _ _ _ _ ha => absurd (folderChild_eq_some.mp ha).1 (hempty i), by
        rw [listing_empty hempty]
        exact Nat.zero_le _⟩
  · obtain ⟨n, hn⟩ := hsrc
    exact copyFolder_needs ⟨hw, ⟨n, hn, Nat.le_add_right _ _⟩, hdest, hb⟩ hrun hdoes

/-- The code of `copy_folder` is right exactly when the copy fits. -/
theorem copyFolder_reports_iff {s : FileSystem} (hw : WellFormed s) {src dest : Nat}
    (hsrc : LiveDir s src) (hdest : LiveDir s dest)
    (hout : Below (folderChild s) src dest → dest = src) :
    CopyReports s src dest ↔ CopyFits clusterMapSize s src dest := by
  refine ⟨copyFits_of_reports hw hsrc hdest hout, fun hfits => ?_⟩
  by_cases hb : Below (folderChild s) src dest
  · obtain rfl := hout hb
    have hempty : ∀ i, ¬ LiveSlot s dest i := fun i hi => hfits.distinct i i hi hi rfl rfl
    exact ⟨0, _, copyFolder_empty hw hsrc hempty 511 dest, fun _ i hi => absurd hi (hempty i),
      fun hdoes => absurd (copyFolderDoes_empty hempty _ _) hdoes⟩
  · obtain ⟨n, hn⟩ := hsrc
    have hready : CopyReady clusterMapSize s src dest :=
      ⟨⟨hw, ⟨n, hn, Nat.le_add_right _ _⟩, hdest, hb⟩, hfits⟩
    obtain ⟨s', hrun, hdone⟩ := copyFolder_copies hready
    exact ⟨0, s', hrun, fun _ => hdone.copying.treeCopied,
      fun hdoes => absurd (copyFolder_does hready) hdoes⟩

/-- A file that is written into an empty folder. -/
theorem file_placed {s : FileSystem} {a : Nat} {size : UInt32} (hw : WellFormed s)
    (ha : LiveDir s a) (hempty : ∀ i, ¬ LiveSlot s a i) (hz : size ≠ 0)
    (hsize : clusterCount size.toNat ≤ s.freeClusters.length) :
    ∃ s' f, Placed s s' ⟨zeroBytes, fun _ => 'f'.toUInt8, fun _ => 0, UInt32.ofNat a, size⟩ a f ∧
      FileSlot s' a f ∧ ∀ i, LiveSlot s' a i → i = f := by
  obtain ⟨request, hreq⟩ : ∃ r : Request,
      r = ⟨zeroBytes, fun _ => 'f'.toUInt8, fun _ => 0, UInt32.ofNat a, size⟩ := ⟨_, rfl⟩
  have hparent : request.parent = a := hreq ▸ ofNat_parent (hw.dir_range ha).2
  have hneeded : clustersNeeded request = clusterCount size.toNat := by
    rw [hreq, clustersNeeded, if_neg hz]
  have hclash : ¬ Clash s request := by
    rintro ⟨i, hi, -⟩
    rw [hparent] at hi
    exact hempty i hi
  obtain ⟨f, hf⟩ := firstFree_exists (i := 2) (by decide) (not_live (by decide) (hempty 2))
  obtain ⟨s', cs, -, hwr⟩ := write_new hw (by rwa [hparent]) hclash (by rwa [hparent])
    (by rwa [hneeded])
  have hp := hwr.placed hw (hwr.wellFormed hw hclash)
  rw [hparent, hreq] at hp
  obtain ⟨e, htable, he⟩ := hp.table
  refine ⟨s', f, hp, ⟨⟨(firstFree_some hf).1, ?_⟩, ?_⟩, fun i hi => ?_⟩
  · rw [htable, Function.update_self, he]
  · rw [hp.kind]
    exact decide_eq_false hz
  · by_contra hif
    rw [LiveSlot, htable, Function.update_of_ne hif] at hi
    exact hempty i hi

/-- A new disk with one folder and one file in it. -/
theorem file_below_root {size : UInt32} (hz : size ≠ 0) (hsize : clusterCount size.toNat ≤ 508) :
    ∃ s a k f, WellFormed s ∧ folderChild s rootClusterNumber k = some a ∧
      (s.table rootClusterNumber k).name = (fun _ => 'a'.toUInt8) ∧
      (s.table rootClusterNumber k).ext = (fun _ => 0) ∧
      (∀ i, LiveSlot s rootClusterNumber i → i = k) ∧ FileSlot s a f ∧
      (s.table a f).name = (fun _ => 'f'.toUInt8) ∧ (s.table a f).filesize = size ∧
      (∀ i, LiveSlot s a i → i = f) ∧ s.freeClusters.length + clusterCount size.toNat = 508 := by
  obtain ⟨s₁, a, k, hw₁, -, ha₁, hname₁, hext₁, honly₁, hempty₁, hfree₁⟩ := folder_below_root
  obtain ⟨s₂, f, hp₂, hf, honly₂⟩ := file_placed hw₁ (reach_root.step ha₁) hempty₁ hz (by omega)
  have hroom₂ := hp₂.room
  rw [clustersNeeded, if_neg hz, hfree₁] at hroom₂
  have hne : rootClusterNumber ≠ a := by
    rintro rfl
    exact hw₁.tree.root_orphan reach_root ha₁
  have hroot := hp₂.extension.table_eq hw₁ reach_root hne
  refine ⟨s₂, a, k, f, hp₂.extension.wellFormed, ?_, ?_, ?_, fun i hi => honly₁ i ?_, hf, hp₂.name,
    hp₂.size, honly₂, hroom₂.symm⟩
  · rw [folderChild_congr (congrFun hroot k), ha₁]
  · rw [hroot, hname₁]
  · rw [hroot, hext₁]
  · rwa [LiveSlot, hroot] at hi

theorem listing_one {s : FileSystem} {a : Nat} {f : Fin entryCount} (hf : LiveSlot s a f)
    (honly : ∀ i, LiveSlot s a i → i = f) (m : Nat) :
    listing s (m + 1) a = [slotTree s (listing s m) (s.table a f)] := by
  have hslots : liveSlots s a = [f] := by
    have hnd : (liveSlots s a).Nodup := (slotsFrom_nodup 2).filter _
    refine List.perm_singleton.mp ((List.perm_ext_iff_of_nodup hnd (List.nodup_singleton f)).mpr
      fun i => ?_)
    rw [mem_liveSlots, List.mem_singleton]
    exact ⟨honly i, fun h => h ▸ hf⟩
  rw [listing, hslots, List.map_singleton]

theorem listing_one_file {s : FileSystem} {a : Nat} {f : Fin entryCount} (hf : FileSlot s a f)
    (honly : ∀ i, LiveSlot s a i → i = f) (m : Nat) :
    FileTree.clustersAll (listing s (m + 1) a) = clusterCount (s.table a f).filesize.toNat := by
  rw [listing_one hf.1 honly, slotTree_file hf.2, FileTree.clustersAll, FileTree.clusters,
    FileTree.clustersAll, Nat.add_zero]

theorem listing_one_folder {s : FileSystem} {a x : Nat} {k : Fin entryCount}
    (hk : folderChild s a k = some x) (honly : ∀ i, LiveSlot s a i → i = k) (m : Nat) :
    FileTree.clustersAll (listing s (m + 1) a) = 1 + FileTree.clustersAll (listing s m x) := by
  obtain ⟨hlive, hkind, hx⟩ := folderChild_eq_some.mp hk
  rw [listing_one hlive honly, slotTree_folder hkind, hx, FileTree.clustersAll, FileTree.clusters,
    FileTree.clustersAll, Nat.add_zero]

/-- A folder with a folder in it that has a file of one byte, copied into an empty one. -/
theorem copyFolder_reports_iff_nested : ∃ s src dest k x, folderChild s src k = some x ∧
    (∃ i, FileSlot s x i) ∧ CopyReports s src dest := by
  obtain ⟨s, a, b, k, x, hw, hplain, ha, hb, hdest, hout, hx, honly, hempty, hfree⟩ :=
    folders_below_root
  have hdx := ha.step hx
  obtain ⟨s', f, hp, hf, honlyf⟩ := file_placed hw hdx hempty (show (1 : UInt32) ≠ 0 by decide)
    (by rw [hfree]; decide)
  have hw' := hp.extension.wellFormed
  have hax : a ≠ x := by
    rintro rfl
    exact hempty k (folderChild_eq_some.mp hx).1
  have hbx : b ≠ x := by
    rintro rfl
    exact hout (.single ⟨k, hx⟩)
  have htable := hp.extension.table_eq hw ha hax
  have hx' : folderChild s' a k = some x := by
    rw [folderChild_congr (congrFun htable k), hx]
  have honly' (i : Fin entryCount) (hi : LiveSlot s' a i) : i = k := by
    rw [LiveSlot, htable] at hi
    exact honly i hi
  have hdest' (i : Fin entryCount) : ¬ LiveSlot s' b i := by
    rw [LiveSlot, hp.extension.table_eq hw hb hbx]
    exact hdest i
  have hnone (i : Fin entryCount) (c : Nat) : folderChild s' x i ≠ some c := by
    intro hc
    rw [honlyf i (folderChild_eq_some.mp hc).1, folderChild_of_fileSlot hf] at hc
    cases hc
  have hout' : ¬ Below (folderChild s') a b := fun h =>
    hout (hp.extension.below hw ha hb h)
  refine ⟨s', a, b, k, x, hx', ⟨f, hf⟩, (copyFolder_reports_iff hw' (hp.extension.liveDir hw ha)
    (hp.extension.liveDir hw hb) fun h => absurd h hout').mpr (copyFits_empty ?_ hdest' ?_)⟩
  · intro d i c hd hc
    rcases Relation.ReflTransGen.cases_head hd with rfl | ⟨e, ⟨j, hj⟩, hd⟩
    · rw [htable]
      exact hplain a i c ha (by rwa [folderChild_congr (congrFun htable i)] at hc)
    · obtain rfl : x = e := by
        rw [honly' j (folderChild_eq_some.mp hj).1, hx'] at hj
        exact Option.some.inj hj
      rcases Relation.ReflTransGen.cases_head hd with rfl | ⟨e, ⟨j, hj⟩, -⟩
      · exact absurd hc (hnone i c)
      · exact absurd hj (hnone j e)
  · have hroom := hp.room
    have hcost : clusterCount (1 : UInt32).toNat = 1 := by decide
    rw [clustersNeeded, if_neg (show (1 : UInt32) ≠ 0 by decide), hcost, hfree] at hroom
    rw [listing_one_folder hx' honly', listing_one_file hf honlyf, hp.size, hcost]
    omega

/-- A folder with a file that fills the disk: the copy has no cluster and 0 is returned. -/
theorem copyFolder_silent : ¬ ∀ (s : FileSystem) (src dest : Nat), WellFormed s →
    LiveDir s src → LiveDir s dest → (Below (folderChild s) src dest → dest = src) →
      CopyReports s src dest := by
  intro h
  have hcost : clusterCount (1040384 : UInt32).toNat = 508 := by decide
  obtain ⟨s, a, k, f, hw, ha, -, -, -, hf, -, hsize, honlyf, hfree⟩ :=
    file_below_root (show (1040384 : UInt32) ≠ 0 by decide) (by decide)
  have hout : Below (folderChild s) a rootClusterNumber → rootClusterNumber = a := fun hb =>
    absurd hb (not_below_child hw.tree reach_root ha)
  have hfits := copyFits_of_reports hw (reach_root.step ha) reach_root hout
    (h s a rootClusterNumber hw (reach_root.step ha) reach_root hout)
  have hroom := hfits.room
  rw [listing_one_file hf honlyf, hsize] at hroom
  omega

end Doors.Fat32
