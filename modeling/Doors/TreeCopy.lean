import Doors.FatReadBack
import Doors.FolderCopy

/-! The recursion of `copy_folder` over the source tree. Every slot is one step of the
copying invariant; a folder's step contains the recursive call. -/

namespace Doors.Fat32

open PointerTree FileSystem

theorem Written.room {s s' : FileSystem} {request : Request} {i : Fin entryCount} {cs : List Nat}
    (h : Written s s' request i cs) :
    s.freeClusters.length = s'.freeClusters.length + clustersNeeded request := by
  have hg := h.grown
  have hperm : s.freeClusters.Perm (s'.freeClusters ++ cs) := by
    refine (List.perm_ext_iff_of_nodup (freeClusters_nodup s) ?_).mpr fun c => ?_
    · refine List.nodup_append'.mpr ⟨freeClusters_nodup s', hg.nodup, fun c hc hm => ?_⟩
      exact hg.chain_used hm (mem_freeClusters.mp hc).2
    · rw [List.mem_append, mem_freeClusters, mem_freeClusters]
      constructor
      · rintro ⟨hr, he⟩
        by_cases hm : c ∈ cs
        · exact .inr hm
        · exact .inl ⟨hr, by rw [hg.next_eq c hr.2 hm, he]⟩
      · rintro (⟨hr, he⟩ | hm)
        · have hm : c ∉ cs := fun hm => hg.chain_used hm he
          exact ⟨hr, by rw [← hg.next_eq c hr.2 hm, he]⟩
        · have hf := hg.fresh c hm
          exact ⟨⟨hf.1, hf.2.1⟩, hf.2.2⟩
  rw [hperm.length_eq, List.length_append, h.length]

theorem Written.plain {s s' : FileSystem} {request : Request} {i : Fin entryCount} {cs : List Nat}
    (h : Written s s' request i cs) (hw : WellFormed s) (hs : PlainFolders s)
    (he : request.bufferSize = 0 → request.ext = fun _ => 0) : PlainFolders s' := by
  intro d j c hd hc
  have hslot := folderChild_eq_some.mp hc
  rcases h.grown.liveSlot_cases hw hd hslot.1 with ⟨rfl, rfl⟩ | ⟨hd', _, heq, hne⟩
  · rw [h.grown.entry_new] at hslot ⊢
    by_cases hz : request.bufferSize = 0
    · exact he hz
    · have hk := hslot.2.1
      simp [newEntry, newKind, hz, FAT32DirectoryEntry.isSubdirectory,
        FAT32DirectoryEntry.setCluster] at hk
  · rw [h.grown.child_eq hw hd' hne] at hc
    rw [heq]
    exact hs d j c hd' hc

theorem Written.bytes {s s' : FileSystem} {request : Request} {i : Fin entryCount} {cs : List Nat}
    (h : Written s s' request i cs) (hw' : WellFormed s') (hp : LiveDir s' request.parent)
    (hz : request.bufferSize ≠ 0) :
    fileBytes s' (s'.table request.parent i) =
      (List.range request.bufferSize.toNat).map request.buf := by
  rw [fileBytes_eq hw' hp (h.fileSlot hz) h.walk, h.filesize]
  exact List.map_congr_left fun k hk => h.readAll_eq hz _ (List.mem_range.mp hk)

theorem find_le {is : List (Fin entryCount)} (hs : is.Pairwise (· < ·))
    {p : Fin entryCount → Bool} {i j : Fin entryCount} (hi : is.find? p = some i) (hj : j ∈ is)
    (hp : p j = true) : i ≤ j := by
  obtain ⟨-, as, bs, rfl, has⟩ := List.find?_eq_some_iff_append.mp hi
  rcases List.mem_append.mp hj with hj | hj
  · exact absurd hp (by simpa using has j hj)
  · rcases List.mem_cons.mp hj with rfl | hj
    · exact le_refl _
    · exact le_of_lt ((List.pairwise_cons.mp (List.pairwise_append.mp hs).2.1).1 j hj)

theorem slotsFrom_sorted (k : Nat) : (slotsFrom k).Pairwise (· < ·) :=
  (List.pairwise_lt_finRange entryCount).sublist (List.drop_sublist k _)

/-- What `get_cluster_number` returns for a parent with the mark. -/
theorem getClusterNumber_marked {s : FileSystem} {request : Request} (hp : request.parent < 512)
    (hm : s.next request.parent = fatEndOfFile) :
    ∃ c, getClusterNumber s request = .ok (c, s.loadDir request.parent) ∧
      ((c = 0 ∧ ∀ j b, folderChild s request.parent j = some b →
          (s.table request.parent j).name ≠ request.name) ∨
        ∃ i, folderChild s request.parent i = some c ∧
          (s.table request.parent i).name = request.name ∧
          ∀ j b, folderChild s request.parent j = some b →
            (s.table request.parent j).name = request.name → i ≤ j) := by
  rw [getClusterNumber, s.withParent_accepted hp hm]
  simp only [dirTableBuf_loadDir]
  cases hfind : (slotsFrom 2).find? fun i => (s.table request.parent i).live &&
      request.matchesName (s.table request.parent i) &&
      (s.table request.parent i).isSubdirectory with
  | none =>
    refine ⟨0, rfl, .inl ⟨rfl, fun j b hb hn => ?_⟩⟩
    obtain ⟨hl, hk, -⟩ := folderChild_eq_some.mp hb
    have hnone := List.find?_eq_none.mp hfind j (mem_slotsFrom.mpr hl.1)
    simp [hl.2, hk, FAT32DriverRequest.matchesName, hn] at hnone
  | some i =>
    have hi := List.find?_some hfind
    simp only [Bool.and_eq_true, FAT32DriverRequest.matchesName, decide_eq_true_eq] at hi
    have hslot : LiveSlot s request.parent i :=
      ⟨mem_slotsFrom.mp (List.mem_of_find?_eq_some hfind), hi.1.1⟩
    refine ⟨_, rfl, .inr ⟨i, folderChild_eq_some.mpr ⟨hslot, hi.2, rfl⟩, hi.1.2,
      fun j b hb hn => ?_⟩⟩
    obtain ⟨hl, hk, -⟩ := folderChild_eq_some.mp hb
    refine find_le (slotsFrom_sorted 2) hfind (mem_slotsFrom.mpr hl.1) ?_
    simp [hl.2, hk, FAT32DriverRequest.matchesName, hn]

theorem getClusterNumber_found {Fits : UInt32 → Nat → Prop} {s : FileSystem}
    (hw : Formed Fits s) {request : Request} (hp : LiveDir s request.parent) :
    ∃ c, getClusterNumber s request = .ok (c, s.loadDir request.parent) ∧
      ((c = 0 ∧ ∀ j b, folderChild s request.parent j = some b →
          (s.table request.parent j).name ≠ request.name) ∨
        ∃ i, folderChild s request.parent i = some c ∧
          (s.table request.parent i).name = request.name ∧
          ∀ j b, folderChild s request.parent j = some b →
            (s.table request.parent j).name = request.name → i ≤ j) :=
  getClusterNumber_marked (hw.dir_range hp).2 (hw.dir_mark hp)

/-- `get_cluster_number` finds the first folder of that name. -/
theorem getClusterNumber_first {Fits : UInt32 → Nat → Prop} {s : FileSystem} (hw : Formed Fits s)
    {request : Request} (hp : LiveDir s request.parent) {i : Fin entryCount} {c : Nat}
    (hc : folderChild s request.parent i = some c)
    (hn : (s.table request.parent i).name = request.name)
    (hfirst : ∀ j b, folderChild s request.parent j = some b →
      (s.table request.parent j).name = request.name → i ≤ j) :
    getClusterNumber s request = .ok (c, s.loadDir request.parent) := by
  obtain ⟨c', hnumber, ⟨-, hnone⟩ | ⟨j, hj, hnj, hle⟩⟩ := getClusterNumber_found hw hp
  · exact absurd hn (hnone i c hc)
  · obtain rfl := le_antisymm (hfirst j c' hj hnj) (hle i c hc hn)
    rw [hnumber, Option.some.inj (hc.symm.trans hj)]

theorem getClusterNumber_state {s s' : FileSystem} {request : Request} {c : Nat}
    (h : getClusterNumber s request = .ok (c, s')) : s' = s ∨ s' = s.loadDir request.parent := by
  by_cases hp : request.parent < 512
  · by_cases hm : s.next request.parent = fatEndOfFile
    · obtain ⟨c', hnumber, -⟩ := getClusterNumber_marked hp hm
      rw [hnumber] at h
      cases h
      exact .inr rfl
    · rw [getClusterNumber, s.withParent_refused hp hm] at h
      cases h
      exact .inl rfl
  · rw [getClusterNumber, s.withParent_outOfBounds (Nat.le_of_not_lt hp)] at h
    cases h

theorem copyFolderLoop_dead {rec : FileSystem → Nat → Nat → Except Fault (Int × FileSystem)}
    {s : FileSystem} {src dest : Nat} {is : List (Fin entryCount)}
    (h : ∀ i ∈ is, (s.dirTableBuf i).live = false) :
    copyFolderLoop rec src dest is s = .ok (0, s) := by
  induction is with
  | nil => rfl
  | cons i is ih =>
    rw [copyFolderLoop, h i (by simp)]
    exact ih fun j hj => h j (by simp [hj])

theorem copyFolder_empty {Fits : UInt32 → Nat → Prop} {s : FileSystem} (hw : Formed Fits s)
    {src : Nat} (hsrc : LiveDir s src) (hempty : ∀ j, ¬ LiveSlot s src j) (fuel dest : Nat) :
    copyFolder (fuel + 1) s src dest = .ok (0, s.loadDir src) := by
  rw [copyFolder, s.withParent_accepted (hw.dir_range hsrc).2 (hw.dir_mark hsrc)]
  refine copyFolderLoop_dead fun i hi => ?_
  cases hl : (s.table src i).live with
  | false => exact hl
  | true => exact absurd ⟨mem_slotsFrom.mp hi, hl⟩ (hempty i)

/-- No folder at or below `a` has an extension. -/
def PlainBelow (s : FileSystem) (a : Nat) : Prop :=
  ∀ d i c, Below (folderChild s) a d → folderChild s d i = some c →
    (s.table d i).ext = fun _ => 0

/-- The two directories of a copy; the bound on the depth is for the recursion. -/
structure CopySetting (fuel : Nat) (s : FileSystem) (src dest : Nat) : Prop where
  wellFormed : WellFormed s
  depth : ∃ n, ReachIn (folderChild s) rootClusterNumber n src ∧ 512 ≤ fuel + n
  dest_live : LiveDir s dest
  outside : ¬ Below (folderChild s) src dest

/-- What the copy needs to be complete. -/
structure CopyFits (fuel : Nat) (s : FileSystem) (src dest : Nat) : Prop where
  plain : PlainBelow s src
  distinct : ∀ i j, LiveSlot s src i → LiveSlot s dest j →
    (s.table dest j).name = (s.table src i).name → (s.table dest j).ext ≠ (s.table src i).ext
  slots : (liveSlots s src).length ≤ (freeSlots s dest).length
  /-- A folder of `dest` with that name comes behind the slot that the copy takes. -/
  lookup : ∀ i a j b k, folderChild s src i = some a → (∃ m, LiveSlot s a m) →
    folderChild s dest j = some b → (s.table dest j).name = (s.table src i).name →
    (freeSlots s dest)[(liveSlots s src).idxOf i]? = some k → k < j
  room : FileTree.clustersAll (listing s fuel src) ≤ s.freeClusters.length

theorem copyFits_empty {fuel : Nat} {s : FileSystem} {src dest : Nat} (hplain : PlainBelow s src)
    (hempty : ∀ i, ¬ LiveSlot s dest i)
    (hroom : FileTree.clustersAll (listing s fuel src) ≤ s.freeClusters.length) :
    CopyFits fuel s src dest where
  plain := hplain
  distinct _ j _ hj := absurd hj (hempty j)
  slots := by
    rw [freeSlots_of_empty hempty]
    exact List.length_filter_le _ _
  lookup _ _ j _ _ _ _ hb := absurd (folderChild_eq_some.mp hb).1 (hempty j)
  room := hroom

structure CopyReady (fuel : Nat) (s : FileSystem) (src dest : Nat) : Prop extends
  CopySetting fuel s src dest, CopyFits fuel s src dest

/-- What the copy delivers. -/
structure FolderCopied (fuel : Nat) (s s' : FileSystem) (src dest : Nat) : Prop where
  copying : Copying s s' src dest (slotsFrom 2)
  room : s.freeClusters.length =
    s'.freeClusters.length + FileTree.clustersAll (listing s fuel src)

namespace CopySetting

variable {fuel : Nat} {s : FileSystem} {src dest : Nat}

theorem src_live (h : CopySetting fuel s src dest) : LiveDir s src := by
  obtain ⟨n, hn, -⟩ := h.depth
  exact ⟨n, hn⟩

theorem src_ne (h : CopySetting fuel s src dest) : src ≠ dest := by
  rintro rfl
  exact h.outside .refl

theorem fuel_pos (h : CopySetting fuel s src dest) : ∃ n, fuel = n + 1 := by
  obtain ⟨n, hn, hfuel⟩ := h.depth
  have := h.wellFormed.dir_depth_lt hn
  exact ⟨fuel - 1, by omega⟩

theorem start (h : CopySetting fuel s src dest) : Copying s (s.loadDir src) src dest [] where
  extension := (Extends.refl h.wellFormed).loadDir src
  slots := rfl
  same _ := rfl

end CopySetting

/-- The entry that the copy of slot `i` writes, up to its cluster. -/
def copyRequest (s : FileSystem) (src dest : Nat) (i : Fin entryCount) (buf : Nat → UInt8) :
    Request :=
  ⟨buf, (s.table src i).name, (s.table src i).ext, UInt32.ofNat dest, (s.table src i).filesize⟩

theorem copyRequest_parent {s : FileSystem} {src dest : Nat} {i : Fin entryCount} (hd : dest < 512)
    (buf : Nat → UInt8) : (copyRequest s src dest i buf).parent = dest := by
  simp only [copyRequest, FAT32DriverRequest.parent, UInt32.toNat_ofNat']
  omega

/-- What a written entry means for the directory it is in. -/
structure Placed (t t' : FileSystem) (request : Request) (dest : Nat) (k : Fin entryCount) :
    Prop where
  slot : firstFree t dest = some k
  extension : Extends t t' dest
  table : ∃ e, t'.table dest = Function.update (t.table dest) k e ∧ e.live = true
  name : (t'.table dest k).name = request.name
  ext : (t'.table dest k).ext = request.ext
  size : (t'.table dest k).filesize = request.bufferSize
  kind : (t'.table dest k).isSubdirectory = decide (request.bufferSize = 0)
  folder : request.bufferSize = 0 → ∃ c, folderChild t' dest k = some c ∧
    t.next c = fatEmptyEntry ∧ ∀ j, ¬ LiveSlot t' c j
  bytes : request.bufferSize ≠ 0 → fileBytes t' (t'.table dest k) =
    (List.range request.bufferSize.toNat).map request.buf
  room : t.freeClusters.length = t'.freeClusters.length + clustersNeeded request

theorem Written.placed {t t' : FileSystem} {request : Request} {k : Fin entryCount}
    {cs : List Nat} (h : Written t t' request k cs) (hw : WellFormed t) (hw' : WellFormed t') :
    Placed t t' request request.parent k := by
  have hg := h.grown
  have hext := hg.extends hw'
  have hkind : (t'.table request.parent k).isSubdirectory = decide (request.bufferSize = 0) := by
    rw [hg.entry_new, newEntry_isSubdirectory]
  exact {
    slot := h.slot
    extension := hext
    table := ⟨_, hg.table_eq, hg.live⟩
    name := by
      rw [hg.entry_new]
      rfl
    ext := by
      rw [hg.entry_new]
      rfl
    size := by
      rw [hg.entry_new]
      rfl
    kind := hkind
    folder := by
      intro hz
      rw [decide_eq_true hz] at hkind
      have hc := folderChild_eq_some.mpr ⟨hg.liveSlot_new, hkind, rfl⟩
      obtain ⟨hcs, -, -, -, hzero⟩ := hg.folder (hg.entry_new ▸ hkind)
      rw [hg.entry_new] at hc
      have hm := List.mem_singleton_self (newEntry (t.table request.parent k) request
        (newKind request) (cs.headD 0)).clusterNumber
      rw [← hcs] at hm
      refine ⟨_, hc, (hg.fresh _ hm).2.2, fun j hj => ?_⟩
      rw [LiveSlot, hzero j hj.1] at hj
      simp at hj
    bytes := h.bytes hw' (hext.liveDir hw hg.parent)
    room := h.room }

section Step

variable {fuel : Nat} {s t t' : FileSystem} {src dest : Nat} {done is : List (Fin entryCount)}
  {i k : Fin entryCount}

theorem file_copied (hr : CopySetting (fuel + 1) s src dest) (h : Copying s t src dest done)
    (hf : FileSlot s src i) {buf : Nat → UInt8}
    (hread : readChain t clusterMapSize zeroBytes 0 (s.table src i).clusterNumber = .ok buf)
    (hp : Placed t t' (copyRequest s src dest i buf) dest k) :
    Copying s t' src dest (done ++ [i]) ∧ t.freeClusters.length =
      t'.freeClusters.length + clusterCount (s.table src i).filesize.toNat := by
  have hw := hr.wellFormed
  have hfs := filesize_ne_zero hw hr.src_live hf
  obtain ⟨e, htable, he⟩ := hp.table
  have hold : fileBytes t (s.table src i) =
      (List.range (s.table src i).filesize.toNat).map buf := by
    rw [fileBytes, hread]
  refine ⟨h.step hw hr.dest_live hf.1.2 hp.slot hp.extension he htable fun m => ?_, ?_⟩
  · rw [slotTree_file (hp.kind.trans (decide_eq_false hfs)), slotTree_file hf.2, hp.bytes hfs,
      ← h.extension.bytes hw hr.dest_live hr.src_live hf, hold, hp.name, hp.ext, hp.size]
    rfl
  · have hneeded : clustersNeeded (copyRequest s src dest i buf) =
        clusterCount (s.table src i).filesize.toNat := if_neg hfs
    rw [← hneeded]
    exact hp.room

/-- The slot of a folder is copied once the new folder lists what the old one does. -/
theorem folder_copied (hr : CopySetting (fuel + 1) s src dest) (h : Copying s t src dest done)
    {a c : Nat} (ha : folderChild s src i = some a) {t₁ t₂ : FileSystem}
    (hp : Placed t t₁ (copyRequest s src dest i zeroBytes) dest k)
    (hc : folderChild t₁ dest k = some c) (hfree : t.next c = fatEmptyEntry)
    (hext : Extends t₁ t₂ c) (hsame : ∀ m, listing t₂ m c = listing s m a) :
    Copying s t₂ src dest (done ++ [i]) := by
  have hw := hr.wellFormed
  obtain ⟨hl, hk, hac⟩ := folderChild_eq_some.mp ha
  have hz := hw.folder_size hr.src_live ha
  have hwt := h.extension.wellFormed
  have hdt := h.extension.liveDir hw hr.dest_live
  obtain ⟨e, htable, he⟩ := hp.table
  have hne : dest ≠ c := by
    rintro rfl
    rw [hwt.dir_mark hdt] at hfree
    exact absurd hfree (by decide)
  have htable₂ : t₂.table dest = t₁.table dest :=
    hext.table_eq hp.extension.wellFormed (hp.extension.liveDir hwt hdt) hne
  refine h.step hw hr.dest_live hl.2 hp.slot (hp.extension.trans hwt hdt hext (.inr hfree)) he
    (htable₂.trans htable) fun m => ?_
  have hcn : (t₁.table dest k).clusterNumber = c := (folderChild_eq_some.mp hc).2.2
  have hkind : (t₁.table dest k).isSubdirectory = true := hp.kind.trans (decide_eq_true hz)
  rw [htable₂, slotTree_folder hkind, slotTree_folder hk, hp.name, hp.ext, hp.size, hcn, hac,
    hsame m]
  rfl

theorem child_slot (hr : CopySetting (fuel + 1) s src dest) {a : Nat}
    (ha : folderChild s src i = some a) (hext : Extends s t' dest) {j : Fin entryCount} :
    LiveSlot t' a j ↔ LiveSlot s a j := by
  have ht := hext.table_eq hr.wellFormed (hr.src_live.step ha) fun hd =>
    hr.outside (hd ▸ .single ⟨i, ha⟩)
  rw [LiveSlot, LiveSlot, ht]

/-- The nested copy goes from a folder of `src` to a new folder of `dest`. -/
theorem child_setting (hr : CopySetting (fuel + 1) s src dest) {a c : Nat}
    (ha : folderChild s src i = some a) (hext : Extends s t' dest)
    (hc : folderChild t' dest k = some c) (hfresh : s.next c = fatEmptyEntry) :
    CopySetting fuel t' a c ∧ ∀ m, listing t' m a = listing s m a := by
  have hw := hr.wellFormed
  have hda := hr.src_live.step ha
  have hdest' := hext.liveDir hw hr.dest_live
  have hout : ¬ Below (folderChild s) a dest := fun hb => hr.outside (.head ⟨i, ha⟩ hb)
  obtain ⟨n, hn, hfuel⟩ := hr.depth
  refine ⟨⟨hext.wellFormed, ⟨n + 1, hext.reachIn hw (hn.child ha), by omega⟩, hdest'.step hc,
    fun hb => ?_⟩, fun m => hext.listing hw hr.dest_live m hda hout⟩
  have hb := hext.below_away hw hda hout hb
  rw [hw.dir_mark (below_reach hb hda)] at hfresh
  exact absurd hfresh (by decide)

theorem child_fits (hr : CopySetting (fuel + 1) s src dest) (hplain : PlainBelow s src) {a c : Nat}
    (ha : folderChild s src i = some a) (hext : Extends s t' dest) (hempty : ∀ j, ¬ LiveSlot t' c j)
    (hroom : FileTree.clustersAll (listing t' fuel a) ≤ t'.freeClusters.length) :
    CopyFits fuel t' a c := by
  refine copyFits_empty (fun d j b hb hc => ?_) hempty hroom
  have hw := hr.wellFormed
  have hda := hr.src_live.step ha
  have hout : ¬ Below (folderChild s) a dest := fun hb => hr.outside (.head ⟨i, ha⟩ hb)
  have hb := hext.below_away hw hda hout hb
  have ht := hext.table_eq hw (below_reach hb hda) fun hd => hout (hd ▸ hb)
  rw [folderChild_congr (congrFun ht j)] at hc
  rw [ht]
  exact hplain d j b (.head ⟨i, ha⟩ hb) hc

theorem copy_write (hr : CopyReady (fuel + 1) s src dest) (h : Copying s t src dest done)
    (hs : slotsFrom 2 = done ++ i :: is) (hl : LiveSlot s src i) {buf : Nat → UInt8}
    (hroom : clustersNeeded (copyRequest s src dest i buf) ≤ t.freeClusters.length) :
    ∃ k t', write t (copyRequest s src dest i buf) = .ok (0, t') ∧
      Placed t t' (copyRequest s src dest i buf) dest k := by
  have hw := h.extension.wellFormed
  have hdest := hr.wellFormed.dir_range hr.dest_live
  have hp : (copyRequest s src dest i buf).parent = dest := copyRequest_parent hdest.2 buf
  have hlive := h.extension.liveDir hr.wellFormed hr.dest_live
  have hnd := slotsFrom_nodup 2
  rw [hs] at hnd
  have hnew : i ∉ done := fun hm => (List.nodup_append'.mp hnd).2.2 hm (by simp)
  have hrange : ∀ j ∈ done, 2 ≤ j.val := fun j hj => mem_slotsFrom.mp (by rw [hs]; simp [hj])
  have hlt : (copied s src done).length < (freeSlots s dest).length := by
    have hslots := hr.slots
    rw [liveSlots_split hs hl.2, List.length_append, List.length_cons] at hslots
    omega
  obtain ⟨k, hk⟩ : ∃ k, firstFree t dest = some k :=
    ⟨_, h.first.trans (List.getElem?_eq_getElem hlt)⟩
  have hclash : ¬ Clash t (copyRequest s src dest i buf) := by
    refine h.no_clash hr.wellFormed hr.src_live hl hnew hrange hp
      (FAT32DriverRequest.names_iff.mpr ⟨rfl, rfl⟩) ?_
    rintro ⟨j, hj, hn⟩
    rw [hp] at hj hn
    obtain ⟨hname, hext⟩ := FAT32DriverRequest.names_iff.mp hn
    exact hr.distinct i j hl hj hname hext
  rw [← hp] at hlive hk
  obtain ⟨t', cs, hwrite, hwr⟩ := write_new hw hlive hclash hk hroom
  have hplaced := hwr.placed hw (hwr.wellFormed hw hclash)
  rw [hp] at hplaced
  exact ⟨k, t', hwrite, hplaced⟩

theorem copy_file_step (hr : CopyReady (fuel + 1) s src dest) (h : Copying s t src dest done)
    (hs : slotsFrom 2 = done ++ i :: is) (hf : FileSlot s src i)
    (hroom : clusterCount (s.table src i).filesize.toNat ≤ t.freeClusters.length) :
    ∃ buf t', readChain t clusterMapSize zeroBytes 0 (s.table src i).clusterNumber = .ok buf ∧
      write t (copyRequest s src dest i buf) = .ok (0, t') ∧
      Copying s t' src dest (done ++ [i]) ∧
      t.freeClusters.length =
        t'.freeClusters.length + clusterCount (s.table src i).filesize.toNat := by
  have hw := hr.wellFormed
  have hsrc := hr.src_live
  have hext := h.extension
  have hfs := filesize_ne_zero hw hsrc hf
  obtain ⟨l, hl, hread⟩ := readChain_file hext.wellFormed (hext.liveDir hw hsrc)
    (hext.fileSlot hw hsrc hf) zeroBytes
  rw [hext.entry_eq hw hsrc hf.1] at hread
  have hneeded : clustersNeeded (copyRequest s src dest i (readAll t zeroBytes 0 l)) =
      clusterCount (s.table src i).filesize.toNat := if_neg hfs
  obtain ⟨k, t', hwrite, hp⟩ := copy_write hr h hs hf.1 (by rwa [hneeded])
  obtain ⟨hcopy, hfree⟩ := file_copied hr.toCopySetting h hf hread hp
  exact ⟨_, t', hread, hwrite, hcopy, hfree⟩

/-- No other folder of that name comes before the new one. -/
theorem new_folder_first (hr : CopyReady (fuel + 1) s src dest) (h : Copying s t src dest done)
    (hs : slotsFrom 2 = done ++ i :: is) {a : Nat} (ha : folderChild s src i = some a)
    (hne : ∃ m, LiveSlot s a m) {request : Request} (hn : request.name = (s.table src i).name)
    (hp : Placed t t' request dest k) {j : Fin entryCount} {b : Nat}
    (hb : folderChild t' dest j = some b) (hj : (t'.table dest j).name = request.name) :
    k ≤ j := by
  by_cases hjk : j = k
  · exact le_of_eq hjk.symm
  · have hl := (folderChild_eq_some.mp ha).1
    obtain ⟨e, htable, -⟩ := hp.table
    have hold : t'.table dest j = t.table dest j := by
      rw [htable, Function.update_of_ne hjk]
    rw [folderChild_congr hold] at hb
    rw [hold, hn] at hj
    rcases h.live_cases (folderChild_eq_some.mp hb).1 with hjs | hjs
    · have hslot := h.extension.slot_eq j (.inr hjs)
      rw [folderChild_congr hslot] at hb
      rw [hslot] at hj
      refine le_of_lt (hr.lookup i a j b k ha hne hb hj ?_)
      rw [idxOf_liveSlots hs hl.2, ← h.first]
      exact hp.slot
    · -- a copy of that name would come from a folder of `src` with that name
      obtain ⟨i', hdone, hlive, htree⟩ := h.source hjs
      have hname := congrArg FileTree.name (htree 0)
      rw [slotTree_name, slotTree_name, hj] at hname
      have hkind := slotTree_kind (htree 0)
      rw [(folderChild_eq_some.mp hb).2.1] at hkind
      have hslot' : LiveSlot s src i' := ⟨mem_slotsFrom.mp (by rw [hs]; simp [hdone]), hlive⟩
      have hchild := folderChild_eq_some.mpr ⟨hslot', hkind.symm, rfl⟩
      have hext := (hr.plain src i' _ .refl hchild).trans (hr.plain src i a .refl ha).symm
      obtain rfl := hr.wellFormed.names_unique hr.src_live hslot' hl hname.symm hext
      have hnd := slotsFrom_nodup 2
      rw [hs] at hnd
      exact absurd (by simp) ((List.nodup_append'.mp hnd).2.2 hdone)

theorem copy_folder_step (hr : CopyReady (fuel + 1) s src dest) (h : Copying s t src dest done)
    (hs : slotsFrom 2 = done ++ i :: is) {a : Nat} (ha : folderChild s src i = some a)
    (hrec : ∀ t c, CopyReady fuel t a c →
      ∃ t', copyFolder fuel t a c = .ok (0, t') ∧ FolderCopied fuel t t' a c)
    (hroom : 1 + FileTree.clustersAll (listing s fuel a) ≤ t.freeClusters.length) :
    ∃ t₁ c t₂, write t ⟨zeroBytes, (s.table src i).name, fun _ => 0, UInt32.ofNat dest, 0⟩ =
        .ok (0, t₁) ∧
      getClusterNumber t₁ ⟨zeroBytes, (s.table src i).name, fun _ => 0, UInt32.ofNat dest, 0⟩ =
        .ok (c, t₁.loadDir dest) ∧
      copyFolder fuel (t₁.loadDir dest) a c = .ok (0, t₂) ∧
      Copying s (t₂.loadDir src) src dest (done ++ [i]) ∧
      t.freeClusters.length =
        t₂.freeClusters.length + (1 + FileTree.clustersAll (listing s fuel a)) ∧
      Extends s t₁ dest ∧ ((∃ m, LiveSlot s a m) → t.next c = fatEmptyEntry ∧
        CopyReady fuel (t₁.loadDir dest) a c) := by
  have hw := hr.wellFormed
  have hsrc := hr.src_live
  have hext := h.extension
  have hz := hw.folder_size hsrc ha
  have hname : copyRequest s src dest i zeroBytes =
      ⟨zeroBytes, (s.table src i).name, fun _ => 0, UInt32.ofNat dest, 0⟩ := by
    rw [copyRequest, hr.plain src i a .refl ha, hz]
  have hneeded : clustersNeeded (copyRequest s src dest i zeroBytes) = 1 := if_pos hz
  have hroom : clustersNeeded (copyRequest s src dest i zeroBytes) ≤ t.freeClusters.length := by
    omega
  obtain ⟨k, t₁, hwrite, hp⟩ := copy_write hr h hs (folderChild_eq_some.mp ha).1 hroom
  obtain ⟨c, hc, hfree, hempty⟩ := hp.folder hz
  have hroom₁ := hp.room
  rw [hneeded] at hroom₁
  have hw₁ := hp.extension.wellFormed
  have hext₁ : Extends s t₁ dest := hext.trans hw hr.dest_live hp.extension (.inl rfl)
  have hdest₁ := hext₁.liveDir hw hr.dest_live
  have hlive₁ : LiveDir t₁ (copyRequest s src dest i zeroBytes).parent := by
    rwa [copyRequest_parent (hw.dir_range hr.dest_live).2 zeroBytes]
  have hfresh := hext.free (hw₁.dir_range (hdest₁.step hc)).2 hfree
  have hparent : (copyRequest s src dest i zeroBytes).parent = dest :=
    copyRequest_parent (hw.dir_range hr.dest_live).2 zeroBytes
  obtain ⟨hsetting, hlist⟩ := child_setting hr.toCopySetting ha (hext₁.loadDir dest) hc hfresh
  by_cases hne : ∃ m, LiveSlot s a m
  · have hnumber := getClusterNumber_first hw₁ hlive₁ (by rwa [hparent]) (by rw [hparent]; exact hp.name)
      (fun j b hb hj => by
        rw [hparent] at hb hj
        exact new_folder_first hr h hs ha hne rfl hp hb hj)
    have hfits := child_fits hr.toCopySetting hr.plain ha (hext₁.loadDir dest) hempty
      (by rw [hlist, freeClusters_loadDir]; omega)
    obtain ⟨t₂, hcopy, hdone⟩ := hrec _ c ⟨hsetting, hfits⟩
    have hroom₂ := hdone.room
    rw [hlist, freeClusters_loadDir] at hroom₂
    rw [hparent] at hnumber
    rw [hname] at hwrite hnumber
    refine ⟨t₁, c, t₂, hwrite, hnumber, hcopy, ?_, by omega, hext₁, fun _ =>
      ⟨hfree, hsetting, hfits⟩⟩
    have hlist₂ := hdone.copying.listing hempty
    exact (folder_copied hr.toCopySetting h ha hp hc hfree hdone.copying.extension.of_loadDir
      fun m => by rw [hlist₂, hlist]).loadDir src
  · -- the lookup may find another folder, but nothing is copied into it
    have hnone := not_exists.mp hne
    obtain ⟨c', hnumber, -⟩ := getClusterNumber_found hw₁ hlive₁
    obtain ⟨n, rfl⟩ := hsetting.fuel_pos
    have hnone₁ : ∀ j, ¬ LiveSlot (t₁.loadDir dest) a j := fun j hj =>
      hnone j ((child_slot hr.toCopySetting ha hext₁).mp hj)
    have hcopy := copyFolder_empty (hw₁.loadDir dest) hsetting.src_live hnone₁ n c'
    rw [hparent] at hnumber
    rw [hname] at hwrite hnumber
    refine ⟨t₁, c', _, hwrite, hnumber, hcopy, ?_, ?_, hext₁, fun h => absurd h hne⟩
    · refine (folder_copied hr.toCopySetting h ha hp hc hfree
        (((Extends.refl hw₁).loadDir dest).loadDir a) fun m => ?_).loadDir src
      rw [listing_loadDir, listing_loadDir, listing_empty hempty, listing_empty hnone]
    · rw [listing_empty hnone, FileTree.clustersAll, freeClusters_loadDir, freeClusters_loadDir]
      omega

/-- The loop over the slots of `src`, by what each slot takes from the free clusters. -/
theorem copyFolderLoop_copies (hr : CopyReady (fuel + 1) s src dest)
    (hrec : ∀ t a c, CopyReady fuel t a c →
      ∃ t', copyFolder fuel t a c = .ok (0, t') ∧ FolderCopied fuel t t' a c)
    (hs : slotsFrom 2 = done ++ is) (h : Copying s t src dest done)
    (hbuf : t.dirTableBuf = s.table src)
    (hroom : FileTree.clustersAll (slotTrees s fuel src (copied s src is)) ≤
      t.freeClusters.length) :
    ∃ t', copyFolderLoop (copyFolder fuel) src dest is t = .ok (0, t') ∧
      Copying s t' src dest (slotsFrom 2) ∧ t.freeClusters.length =
        t'.freeClusters.length + FileTree.clustersAll (slotTrees s fuel src (copied s src is)) := by
  induction is generalizing done t with
  | nil =>
    rw [List.append_nil] at hs
    rw [hs]
    exact ⟨t, rfl, h, rfl⟩
  | cons i is ih =>
    have hs' : slotsFrom 2 = (done ++ [i]) ++ is := by rw [hs, List.append_assoc]; rfl
    cases hl : (s.table src i).live with
    | false =>
      rw [copied_cons_dead hl] at hroom ⊢
      obtain ⟨t', hloop, hcopy, hfree⟩ := ih hs' (h.skip hl) hbuf hroom
      refine ⟨t', ?_, hcopy, hfree⟩
      simp only [copyFolderLoop, hbuf, hl]
      exact hloop
    | true =>
      have hslot : LiveSlot s src i := ⟨mem_slotsFrom.mp (by rw [hs]; simp), hl⟩
      rw [clustersAll_cons hl] at hroom ⊢
      rcases hslot.kind with hf | hf
      · rw [slotTree_file hf.2, FileTree.clusters] at hroom ⊢
        obtain ⟨buf, t₁, hread, hwrite, hcopy, hfree⟩ := copy_file_step hr h hs hf (by omega)
        obtain ⟨t', hloop, hcopy', hfree'⟩ := ih hs' (hcopy.loadDir src)
          (hcopy.extension.table_eq hr.wellFormed hr.src_live hr.src_ne)
          (by rw [freeClusters_loadDir]; omega)
        rw [freeClusters_loadDir] at hfree'
        refine ⟨t', ?_, hcopy', by omega⟩
        simp only [copyFolderLoop, hbuf, hl, hf.2, hread, bind, Except.bind]
        rw [copyRequest] at hwrite
        simp only [hwrite]
        exact hloop
      · have hk := (folderChild_eq_some.mp hf).2.1
        rw [slotTree_folder hk, FileTree.clusters] at hroom ⊢
        obtain ⟨t₁, c, t₂, hwrite, hnumber, hrun, hcopy, hfree, -⟩ :=
          copy_folder_step hr h hs hf (fun t c => hrec t _ c) (by omega)
        obtain ⟨t', hloop, hcopy', hfree'⟩ := ih hs' hcopy
          (hcopy.extension.table_eq hr.wellFormed hr.src_live hr.src_ne)
          (by rw [freeClusters_loadDir]; omega)
        rw [freeClusters_loadDir] at hfree'
        refine ⟨t', ?_, hcopy', by omega⟩
        simp only [copyFolderLoop, hbuf, hl, hk, hwrite, hnumber, hrun, bind, Except.bind]
        exact hloop

end Step

theorem copyFolder_copies {fuel : Nat} {s : FileSystem} {src dest : Nat}
    (hr : CopyReady fuel s src dest) :
    ∃ s', copyFolder fuel s src dest = .ok (0, s') ∧ FolderCopied fuel s s' src dest := by
  induction fuel generalizing s src dest with
  | zero =>
    obtain ⟨n, hn⟩ := hr.fuel_pos
    omega
  | succ fuel ih =>
    have hw := hr.wellFormed
    obtain ⟨s', hloop, hcopy, hfree⟩ := copyFolderLoop_copies hr (fun t a c => ih)
      (show slotsFrom 2 = [] ++ slotsFrom 2 from rfl) hr.start rfl hr.room
    have hsrc := hr.src_live
    refine ⟨s', ?_, hcopy, hfree⟩
    rw [copyFolder, s.withParent_accepted (hw.dir_range hsrc).2 (hw.dir_mark hsrc), hloop]

/-- The clusters that the subtree of `d` uses below `d`. -/
def subtreeClusters (s : FileSystem) (d : Nat) : Set Nat := {c | ∃ i, EntryRegion s d i c}

theorem region_finite {s : FileSystem} (hw : WellFormed s) (d : Nat) (i : Fin entryCount) :
    {c | EntryRegion s d i c}.Finite :=
  (Set.finite_lt_nat 512).subset fun _ hc => (region_range hw hc).2

/-- A copy takes no more clusters than the original uses. -/
theorem clustersAll_le {s : FileSystem} (hw : WellFormed s) (m : Nat) {d : Nat}
    (hd : LiveDir s d) :
    FileTree.clustersAll (listing s m d) ≤ (subtreeClusters s d).ncard := by
  induction m generalizing d with
  | zero => exact Nat.zero_le _
  | succ m ih =>
    have hslot : ∀ i, LiveSlot s d i → (slotTree s (listing s m) (s.table d i)).clusters ≤
        {c | EntryRegion s d i c}.ncard := by
      intro i hl
      rcases hl.kind with hf | hf
      · obtain ⟨l, hwalk, hnd, hlen, -, -⟩ := hw.file_chain hd hf
        have hset : {c | EntryRegion s d i c} = (l.toFinset : Set Nat) := by
          ext c
          simp [region_of_file hd hf hwalk]
        rw [slotTree_file hf.2, FileTree.clusters, hset, Set.ncard_coe_finset,
          List.toFinset_card_of_nodup hnd, hlen]
      · have hk := (folderChild_eq_some.mp hf).2.1
        have hchild := hd.step hf
        have hset : {c | EntryRegion s d i c} =
            insert (s.table d i).clusterNumber (subtreeClusters s (s.table d i).clusterNumber) := by
          ext c
          simp [subtreeClusters, region_of_folder hd hf]
        have hnot : (s.table d i).clusterNumber ∉ subtreeClusters s (s.table d i).clusterNumber := by
          rintro ⟨j, hj⟩
          exact region_not_parent hw hchild hj
        have hfin : (subtreeClusters s (s.table d i).clusterNumber).Finite :=
          (region_finite hw d i).subset (by rw [hset]; exact Set.subset_insert _ _)
        have hle := ih hchild
        rw [slotTree_folder hk, FileTree.clusters, hset, Set.ncard_insert_of_notMem hnot hfin]
        omega
    have hlist : ∀ is : List (Fin entryCount), is.Nodup → (∀ i ∈ is, LiveSlot s d i) →
        FileTree.clustersAll (slotTrees s m d is) ≤ {c | ∃ i ∈ is, EntryRegion s d i c}.ncard := by
      intro is hnd hl
      induction is with
      | nil => exact Nat.zero_le _
      | cons i is ihl =>
        obtain ⟨hi, hnd'⟩ := List.nodup_cons.mp hnd
        have hset : {c | ∃ j ∈ i :: is, EntryRegion s d j c} =
            {c | EntryRegion s d i c} ∪ {c | ∃ j ∈ is, EntryRegion s d j c} := by
          ext c
          simp
        have hdis : Disjoint {c | EntryRegion s d i c} {c | ∃ j ∈ is, EntryRegion s d j c} := by
          refine Set.disjoint_left.mpr fun c hc hc' => ?_
          obtain ⟨j, hj, h⟩ := hc'
          obtain rfl := region_disjoint hw hd hc h
          exact hi hj
        have hfin : {c | ∃ j ∈ is, EntryRegion s d j c}.Finite :=
          (Set.finite_lt_nat 512).subset fun c ⟨_, _, h⟩ => (region_range hw h).2
        have hhead := hslot i (hl i (by simp))
        have htail := ihl hnd' fun j hj => hl j (by simp [hj])
        rw [hset, Set.ncard_union_eq hdis (region_finite hw d i) hfin]
        exact Nat.add_le_add hhead htail
    have hfin : (subtreeClusters s d).Finite :=
      (Set.finite_lt_nat 512).subset fun c ⟨_, h⟩ => (region_range hw h).2
    refine (hlist (liveSlots s d) ((slotsFrom_nodup 2).filter _)
      fun i hi => mem_liveSlots.mp hi).trans (Set.ncard_le_ncard ?_ hfin)
    rintro c ⟨i, -, h⟩
    exact ⟨i, h⟩

/-- Copying a folder into an empty one outside of it makes an equal tree on free clusters. -/
theorem copyFolder_isomorphic {s : FileSystem} (hw : WellFormed s) (hplain : PlainFolders s)
    {src dest : Nat} (hsrc : LiveDir s src) (hdest : LiveDir s dest)
    (hempty : ∀ i, ¬ LiveSlot s dest i) (hout : ¬ Below (folderChild s) src dest)
    (hroom : (subtreeClusters s src).ncard ≤ s.freeClusters.length) :
    ∃ s', copyFolder clusterMapSize s src dest = .ok (0, s') ∧ WellFormed s' ∧
      (∀ m, listing s' m dest = listing s m src) ∧
      (∀ c ∈ subtreeClusters s' dest, s.next c = fatEmptyEntry) ∧
      (∀ m, listing s' m src = listing s m src) ∧
      (∀ d, LiveDir s d → LiveDir s' d ∧ (d ≠ dest → s'.table d = s.table d)) ∧
      (s'.table dest 0 = s.table dest 0 ∧ s'.table dest 1 = s.table dest 1) ∧
      ∀ d i l, LiveDir s d → FileSlot s d i →
        Walk s.next fatEndOfFile (s.table d i).clusterNumber l →
        Walk s'.next fatEndOfFile (s.table d i).clusterNumber l ∧
          ∀ c ∈ l, s'.cluster c = s.cluster c := by
  obtain ⟨n, hn⟩ := hsrc
  have hready : CopyReady clusterMapSize s src dest :=
    ⟨⟨hw, ⟨n, hn, Nat.le_add_right _ _⟩, hdest, hout⟩, copyFits_empty
      (fun d i c hb hc => hplain d i c (below_reach hb ⟨n, hn⟩) hc) hempty
      ((clustersAll_le hw _ ⟨n, hn⟩).trans hroom)⟩
  obtain ⟨s', hrun, hdone⟩ := copyFolder_copies hready
  have hext := hdone.copying.extension
  refine ⟨s', hrun, hext.wellFormed, hdone.copying.listing hempty, ?_, ?_, ?_, ?_, ?_⟩
  · rintro c ⟨i, hr⟩
    exact hext.fresh hw hdest hempty hr
  · exact fun m => hext.listing hw hdest m ⟨n, hn⟩ hout
  · exact fun d hd => ⟨hext.liveDir hw hd, hext.table_eq hw hd⟩
  · exact ⟨hext.slot_eq 0 (.inl (by decide)), hext.slot_eq 1 (.inl (by decide))⟩
  · exact fun d i l hd hf hl => ⟨hext.walk hw hd hf hl, hext.file_cluster hw hdest hd hf hl⟩

theorem mkdir_placed {s : FileSystem} (hw : WellFormed s) (hplain : PlainFolders s) {p : Nat}
    (hp : LiveDir s p) (name : Name) (hnew : ∀ i, LiveSlot s p i → (s.table p i).name ≠ name)
    {j : Fin entryCount} (hj : 2 ≤ j.val) (hfree : (s.table p j).live = false)
    (hroom : 1 ≤ s.freeClusters.length) :
    ∃ s' k, Placed s s' ⟨zeroBytes, name, fun _ => 0, UInt32.ofNat p, 0⟩ p k ∧
      PlainFolders s' := by
  have hparent : FAT32DriverRequest.parent
      (⟨zeroBytes, name, fun _ => 0, UInt32.ofNat p, 0⟩ : Request) = p := by
    have := (hw.dir_range hp).2
    simp only [FAT32DriverRequest.parent, UInt32.toNat_ofNat']
    omega
  generalize hreq : (⟨zeroBytes, name, fun _ => 0, UInt32.ofNat p, 0⟩ : Request) = request at hparent
  have hclash : ¬ Clash s request := by
    rintro ⟨i, hi, hn⟩
    rw [hparent] at hi hn
    refine hnew i hi ((FAT32DriverRequest.names_iff.mp hn).1.trans ?_)
    rw [← hreq]
  have hneeded : clustersNeeded request = 1 := by
    rw [← hreq]
    rfl
  obtain ⟨k, hk⟩ := firstFree_exists hj hfree
  rw [← hparent] at hp hk
  obtain ⟨s', cs, -, hwr⟩ := write_new hw hp hclash hk (by omega)
  have hplaced := hwr.placed hw (hwr.wellFormed hw hclash)
  rw [hparent] at hplaced
  exact ⟨s', k, hplaced, hwr.plain hw hplain fun _ => by rw [← hreq]⟩

/-- A new disk with one empty folder. -/
theorem folder_below_root : ∃ s a k, WellFormed s ∧ PlainFolders s ∧
    folderChild s rootClusterNumber k = some a ∧
    (s.table rootClusterNumber k).name = (fun _ => 'a'.toUInt8) ∧
    (s.table rootClusterNumber k).ext = (fun _ => 0) ∧
    (∀ i, LiveSlot s rootClusterNumber i → i = k) ∧ (∀ i, ¬ LiveSlot s a i) ∧
    s.freeClusters.length = 508 := by
  obtain ⟨s₀, hs₀⟩ : ∃ s, s = createFat32 (fun _ => 0) (boot zeroBytes) := ⟨_, rfl⟩
  have hdead : ∀ i, ¬ LiveSlot s₀ rootClusterNumber i := fun i =>
    hs₀ ▸ createFat32_liveSlot _ _ reach_root
  have hplain₀ : PlainFolders s₀ := fun d i c hd hc => by
    subst hs₀
    exact absurd (folderChild_eq_some.mp hc).1 (createFat32_liveSlot _ _ hd)
  have hfree₀ : s₀.freeClusters.length = 509 := hs₀ ▸ createFat32_room _ _
  obtain ⟨s₁, k, hp₁, hplain₁⟩ := mkdir_placed (hs₀ ▸ createFat32_wellFormed _ _) hplain₀ reach_root
    (fun _ => 'a'.toUInt8) (fun i hi => absurd hi (hdead i)) (j := 2) (by decide)
    (not_live (by decide) (hdead 2)) (by omega)
  obtain ⟨a, ha₁, -, hempty₁⟩ := hp₁.folder rfl
  have hroom₁ : s₀.freeClusters.length = s₁.freeClusters.length + 1 := hp₁.room
  refine ⟨s₁, a, k, hp₁.extension.wellFormed, hplain₁, ha₁, hp₁.name, hp₁.ext, fun i hi => ?_, hempty₁,
    by omega⟩
  obtain ⟨e, htable, -⟩ := hp₁.table
  by_contra hne
  rw [LiveSlot, htable, Function.update_of_ne hne] at hi
  exact hdead i hi

/-- In a new file system: the folders `a` and `b`, and a folder in `a`. -/
theorem folders_below_root : ∃ s a b k x, WellFormed s ∧ PlainFolders s ∧ LiveDir s a ∧
    LiveDir s b ∧ (∀ i, ¬ LiveSlot s b i) ∧ ¬ Below (folderChild s) a b ∧
    folderChild s a k = some x ∧ (∀ i, LiveSlot s a i → i = k) ∧ (∀ i, ¬ LiveSlot s x i) ∧
    s.freeClusters.length = 506 := by
  obtain ⟨s₁, a, k₁, hw₁, hplain₁, ha₁, hname₁, -, honly₁, hempty₁, hfree₁⟩ := folder_below_root
  have hnew₂ : ∀ i, LiveSlot s₁ rootClusterNumber i →
      (s₁.table rootClusterNumber i).name ≠ fun _ => 'b'.toUInt8 := by
    intro i hi hn
    rw [honly₁ i hi, hname₁] at hn
    exact absurd (congrFun hn 0) (by decide)
  obtain ⟨j, hj, hdead⟩ := dead_of_only honly₁
  obtain ⟨s₂, k₂, hp₂, hplain₂⟩ := mkdir_placed hw₁ hplain₁ reach_root _ hnew₂ hj hdead (by omega)
  have hw₂ := hp₂.extension.wellFormed
  obtain ⟨b, hb₂, hfree₂, hempty₂⟩ := hp₂.folder rfl
  have hroom₂ : s₁.freeClusters.length = s₂.freeClusters.length + 1 := hp₂.room
  have ha₂ := hp₂.extension.folderChild hw₁ reach_root ha₁
  have hda₁ := reach_root.step ha₁
  have haroot : a ≠ rootClusterNumber := by
    rintro rfl
    exact hw₁.tree.root_orphan reach_root ha₁
  have hempty₂' : ∀ i, ¬ LiveSlot s₂ a i := by
    intro i
    rw [LiveSlot, hp₂.extension.table_eq hw₁ hda₁ haroot]
    exact hempty₁ i
  obtain ⟨s₃, k₃, hp₃, hplain₃⟩ := mkdir_placed hw₂ hplain₂ (reach_root.step ha₂)
    (fun _ => 'c'.toUInt8) (fun i hi => absurd hi (hempty₂' i)) (j := 2) (by decide)
    (not_live (by decide) (hempty₂' 2)) (by omega)
  have hw₃ := hp₃.extension.wellFormed
  obtain ⟨x, hx₃, -, hempty₃⟩ := hp₃.folder rfl
  have hroom₃ : s₂.freeClusters.length = s₃.freeClusters.length + 1 := hp₃.room
  have ha₃ := hp₃.extension.folderChild hw₂ reach_root ha₂
  have hb₃ := hp₃.extension.folderChild hw₂ reach_root hb₂
  have hba : b ≠ a := by
    rintro rfl
    rw [hw₁.dir_mark hda₁] at hfree₂
    exact absurd hfree₂ (by decide)
  have hdest : ∀ i, ¬ LiveSlot s₃ b i := by
    intro i
    rw [LiveSlot, hp₃.extension.table_eq hw₂ (reach_root.step hb₂) hba]
    exact hempty₂ i
  have hout : ¬ Below (folderChild s₃) a b := by
    intro h
    have h := hp₃.extension.below hw₂ (reach_root.step ha₂) (reach_root.step hb₂) h
    rcases Relation.ReflTransGen.cases_tail h with h | ⟨d, hd, i, hi⟩
    · exact hba h
    · obtain ⟨rfl, -⟩ := hw₂.tree.parent_unique (below_reach hd (reach_root.step ha₂)) reach_root
        hi hb₂
      exact not_below_child hw₂.tree reach_root ha₂ hd
  refine ⟨s₃, a, b, k₃, x, hw₃, hplain₃, reach_root.step ha₃, reach_root.step hb₃, hdest, hout, hx₃,
    fun i hi => ?_, hempty₃, by omega⟩
  obtain ⟨e, htable, -⟩ := hp₃.table
  by_contra hne
  rw [LiveSlot, htable, Function.update_of_ne hne] at hi
  exact hempty₂' i hi

theorem subtreeClusters_of_only {s : FileSystem} {a x : Nat} {k : Fin entryCount}
    (ha : LiveDir s a) (hx : folderChild s a k = some x) (honly : ∀ i, LiveSlot s a i → i = k)
    (hempty : ∀ i, ¬ LiveSlot s x i) : (subtreeClusters s a).ncard ≤ 1 := by
  have hregion : subtreeClusters s a ⊆ {x} := by
    rintro c ⟨i, hi⟩
    obtain rfl := honly i (region_live hi)
    rcases (region_of_folder ha hx).mp hi with h | ⟨j, h⟩
    · exact h
    · exact absurd (region_live h) (hempty j)
  exact (Set.ncard_le_ncard hregion).trans (Set.ncard_singleton x).le

/-- The folder `a` copied to `b`. -/
theorem copyFolder_isomorphic_siblings : ∃ s src dest s', listing s 1 src ≠ [] ∧
    copyFolder clusterMapSize s src dest = .ok (0, s') ∧
    ∀ m, listing s' m dest = listing s m src := by
  obtain ⟨s, a, b, k, x, hw, hplain, ha, hb, hdest, hout, hx, honly, hempty, hfree⟩ :=
    folders_below_root
  have hncard := subtreeClusters_of_only ha hx honly hempty
  obtain ⟨s', hrun, -, hsame, -⟩ := copyFolder_isomorphic hw hplain ha hb hdest hout (by omega)
  refine ⟨s, a, b, s', fun h => ?_, hrun, hsame⟩
  have hm := mem_liveSlots.mpr (folderChild_eq_some.mp hx).1
  rw [listing, List.map_eq_nil_iff] at h
  rw [h] at hm
  exact absurd hm (by simp)

end Doors.Fat32
