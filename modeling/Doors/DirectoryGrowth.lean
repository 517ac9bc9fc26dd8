import Doors.ReservedClusters
import Doors.CopyReport

/-! What a copy keeps when the clusters may run out. A write then records an entry without
a cluster, but the directories and their entries stay as they are. -/

namespace Doors.Fat32

open PointerTree FileSystem

variable {Fits : UInt32 → Nat → Prop}

theorem Directories.loadDir {s : FileSystem} (h : Directories s) (d : Nat) :
    Directories (s.loadDir d) :=
  ⟨h.range, h.mark, h.clear, h.unique⟩

/-- Directories stay in the tree, with all their entries. -/
structure EntriesKept (s s' : FileSystem) : Prop where
  liveDir : ∀ {d : Nat}, LiveDir s d → LiveDir s' d
  entry : ∀ {d : Nat} {i : Fin entryCount}, LiveDir s d → (s.table d i).live = true →
    s'.table d i = s.table d i

namespace EntriesKept

variable {s s' s'' : FileSystem}

theorem refl (s : FileSystem) : EntriesKept s s := ⟨id, fun _ _ => rfl⟩

theorem loadDir (h : EntriesKept s s') (d : Nat) : EntriesKept s (s'.loadDir d) :=
  ⟨h.liveDir, h.entry⟩

theorem trans (h : EntriesKept s s') (h' : EntriesKept s' s'') : EntriesKept s s'' where
  liveDir hd := h'.liveDir (h.liveDir hd)
  entry hd hl := by
    have he := h.entry hd hl
    rw [h'.entry (h.liveDir hd) (he ▸ hl), he]

theorem liveSlot (h : EntriesKept s s') {d : Nat} {i : Fin entryCount} (hd : LiveDir s d)
    (hl : LiveSlot s d i) : LiveSlot s' d i :=
  ⟨hl.1, (h.entry hd hl.2) ▸ hl.2⟩

theorem child (h : EntriesKept s s') {d c : Nat} {i : Fin entryCount} (hd : LiveDir s d)
    (hc : folderChild s d i = some c) : folderChild s' d i = some c := by
  rw [folderChild_congr (h.entry hd (folderChild_eq_some.mp hc).1.2), hc]

end EntriesKept

/-- A write that returned 0: the new entry `e` in slot `i`, whatever clusters it got. -/
structure Filled (s s' : FileSystem) (request : Request) (i : Fin entryCount)
    (e : FAT32DirectoryEntry) : Prop where
  slot : firstFree s request.parent = some i
  live : e.live = true
  name : e.name = request.name
  ext : e.ext = request.ext
  next_eq : ∀ c < 512, c ≠ 0 → s.next c ≠ fatEmptyEntry → s'.next c = s.next c
  cluster_eq : ∀ c < 512, c ≠ fatClusterNumber → c ≠ request.parent →
    s.next c ≠ fatEmptyEntry → s'.cluster c = s.cluster c
  table_eq : request.parent ≠ fatClusterNumber →
    s'.table request.parent = Function.update (s.table request.parent) i e
  folder : (s.table request.parent i).isSubdirectory = false → e.isSubdirectory = true →
    request.bufferSize = 0 ∧ (3 ≤ e.clusterNumber ∧ e.clusterNumber < 512) ∧
      s.next e.clusterNumber = fatEmptyEntry ∧ s'.next e.clusterNumber = fatEndOfFile ∧
      s'.table e.clusterNumber = newDirectoryTable request e.clusterNumber

section Write

variable {s t s' : FileSystem} {request : Request} {i : Fin entryCount} {e : FAT32DirectoryEntry}

/-- Storing the parent's table and the cluster map ends a write. -/
theorem stored_filled (hp : request.parent < 512) (hm : s.next request.parent = fatEndOfFile)
    (hf : firstFree s request.parent = some i)
    (hbuf : t.dirTableBuf = Function.update (s.table request.parent) i e)
    (hlive : e.live = true) (hname : e.name = request.name) (hext : e.ext = request.ext)
    (hnext : ∀ c < 512, c ≠ 0 → s.next c ≠ fatEmptyEntry → t.next c = s.next c)
    (hcl : ∀ c < 512, s.next c ≠ fatEmptyEntry → t.cluster c = s.cluster c)
    (hfolder : (s.table request.parent i).isSubdirectory = false → e.isSubdirectory = true →
      request.bufferSize = 0 ∧ (3 ≤ e.clusterNumber ∧ e.clusterNumber < 512) ∧
        s.next e.clusterNumber = fatEmptyEntry ∧ t.next e.clusterNumber = fatEndOfFile ∧
        t.table e.clusterNumber = newDirectoryTable request e.clusterNumber) :
    Filled s ((t.storeDir request.parent).storeFat) request i e where
  slot := hf
  live := hlive
  name := hname
  ext := hext
  next_eq c hc h0 hu := by
    rw [next_storeFat, next_storeDir, hnext c hc h0 hu]
  cluster_eq c hc h1 hne hu := by
    rw [cluster_stored_of_ne hp hc h1 hne, hcl c hc hu]
  table_eq h1 := by
    rw [table_stored hp h1, hbuf]
  folder hold hk := by
    obtain ⟨hz, hr, hfree, hmark, htable⟩ := hfolder hold hk
    refine ⟨hz, hr, hfree, hmark, ?_⟩
    have h1 : e.clusterNumber ≠ fatClusterNumber := by
      simp only [fatClusterNumber]
      omega
    have hne : e.clusterNumber ≠ request.parent := by
      intro h
      rw [h, hm] at hfree
      exact absurd hfree (by decide)
    rw [FileSystem.table, cluster_stored_of_ne hp hr.2 h1 hne]
    exact htable

/-- The record of a new entry that found no cluster. -/
def bareEntry (old : FAT32DirectoryEntry) (request : Request) : FAT32DirectoryEntry :=
  { old with
    filesize := request.bufferSize
    userAttribute := uattrNotEmpty
    name := request.name
    ext := request.ext }

theorem fillSlot_buf : (fillSlot s request i).dirTableBuf =
    Function.update (s.table request.parent) i (bareEntry (s.table request.parent i) request) :=
  rfl

theorem fillSlot_next : (fillSlot s request i).next = s.next := rfl

theorem writeFolder_filled (hp : request.parent < 512) (hm : s.next request.parent = fatEndOfFile)
    (hf : firstFree s request.parent = some i) (hz : request.bufferSize = 0) :
    ∃ e, Filled s (((writeFolder (fillSlot s request i) request i).storeDir request.parent).storeFat)
      request i e := by
  cases hfind : dataClusters.find? (fun k => (fillSlot s request i).next k = fatEmptyEntry) with
  | none =>
    have hnone : writeFolder (fillSlot s request i) request i = fillSlot s request i := by
      simp only [writeFolder, hfind]
    rw [hnone]
    refine ⟨_, stored_filled hp hm hf fillSlot_buf uattrNotEmpty_live rfl rfl
      (fun _ _ _ _ => rfl) (fun _ _ _ => rfl) fun hold hk => ?_⟩
    exact absurd (hold.symm.trans hk) Bool.false_ne_true
  | some c =>
    have hc := mem_dataClusters.mp (List.mem_of_find?_eq_some hfind)
    have hfree : s.next c = fatEmptyEntry := by
      have h := List.find?_some hfind
      rw [fillSlot_next] at h
      exact of_decide_eq_true h
    have hne : ∀ d, s.next d ≠ fatEmptyEntry → d ≠ c := by
      rintro d hu rfl
      exact hu hfree
    have hcn := newEntry_clusterNumber (s.table request.parent i) request attrSubdirectory hc.2
    refine ⟨newEntry (s.table request.parent i) request attrSubdirectory c,
      stored_filled hp hm hf ?_ (newEntry_live _ _ _ _) rfl rfl ?_ ?_ ?_⟩
    · simp only [writeFolder, hfind]
      simp [fillSlot, newEntry, FAT32DirectoryEntry.setCluster, FileSystem.table]
    · intro d hd _ hu
      simp only [writeFolder, hfind]
      rw [next_setNext _ hd (by decide), if_neg (hne d hu)]
      rfl
    · intro d hd hu
      simp only [writeFolder, hfind]
      rw [cluster_setNext, cluster_writeClusters _ hc.2 hd, if_neg (hne d hu)]
      rfl
    · intro _ _
      rw [hcn]
      refine ⟨hz, hc, hfree, ?_, ?_⟩
      · simp only [writeFolder, hfind]
        rw [next_setNext _ hc.2 (by decide), if_pos rfl]
      · simp only [writeFolder, hfind]
        rw [FileSystem.table, cluster_setNext, cluster_writeClusters _ hc.2 hc.2, if_pos rfl,
          decodeTable_put]
        rfl

theorem writeFile_filled (hp : request.parent < 512) (hm : s.next request.parent = fatEndOfFile)
    (hf : firstFree s request.parent = some i) :
    ∃ e, Filled s (((writeFile (fillSlot s request i) request i).storeDir request.parent).storeFat)
      request i e := by
  have h0 : (0 :: dataClusters).Nodup := by
    refine List.nodup_cons.mpr ⟨fun h => ?_, dataClusters_nodup⟩
    have := (mem_dataClusters.mp h).1
    omega
  have hloop := writeFileLoop_eq request i (clusterCount request.bufferSize.toNat % 2 ^ 16)
    dataClusters 0 0 (fillSlot s request i) h0 fun c hc => (mem_dataClusters.mp hc).2
  have hwrite : ∀ cs, (dataClusters.filter fun c => (fillSlot s request i).next c =
      fatEmptyEntry).take (clusterCount request.bufferSize.toNat % 2 ^ 16 - 0) = cs →
      writeFile (fillSlot s request i) request i =
        closeChain (placeClusters request i cs 0 0 (fillSlot s request i)) := by
    rintro cs rfl
    rw [writeFile, closeChain, hloop]
  have hsub : ∀ cs, (dataClusters.filter fun c => (fillSlot s request i).next c =
      fatEmptyEntry).take (clusterCount request.bufferSize.toNat % 2 ^ 16 - 0) = cs →
      cs.Nodup ∧ ∀ c ∈ cs, (3 ≤ c ∧ c < 512) ∧ s.next c = fatEmptyEntry := by
    rintro cs rfl
    refine ⟨(freeClusters_nodup s).sublist (List.take_sublist _ _), fun c hc => ?_⟩
    exact mem_freeClusters.mp (List.mem_of_mem_take hc)
  cases htake : (dataClusters.filter fun c => (fillSlot s request i).next c =
      fatEmptyEntry).take (clusterCount request.bufferSize.toNat % 2 ^ 16 - 0) with
  | nil =>
    rw [hwrite [] htake]
    refine ⟨_, stored_filled hp hm hf fillSlot_buf uattrNotEmpty_live rfl rfl
      (fun c hc h0 _ => ?_) (fun _ _ _ => rfl) fun hold hk => ?_⟩
    · show ((fillSlot s request i).setNext 0 fatEndOfFile).next c = s.next c
      rw [next_setNext _ hc (by decide), if_neg h0]
      rfl
    · exact absurd (hold.symm.trans hk) Bool.false_ne_true
  | cons c₀ cs =>
    obtain ⟨hnd, hfree⟩ := hsub _ htake
    obtain ⟨-, hnext, hbuf, hcl⟩ := placeClusters_first request i c₀ cs (fillSlot s request i) hnd
      fun c hc => (hfree c hc).1
    have hnot : ∀ d, s.next d ≠ fatEmptyEntry → d ∉ c₀ :: cs := fun d hu hd => hu (hfree d hd).2
    rw [hwrite _ htake]
    refine ⟨newEntry (s.table request.parent i) request 0 c₀,
      stored_filled hp hm hf ?_ (newEntry_live _ _ _ _) rfl rfl
      (fun d hd _ hu => hnext d hd (hnot d hu)) (fun d hd hu => ?_) fun _ hk => ?_⟩
    · rw [hbuf]
      simp [fillSlot, newEntry, FAT32DirectoryEntry.setCluster, FileSystem.table]
    · rw [hcl d hd, if_neg (hnot d hu)]
      rfl
    · simp [newEntry, FAT32DirectoryEntry.setCluster, FAT32DirectoryEntry.isSubdirectory] at hk

/-- What a write does to any state: it is refused, or it fills the first free slot. -/
theorem write_cases {code : Int} (h : write s request = .ok (code, s')) :
    request.parent < 512 ∧
      (s.next request.parent ≠ fatEndOfFile ∧ s' = s ∨
        s.next request.parent = fatEndOfFile ∧
          (Clash s request ∧ s' = s.loadDir request.parent ∨
            firstFree s request.parent = none ∧ s' = s.loadDir request.parent ∨
            ¬ Clash s request ∧ ∃ i e, Filled s s' request i e)) := by
  by_cases hp : request.parent < 512
  · refine ⟨hp, ?_⟩
    by_cases hm : s.next request.parent = fatEndOfFile
    · refine .inr ⟨hm, ?_⟩
      rw [write, s.withParent_accepted hp hm] at h
      by_cases hc : Clash s request
      · have hscan : writeScan (s.loadDir request.parent).dirTableBuf request (slotsFrom 2) none =
            none := by
          rw [writeScan_eq, dirTableBuf_loadDir, if_pos (clash_iff_any.mpr hc)]
        simp only [hscan] at h
        cases h
        exact .inl ⟨hc, rfl⟩
      · cases hf : firstFree s request.parent with
        | none =>
          simp only [writeScan_free hc, hf] at h
          cases h
          exact .inr (.inl ⟨rfl, rfl⟩)
        | some i =>
          simp only [writeScan_free hc, hf] at h
          by_cases hz : request.bufferSize = 0
          · rw [if_pos hz] at h
            cases h
            obtain ⟨e, he⟩ := writeFolder_filled hp hm hf hz
            exact .inr (.inr ⟨hc, i, e, he⟩)
          · rw [if_neg hz] at h
            cases h
            obtain ⟨e, he⟩ := writeFile_filled hp hm hf
            exact .inr (.inr ⟨hc, i, e, he⟩)
    · rw [write, s.withParent_refused hp hm] at h
      cases h
      exact .inl ⟨hm, rfl⟩
  · rw [write, s.withParent_outOfBounds (Nat.le_of_not_lt hp)] at h
    cases h

end Write

namespace Filled

variable {s s' : FileSystem} {request : Request} {i : Fin entryCount} {e : FAT32DirectoryEntry}

theorem table_of_ne (h : Filled s s' request i e) (hs : Directories s) {d : Nat}
    (hd : LiveDir s d) (hne : d ≠ request.parent) : s'.table d = s.table d := by
  have hr := hs.range hd
  have h1 : d ≠ fatClusterNumber := by
    simp only [fatClusterNumber]
    omega
  have hu : s.next d ≠ fatEmptyEntry := by
    rw [hs.mark hd]
    decide
  rw [FileSystem.table, h.cluster_eq d hr.2 h1 hne hu, FileSystem.table]

theorem entry_eq (h : Filled s s' request i e) (hs : Directories s) {d : Nat} {j : Fin entryCount}
    (hd : LiveDir s d) (hne : d = request.parent → j ≠ i) : s'.table d j = s.table d j := by
  by_cases hp : d = request.parent
  · subst hp
    have hr := hs.range hd
    have h1 : request.parent ≠ fatClusterNumber := by
      simp only [fatClusterNumber]
      omega
    rw [h.table_eq h1, Function.update_of_ne (hne rfl)]
  · rw [h.table_of_ne hs hd hp]

theorem entry_new (h : Filled s s' request i e) (hs : Directories s)
    (hp : LiveDir s request.parent) : s'.table request.parent i = e := by
  have hr := hs.range hp
  have h1 : request.parent ≠ fatClusterNumber := by
    simp only [fatClusterNumber]
    omega
  rw [h.table_eq h1, Function.update_self]

theorem child_eq (h : Filled s s' request i e) (hs : Directories s) {d : Nat} {j : Fin entryCount}
    (hd : LiveDir s d) (hne : d = request.parent → j ≠ i) :
    folderChild s' d j = folderChild s d j :=
  folderChild_congr (h.entry_eq hs hd hne)

theorem child_new (h : Filled s s' request i e) (hs : Directories s)
    (hp : LiveDir s request.parent) {c : Nat} (hc : folderChild s' request.parent i = some c) :
    request.bufferSize = 0 ∧ (3 ≤ c ∧ c < 512) ∧ s.next c = fatEmptyEntry ∧
      s'.next c = fatEndOfFile ∧ s'.table c = newDirectoryTable request c := by
  obtain ⟨-, hk, rfl⟩ := folderChild_eq_some.mp hc
  obtain ⟨h2, hdead⟩ := firstFree_some h.slot
  have hold : (s.table request.parent i).isSubdirectory = false := by
    rw [hs.clear hp h2 hdead]
    rfl
  rw [h.entry_new hs hp] at hk ⊢
  exact h.folder hold hk

theorem new_zero (h : Filled s s' request i e) (hs : Directories s)
    (hp : LiveDir s request.parent) {c : Nat} (hc : folderChild s' request.parent i = some c)
    {j : Fin entryCount} (hj : 2 ≤ j.val) : s'.table c j = .zero := by
  rw [(h.child_new hs hp hc).2.2.2.2, newDirectoryTable_empty request c hj]

theorem new_empty (h : Filled s s' request i e) (hs : Directories s)
    (hp : LiveDir s request.parent) {c : Nat} (hc : folderChild s' request.parent i = some c)
    (j : Fin entryCount) : ¬ LiveSlot s' c j := by
  rintro ⟨hj, hl⟩
  rw [h.new_zero hs hp hc hj] at hl
  cases hl

theorem entriesKept (h : Filled s s' request i e) (hs : Directories s) : EntriesKept s s' := by
  have hentry : ∀ {d : Nat} {j : Fin entryCount}, LiveDir s d → (s.table d j).live = true →
      s'.table d j = s.table d j := by
    intro d j hd hl
    refine h.entry_eq hs hd fun hdp hji => ?_
    rw [hdp, hji, (firstFree_some h.slot).2] at hl
    cases hl
  refine ⟨fun {d} hd => ?_, hentry⟩
  obtain ⟨n, hn⟩ := hd
  induction hn with
  | root => exact reach_root
  | @child n b c j hb hc ih =>
    have he := hentry ⟨_, hb⟩ (folderChild_eq_some.mp hc).1.2
    exact ih.step ((folderChild_congr he).trans hc)

theorem liveDir_cases (h : Filled s s' request i e) (hs : Directories s) {d : Nat}
    (hd : LiveDir s' d) : LiveDir s d ∨ LiveDir s request.parent ∧
      folderChild s' request.parent i = some d := by
  obtain ⟨n, hn⟩ := hd
  induction hn with
  | root => exact .inl reach_root
  | @child n b c j hb hc ih =>
    rcases ih with hb | ⟨hp, hnew⟩
    · by_cases hslot : b = request.parent ∧ j = i
      · obtain ⟨rfl, rfl⟩ := hslot
        exact .inr ⟨hb, hc⟩
      · rw [h.child_eq hs hb fun hbp hji => hslot ⟨hbp, hji⟩] at hc
        exact .inl (hb.step hc)
    · exact absurd (folderChild_eq_some.mp hc).1 (h.new_empty hs hp hnew j)

theorem liveSlot_cases (h : Filled s s' request i e) (hs : Directories s) {d : Nat}
    {j : Fin entryCount} (hd : LiveDir s d) (hl : LiveSlot s' d j) :
    (d = request.parent ∧ j = i) ∨ LiveSlot s d j ∧ s'.table d j = s.table d j := by
  by_cases hslot : d = request.parent ∧ j = i
  · exact .inl hslot
  · have he := h.entry_eq hs hd fun hdp hji => hslot ⟨hdp, hji⟩
    exact .inr ⟨⟨hl.1, he ▸ hl.2⟩, he⟩

theorem directories (h : Filled s s' request i e) (hs : Directories s)
    (hc : ¬ Clash s request) : Directories s' := by
  have hother : ∀ {j : Fin entryCount}, LiveDir s request.parent →
      LiveSlot s request.parent j → (s.table request.parent j).name = e.name →
      (s.table request.parent j).ext ≠ e.ext := by
    intro j hp hj hn hx
    exact not_clash hc hj (hn.trans h.name) (hx.trans h.ext)
  refine ⟨fun {d} hd => ?_, fun {d} hd => ?_, fun {d j} hd hj hl => ?_, fun {d j k} hd hj hk hn hx => ?_⟩
  · rcases h.liveDir_cases hs hd with hd | ⟨hp, hd⟩
    · exact hs.range hd
    · have hr := (h.child_new hs hp hd).2.1
      exact ⟨by omega, hr.2⟩
  · rcases h.liveDir_cases hs hd with hd | ⟨hp, hd⟩
    · have hr := hs.range hd
      have hm := hs.mark hd
      rw [h.next_eq d hr.2 (by omega) (by rw [hm]; decide), hm]
    · exact (h.child_new hs hp hd).2.2.2.1
  · rcases h.liveDir_cases hs hd with hd | ⟨hp, hd⟩
    · by_cases hslot : d = request.parent ∧ j = i
      · obtain ⟨rfl, rfl⟩ := hslot
        rw [h.entry_new hs hd, h.live] at hl
        cases hl
      · have he := h.entry_eq hs hd fun hdp hji => hslot ⟨hdp, hji⟩
        rw [he] at hl ⊢
        exact hs.clear hd hj hl
    · exact h.new_zero hs hp hd hj
  · rcases h.liveDir_cases hs hd with hd | ⟨hp, hd⟩
    · rcases h.liveSlot_cases hs hd hj with ⟨rfl, rfl⟩ | ⟨hjs, hje⟩
      · rcases h.liveSlot_cases hs hd hk with ⟨-, rfl⟩ | ⟨hks, hke⟩
        · rfl
        · rw [h.entry_new hs hd, hke] at hn hx
          exact absurd hx.symm (hother hd hks hn.symm)
      · rcases h.liveSlot_cases hs hd hk with ⟨rfl, rfl⟩ | ⟨hks, hke⟩
        · rw [h.entry_new hs hd, hje] at hn hx
          exact absurd hx (hother hd hjs hn)
        · rw [hje, hke] at hn hx
          exact hs.unique hd hjs hks hn hx
    · exact absurd hj (h.new_empty hs hp hd j)

end Filled

section Copy

variable {s s' : FileSystem}

theorem write_grows (hs : Directories s) {request : Request} {code : Int}
    (h : write s request = .ok (code, s')) : Directories s' ∧ EntriesKept s s' := by
  obtain ⟨-, ⟨-, rfl⟩ | ⟨-, ⟨-, rfl⟩ | ⟨-, rfl⟩ | ⟨hc, i, e, hf⟩⟩⟩ := write_cases h
  · exact ⟨hs, .refl _⟩
  · exact ⟨hs.loadDir _, (EntriesKept.refl s).loadDir _⟩
  · exact ⟨hs.loadDir _, (EntriesKept.refl s).loadDir _⟩
  · exact ⟨hf.directories hs hc, hf.entriesKept hs⟩

theorem getClusterNumber_grows (hs : Directories s) {request : Request} {c : Nat}
    (h : getClusterNumber s request = .ok (c, s')) : Directories s' ∧ EntriesKept s s' := by
  rcases getClusterNumber_state h with rfl | rfl
  · exact ⟨hs, .refl _⟩
  · exact ⟨hs.loadDir _, (EntriesKept.refl s).loadDir _⟩

/-- `rec` keeps the directories, from whatever state and clusters it is called. -/
def Grows (rec : FileSystem → Nat → Nat → Except Fault (Int × FileSystem)) : Prop :=
  ∀ s s' a d code, Directories s → rec s a d = .ok (code, s') → Directories s' ∧ EntriesKept s s'

theorem SlotCalls.grows {rec : FileSystem → Nat → Nat → Except Fault (Int × FileSystem)}
    (hrec : Grows rec) {dest : Nat} {e : FAT32DirectoryEntry} (hs : Directories s)
    (h : SlotCalls rec dest e s s') : Directories s' ∧ EntriesKept s s' := by
  cases h with
  | file _ hwrite => exact write_grows hs hwrite
  | folder _ hwrite hnumber hcopy =>
    obtain ⟨hs₁, h₁⟩ := write_grows hs hwrite
    obtain ⟨hs₂, h₂⟩ := getClusterNumber_grows hs₁ hnumber
    obtain ⟨hs₃, h₃⟩ := hrec _ _ _ _ _ hs₂ hcopy
    exact ⟨hs₃, (h₁.trans h₂).trans h₃⟩

theorem copyFolderLoop_grows {rec : FileSystem → Nat → Nat → Except Fault (Int × FileSystem)}
    (hrec : Grows rec) {src dest : Nat} {is : List (Fin entryCount)} {code : Int}
    (hs : Directories s) (h : copyFolderLoop rec src dest is s = .ok (code, s')) :
    Directories s' ∧ EntriesKept s s' := by
  induction is generalizing s with
  | nil =>
    cases h
    exact ⟨hs, .refl _⟩
  | cons i is ih =>
    rcases copyFolderLoop_cons h with ⟨-, h⟩ | ⟨-, t, hcalls, h⟩
    · exact ih hs h
    · obtain ⟨ht, hk⟩ := hcalls.grows hrec hs
      obtain ⟨hs', hk'⟩ := ih (ht.loadDir src) h
      exact ⟨hs', (hk.loadDir src).trans hk'⟩

theorem copyFolder_succ {fuel src dest : Nat} {code : Int}
    (h : copyFolder (fuel + 1) s src dest = .ok (code, s')) : s' = s ∨
      copyFolderLoop (copyFolder fuel) src dest (slotsFrom 2) (s.loadDir src) = .ok (code, s') := by
  by_cases hp : src < 512
  · by_cases hm : s.next src = fatEndOfFile
    · rw [copyFolder, s.withParent_accepted hp hm] at h
      exact .inr h
    · rw [copyFolder, s.withParent_refused hp hm] at h
      cases h
      exact .inl rfl
  · rw [copyFolder, s.withParent_outOfBounds (Nat.le_of_not_lt hp)] at h
    cases h

theorem copyFolder_grows (fuel : Nat) : Grows (copyFolder fuel) := by
  induction fuel with
  | zero =>
    intro s s' a d code _ h
    cases h
  | succ fuel ih =>
    intro s s' a d code hs h
    rcases copyFolder_succ h with rfl | h
    · exact ⟨hs, .refl _⟩
    · obtain ⟨hs', hk⟩ := copyFolderLoop_grows ih (hs.loadDir a) h
      exact ⟨hs', ((EntriesKept.refl s).loadDir a).trans hk⟩

end Copy

end Doors.Fat32
