import Doors.FatRemove
import Doors.FatWrite
import Doors.Run

/-! The file-system invariant over runs of the requests that change the tree,
from the state that `create_fat32` makes. -/

namespace Doors.Fat32

open PointerTree FileSystem

/-- Static storage is zero before the driver is initialized. -/
def boot (disk : Nat → UInt8) : FileSystem := ⟨fun _ => 0, fun _ => .zero, disk⟩

section Create

variable (root : Name) (disk : Nat → UInt8)

theorem createFat32_next {c : Nat} (hc : c < 512) :
    (createFat32 root (boot disk)).next c =
      if c = 0 then cluster0Value else if c = 1 then cluster1Value
      else if c = 2 then fatEndOfFile else fatEmptyEntry := by
  have hmap : (createFat32 root (boot disk)).clusterMap ⟨c, hc⟩ =
      if c = 0 then UInt32.ofNat cluster0Value else if c = 1 then UInt32.ofNat cluster1Value
      else if c = 2 then UInt32.ofNat fatEndOfFile else UInt32.ofNat fatEmptyEntry := rfl
  rw [next, dif_pos hc, hmap]
  split_ifs <;> rfl

theorem createFat32_table :
    (createFat32 root (boot disk)).table rootClusterNumber =
      newDirectoryTable ⟨zeroBytes, root, fun _ => 0, 2, 0⟩ 2 := by
  simp only [createFat32]
  rw [table_stored (by decide) (by decide)]
  rfl

theorem createFat32_slot {i : Fin entryCount} (hi : 2 ≤ i.val) :
    (createFat32 root (boot disk)).table rootClusterNumber i = .zero := by
  rw [createFat32_table]
  exact newDirectoryTable_empty _ _ hi

theorem createFat32_child (i : Fin entryCount) :
    folderChild (createFat32 root (boot disk)) rootClusterNumber i = none := by
  by_cases hi : 2 ≤ i.val
  · refine folderChild_of_not_live ?_
    rw [createFat32_slot root disk hi, FAT32DirectoryEntry.zero_live]
  · simp [folderChild, hi]

theorem createFat32_liveDir {c : Nat} (h : LiveDir (createFat32 root (boot disk)) c) :
    c = rootClusterNumber := by
  obtain ⟨n, hn⟩ := h
  induction hn with
  | root => rfl
  | child hd hc ih =>
    subst ih
    simp [createFat32_child] at hc

theorem createFat32_liveSlot {d : Nat} {i : Fin entryCount}
    (hd : LiveDir (createFat32 root (boot disk)) d) :
    ¬ LiveSlot (createFat32 root (boot disk)) d i := by
  rintro ⟨hi, hl⟩
  rw [createFat32_liveDir root disk hd, createFat32_slot root disk hi] at hl
  simp at hl

theorem createFat32_owns {o : Option (Nat × Fin entryCount)} {c : Nat} :
    Owns (createFat32 root (boot disk)) o c ↔ o = none ∧ c = rootClusterNumber := by
  constructor
  · intro h
    cases h with
    | root => exact ⟨rfl, rfl⟩
    | folder hd hc =>
      exact absurd (folderChild_eq_some.mp hc).1 (createFat32_liveSlot root disk hd)
    | file hd hf _ _ => exact absurd hf.1 (createFat32_liveSlot root disk hd)
  · rintro ⟨rfl, rfl⟩
    exact .root

theorem createFat32_wellFormed : WellFormed (createFat32 root (boot disk)) where
  reserved0 := createFat32_next root disk (by decide)
  reserved1 := createFat32_next root disk (by decide)
  slot_clear := by
    intro d i hd hi _
    rw [createFat32_liveDir root disk hd, createFat32_slot root disk hi]
  dir_range := by
    intro d hd
    rw [createFat32_liveDir root disk hd]
    decide
  dir_mark := by
    intro d hd
    rw [createFat32_liveDir root disk hd]
    exact createFat32_next root disk (by decide)
  root_header := by
    rw [createFat32_table]
    exact newDirectoryTable_header _ (by decide) (show 2 < 512 by decide)
  header hd hc := absurd (folderChild_eq_some.mp hc).1 (createFat32_liveSlot root disk hd)
  folder_size hd hc := absurd (folderChild_eq_some.mp hc).1 (createFat32_liveSlot root disk hd)
  file_chain hd hf := absurd hf.1 (createFat32_liveSlot root disk hd)
  owner_unique := by
    intro o o' c h h'
    rw [((createFat32_owns root disk).mp h).1, ((createFat32_owns root disk).mp h').1]
  used_iff := by
    intro c h₂ hc
    have h0 : c ≠ 0 := by omega
    have h1 : c ≠ 1 := by omega
    rw [createFat32_next root disk hc, if_neg h0, if_neg h1]
    by_cases he : c = 2
    · rw [if_pos he]
      refine iff_of_true (by decide) ⟨none, ?_⟩
      exact (createFat32_owns root disk).mpr ⟨rfl, he⟩
    · rw [if_neg he]
      refine iff_of_false (fun h => h rfl) ?_
      rintro ⟨o, ho⟩
      exact he ((createFat32_owns root disk).mp ho).2
  mirrored := mirrored_stored (by decide)
  names_unique hd hl _ _ _ := absurd hl (createFat32_liveSlot root disk hd)

theorem createFat32_dead {i : Fin entryCount} (hi : 2 ≤ i.val) :
    ((createFat32 root (boot disk)).table rootClusterNumber i).live = false := by
  rw [createFat32_slot root disk hi, FAT32DirectoryEntry.zero_live]

theorem createFat32_freeClusters :
    (createFat32 root (boot disk)).freeClusters = dataClusters := by
  refine List.filter_eq_self.mpr fun c hc => ?_
  have hr := mem_dataClusters.mp hc
  have h0 : c ≠ 0 := by omega
  have h1 : c ≠ 1 := by omega
  have h2 : c ≠ 2 := by omega
  rw [createFat32_next root disk hr.2, if_neg h0, if_neg h1, if_neg h2]
  decide

theorem createFat32_room : (createFat32 root (boot disk)).freeClusters.length = 509 := by
  simp [createFat32_freeClusters, dataClusters, clusterMapSize]

theorem createFat32_written (request : Request) (hp : request.parent = rootClusterNumber)
    (hn : clustersNeeded request ≤ 509) : ∃ s i cs,
    write (createFat32 root (boot disk)) request = .ok (0, s) ∧ WellFormed s ∧
      Written (createFat32 root (boot disk)) s request i cs := by
  have hw := createFat32_wellFormed root disk
  have hlive : LiveDir (createFat32 root (boot disk)) request.parent := by
    rw [hp]
    exact reach_root
  have hc : ¬ Clash (createFat32 root (boot disk)) request := fun ⟨i, hi, _⟩ =>
    createFat32_liveSlot root disk hlive hi
  have hdead : ((createFat32 root (boot disk)).table request.parent 2).live = false := by
    rw [hp]
    exact createFat32_dead root disk (by decide)
  obtain ⟨i, hi⟩ := firstFree_exists (by decide) hdead
  obtain ⟨s, cs, hs, hwr⟩ := write_new hw hlive hc hi
    (by rwa [createFat32_room])
  exact ⟨s, i, cs, hs, hwr.wellFormed hw hc, hwr⟩

/-- The entry of the first write is the only one. -/
theorem createFat32_only {s : FileSystem} {request : Request} {i j : Fin entryCount}
    {cs : List Nat} (h : Written (createFat32 root (boot disk)) s request i cs)
    (hp : request.parent = rootClusterNumber) (hj : LiveSlot s rootClusterNumber j) : j = i := by
  by_contra hne
  have htable := h.grown.table_eq
  rw [hp] at htable
  rw [LiveSlot, htable, Function.update_of_ne hne] at hj
  exact createFat32_liveSlot root disk reach_root hj

end Create

/-- The free clusters suffice for what `write` allocates, if it allocates at all. -/
def HasRoom (s : FileSystem) (request : Request) : Prop :=
  ¬ Clash s request → firstFree s request.parent ≠ none →
    clustersNeeded request ≤ s.freeClusters.length

/-- `copy_file` writes after it has given the clusters of an old destination back. -/
def HasRoomForCopy (s : FileSystem) (src dest : Request) : Prop :=
  ∀ i, findFile (s.loadDir src.parent) src = some i →
    match findFile (s.loadDir dest.parent) dest with
    | none => HasRoom s { dest with bufferSize := (s.table src.parent i).filesize }
    | some j => clusterCount (s.table src.parent i).filesize.toNat ≤
        s.freeClusters.length + clusterCount (s.table dest.parent j).filesize.toNat

/-- What one step of a call does to the tree: nothing, or an entry comes or goes. -/
inductive Edit (s : FileSystem) : FileSystem → Prop
  | loadDir (d : Nat) : Edit s (s.loadDir d)
  | written {s' : FileSystem} {request : Request} {i : Fin entryCount} {cs : List Nat} :
    ¬ Clash s request → Written s s' request i cs → Edit s s'
  | pruned {s' : FileSystem} {p : Nat} {i : Fin entryCount} : Pruned s s' p i → Edit s s'

abbrev Edits := Relation.ReflTransGen Edit

theorem Edit.wellFormed {s s' : FileSystem} (hw : WellFormed s) (h : Edit s s') :
    WellFormed s' := by
  cases h with
  | loadDir d => exact hw.loadDir d
  | written hc hwr => exact hwr.wellFormed hw hc
  | pruned hp => exact hp.wellFormed hw

theorem Edits.invariant {P : FileSystem → Prop} {s s' : FileSystem}
    (hP : ∀ s s', WellFormed s → P s → Edit s s' → P s') (hw : WellFormed s) (hs : P s)
    (h : Edits s s') : WellFormed s' ∧ P s' := by
  induction h with
  | refl => exact ⟨hw, hs⟩
  | tail _ he ih => exact ⟨he.wellFormed ih.1, hP _ _ ih.1 ih.2 he⟩

theorem write_edit {s : FileSystem} (hw : WellFormed s) {request : Request}
    (hp : LiveDir s request.parent) (hroom : HasRoom s request) :
    ∃ code s', write s request = .ok (code, s') ∧ Edit s s' := by
  by_cases hc : Clash s request
  · exact ⟨_, _, write_clash hw hp hc, .loadDir _⟩
  · cases hf : firstFree s request.parent with
    | none => exact ⟨_, _, write_full hw hp hc hf, .loadDir _⟩
    | some i =>
      have hn := hroom hc (by rw [hf]; exact Option.some_ne_none i)
      obtain ⟨s', cs, hs, hwr⟩ := write_new hw hp hc hf hn
      exact ⟨0, s', hs, .written hc hwr⟩

theorem findFile_some {s : FileSystem} {request : Request} {i : Fin entryCount}
    (h : findFile (s.loadDir request.parent) request = some i) :
    FileSlot s request.parent i ∧ request.names (s.table request.parent i) = true := by
  have hm := mem_slotsFrom.mp (List.mem_of_find?_eq_some h)
  have hp := List.find?_some h
  simp only [dirTableBuf_loadDir, Bool.and_eq_true, Bool.not_eq_eq_eq_not, Bool.not_true] at hp
  obtain ⟨⟨hl, hn⟩, hk, he⟩ := hp
  refine ⟨⟨⟨hm, hl⟩, hk⟩, ?_⟩
  rw [FAT32DriverRequest.names, hn, he]
  rfl

theorem findFile_eq {Fits : UInt32 → Nat → Prop} {s : FileSystem} (hw : Formed Fits s)
    {request : Request} {i : Fin entryCount} (hp : LiveDir s request.parent)
    (hf : FileSlot s request.parent i) (hn : request.names (s.table request.parent i) = true) :
    findFile (s.loadDir request.parent) request = some i := by
  cases hfind : findFile (s.loadDir request.parent) request with
  | none =>
    have hh := List.find?_eq_none.mp hfind i (mem_slotsFrom.mpr hf.1.1)
    simp only [FAT32DriverRequest.names, Bool.and_eq_true] at hn
    simp [hf.1.2, hf.2, hn.1, hn.2] at hh
  | some j =>
    obtain ⟨hj, hm⟩ := findFile_some hfind
    rw [FAT32DriverRequest.names_iff] at hn hm
    rw [hw.names_unique hp hj.1 hf.1 (hm.1.trans hn.1.symm) (hm.2.trans hn.2.symm)]

theorem Pruned.room {s s' : FileSystem} {p : Nat} {i : Fin entryCount} (hg : Pruned s s' p i)
    (hw : WellFormed s) (hf : FileSlot s p i) :
    s.freeClusters.length + clusterCount (s.table p i).filesize.toNat ≤
      s'.freeClusters.length := by
  obtain ⟨l, hl, hnd, hlen, -, hr⟩ := hw.file_chain hg.parent hf
  have hreg : ∀ c, EntryRegion s p i c ↔ c ∈ l := fun c => region_of_file hg.parent hf hl
  have hused : ∀ c ∈ l, s.next c ≠ fatEmptyEntry :=
    fun c hc => hw.owned_used (.file hg.parent hf hl hc)
  have hnodup : (s.freeClusters ++ l).Nodup := by
    refine List.nodup_append'.mpr ⟨freeClusters_nodup s, hnd, fun c hc hc' => ?_⟩
    exact hused c hc' (mem_freeClusters.mp hc).2
  have hsub : s.freeClusters ++ l ⊆ s'.freeClusters := by
    intro c hc
    rcases List.mem_append.mp hc with hc | hc
    · have hm := mem_freeClusters.mp hc
      have hnot : ¬ EntryRegion s p i c := fun h => hused c ((hreg c).mp h) hm.2
      exact mem_freeClusters.mpr ⟨hm.1, (hg.next_eq c hm.1.2 hnot).trans hm.2⟩
    · exact mem_freeClusters.mpr ⟨hr c hc, hg.next_in c (hr c hc).2 ((hreg c).mpr hc)⟩
  have hle := (hnodup.subperm hsub).length_le
  rwa [List.length_append, hlen] at hle

/-- What `copy_file` writes: the clusters `l` of the source, under the name of `dest`. -/
def copyOf (s : FileSystem) (src dest : Request) (i : Fin entryCount) (l : List Nat) : Request :=
  ⟨readAll s zeroBytes 0 l, dest.name, dest.ext, dest.parentClusterNumber,
    (s.table src.parent i).filesize⟩

section CopyFile

variable {s : FileSystem} {src dest : Request} {i : Fin entryCount} {l : List Nat}

theorem copyFile_found (hw : WellFormed s) (hs : LiveDir s src.parent)
    (hi : FileSlot s src.parent i) (hn : src.names (s.table src.parent i) = true)
    (hl : Walk s.next fatEndOfFile (s.table src.parent i).clusterNumber l) :
    copyFile s src dest =
      match findFile (s.loadDir dest.parent) dest with
      | none => write ((s.loadDir src.parent).loadDir dest.parent) (copyOf s src dest i l)
      | some _ => delete ((s.loadDir src.parent).loadDir dest.parent) (copyOf s src dest i l) >>=
          fun r => write r.2 (copyOf s src dest i l) := by
  obtain ⟨l', hl', hread⟩ := readChain_file hw hs hi zeroBytes
  obtain rfl := hl'.unique hl
  have hne : (s.table src.parent i).clusterNumber ≠ 0 := by
    have := hw.file_start hs hi
    omega
  rw [copyFile, s.withParent_accepted (hw.dir_range hs).2 (hw.dir_mark hs)]
  simp only [findFile_eq hw hs hi hn, dirTableBuf_loadDir, hne, if_false, readChain_loadDir, hread]
  rfl

theorem copyFile_edits (hw : WellFormed s) (hs : LiveDir s src.parent)
    (hd : LiveDir s dest.parent) (hroom : HasRoomForCopy s src dest) :
    ∃ code s', copyFile s src dest = .ok (code, s') ∧ Edits s s' := by
  cases hsrc : findFile (s.loadDir src.parent) src with
  | none =>
    refine ⟨1, s.loadDir src.parent, ?_, .single (.loadDir _)⟩
    rw [copyFile, s.withParent_accepted (hw.dir_range hs).2 (hw.dir_mark hs)]
    simp only [hsrc]
    rfl
  | some i =>
    obtain ⟨hfile, hn⟩ := findFile_some hsrc
    obtain ⟨l, hl, -⟩ := readChain_file hw hs hfile zeroBytes
    have hw₁ := (hw.loadDir src.parent).loadDir dest.parent
    have hload : Edits s ((s.loadDir src.parent).loadDir dest.parent) :=
      .tail (.single (.loadDir _)) (.loadDir _)
    have hroom := hroom i hsrc
    rw [copyFile_found hw hs hfile hn hl]
    cases hdest : findFile (s.loadDir dest.parent) dest with
    | none =>
      rw [hdest] at hroom
      obtain ⟨code, s', hwrite, he⟩ := @write_edit _ hw₁ (copyOf s src dest i l) hd hroom
      exact ⟨code, s', hwrite, hload.tail he⟩
    | some j =>
      rw [hdest] at hroom
      obtain ⟨hfj, hnj⟩ := findFile_some hdest
      obtain ⟨s₂, hs₂, hpr⟩ := @delete_file _ _ hw₁ (copyOf s src dest i l) hd _ hfj hnj
      have hneeded : clustersNeeded (copyOf s src dest i l) =
          clusterCount (s.table src.parent i).filesize.toNat :=
        if_neg (filesize_ne_zero hw hs hfile)
      have hlive : LiveDir s₂ (copyOf s src dest i l).parent :=
        (hpr.liveDir_iff hw₁).mpr ⟨hd, region_not_parent hw₁ hd⟩
      obtain ⟨code, s', hwrite, he⟩ := write_edit (hpr.wellFormed hw₁) hlive fun _ _ => by
        rw [hneeded]
        exact hroom.trans (hpr.room hw₁ hfj)
      refine ⟨code, s', ?_, (hload.tail (.pruned hpr)).tail he⟩
      rw [hs₂]
      exact hwrite

end CopyFile

/-- The requests that change the tree. -/
inductive Call
  | write (request : Request)
  | delete (request : Request)
  | deleteFolderRec (request : Request)
  | copyFile (src dest : Request)

def Call.run (s : FileSystem) : Call → Except Fault (Int × FileSystem)
  | .write request => Fat32.write s request
  | .delete request => Fat32.delete s request
  | .deleteFolderRec request => Fat32.deleteFolderRec s request
  | .copyFile src dest => Fat32.copyFile s src dest

/-- Parents are directories of the tree, and what is allocated fits. -/
def Call.Admissible (s : FileSystem) : Call → Prop
  | .write request => LiveDir s request.parent ∧ HasRoom s request
  | .delete request => LiveDir s request.parent
  | .deleteFolderRec request => LiveDir s request.parent
  | .copyFile src dest =>
    LiveDir s src.parent ∧ LiveDir s dest.parent ∧ HasRoomForCopy s src dest

def CallStep (s : FileSystem) (call : Call) (s' : FileSystem) : Prop :=
  call.Admissible s ∧ ∃ code, call.run s = .ok (code, s')

theorem call_edits {s : FileSystem} (hw : WellFormed s) {call : Call} (ha : call.Admissible s) :
    ∃ code s', call.run s = .ok (code, s') ∧ Edits s s' := by
  cases call with
  | write request =>
    obtain ⟨code, s', h, he⟩ := write_edit hw ha.1 ha.2
    exact ⟨code, s', h, .single he⟩
  | delete request =>
    rcases delete_outcome hw ha with ⟨code, -, h⟩ | ⟨i, s', -, -, h, hpr⟩
    · exact ⟨code, _, h, .single (.loadDir _)⟩
    · exact ⟨0, s', h, .single (.pruned hpr)⟩
  | deleteFolderRec request =>
    rcases deleteFolderRec_outcome hw ha with ⟨code, h⟩ | ⟨i, c, s', -, -, h, hpr⟩
    · exact ⟨code, _, h, .single (.loadDir _)⟩
    · exact ⟨0, s', h, .single (.pruned hpr)⟩
  | copyFile src dest => exact copyFile_edits hw ha.1 ha.2.1 ha.2.2

theorem callStep_edits {s s' : FileSystem} {call : Call} (hw : WellFormed s)
    (h : CallStep s call s') : Edits s s' := by
  obtain ⟨ha, code, hrun⟩ := h
  obtain ⟨code', t, ht, he⟩ := call_edits hw ha
  rw [hrun, Except.ok.injEq, Prod.mk.injEq] at ht
  rwa [ht.2]

theorem callStep_wellFormed (s : FileSystem) (call : Call) (s' : FileSystem) (hw : WellFormed s)
    (h : CallStep s call s') : WellFormed s' :=
  ((callStep_edits hw h).invariant (fun _ _ _ _ _ => trivial) hw trivial).1

/-- Every state reached is well formed, its directories form a tree, and no call gets stuck. -/
theorem run_wellFormed (root : Name) (disk : Nat → UInt8) {calls : List Call} {s : FileSystem}
    (h : Run CallStep (createFat32 root (boot disk)) calls s) :
    WellFormed s ∧ IsTree (folderChild s) rootClusterNumber ∧
      ∀ call : Call, call.Admissible s → ∃ code s', call.run s = .ok (code, s') ∧ CallStep s call s' := by
  have hw : WellFormed s := h.invariant callStep_wellFormed (createFat32_wellFormed root disk)
  refine ⟨hw, hw.tree, fun call ha => ?_⟩
  obtain ⟨code, s', hs, -⟩ := call_edits hw ha
  exact ⟨code, s', hs, ha, code, hs⟩

/-- Creating the folder `a` in the root of a new disk. -/
theorem run_wellFormed_mkdir : ∃ s,
    Run CallStep (createFat32 (fun _ => 0) (boot zeroBytes))
      [.write ⟨zeroBytes, fun k => if k = 0 then 'a'.toUInt8 else 0, fun _ => 0, 2, 0⟩] s ∧
    WellFormed s := by
  have hfree : 3 ∈ (createFat32 (fun _ => 0) (boot zeroBytes)).freeClusters :=
    mem_freeClusters.mpr ⟨by decide, createFat32_next _ _ (by decide)⟩
  have ha : Call.Admissible (createFat32 (fun _ => 0) (boot zeroBytes))
      (.write ⟨zeroBytes, fun k => if k = 0 then 'a'.toUInt8 else 0, fun _ => 0, 2, 0⟩) :=
    ⟨reach_root, fun _ _ => List.length_pos_of_mem hfree⟩
  obtain ⟨code, s, hs, -⟩ := call_edits (createFat32_wellFormed _ _) ha
  have hstep : CallStep (createFat32 (fun _ => 0) (boot zeroBytes))
      (.write ⟨zeroBytes, fun k => if k = 0 then 'a'.toUInt8 else 0, fun _ => 0, 2, 0⟩) s :=
    ⟨ha, code, hs⟩
  have hrun := Run.cons hstep (.nil s)
  exact ⟨s, hrun, (run_wellFormed _ _ hrun).1⟩

end Doors.Fat32
