import Doors.ReadBuffer
import Doors.SubtreeDelete

/-! `copy_file` onto any destination: the source is read in full, an old file of that name
is deleted, and the new one is written, possibly onto the clusters just freed. -/

namespace Doors.Fat32

open PointerTree FileSystem

/-- The requests speak of the same name in the same directory. -/
structure SameName (request request' : Request) : Prop where
  parent : request.parent = request'.parent
  name : request.name = request'.name
  ext : request.ext = request'.ext

theorem SameName.names {request request' : Request} (h : SameName request request')
    (e : FAT32DirectoryEntry) : request.names e = request'.names e := by
  simp only [FAT32DriverRequest.names, FAT32DriverRequest.matchesName,
    FAT32DriverRequest.matchesExt, h.name, h.ext]

/-- The file that has the requested name. -/
def DestSlot (s : FileSystem) (dest : Request) (d : Nat) (j : Fin entryCount) : Prop :=
  d = dest.parent ∧ FileSlot s d j ∧ dest.names (s.table d j) = true

/-- The directories and all their entries but the file `dest` are as before. -/
structure KeepsOthers (s s' : FileSystem) (dest : Request) : Prop where
  liveDir : ∀ d, LiveDir s' d ↔ LiveDir s d
  entry : ∀ d j, LiveDir s d → j.val < 2 ∨ LiveSlot s d j → ¬ DestSlot s dest d j →
    s'.table d j = s.table d j
  cluster : ∀ d, LiveDir s d → d ≠ dest.parent → s'.cluster d = s.cluster d
  file : ∀ d j, LiveDir s d → FileSlot s d j → ¬ DestSlot s dest d j → ∃ l, KeepsFile s s' d j l

/-- The file `dest`, in slot `k`, reads as the file in slot `i` of `src`'s directory did. -/
structure HoldsCopy (s s' : FileSystem) (src dest : Request) (i k : Fin entryCount) : Prop where
  slot : DestSlot s' dest dest.parent k
  size : (s'.table dest.parent k).filesize = (s.table src.parent i).filesize
  reads : ∀ before after : Request, SameName before src → SameName after dest →
    (s.table src.parent i).filesize ≤ before.bufferSize →
    (s.table src.parent i).filesize ≤ after.bufferSize →
    ∃ buf buf', readBack s before = .ok (0, buf) ∧ readBack s' after = .ok (0, buf') ∧
      ∀ b < (s.table src.parent i).filesize.toNat, buf' b = buf b

/-- The file `dest` is a copy, and everything else is as before. -/
structure Overwritten (s s' : FileSystem) (src dest : Request) (i k : Fin entryCount) : Prop
    extends HoldsCopy s s' src dest i k where
  wellFormed : WellFormed s'
  keepsOthers : KeepsOthers s s' dest
  only : ∀ d j, LiveDir s' d → LiveSlot s' d j →
    (d = dest.parent ∧ j = k) ∨ (LiveSlot s d j ∧ ¬ DestSlot s dest d j)

section KeepsOthers

variable {s t s' : FileSystem} {dest : Request}

theorem KeepsFile.trans {d : Nat} {j : Fin entryCount} {l l' : List Nat}
    (h : KeepsFile s t d j l) (h' : KeepsFile t s' d j l') : KeepsFile s s' d j l := by
  have hl := h'.chain
  have hl' := h'.chain'
  rw [h.entry] at hl hl'
  obtain rfl := hl.unique h.chain'
  exact ⟨h'.entry.trans h.entry, h.chain, hl', fun c hc => (h'.contents c hc).trans (h.contents c hc)⟩

theorem KeepsOthers.trans (h : KeepsOthers s t dest) (hnone : ∀ d j, ¬ DestSlot t dest d j)
    (h' : KeepsOthers t s' dest) : KeepsOthers s s' dest := by
  refine ⟨fun d => (h'.liveDir d).trans (h.liveDir d), fun d j hd hj hne => ?_,
    fun d hd hne => ?_, fun d j hd hf hne => ?_⟩
  · have hentry := h.entry d j hd hj hne
    rw [h'.entry d j ((h.liveDir d).mpr hd) ?_ (hnone d j), hentry]
    exact hj.imp_right fun hl => ⟨hl.1, by rw [hentry]; exact hl.2⟩
  · rw [h'.cluster d ((h.liveDir d).mpr hd) hne, h.cluster d hd hne]
  · obtain ⟨l, hl⟩ := h.file d j hd hf hne
    have hf' : FileSlot t d j := by
      rw [FileSlot, LiveSlot, hl.entry]
      exact hf
    obtain ⟨l', hl'⟩ := h'.file d j ((h.liveDir d).mpr hd) hf' (hnone d j)
    exact ⟨l, hl.trans hl'⟩

theorem KeepsOthers.loadDir (d : Nat) (h : KeepsOthers (s.loadDir d) t dest) : KeepsOthers s t dest :=
  ⟨h.liveDir, h.entry, h.cluster, fun d j hd hf hne =>
    let ⟨l, hl⟩ := h.file d j hd hf hne
    ⟨l, hl.entry, hl.chain, hl.chain', hl.contents⟩⟩

theorem KeepsOthers.refl (hw : WellFormed s) : KeepsOthers s s dest :=
  ⟨fun _ => .rfl, fun _ _ _ _ _ => rfl, fun _ _ _ => rfl, fun _ _ hd hf _ =>
    KeepsFile.refl hw hd hf⟩

theorem region_file_dir {p d : Nat} {i : Fin entryCount} (hw : WellFormed s) (hp : LiveDir s p)
    (hf : FileSlot s p i) (hd : LiveDir s d) : ¬ EntryRegion s p i d := by
  intro hr
  obtain ⟨a, ha, -⟩ := (region_dir_iff hw hp hd).mp hr
  rw [folderChild_of_fileSlot hf] at ha
  cases ha

theorem Pruned.keepsOthers {j : Fin entryCount} (hw : WellFormed s) (hp : Pruned s t dest.parent j)
    (hj : DestSlot s dest dest.parent j) : KeepsOthers s t dest := by
  have hregion : ∀ d, LiveDir s d → ¬ EntryRegion s dest.parent j d :=
    fun d hd => region_file_dir hw hp.parent hj.2.1 hd
  have hother : ∀ d k, ¬ DestSlot s dest d k → d = dest.parent → k ≠ j := by
    rintro d k hne rfl rfl
    exact hne hj
  refine ⟨fun d => ?_, fun d k hd _ hne => ?_, fun d hd hne => ?_, fun d k hd hf hne => ?_⟩
  · rw [hp.liveDir_iff hw]
    exact ⟨And.left, fun hd => ⟨hd, hregion d hd⟩⟩
  · exact hp.entry_eq hw hd (hregion d hd) (hother d k hne)
  · exact hp.cluster_eq d (hw.dir_range hd).2 (hw.dir_ne_fat hd) hne (hregion d hd)
  · exact hp.keepsFile hw hd (hregion d hd) (hother d k hne) hf

theorem Written.keepsOthers {request : Request} {k : Fin entryCount} {cs : List Nat} (hw : WellFormed s)
    (h : Written s t request k cs) (hz : request.bufferSize ≠ 0)
    (hparent : dest.parent = request.parent) : KeepsOthers s t dest := by
  have hg := h.grown
  have hfile := h.fileSlot hz
  refine ⟨fun d => ?_, fun d j hd hj _ => ?_, fun d hd hne => ?_, fun d j hd hf _ => ?_⟩
  · rw [hg.liveDir_iff hw]
    refine ⟨fun hd => hd.elim id fun hn => ?_, .inl⟩
    have hk := hn.1
    rw [← h.entry, hfile.2] at hk
    cases hk
  · refine hg.entry_eq hw hd fun hdp => ?_
    rintro rfl
    rcases hj with hj | hj
    · exact absurd hg.slot_range (by omega)
    · rw [hdp] at hj
      exact absurd hj.2 (by rw [hg.slot_free]; decide)
  · exact hg.cluster_eq d (hw.dir_range hd).2 (hw.dir_ne_fat hd) (hparent ▸ hne) (hg.dir_notMem hw hd)
  · exact hg.keepsFile hw hd hf

theorem HoldsCopy.kept {src : Request} {i k : Fin entryCount} {l : List Nat}
    (h : HoldsCopy s t src dest i k) (hk : KeepsFile t s' dest.parent k l) (hw : WellFormed t)
    (hw' : WellFormed s') (hd : LiveDir t dest.parent) (hd' : LiveDir s' dest.parent) :
    HoldsCopy s s' src dest i k := by
  refine ⟨⟨rfl, ?_, ?_⟩, ?_, fun before after hbefore hafter hsize hsize' => ?_⟩
  · rw [FileSlot, LiveSlot, hk.entry]
    exact h.slot.2.1
  · rw [hk.entry]
    exact h.slot.2.2
  · rw [hk.entry, h.size]
  · obtain ⟨buf, buf', hread, hread', hbytes⟩ := h.reads before after hbefore hafter hsize hsize'
    refine ⟨buf, buf', hread, ?_, hbytes⟩
    have hslot := h.slot.2
    rw [← hafter.parent] at hk hd hd' hslot
    rw [hk.readBack_eq hw hw' hd hd' hslot.1 ((hafter.names _).trans hslot.2), hread']

theorem HoldsCopy.pruned {src : Request} {i j k : Fin entryCount} {p : Nat}
    (h : HoldsCopy s t src dest i k) (hw : WellFormed t) (hp : Pruned t s' p j)
    (hf : FileSlot t p j) (hd : LiveDir t dest.parent) (hne : dest.parent = p → k ≠ j) :
    HoldsCopy s s' src dest i k := by
  have hregion := region_file_dir hw hp.parent hf hd
  obtain ⟨l, hk⟩ := hp.keepsFile hw hd hregion hne h.slot.2.1
  exact h.kept hk hw (hp.wellFormed hw) hd ((hp.liveDir_iff hw).mpr ⟨hd, hregion⟩)

end KeepsOthers

/-- The clusters that an old file of that name gives back. -/
def reusable (s : FileSystem) (dest : Request) : Nat :=
  match findFile (s.loadDir dest.parent) dest with
  | none => 0
  | some j => clusterCount (s.table dest.parent j).filesize.toNat

/-- In `t` nothing is missing from `s` but the file `dest`. -/
structure Vacated (s t : FileSystem) (dest : Request) : Prop where
  wellFormed : WellFormed t
  keepsOthers : KeepsOthers s t dest
  absent : ∀ d j, ¬ DestSlot t dest d j
  only : ∀ d j, LiveDir t d → LiveSlot t d j → LiveSlot s d j ∧ ¬ DestSlot s dest d j
  free : s.freeClusters.length + reusable s dest ≤ t.freeClusters.length
  slot : (∃ j, DestSlot s dest dest.parent j) ∨
    (∃ j : Fin entryCount, 2 ≤ j.val ∧ (s.table dest.parent j).live = false) →
    ∃ j : Fin entryCount, 2 ≤ j.val ∧ (t.table dest.parent j).live = false

section Copy

variable {s : FileSystem} {src dest : Request} {i : Fin entryCount} {l : List Nat}

theorem vacated_none (hw : WellFormed s) (hd : LiveDir s dest.parent)
    (hnone : findFile (s.loadDir dest.parent) dest = none) : Vacated s s dest := by
  have habsent : ∀ d j, ¬ DestSlot s dest d j := by
    rintro d j ⟨rfl, hf, hn⟩
    rw [findFile_eq hw hd hf hn] at hnone
    cases hnone
  refine ⟨hw, .refl hw, habsent, fun d j _ hj => ⟨hj, habsent d j⟩, ?_, fun h => ?_⟩
  · rw [reusable, hnone]
    exact Nat.le_refl _
  · exact h.elim (fun ⟨j, hj⟩ => absurd hj (habsent _ j)) id

theorem vacated_pruned (hw : WellFormed s) {t : FileSystem} {j : Fin entryCount}
    (hsome : findFile (s.loadDir dest.parent) dest = some j) (hp : Pruned s t dest.parent j) :
    Vacated s t dest := by
  obtain ⟨hf, hn⟩ := findFile_some hsome
  have hj : DestSlot s dest dest.parent j := ⟨rfl, hf, hn⟩
  have hsp := hp.keepsOthers hw hj
  have honly : ∀ d k, LiveDir t d → LiveSlot t d k → LiveSlot s d k ∧ ¬ DestSlot s dest d k := by
    intro d k hd hk
    obtain ⟨hds, -, hne, hks, -⟩ := hp.liveSlot_cases hw hd hk
    refine ⟨hks, fun hdk => ?_⟩
    have hfk := findFile_eq hw hp.parent (hdk.1 ▸ hdk.2.1) (hdk.1 ▸ hdk.2.2)
    exact hne hdk.1 (Option.some.inj (hfk.symm.trans hsome))
  refine ⟨hp.wellFormed hw, hsp, fun d k hk => ?_, honly, ?_, fun _ => ⟨j, hf.1.1, ?_⟩⟩
  · have hlive : LiveDir t d := (hsp.liveDir d).mpr (hk.1 ▸ hp.parent)
    obtain ⟨hks, hne⟩ := honly d k hlive hk.2.1.1
    have hentry := hsp.entry d k ((hsp.liveDir d).mp hlive) (.inr hks) hne
    refine hne ⟨hk.1, ?_, hentry ▸ hk.2.2⟩
    rw [FileSlot, LiveSlot, ← hentry]
    exact hk.2.1
  · rw [reusable, hsome]
    exact hp.room hw hf
  · rw [hp.entry_cleared, FAT32DirectoryEntry.zero_live]

/-- Before it writes `copy_file` has removed an old file `dest`, and nothing else. -/
theorem copyFile_vacates (hw : WellFormed s) (hs : LiveDir s src.parent)
    (hd : LiveDir s dest.parent) (hi : FileSlot s src.parent i)
    (hn : src.names (s.table src.parent i) = true)
    (hl : Walk s.next fatEndOfFile (s.table src.parent i).clusterNumber l) :
    ∃ t, copyFile s src dest = write t (copyOf s src dest i l) ∧ Vacated s t dest := by
  rw [copyFile_found hw hs hi hn hl]
  cases hfind : findFile (s.loadDir dest.parent) dest with
  | none =>
    refine ⟨_, rfl, ?_⟩
    have hv := vacated_none ((hw.loadDir src.parent).loadDir dest.parent) hd hfind
    exact ⟨hv.wellFormed, (hv.keepsOthers.loadDir _).loadDir _, hv.absent, hv.only, hv.free, hv.slot⟩
  | some j =>
    have hw₁ := (hw.loadDir src.parent).loadDir dest.parent
    obtain ⟨hf, hnj⟩ := findFile_some hfind
    obtain ⟨t, ht, hp⟩ := @delete_file _ _ hw₁ (copyOf s src dest i l) hd _ hf hnj
    refine ⟨t, ?_, ?_⟩
    · rw [ht]
      rfl
    · have hv : Vacated _ t dest := vacated_pruned hw₁ hfind hp
      exact ⟨hv.wellFormed, (hv.keepsOthers.loadDir _).loadDir _, hv.absent, hv.only, hv.free, hv.slot⟩

theorem findFile_folder (hw : WellFormed s) (hd : LiveDir s dest.parent) {j : Fin entryCount}
    {c : Nat} (hc : folderChild s dest.parent j = some c)
    (hn : dest.names (s.table dest.parent j) = true) :
    findFile (s.loadDir dest.parent) dest = none := by
  cases hfind : findFile (s.loadDir dest.parent) dest with
  | none => rfl
  | some k =>
    obtain ⟨hf, hnk⟩ := findFile_some hfind
    obtain rfl := named_unique hw.directories hd (folderChild_eq_some.mp hc).1 hf.1 hn hnk
    rw [folderChild_of_fileSlot hf] at hc
    cases hc

theorem DestSlot.no_folder (hw : WellFormed s) (hd : LiveDir s dest.parent) {k : Fin entryCount}
    (hk : DestSlot s dest dest.parent k) {j : Fin entryCount} {c : Nat}
    (hc : folderChild s dest.parent j = some c) :
    dest.names (s.table dest.parent j) = false := by
  by_contra hn
  have hnone := findFile_folder hw hd hc (by simpa using hn)
  rw [findFile_eq hw hd hk.2.1 hk.2.2] at hnone
  cases hnone

/-- A folder of that name is not overwritten. -/
theorem copyFile_folder (hw : WellFormed s) (hs : LiveDir s src.parent)
    (hd : LiveDir s dest.parent) (hi : FileSlot s src.parent i)
    (hn : src.names (s.table src.parent i) = true) {j : Fin entryCount} {c : Nat}
    (hc : folderChild s dest.parent j = some c)
    (hnj : dest.names (s.table dest.parent j) = true) : ∃ s',
    copyFile s src dest = .ok (1, s') ∧ s'.clusterMap = s.clusterMap ∧ s'.disk = s.disk := by
  obtain ⟨l, hl, -⟩ := hw.file_chain hs hi
  have hclash : Clash ((s.loadDir src.parent).loadDir dest.parent) (copyOf s src dest i l) :=
    ⟨j, (folderChild_eq_some.mp hc).1, hnj⟩
  refine ⟨((s.loadDir src.parent).loadDir dest.parent).loadDir dest.parent, ?_, rfl, rfl⟩
  rw [copyFile_found hw hs hi hn hl, findFile_folder hw hd hc hnj]
  exact write_clash ((hw.loadDir _).loadDir _) hd hclash

theorem Vacated.not_clash {t : FileSystem} (hv : Vacated s t dest) (hd : LiveDir s dest.parent)
    (hnew : ∀ j c, folderChild s dest.parent j = some c →
      dest.names (s.table dest.parent j) = false) : ¬ Clash t (copyOf s src dest i l) := by
  rintro ⟨j, hj, hn⟩
  have hdt : LiveDir t dest.parent := (hv.keepsOthers.liveDir _).mpr hd
  obtain ⟨hjs, hne⟩ := hv.only dest.parent j hdt hj
  have hentry := hv.keepsOthers.entry dest.parent j hd (.inr hjs) hne
  have hns : dest.names (s.table dest.parent j) = true := hentry ▸ hn
  rcases hjs.kind with hf | hc
  · exact hne ⟨rfl, hf, hns⟩
  · exact absurd hns (by rw [hnew j _ hc]; decide)

/-- What is written in a state without the file `dest` is a copy of the source. -/
theorem Vacated.overwritten {t s' : FileSystem} {k : Fin entryCount} {cs : List Nat}
    (hv : Vacated s t dest) (hw : WellFormed s) (hs : LiveDir s src.parent)
    (hi : FileSlot s src.parent i) (hn : src.names (s.table src.parent i) = true)
    (hl : Walk s.next fatEndOfFile (s.table src.parent i).clusterNumber l)
    (hclash : ¬ Clash t (copyOf s src dest i l))
    (hwr : Written t s' (copyOf s src dest i l) k cs) : Overwritten s s' src dest i k := by
  have hz : (copyOf s src dest i l).bufferSize ≠ 0 := filesize_ne_zero hw hs hi
  refine ⟨⟨⟨rfl, hwr.fileSlot hz, hwr.named⟩, hwr.filesize, ?_⟩,
    hwr.wellFormed hv.wellFormed hclash,
    hv.keepsOthers.trans hv.absent (hwr.keepsOthers hv.wellFormed hz rfl), ?_⟩
  · intro before after hbefore hafter hsize hsize'
    obtain ⟨hread', hbytes⟩ := hwr.readBack_eq hv.wellFormed hclash hz hafter.parent hafter.name
      hafter.ext hsize'
    have hreadable : Readable s before i := by
      refine ⟨hbefore.parent ▸ hs, hbefore.parent ▸ hi, ?_, hbefore.parent ▸ hsize⟩
      rw [hbefore.names, hbefore.parent]
      exact hn
    refine ⟨_, _, hreadable.readBack_eq hw (hbefore.parent ▸ hl), hread', fun b hb => ?_⟩
    have hcover := hreadable.length_le hw (hbefore.parent ▸ hl)
    rw [hbefore.parent] at hcover
    rw [hbytes b hb]
    show readAll s zeroBytes 0 l b = readAll s before.buf 0 l b
    rw [readAll_from_start, readAll_from_start, if_pos (by omega), if_pos (by omega)]
  · intro d j hd hj
    rcases hwr.grown.liveSlot_cases hv.wellFormed hd hj with ⟨rfl, rfl⟩ | ⟨hdt, hjt, -, -⟩
    · exact .inl ⟨rfl, rfl⟩
    · exact .inr (hv.only d j hdt hjt)

/-- Where `copy_file` returns 0 the destination is overwritten. -/
theorem copyFile_overwritten {s' : FileSystem} (hw : WellFormed s) (hs : LiveDir s src.parent)
    (hi : FileSlot s src.parent i) (hn : src.names (s.table src.parent i) = true)
    (hd : LiveDir s dest.parent)
    (hroom : clusterCount (s.table src.parent i).filesize.toNat ≤
      s.freeClusters.length + reusable s dest) (h : copyFile s src dest = .ok (0, s')) :
    ∃ k, Overwritten s s' src dest i k := by
  obtain ⟨l, hl, -⟩ := hw.file_chain hs hi
  obtain ⟨t, hcopy, hv⟩ := @copyFile_vacates _ _ dest _ _ hw hs hd hi hn hl
  have hdt : LiveDir t (copyOf s src dest i l).parent := (hv.keepsOthers.liveDir _).mpr hd
  have hneed : clustersNeeded (copyOf s src dest i l) ≤ t.freeClusters.length := by
    rw [clustersNeeded, if_neg (by exact filesize_ne_zero hw hs hi)]
    exact hroom.trans hv.free
  rw [hcopy] at h
  obtain ⟨hclash, k, hk⟩ := write_ok hv.wellFormed hdt h
  obtain ⟨t', cs, ht', hwr⟩ := write_new hv.wellFormed hdt hclash hk hneed
  cases h.symm.trans ht'
  exact ⟨k, hv.overwritten hw hs hi hn hl hclash hwr⟩

/-- Onto a name that is no folder's, with a slot and enough clusters, `copy_file` returns 0. -/
theorem copyFile_written (hw : WellFormed s) (hs : LiveDir s src.parent)
    (hi : FileSlot s src.parent i) (hn : src.names (s.table src.parent i) = true)
    (hd : LiveDir s dest.parent)
    (hslot : (∃ j, DestSlot s dest dest.parent j) ∨
      ∃ j : Fin entryCount, 2 ≤ j.val ∧ (s.table dest.parent j).live = false)
    (hroom : clusterCount (s.table src.parent i).filesize.toNat ≤
      s.freeClusters.length + reusable s dest)
    (hnew : ∀ j c, folderChild s dest.parent j = some c →
      dest.names (s.table dest.parent j) = false) :
    ∃ s' k, copyFile s src dest = .ok (0, s') ∧ Overwritten s s' src dest i k := by
  obtain ⟨l, hl, -⟩ := hw.file_chain hs hi
  obtain ⟨t, hcopy, hv⟩ := @copyFile_vacates _ _ dest _ _ hw hs hd hi hn hl
  have hclash : ¬ Clash t (copyOf s src dest i l) := hv.not_clash hd hnew
  obtain ⟨j, hj, hdead⟩ := hv.slot hslot
  obtain ⟨k, hk⟩ := firstFree_exists hj hdead
  have hneed : clustersNeeded (copyOf s src dest i l) ≤ t.freeClusters.length := by
    rw [clustersNeeded, if_neg (by exact filesize_ne_zero hw hs hi)]
    exact hroom.trans hv.free
  have hdt : LiveDir t (copyOf s src dest i l).parent := (hv.keepsOthers.liveDir _).mpr hd
  obtain ⟨s', cs, hs', hwr⟩ := write_new hv.wellFormed hdt hclash hk hneed
  exact ⟨s', k, hcopy.trans hs', hv.overwritten hw hs hi hn hl hclash hwr⟩

end Copy

/-- `copy_file` refuses a folder's name, and else overwrites its destination and nothing more. -/
theorem copyFile_exact {s : FileSystem} (hw : WellFormed s) {src dest : Request}
    {i : Fin entryCount} (hs : LiveDir s src.parent) (hi : FileSlot s src.parent i)
    (hn : src.names (s.table src.parent i) = true) (hd : LiveDir s dest.parent)
    (hslot : (∃ j, DestSlot s dest dest.parent j) ∨
      ∃ j : Fin entryCount, 2 ≤ j.val ∧ (s.table dest.parent j).live = false)
    (hroom : clusterCount (s.table src.parent i).filesize.toNat ≤
      s.freeClusters.length + reusable s dest) :
    (∀ j c, folderChild s dest.parent j = some c → dest.names (s.table dest.parent j) = true →
      ∃ s', copyFile s src dest = .ok (1, s') ∧ s'.clusterMap = s.clusterMap ∧ s'.disk = s.disk) ∧
    ((∀ j c, folderChild s dest.parent j = some c → dest.names (s.table dest.parent j) = false) →
      ∃ s' k, copyFile s src dest = .ok (0, s') ∧ Overwritten s s' src dest i k) := by
  exact ⟨fun j c hc hnj => copyFile_folder hw hs hd hi hn hc hnj,
    fun hnew => copyFile_written hw hs hi hn hd hslot hroom hnew⟩

/-- A file copied onto itself. -/
theorem copyFile_exact_self : ∃ s s' i k, WellFormed s ∧ Readable s byteRequest i ∧
    copyFile s byteRequest byteRequest = .ok (0, s') ∧
    Overwritten s s' byteRequest byteRequest i k := by
  obtain ⟨s, i, -, hw, hr, -⟩ := byteFile_written
  have hroom : clusterCount (s.table byteRequest.parent i).filesize.toNat ≤
      s.freeClusters.length + reusable s byteRequest := by
    rw [reusable, hr.find hw]
    exact Nat.le_add_left _ _
  have hi : DestSlot s byteRequest byteRequest.parent i := ⟨rfl, hr.file, hr.named⟩
  obtain ⟨s', k, hs', hover⟩ := (copyFile_exact hw hr.parent hr.file hr.named hr.parent
    (.inl ⟨i, hi⟩) hroom).2 fun j c hc => hi.no_folder hw hr.parent hc
  exact ⟨s, s', i, k, hw, hr, hs', hover⟩

end Doors.Fat32
