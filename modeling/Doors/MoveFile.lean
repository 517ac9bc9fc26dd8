import Doors.FileOverwrite
import Doors.WorkDir

/-! Moving a file. The source is deleted by its name after the copy, which is the wrong
file when the copy has the same name. -/

namespace Doors.Shell

open PointerTree Fat32 FileSystem

/-- The request that `mv` makes for its source. -/
def sourceRequest (source : Resolved) : Request :=
  request source.filename source.ext source.parentCluster

/-- `mv` of a file, with whether it reports success. -/
def mvFile (s : FileSystem) (source target : Resolved) : Except Fault (Bool × FileSystem) := do
  if target.code = 3 ∨ target.code = 4 ∨ target.code = 5 then return (false, s)
  else
    let (res, s) ← copyFile s (sourceRequest source) (fileTarget source target)
    if res ≠ 0 then return (false, s)
    else
      let (_, s) ← delete s (sourceRequest source)
      return (true, s)

/-- The path leads nowhere, or the target has another name or directory than the source. -/
def MovesAway (source target : Resolved) : Prop :=
  (target.code = 3 ∨ target.code = 4 ∨ target.code = 5) ∨
    ¬ SameName (fileTarget source target) (sourceRequest source)

section File

variable {s : FileSystem} {source target : Resolved} {i : Fin entryCount}

theorem mv_file {state : ShellState} {src dest : List UInt8}
    (hsource : getCurrAndParentCluster s src state.workDir = .ok source) (hcode : source.code = 0)
    (htarget : getCurrAndParentCluster s dest state.workDir = .ok target) :
    mv state s src dest = (mvFile s source target).map Prod.snd := by
  have hskip : ¬ (source.code ≠ 0 ∧ source.code ≠ 1) := by
    omega
  simp only [mv, bind, Except.bind, hsource, htarget, mvFile]
  rw [if_neg hskip]
  split_ifs with hbad
  · rfl
  · cases hcopy : copyFile s (sourceRequest source) (fileTarget source target) with
    | error e =>
      have hcopy' : copyFile s (request source.filename source.ext source.parentCluster)
        (fileTarget source target) = .error e := hcopy
      simp only [hcopy']
      rfl
    | ok r =>
      have hcopy' : copyFile s (request source.filename source.ext source.parentCluster)
        (fileTarget source target) = .ok r := hcopy
      simp only [hcopy', sourceRequest]
      split_ifs
      · rfl
      · cases delete r.2 (request source.filename source.ext source.parentCluster) <;> rfl

theorem sourceRequest_parent {d : Nat} {path : List UInt8} (hw : WellFormed s) (hd : LiveDir s d)
    (hsource : getCurrAndParentCluster s path d = .ok source) :
    (sourceRequest source).parent = source.parentCluster :=
  request_parent (hw.mono fun _ _ _ => trivial) (resolved_liveDir hw hd hsource).1

theorem source_slot {d : Nat} {path : List UInt8} (hw : WellFormed s) (hd : LiveDir s d)
    (hsource : getCurrAndParentCluster s path d = .ok source) (hcode : source.code = 0) :
    LiveDir s (sourceRequest source).parent ∧
      ∃ i, DestSlot s (sourceRequest source) (sourceRequest source).parent i := by
  obtain ⟨hp, -, hfile⟩ := resolved_liveDir hw hd hsource
  obtain ⟨i, hf, hn, hx⟩ := hfile hcode
  rw [sourceRequest_parent hw hd hsource]
  refine ⟨hp, i, (sourceRequest_parent hw hd hsource).symm, hf, ?_⟩
  exact FAT32DriverRequest.names_iff.mpr ⟨hn, hx⟩

/-- Under another name the source is where it was after the copy. -/
theorem source_kept {s₁ : FileSystem} {j k : Fin entryCount}
    (hs : LiveDir s (sourceRequest source).parent)
    (hi : DestSlot s (sourceRequest source) (sourceRequest source).parent i)
    (hover : Overwritten s s₁ (sourceRequest source) (fileTarget source target) j k)
    (hne : ¬ SameName (fileTarget source target) (sourceRequest source)) :
    LiveDir s₁ (sourceRequest source).parent ∧
      s₁.table (sourceRequest source).parent i = s.table (sourceRequest source).parent i ∧
      DestSlot s₁ (sourceRequest source) (sourceRequest source).parent i := by
  have hothers : ¬ DestSlot s (fileTarget source target) (sourceRequest source).parent i := by
    rintro ⟨hp, -, hn⟩
    have h₁ := FAT32DriverRequest.names_iff.mp hn
    have h₂ := FAT32DriverRequest.names_iff.mp hi.2.2
    exact hne ⟨hp.symm, h₁.1.symm.trans h₂.1, h₁.2.symm.trans h₂.2⟩
  have hentry := hover.keepsOthers.entry _ i hs (.inr hi.2.1.1) hothers
  refine ⟨(hover.keepsOthers.liveDir _).mpr hs, hentry, rfl, ?_, hentry ▸ hi.2.2⟩
  rw [FileSlot, LiveSlot, hentry]
  exact hi.2.1

/-- Where the copy under another name is made, success is reported. -/
theorem mvFile_moves (hw : WellFormed s) (hs : LiveDir s (sourceRequest source).parent)
    (hi : DestSlot s (sourceRequest source) (sourceRequest source).parent i)
    (hd : LiveDir s (fileTarget source target).parent)
    (hbad : ¬ (target.code = 3 ∨ target.code = 4 ∨ target.code = 5))
    (hne : ¬ SameName (fileTarget source target) (sourceRequest source))
    (hslot : ∃ j : Fin entryCount, 2 ≤ j.val ∧
      (s.table (fileTarget source target).parent j).live = false)
    (hroom : clusterCount (s.table (sourceRequest source).parent i).filesize.toNat ≤
      s.freeClusters.length + reusable s (fileTarget source target))
    (hnew : ∀ j, folderChild s (fileTarget source target).parent j = none) :
    ∃ s', mvFile s source target = .ok (true, s') := by
  obtain ⟨s₁, k, hcopy, hover⟩ := copyFile_written hw hs hi.2.1 hi.2.2 hd (.inr hslot) hroom
    fun j c hc => absurd (hc.symm.trans (hnew j)) (by simp)
  obtain ⟨hs₁, -, hi₁⟩ := source_kept hs hi hover hne
  obtain ⟨s₂, hdelete, -⟩ := delete_file hover.wellFormed hs₁ hi₁.2.1 hi₁.2.2
  refine ⟨s₂, ?_⟩
  rw [mvFile, if_neg hbad, hcopy]
  simp only [bind, Except.bind, ne_eq, not_true_eq_false, if_false, hdelete]
  rfl

/-- Under another name the copy survives the deletion of the source. -/
theorem mvFile_keeps {s' : FileSystem} (hw : WellFormed s)
    (hs : LiveDir s (sourceRequest source).parent)
    (hi : DestSlot s (sourceRequest source) (sourceRequest source).parent i)
    (hd : LiveDir s (fileTarget source target).parent)
    (hroom : clusterCount (s.table (sourceRequest source).parent i).filesize.toNat ≤
      s.freeClusters.length + reusable s (fileTarget source target))
    (haway : MovesAway source target) (h : mvFile s source target = .ok (true, s')) :
    ∃ k, HoldsCopy s s' (sourceRequest source) (fileTarget source target) i k := by
  rw [mvFile] at h
  split_ifs at h with hbad
  · cases h
  · have hne := haway.resolve_left hbad
    obtain ⟨⟨res, s₁⟩, hcopy, h⟩ := bind_ok h
    dsimp only at h
    split_ifs at h with hres
    · cases h
    · rw [not_not.mp hres] at hcopy
      obtain ⟨k, hover⟩ := copyFile_overwritten hw hs hi.2.1 hi.2.2 hd hroom hcopy
      obtain ⟨hs₁, hentry, hi₁⟩ := source_kept hs hi hover hne
      obtain ⟨s₂, hdelete, hp⟩ := delete_file hover.wellFormed hs₁ hi₁.2.1 hi₁.2.2
      rw [hdelete] at h
      cases h
      have hother : (fileTarget source target).parent = (sourceRequest source).parent → k ≠ i := by
        rintro hparent rfl
        have h₁ := FAT32DriverRequest.names_iff.mp hover.slot.2.2
        have h₂ := FAT32DriverRequest.names_iff.mp hi.2.2
        rw [hparent, hentry] at h₁
        exact hne ⟨hparent, h₁.1.symm.trans h₂.1, h₁.2.symm.trans h₂.2⟩
      exact ⟨k, hover.toHoldsCopy.pruned hover.wellFormed hp hi₁.2.1
        ((hover.keepsOthers.liveDir _).mpr hd) hother⟩

theorem not_movesAway_self (hcode : source.code = 0) : ¬ MovesAway source source := by
  rintro (hbad | hne)
  · omega
  · refine hne ?_
    rw [fileTarget, if_neg (by omega)]
    exact ⟨rfl, rfl, rfl⟩

/-- Under its own name the source is copied, and then deleted together with the copy. -/
theorem mvFile_loses (hw : WellFormed s) (hs : LiveDir s (sourceRequest source).parent)
    (hi : DestSlot s (sourceRequest source) (sourceRequest source).parent i)
    (haway : ¬ MovesAway source target) : ∃ s', mvFile s source target = .ok (true, s') ∧
      ∀ j, ¬ DestSlot s' (fileTarget source target) (fileTarget source target).parent j := by
  obtain ⟨hbad, hsame⟩ := not_or.mp haway
  have hsame := not_not.mp hsame
  have hd : DestSlot s (fileTarget source target) (fileTarget source target).parent i :=
    ⟨rfl, hsame.parent ▸ hi.2.1, hsame.parent ▸ (hsame.names _).trans hi.2.2⟩
  have hlive : LiveDir s (fileTarget source target).parent := hsame.parent ▸ hs
  have hfind := findFile_eq hw hlive hd.2.1 hd.2.2
  have hroom : clusterCount (s.table (sourceRequest source).parent i).filesize.toNat ≤
      s.freeClusters.length + reusable s (fileTarget source target) := by
    rw [reusable, hfind, hsame.parent]
    exact Nat.le_add_left _ _
  obtain ⟨s₁, k, hcopy, hover⟩ :=
    copyFile_written hw hs hi.2.1 hi.2.2 hlive (.inl ⟨i, hd⟩) hroom
      fun j c hc => hd.no_folder hw hlive hc
  have hlive₁ := (hover.keepsOthers.liveDir _).mpr hlive
  have hfind₁ := findFile_eq hover.wellFormed hlive₁ hover.slot.2.1 hover.slot.2.2
  have hk : FileSlot s₁ (sourceRequest source).parent k ∧
      (sourceRequest source).names (s₁.table (sourceRequest source).parent k) = true := by
    rw [← hsame.parent, ← hsame.names]
    exact hover.slot.2
  have hlive₂ : LiveDir s₁ (sourceRequest source).parent := hsame.parent ▸ hlive₁
  obtain ⟨s₂, hdelete, hp⟩ := delete_file hover.wellFormed hlive₂ hk.1 hk.2
  refine ⟨s₂, ?_, (vacated_pruned hover.wellFormed hfind₁ (hsame.parent ▸ hp)).absent _⟩
  rw [mvFile, if_neg hbad, hcopy]
  simp only [bind, Except.bind, ne_eq, not_true_eq_false, if_false, hdelete]
  rfl

end File

/-- A file moved is never lost just if its target has another name or directory. -/
theorem mv_file_iff {state : ShellState} {s : FileSystem} {src dest : List UInt8}
    {source target : Resolved} (hw : WellFormed s) (hd : LiveDir s state.workDir)
    (hsource : getCurrAndParentCluster s src state.workDir = .ok source) (hcode : source.code = 0)
    (htarget : getCurrAndParentCluster s dest state.workDir = .ok target)
    (hroom : ∀ i, DestSlot s (sourceRequest source) (sourceRequest source).parent i →
      clusterCount (s.table (sourceRequest source).parent i).filesize.toNat ≤
        s.freeClusters.length + reusable s (fileTarget source target)) :
    mv state s src dest = (mvFile s source target).map Prod.snd ∧
      ((∀ s', mvFile s source target = .ok (true, s') → ∃ i k,
          DestSlot s (sourceRequest source) (sourceRequest source).parent i ∧
          HoldsCopy s s' (sourceRequest source) (fileTarget source target) i k) ↔
        MovesAway source target) := by
  obtain ⟨hs, i, hi⟩ := source_slot hw hd hsource hcode
  have ht := @fileTarget_liveDir _ _ _ source _ (hw.mono fun _ _ _ => trivial) hd htarget
  refine ⟨mv_file hsource hcode htarget, fun hkeeps => ?_, fun haway s' h => ?_⟩
  · by_contra haway
    obtain ⟨s', hs', hnone⟩ := mvFile_loses hw hs hi haway
    obtain ⟨j, k, -, hcopy⟩ := hkeeps s' hs'
    exact hnone k hcopy.slot
  · obtain ⟨k, hcopy⟩ := mvFile_keeps hw hs hi ht (hroom i hi) haway h
    exact ⟨i, k, hi, hcopy⟩

theorem resolve_row {s : FileSystem} {d : Nat} {row : List UInt8}
    (hrows : strsplit row slash = .ok [row, []]) (hlast : strsplit row dot = .ok [row, []])
    (hlen : row.length ≤ 8) : getCurrAndParentCluster s row d =
      match findEntry (readTable s d) (toName row) (toExt []) with
      | none => .ok ⟨2, d, 0, toName row, toExt []⟩
      | some e => .ok ⟨if e.isSubdirectory then 1 else 0, d, e.clusterNumber, toName row,
          toExt []⟩ := by
  have hloop : parentLoop s [row, []] d = .ok (some (d, row)) := by
    rw [parentLoop, if_pos rfl]
  simp only [getCurrAndParentCluster, bind, Except.bind, hrows, hloop, hlast]
  simp only [List.getD_cons_zero, List.getD_cons_succ]
  rw [if_neg (by omega), if_neg (by decide)]
  cases findEntry (readTable s d) (toName row) (toExt []) <;> rfl

/-- A name that is not there resolves to a new entry. -/
theorem resolve_new {s : FileSystem} {d : Nat} {row : List UInt8} (hw : WellFormed s)
    (hd : LiveDir s d) (hrows : strsplit row slash = .ok [row, []])
    (hlast : strsplit row dot = .ok [row, []]) (hlen : row.length ≤ 8) (hdot : dot ∉ row)
    (hnew : ∀ j, LiveSlot s d j → (s.table d j).name ≠ toName row) :
    getCurrAndParentCluster s row d = .ok ⟨2, d, 0, toName row, toExt []⟩ := by
  rw [resolve_row hrows hlast hlen]
  cases hf : findEntry (readTable s d) (toName row) (toExt []) with
  | none => rfl
  | some e =>
    obtain ⟨j, hj, rfl, hn, -⟩ := findEntry_slot hw hd hdot hf
    exact absurd hn (hnew j hj)

/-- The name of `byteRequest` as a path. -/
def bytePath : List UInt8 := List.replicate 8 97

/-- A disk with that file and nothing else. -/
theorem resolve_byteFile : ∃ s i, WellFormed s ∧ Readable s byteRequest i ∧
    (∀ j, LiveSlot s rootClusterNumber j → j = i) ∧
    clusterCount (s.table rootClusterNumber i).filesize.toNat ≤ s.freeClusters.length ∧
    getCurrAndParentCluster s bytePath initial.workDir = .ok ⟨0, rootClusterNumber,
      (s.table rootClusterNumber i).clusterNumber, byteRequest.name, byteRequest.ext⟩ := by
  obtain ⟨s, i, cs, hs, hw, hwr⟩ :=
    createFat32_written (fun _ => 0) zeroBytes byteRequest rfl (by decide)
  have hfile := hwr.fileSlot (by decide)
  have hsize := hwr.filesize
  have hroom := hwr.room
  rw [createFat32_room] at hroom
  have hnamed := FAT32DriverRequest.names_iff.mp hwr.named
  have hpath : toName bytePath = byteRequest.name := by
    decide
  have hfound := findEntry_found hw reach_root hfile.1 (by
    rw [show (s.table rootClusterNumber i).name = byteRequest.name from hnamed.1]
    decide)
  have hr : Readable s byteRequest i :=
    hwr.readable (createFat32_wellFormed _ _) (by decide) rfl rfl rfl UInt32.le_rfl
  refine ⟨s, i, hw, hr, fun j hj => createFat32_only _ _ hwr rfl hj, ?_, ?_⟩
  · rw [show (s.table rootClusterNumber i).filesize = 1 from hsize]
    have hneed : clustersNeeded byteRequest = 1 := rfl
    have hone : clusterCount (1 : UInt32).toNat = 1 := rfl
    omega
  · have hkey : findEntry (readTable s rootClusterNumber) (toName bytePath) (toExt []) =
        some (s.table rootClusterNumber i) := by
      rw [hpath]
      rwa [show (s.table rootClusterNumber i).name = byteRequest.name from hnamed.1,
        show (s.table rootClusterNumber i).ext = byteRequest.ext from hnamed.2] at hfound
    have hkind : (s.table rootClusterNumber i).isSubdirectory = false := hfile.2
    rw [resolve_row (by rfl) (by rfl) (by decide), show initial.workDir = rootClusterNumber from rfl,
      hkey]
    simp only [hkind, hpath]
    rfl

/-- Moving the file to `b` reports success. -/
theorem mv_file_iff_away : ∃ s s' source target i k,
    mvFile s source target = .ok (true, s') ∧ mv initial s bytePath [98] = .ok s' ∧
      HoldsCopy s s' (sourceRequest source) (fileTarget source target) i k := by
  obtain ⟨s, i, hw, hr, honly, hroom, hsource⟩ := resolve_byteFile
  have htarget : getCurrAndParentCluster s [98] initial.workDir =
      .ok ⟨2, rootClusterNumber, 0, toName [98], toExt []⟩ := by
    refine resolve_new hw reach_root (by rfl) (by rfl) (by decide) (by decide) fun j hj hn => ?_
    rw [honly j hj] at hn
    have ha := (FAT32DriverRequest.names_iff.mp hr.named).1
    exact absurd (congrFun (ha.symm.trans hn) 0) (by decide)
  have hkeeps := mv_file_iff hw reach_root hsource rfl htarget fun j hj => by
    rw [honly j hj.2.1.1]
    exact hroom.trans (Nat.le_add_right _ _)
  have hname : toName [98] ≠ byteRequest.name := fun hn => absurd (congrFun hn 0) (by decide)
  obtain ⟨hs, j, hj⟩ := source_slot hw reach_root hsource rfl
  obtain rfl : j = i := honly j hj.2.1.1
  have hnofolder (k : Fin entryCount) : folderChild s rootClusterNumber k = none := by
    by_contra hk
    obtain ⟨c, hc⟩ := Option.ne_none_iff_exists'.mp hk
    have hfile : FileSlot s rootClusterNumber j := hj.2.1
    rw [honly k (folderChild_eq_some.mp hc).1, folderChild_of_fileSlot hfile] at hc
    cases hc
  obtain ⟨s', hs'⟩ : ∃ s', mvFile s ⟨0, rootClusterNumber,
      (s.table rootClusterNumber j).clusterNumber, byteRequest.name, byteRequest.ext⟩
      ⟨2, rootClusterNumber, 0, toName [98], toExt []⟩ = .ok (true, s') :=
    mvFile_moves hw hs hj reach_root (by decide) (fun hsame => hname hsame.name)
      (dead_of_only honly) (hroom.trans (Nat.le_add_right _ _)) hnofolder
  obtain ⟨i, k, -, hcopied⟩ := hkeeps.2.mpr (.inr fun hsame => hname hsame.name) s' hs'
  refine ⟨s, s', _, _, i, k, hs', ?_, hcopied⟩
  rw [hkeeps.1, hs']
  rfl

/-- Moving the file onto itself reports success and leaves nothing. -/
theorem mv_file_lost : ∃ s source s', WellFormed s ∧
    getCurrAndParentCluster s bytePath initial.workDir = .ok source ∧ source.code = 0 ∧
    mvFile s source source = .ok (true, s') ∧ mv initial s bytePath bytePath = .ok s' ∧
    ∀ i k, ¬ HoldsCopy s s' (sourceRequest source) (fileTarget source source) i k := by
  obtain ⟨s, i, hw, -, -, -, hsource⟩ := resolve_byteFile
  obtain ⟨hlive, j, hj⟩ := source_slot hw reach_root hsource rfl
  obtain ⟨s', hs', hnone⟩ := mvFile_loses hw hlive hj (not_movesAway_self rfl)
  refine ⟨s, _, s', hw, hsource, rfl, hs', ?_, fun j k hcopy => hnone k hcopy.slot⟩
  rw [mv_file hsource rfl hsource, hs']
  rfl

end Doors.Shell
