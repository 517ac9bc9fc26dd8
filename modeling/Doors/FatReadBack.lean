import Doors.FatRuns

/-! Reading a named file. What a file reads as depends on its entry, its chain and
the contents of the chain; a new file reads as the buffer it was written from. -/

namespace Doors.Fat32

open PointerTree FileSystem

variable {Fits : UInt32 → Nat → Prop}

/-- Code and buffer that `read` returns. -/
def readBack (s : FileSystem) (request : Request) : Except Fault (Int × (Nat → UInt8)) := do
  let (code, buf, _) ← read s request
  return (code, buf)

theorem readLoop_found {s : FileSystem} {request : Request} {i : Fin entryCount}
    {is : List (Fin entryCount)} {code : Int}
    (h : is.find? (fun i => (s.dirTableBuf i).live && request.matchesName (s.dirTableBuf i) &&
      (!(s.dirTableBuf i).isSubdirectory && request.matchesExt (s.dirTableBuf i))) = some i) :
    readLoop s request is code =
      if request.bufferSize < (s.dirTableBuf i).filesize then .ok (-1, request.buf)
      else do
        let buf ← readChain s clusterMapSize request.buf 0 (s.dirTableBuf i).clusterNumber
        return (0, buf) := by
  induction is generalizing code with
  | nil => simp at h
  | cons k is ih =>
    rw [List.find?_cons] at h
    cases hl : (s.dirTableBuf k).live with
    | false =>
      simp only [hl, Bool.false_and] at h
      simp only [readLoop, hl, Bool.not_false, if_true, ih h]
    | true =>
      cases hn : request.matchesName (s.dirTableBuf k) with
      | false =>
        simp only [hl, hn, Bool.and_false, Bool.false_and] at h
        simp only [readLoop, hl, hn, Bool.not_true, Bool.false_eq_true, if_false, ih h]
      | true =>
        cases hm : !(s.dirTableBuf k).isSubdirectory && request.matchesExt (s.dirTableBuf k) with
        | false =>
          simp only [hl, hn, hm, Bool.and_false] at h
          simp only [readLoop, hl, hn, hm, Bool.not_true, Bool.false_eq_true, if_false, if_true,
            ih h]
        | true =>
          simp only [hl, hn, hm, Bool.and_true, Option.some.injEq] at h
          subst h
          simp only [readLoop, hl, hn, hm, Bool.not_true, Bool.false_eq_true, if_false, if_true]

/-- `read` of a file of the tree: refused for a small buffer, else the whole chain. -/
theorem readBack_file {s : FileSystem} (hw : Formed Fits s) {request : Request}
    {i : Fin entryCount} {l : List Nat} (hp : LiveDir s request.parent)
    (hf : FileSlot s request.parent i) (hn : request.names (s.table request.parent i) = true)
    (hl : Walk s.next fatEndOfFile (s.table request.parent i).clusterNumber l) :
    readBack s request =
      if request.bufferSize < (s.table request.parent i).filesize then .ok (-1, request.buf)
      else .ok (0, readAll s request.buf 0 l) := by
  obtain ⟨l', hl', hread⟩ := readChain_file hw hp hf request.buf
  obtain rfl := hl'.unique hl
  have hloop : readLoop (s.loadDir request.parent) request (slotsFrom 2) 2 =
      if request.bufferSize < (s.table request.parent i).filesize then .ok (-1, request.buf)
      else .ok (0, readAll s request.buf 0 l') := by
    rw [readLoop_found (findFile_eq hw hp hf hn), dirTableBuf_loadDir, readChain_loadDir, hread]
    rfl
  rw [readBack, read, s.withParent_accepted (hw.dir_range hp).2 (hw.dir_mark hp)]
  simp only [hloop]
  split_ifs <;> rfl

theorem readBack_fits {s : FileSystem} {request : Request} {i : Fin entryCount} {l : List Nat}
    (hw : Formed Fits s) (hp : LiveDir s request.parent) (hf : FileSlot s request.parent i)
    (hn : request.names (s.table request.parent i) = true)
    (hb : (s.table request.parent i).filesize ≤ request.bufferSize)
    (hl : Walk s.next fatEndOfFile (s.table request.parent i).clusterNumber l) :
    readBack s request = .ok (0, readAll s request.buf 0 l) := by
  rw [readBack_file hw hp hf hn hl, if_neg (UInt32.not_lt.mpr hb)]

/-- The file in slot `j` of `d` is the same in both states. -/
structure KeepsFile (s s' : FileSystem) (d : Nat) (j : Fin entryCount) (l : List Nat) : Prop where
  entry : s'.table d j = s.table d j
  chain : Walk s.next fatEndOfFile (s.table d j).clusterNumber l
  chain' : Walk s'.next fatEndOfFile (s.table d j).clusterNumber l
  contents : ∀ c ∈ l, s'.cluster c = s.cluster c

theorem KeepsFile.refl {s : FileSystem} {d : Nat} {j : Fin entryCount} (hw : Formed Fits s)
    (hd : LiveDir s d) (hf : FileSlot s d j) : ∃ l, KeepsFile s s d j l := by
  obtain ⟨l, hl, -⟩ := hw.file_chain hd hf
  exact ⟨l, rfl, hl, hl, fun _ _ => rfl⟩

theorem KeepsFile.fileSlot {s s' : FileSystem} {d : Nat} {j : Fin entryCount} {l : List Nat}
    (h : KeepsFile s s' d j l) (hf : FileSlot s d j) : FileSlot s' d j := by
  simp only [FileSlot, LiveSlot, h.entry]
  exact hf

theorem KeepsFile.readBack_eq {s s' : FileSystem} {request : Request} {j : Fin entryCount}
    {l : List Nat} (h : KeepsFile s s' request.parent j l) (hw : Formed Fits s)
    (hw' : Formed Fits s') (hd : LiveDir s request.parent) (hd' : LiveDir s' request.parent)
    (hf : FileSlot s request.parent j) (hn : request.names (s.table request.parent j) = true) :
    readBack s' request = readBack s request := by
  have hf' := h.fileSlot hf
  have hn' : request.names (s'.table request.parent j) = true := by rw [h.entry, hn]
  have hl' := h.chain'
  rw [← h.entry] at hl'
  rw [readBack_file hw hd hf hn h.chain, readBack_file hw' hd' hf' hn' hl', h.entry,
    readAll_congr h.contents]

theorem Grown.keepsFile {s s' : FileSystem} {p d : Nat} {i j : Fin entryCount}
    {e : FAT32DirectoryEntry} {cs : List Nat} (hg : Grown s s' p i e cs) (hw : Formed Fits s)
    (hd : LiveDir s d) (hf : FileSlot s d j) : ∃ l, KeepsFile s s' d j l := by
  obtain ⟨l, hl, -⟩ := hw.file_chain hd hf
  refine ⟨l, (hg.liveSlot_old hw hd hf.1).2, hl, hg.walk_old hw hd hf hl, fun c hc => ?_⟩
  have ho : Owns s (some (d, j)) c := .file hd hf hl hc
  have hr := hw.file_range hd hf hl c hc
  obtain ⟨hfat, hparent⟩ := hw.owned_by_file_ne hf ho hr.1 hg.parent
  exact hg.cluster_eq c hr.2 hfat hparent (hg.owned_notMem hw ho)

section Written

variable {s s' : FileSystem} {request : Request} {i : Fin entryCount} {cs : List Nat}

theorem Written.liveParent (h : Written s s' request i cs) (hw : Formed Fits s) :
    LiveDir s' request.parent := (h.grown.liveDir_iff hw).mpr (.inl h.grown.parent)

theorem Written.entry (h : Written s s' request i cs) : s'.table request.parent i =
    newEntry (s.table request.parent i) request (newKind request) (cs.headD 0) := h.grown.entry_new

theorem Written.fileSlot (h : Written s s' request i cs) (hz : request.bufferSize ≠ 0) :
    FileSlot s' request.parent i := by
  refine ⟨h.grown.liveSlot_new, ?_⟩
  rw [h.entry, newEntry_isSubdirectory]
  simpa using hz

theorem Written.one_le_length (h : Written s s' request i cs) (hz : request.bufferSize ≠ 0) :
    1 ≤ cs.length := by
  apply h.grown.file
  rw [newEntry_isSubdirectory]
  simpa using hz

theorem Written.named (h : Written s s' request i cs) :
    request.names (s'.table request.parent i) = true := by
  rw [h.entry, FAT32DriverRequest.names_iff]
  exact ⟨rfl, rfl⟩

theorem Written.filesize (h : Written s s' request i cs) :
    (s'.table request.parent i).filesize = request.bufferSize := by
  rw [h.entry]
  rfl

theorem Written.walk (h : Written s s' request i cs) :
    Walk s'.next fatEndOfFile (s'.table request.parent i).clusterNumber cs := by
  rw [h.entry]
  exact h.grown.chain

theorem Written.readAll_eq (h : Written s s' request i cs) (hz : request.bufferSize ≠ 0)
    (mem : Nat → UInt8) {k : Nat} (hk : k < request.bufferSize.toNat) :
    readAll s' mem 0 cs k = request.buf k := by
  refine readAll_filled h.grown.nodup (h.contents hz) ?_
  rw [h.length, clustersNeeded, if_neg hz]
  simp only [clusterCount, clusterSize, blockSize, clusterBlockCount]
  split_ifs <;> omega

theorem Written.readBack_eq {reread : Request} (h : Written s s' request i cs) (hw : WellFormed s)
    (hc : ¬ Clash s request) (hz : request.bufferSize ≠ 0)
    (hparent : reread.parent = request.parent) (hname : reread.name = request.name)
    (hext : reread.ext = request.ext) (hsize : request.bufferSize ≤ reread.bufferSize) :
    readBack s' reread = .ok (0, readAll s' reread.buf 0 cs) ∧
      ∀ k < request.bufferSize.toNat, readAll s' reread.buf 0 cs k = request.buf k := by
  have hnames : reread.names (s'.table request.parent i) = true := by
    rw [FAT32DriverRequest.names_iff, hname, hext]
    exact FAT32DriverRequest.names_iff.mp h.named
  have hlive := h.liveParent hw
  have hfile := h.fileSlot hz
  have hwalk := h.walk
  have hentry := h.filesize
  rw [← hparent] at hnames hlive hfile hwalk hentry
  exact ⟨readBack_fits (h.wellFormed hw hc) hlive hfile hnames (hentry ▸ hsize) hwalk,
    fun k hk => h.readAll_eq hz reread.buf hk⟩

end Written

/-- A file that is written into a free slot reads back, and nothing else changes. -/
theorem write_read_back {s : FileSystem} (hw : WellFormed s) {request : Request}
    (hp : LiveDir s request.parent)
    (hfree : ∃ i : Fin entryCount, 2 ≤ i.val ∧ (s.table request.parent i).live = false)
    (hnew : ∀ i, LiveSlot s request.parent i → ¬ ((s.table request.parent i).name = request.name ∧
      (s.table request.parent i).ext = request.ext))
    (hz : request.bufferSize ≠ 0)
    (hroom : clusterCount request.bufferSize.toNat ≤ s.freeClusters.length) :
    ∃ s' i, write s request = .ok (0, s') ∧ 2 ≤ i.val ∧
      (s.table request.parent i).live = false ∧
      (∀ reread : Request, reread.parent = request.parent → reread.name = request.name →
        reread.ext = request.ext → request.bufferSize ≤ reread.bufferSize →
        ∃ buf, readBack s' reread = .ok (0, buf) ∧
          ∀ k < request.bufferSize.toNat, buf k = request.buf k) ∧
      (∀ d j, LiveDir s d → FileSlot s d j → ∃ l, KeepsFile s s' d j l) ∧
      (∀ d j, LiveDir s d → (d = request.parent → j ≠ i) → s'.table d j = s.table d j) := by
  have hc : ¬ Clash s request := by
    rintro ⟨i, hi, hn⟩
    exact hnew i hi (FAT32DriverRequest.names_iff.mp hn)
  obtain ⟨j, hj, hl⟩ := hfree
  obtain ⟨i, hi⟩ := firstFree_exists hj hl
  have hneed : clustersNeeded request ≤ s.freeClusters.length := by
    rwa [clustersNeeded, if_neg hz]
  obtain ⟨s', cs, hs, hwr⟩ := write_new hw hp hc hi hneed
  refine ⟨s', i, hs, (firstFree_some hi).1, (firstFree_some hi).2, ?_, ?_, ?_⟩
  · intro reread hparent hname hext hsize
    exact ⟨_, hwr.readBack_eq hw hc hz hparent hname hext hsize⟩
  · exact fun d j hd hf => hwr.grown.keepsFile hw hd hf
  · exact fun d j hd hne => hwr.grown.entry_eq hw hd hne

/-- One byte written to the file `a` of a new disk. -/
theorem write_read_back_byte : ∃ s' i,
    write (createFat32 (fun _ => 0) (boot zeroBytes))
      ⟨fun _ => 7, fun _ => 'a'.toUInt8, fun _ => 0, 2, 1⟩ = .ok (0, s') ∧ 2 ≤ i.val ∧
    (createFat32 (fun _ => 0) (boot zeroBytes)).table 2 i = .zero := by
  have hroom : 1 ≤ (createFat32 (fun _ => 0) (boot zeroBytes)).freeClusters.length := by
    rw [createFat32_room]
    decide
  have hp : LiveDir (createFat32 (fun _ => 0) (boot zeroBytes))
      (⟨fun _ => 7, fun _ => 'a'.toUInt8, fun _ => 0, 2, 1⟩ : Request).parent := reach_root
  obtain ⟨s', i, hs, hi, -⟩ := write_read_back (createFat32_wellFormed (fun _ => 0) zeroBytes) hp
    ⟨2, by decide, createFat32_dead _ _ (by decide)⟩
    (fun i hi => absurd hi (createFat32_liveSlot _ _ reach_root)) (by decide) hroom
  exact ⟨s', i, hs, hi, createFat32_slot _ _ hi⟩

end Doors.Fat32
