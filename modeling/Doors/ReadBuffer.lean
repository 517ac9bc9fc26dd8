import Doors.FatReadBack

/-! What `read` does to the memory behind its buffer. The size of a file is compared in
bytes, but its clusters are copied whole, the rest of the last one included. -/

namespace Doors.Fat32

open FileSystem

/-- Byte `k` of the clusters of a chain, one cluster after another. -/
def chainByte (s : FileSystem) (l : List Nat) (k : Nat) : UInt8 :=
  s.cluster (l.getD (k / clusterSize) 0) ⟨k % clusterSize, Nat.mod_lt _ (by decide)⟩

section Chain

variable {s : FileSystem} {x : Nat} {l : List Nat} {k : Nat}

theorem chainByte_head (hk : k < 2048) : chainByte s (x :: l) k = s.cluster x ⟨k, hk⟩ := by
  have hdiv : k / clusterSize = 0 := Nat.div_eq_of_lt hk
  have hmod : k % clusterSize = k := Nat.mod_eq_of_lt hk
  simp only [chainByte, hdiv, hmod, List.getD_cons_zero]

theorem chainByte_tail (hk : 2048 ≤ k) : chainByte s (x :: l) k = chainByte s l (k - 2048) := by
  have hdiv : k / clusterSize = (k - 2048) / clusterSize + 1 := by
    simp only [clusterSize, blockSize, clusterBlockCount]
    omega
  have hmod : k % clusterSize = (k - 2048) % clusterSize := by
    simp only [clusterSize, blockSize, clusterBlockCount]
    omega
  simp only [chainByte, hdiv, hmod, List.getD_cons_succ]

theorem readClusters_apply (mem : Nat → UInt8) (idx : Nat) : s.readClusters mem idx x k =
    if 2048 * idx ≤ k ∧ k < 2048 * idx + 2048 then chainByte s (x :: l) (k - 2048 * idx)
    else mem k := by
  simp only [readClusters, blit, clusterSize, blockSize, clusterBlockCount, Nat.reduceMul]
  by_cases h : 2048 * idx ≤ k ∧ k < 2048 * idx + 2048
  · have hk : k - 2048 * idx < 2048 := by
      omega
    rw [if_pos h, if_pos h, chainByte_head hk, cluster]
  · rw [if_neg h, if_neg h]

/-- The clusters of the chain land one after another, and the memory around them stays. -/
theorem readAll_apply (mem : Nat → UInt8) (idx : Nat) : readAll s mem idx l k =
    if 2048 * idx ≤ k ∧ k < 2048 * (idx + l.length) then chainByte s l (k - 2048 * idx)
    else mem k := by
  induction l generalizing mem idx with
  | nil =>
    have hno : ¬ (2048 * idx ≤ k ∧ k < 2048 * (idx + 0)) := by
      omega
    exact (if_neg hno).symm
  | cons x l ih =>
    rw [readAll, ih, readClusters_apply (l := l), List.length_cons]
    by_cases hlow : k < 2048 * idx
    · rw [if_neg (by omega), if_neg (by omega), if_neg (by omega)]
    · by_cases hhead : k < 2048 * idx + 2048
      · rw [if_neg (by omega), if_pos ⟨by omega, hhead⟩, if_pos ⟨by omega, by omega⟩]
      · have hrest : k - 2048 * (idx + 1) = k - 2048 * idx - 2048 := by
          omega
        rw [chainByte_tail (k := k - 2048 * idx) (by omega), hrest,
          if_neg (c := 2048 * idx ≤ k ∧ k < 2048 * idx + 2048) (by omega)]
        by_cases hhigh : k < 2048 * (idx + (l.length + 1))
        · rw [if_pos ⟨by omega, by omega⟩, if_pos ⟨by omega, hhigh⟩]
        · rw [if_neg (by omega), if_neg (by omega)]

theorem readAll_from_start (mem : Nat → UInt8) : readAll s mem 0 l k =
    if k < 2048 * l.length then chainByte s l k else mem k := by
  rw [readAll_apply]
  simp only [Nat.mul_zero, Nat.zero_le, true_and, Nat.zero_add, Nat.sub_zero]

end Chain

/-- A file of a directory in the tree has the requested name and fits into the buffer. -/
structure Readable (s : FileSystem) (request : Request) (i : Fin entryCount) : Prop where
  parent : LiveDir s request.parent
  file : FileSlot s request.parent i
  named : request.names (s.table request.parent i) = true
  size : (s.table request.parent i).filesize ≤ request.bufferSize

/-- From any memory `read` returns, with what its contract says of code and buffer. -/
def ReadContract (s : FileSystem) (request : Request) : Prop :=
  ∀ mem, ∃ code buf, readBack s { request with buf := mem } = .ok (code, buf) ∧
    (∀ k, request.bufferSize.toNat ≤ k → buf k = mem k) ∧
    (code = 0 ↔ ∃ i, Readable s request i) ∧
    ∀ i l, Readable s request i →
      Walk s.next fatEndOfFile (s.table request.parent i).clusterNumber l →
      ∀ k < (s.table request.parent i).filesize.toNat, buf k = chainByte s l k

/-- The parent is in the map, and what `read` would copy is a file of the tree whose whole
clusters fit into the buffer. -/
def ClustersFit (s : FileSystem) (request : Request) : Prop :=
  request.parent < clusterMapSize ∧
    ∀ i, s.next request.parent = fatEndOfFile →
      findFile (s.loadDir request.parent) request = some i →
      (s.table request.parent i).filesize ≤ request.bufferSize →
      LiveDir s request.parent ∧
        clusterCount (s.table request.parent i).filesize.toNat * clusterSize ≤
          request.bufferSize.toNat

section Contract

variable {s : FileSystem} {request : Request}

/-- Without a file of that name `read` leaves the buffer and does not return 0. -/
theorem readLoop_missing {is : List (Fin entryCount)} {code : Int} (hcode : code ≠ 0)
    (h : is.find? (fun i => (s.dirTableBuf i).live && request.matchesName (s.dirTableBuf i) &&
      (!(s.dirTableBuf i).isSubdirectory && request.matchesExt (s.dirTableBuf i))) = none) :
    ∃ code', code' ≠ 0 ∧ readLoop s request is code = .ok (code', request.buf) := by
  induction is generalizing code with
  | nil => exact ⟨code, hcode, rfl⟩
  | cons k is ih =>
    rw [List.find?_cons] at h
    cases hl : (s.dirTableBuf k).live with
    | false =>
      simp only [hl, Bool.false_and] at h
      simpa only [readLoop, hl, Bool.not_false, if_true] using ih hcode h
    | true =>
      cases hn : request.matchesName (s.dirTableBuf k) with
      | false =>
        simp only [hl, hn, Bool.and_false, Bool.false_and] at h
        simpa only [readLoop, hl, hn, Bool.not_true, Bool.false_eq_true, if_false] using
          ih hcode h
      | true =>
        cases hm : !(s.dirTableBuf k).isSubdirectory && request.matchesExt (s.dirTableBuf k) with
        | false =>
          simp only [hl, hn, hm, Bool.and_false] at h
          have hnext : (if (s.dirTableBuf k).isSubdirectory = true then 1 else code) ≠ 0 := by
            split_ifs <;> simp [hcode]
          simpa only [readLoop, hl, hn, hm, Bool.not_true, Bool.false_eq_true, if_false,
            if_true] using ih hnext h
        | true =>
          simp [hl, hn, hm] at h

theorem readBack_refused (hp : request.parent < 512) (hmark : s.next request.parent ≠ fatEndOfFile) :
    readBack s request = .ok (-1, request.buf) := by
  rw [readBack, read, s.withParent_refused hp hmark]
  rfl

theorem readBack_missing (hp : request.parent < 512) (hmark : s.next request.parent = fatEndOfFile)
    (hfind : findFile (s.loadDir request.parent) request = none) :
    ∃ code, code ≠ 0 ∧ readBack s request = .ok (code, request.buf) := by
  obtain ⟨code, hne, hloop⟩ := readLoop_missing (show (2 : Int) ≠ 0 by decide) hfind
  refine ⟨code, hne, ?_⟩
  rw [readBack, read, s.withParent_accepted hp hmark]
  simp only [hloop]
  rfl

/-- A file that `read` finds is refused for its size or copied with code 0. -/
theorem readBack_found (hp : request.parent < 512) (hmark : s.next request.parent = fatEndOfFile)
    {i : Fin entryCount} (hfind : findFile (s.loadDir request.parent) request = some i) :
    readBack s request =
      if request.bufferSize < (s.table request.parent i).filesize then .ok (-1, request.buf)
      else do
        let buf ← readChain s clusterMapSize request.buf 0 (s.table request.parent i).clusterNumber
        return (0, buf) := by
  rw [readBack, read, s.withParent_accepted hp hmark]
  simp only [readLoop_found hfind, readChain_loadDir, dirTableBuf_loadDir]
  split_ifs
  · rfl
  · cases readChain s clusterMapSize request.buf 0 (s.table request.parent i).clusterNumber <;> rfl

theorem Readable.find (hw : WellFormed s) {i : Fin entryCount} (h : Readable s request i) :
    findFile (s.loadDir request.parent) request = some i := findFile_eq hw h.parent h.file h.named

theorem Readable.unique (hw : WellFormed s) {i j : Fin entryCount} (hi : Readable s request i)
    (hj : Readable s request j) : i = j :=
  Option.some.inj ((hi.find hw).symm.trans (hj.find hw))

theorem readable_of_find {i : Fin entryCount} (hp : LiveDir s request.parent)
    (hfind : findFile (s.loadDir request.parent) request = some i)
    (hsize : (s.table request.parent i).filesize ≤ request.bufferSize) : Readable s request i :=
  ⟨hp, (findFile_some hfind).1, (findFile_some hfind).2, hsize⟩

theorem Readable.readBack_eq (hw : WellFormed s) {i : Fin entryCount} (h : Readable s request i)
    {l : List Nat} (hl : Walk s.next fatEndOfFile (s.table request.parent i).clusterNumber l) :
    readBack s request = .ok (0, readAll s request.buf 0 l) :=
  readBack_fits hw h.parent h.file h.named h.size hl

theorem Readable.chain_length (hw : WellFormed s) {i : Fin entryCount} (h : Readable s request i)
    {l : List Nat} (hl : Walk s.next fatEndOfFile (s.table request.parent i).clusterNumber l) :
    l.length = clusterCount (s.table request.parent i).filesize.toNat := by
  obtain ⟨l', hl', -, hlen, -⟩ := hw.file_chain h.parent h.file
  rw [hl.unique hl', hlen]

theorem le_clusterCount (n : Nat) : n ≤ clusterCount n * clusterSize := by
  simp only [clusterCount, clusterSize, blockSize, clusterBlockCount]
  split_ifs <;> omega

theorem Readable.contract (hw : WellFormed s) {i : Fin entryCount} (h : Readable s request i)
    (hfit : clusterCount (s.table request.parent i).filesize.toNat * clusterSize ≤
      request.bufferSize.toNat) : ReadContract s request := by
  intro mem
  obtain ⟨l, hl, -⟩ := hw.file_chain h.parent h.file
  have hm : Readable s { request with buf := mem } i := ⟨h.parent, h.file, h.named, h.size⟩
  have hlen := h.chain_length hw hl
  have hcover := le_clusterCount (s.table request.parent i).filesize.toNat
  rw [← hlen] at hfit hcover
  simp only [clusterSize, blockSize, clusterBlockCount] at hfit hcover
  refine ⟨0, readAll s mem 0 l, hm.readBack_eq hw hl, fun k hk => ?_, ⟨fun _ => ⟨i, h⟩, fun _ => rfl⟩, ?_⟩
  · rw [readAll_from_start, if_neg (by omega)]
  · intro j l' hj hl' k hk
    obtain rfl := hj.unique hw h
    rw [hl'.unique hl, readAll_from_start, if_pos (by omega)]

theorem contract_of_silent (hsilent : ∀ mem, ∃ code, code ≠ 0 ∧
    readBack s { request with buf := mem } = .ok (code, mem))
    (hnone : ∀ i, ¬ Readable s request i) : ReadContract s request := by
  intro mem
  obtain ⟨code, hne, hread⟩ := hsilent mem
  exact ⟨code, mem, hread, fun _ _ => rfl,
    ⟨fun h0 => absurd h0 hne, fun ⟨i, hi⟩ => absurd hi (hnone i)⟩,
    fun i _ hi => absurd hi (hnone i)⟩

theorem ClustersFit.contract (hw : WellFormed s) (h : ClustersFit s request) :
    ReadContract s request := by
  obtain ⟨hp, hfit⟩ := h
  by_cases hmark : s.next request.parent = fatEndOfFile
  · cases hfind : findFile (s.loadDir request.parent) request with
    | none =>
      refine contract_of_silent (fun mem => ?_) fun i hi => ?_
      · exact @readBack_missing _ { request with buf := mem } hp hmark hfind
      · rw [hi.find hw] at hfind
        cases hfind
    | some i =>
      by_cases hsize : request.bufferSize < (s.table request.parent i).filesize
      · refine contract_of_silent (fun mem => ⟨-1, by decide, ?_⟩) fun j hj => ?_
        · have hread := @readBack_found _ { request with buf := mem } hp hmark _ hfind
          exact hread.trans (if_pos hsize)
        · rw [hj.find hw, Option.some.injEq] at hfind
          exact absurd hj.size (UInt32.not_le.mpr (hfind ▸ hsize))
      · have hle := UInt32.not_lt.mp hsize
        obtain ⟨hlive, hcount⟩ := hfit i hmark hfind hle
        exact (readable_of_find hlive hfind hle).contract hw hcount
  · refine contract_of_silent (fun mem => ⟨-1, by decide, ?_⟩) fun i hi => hmark (hw.dir_mark hi.parent)
    exact @readBack_refused _ { request with buf := mem } hp hmark

theorem readChain_ok_code {mem : Nat → UInt8} {fuel c : Nat} {r : Int × (Nat → UInt8)}
    (h : (do
      let buf ← readChain s fuel mem 0 c
      return (0, buf) : Except Fault (Int × (Nat → UInt8))) = .ok r) : r.1 = 0 := by
  cases hread : readChain s fuel mem 0 c with
  | error e =>
    rw [hread] at h
    cases h
  | ok buf =>
    rw [hread] at h
    cases h
    rfl

theorem Readable.not_contract (hw : WellFormed s) {i : Fin entryCount} (h : Readable s request i)
    (hfit : request.bufferSize.toNat <
      clusterCount (s.table request.parent i).filesize.toNat * clusterSize) :
    ¬ ReadContract s request := by
  intro hcontract
  obtain ⟨l, hl, -⟩ := hw.file_chain h.parent h.file
  obtain ⟨code, buf, hread, hframe, -⟩ := hcontract fun k => chainByte s l k + 1
  have hm : Readable s { request with buf := fun k => chainByte s l k + 1 } i :=
    ⟨h.parent, h.file, h.named, h.size⟩
  have heq := (hm.readBack_eq hw hl).symm.trans hread
  simp only [Except.ok.injEq, Prod.mk.injEq] at heq
  have hbyte := hframe request.bufferSize.toNat (Nat.le_refl _)
  rw [← h.chain_length hw hl] at hfit
  simp only [clusterSize, blockSize, clusterBlockCount] at hfit
  rw [← heq.2, readAll_from_start, if_pos (by omega)] at hbyte
  simp at hbyte

theorem ReadContract.fits (hw : WellFormed s) (h : ReadContract s request) :
    ClustersFit s request := by
  have hp : request.parent < clusterMapSize := by
    by_contra hout
    obtain ⟨code, buf, hread, -⟩ := h request.buf
    rw [readBack, read, s.withParent_outOfBounds (Nat.le_of_not_lt hout)] at hread
    cases hread
  refine ⟨hp, fun i hmark hfind hsize => ?_⟩
  obtain ⟨code, buf, hread, -, hcode, -⟩ := h request.buf
  have hzero : code = 0 := by
    rw [readBack_found hp hmark hfind, if_neg (UInt32.not_lt.mpr hsize)] at hread
    exact readChain_ok_code hread
  obtain ⟨j, hj⟩ := hcode.mp hzero
  have hi := readable_of_find hj.parent hfind hsize
  refine ⟨hj.parent, ?_⟩
  by_contra hlt
  exact hi.not_contract hw (by omega) h

theorem read_of_readBack {req : Request} {code : Int} {buf : Nat → UInt8}
    (h : readBack s req = .ok (code, buf)) : ∃ s', read s req = .ok (code, buf, s') := by
  rw [readBack] at h
  cases hread : read s req with
  | error f =>
    rw [hread] at h
    cases h
  | ok result =>
    rw [hread] at h
    cases h
    exact ⟨_, rfl⟩

theorem readBack_of_read {req : Request} {code : Int} {buf : Nat → UInt8} {s' : FileSystem}
    (h : read s req = .ok (code, buf, s')) : readBack s req = .ok (code, buf) := by
  rw [readBack, h]
  rfl

/-- Code 0 comes with a file of the requested name that fits. -/
theorem readable_of_ok (hw : WellFormed s) {req : Request} {buf : Nat → UInt8}
    (hp : LiveDir s req.parent) (h : readBack s req = .ok (0, buf)) : ∃ j, Readable s req j := by
  have hlt := (hw.dir_range hp).2
  cases hfind : findFile (s.loadDir req.parent) req with
  | none =>
    obtain ⟨code, hne, hread⟩ := readBack_missing hlt (hw.dir_mark hp) hfind
    cases hread.symm.trans h
    exact absurd rfl hne
  | some j =>
    refine ⟨j, readable_of_find hp hfind (UInt32.not_lt.mp fun hsize => ?_)⟩
    rw [readBack_found hlt (hw.dir_mark hp) hfind, if_pos hsize] at h
    cases h

/-- The file is in the buffer, from its first byte on. -/
theorem Readable.bytes (hw : WellFormed s) {req : Request} {j : Fin entryCount}
    (h : Readable s req j) {l : List Nat}
    (hl : Walk s.next fatEndOfFile (s.table req.parent j).clusterNumber l) :
    ∃ buf, readBack s req = .ok (0, buf) ∧ (∀ k, 2048 * l.length ≤ k → buf k = req.buf k) ∧
      ∀ k < 2048 * l.length, buf k = chainByte s l k := by
  refine ⟨_, h.readBack_eq hw hl, fun k hk => ?_, fun k hk => ?_⟩
  · rw [readAll_from_start, if_neg (Nat.not_lt.mpr hk)]
  · rw [readAll_from_start, if_pos hk]

theorem Readable.length_le (hw : WellFormed s) {req : Request} {j : Fin entryCount}
    (h : Readable s req j) {l : List Nat}
    (hl : Walk s.next fatEndOfFile (s.table req.parent j).clusterNumber l) :
    (s.table req.parent j).filesize.toNat ≤ 2048 * l.length := by
  have hcover := le_clusterCount (s.table req.parent j).filesize.toNat
  rw [← h.chain_length hw hl] at hcover
  simp only [clusterSize, blockSize, clusterBlockCount] at hcover
  omega

end Contract

/-- `read` keeps its contract just when the whole clusters of what it copies fit. -/
theorem read_contract_iff {s : FileSystem} (hw : WellFormed s) (request : Request) :
    ReadContract s request ↔ ClustersFit s request :=
  ⟨fun h => h.fits hw, fun h => h.contract hw⟩

/-- A buffer of one byte for a file of one byte. -/
def byteRequest : Request := ⟨fun _ => 7, fun _ => 'a'.toUInt8, fun _ => 0, 2, 1⟩

theorem Written.readable {s s' : FileSystem} {made request : Request} {j : Fin entryCount}
    {cs : List Nat} (h : Written s s' made j cs) (hw : WellFormed s) (hz : made.bufferSize ≠ 0)
    (hp : request.parent = made.parent) (hn : request.name = made.name)
    (hx : request.ext = made.ext) (hsize : made.bufferSize ≤ request.bufferSize) :
    Readable s' request j := by
  obtain ⟨hname, hext⟩ := FAT32DriverRequest.names_iff.mp h.named
  constructor
  · exact hp ▸ h.liveParent hw
  · exact hp ▸ h.fileSlot hz
  · rw [hp]
    exact FAT32DriverRequest.names_iff.mpr ⟨hname.trans hn.symm, hext.trans hx.symm⟩
  · rw [hp, h.filesize]
    exact hsize

theorem byteFile_written : ∃ s i, write (createFat32 (fun _ => 0) (boot zeroBytes)) byteRequest =
    .ok (0, s) ∧ WellFormed s ∧ Readable s byteRequest i ∧
      (s.table byteRequest.parent i).filesize = 1 := by
  obtain ⟨s, i, cs, hs, hw, hwr⟩ :=
    createFat32_written (fun _ => 0) zeroBytes byteRequest rfl (by decide)
  have hr : Readable s byteRequest i :=
    hwr.readable (createFat32_wellFormed _ _) (by decide) rfl rfl rfl UInt32.le_rfl
  exact ⟨s, i, hs, hw, hr, hwr.filesize⟩

/-- A whole cluster takes the file. -/
theorem read_contract_iff_cluster : ∃ s i, WellFormed s ∧ Readable s byteRequest i ∧
    ReadContract s { byteRequest with bufferSize := 2048 } := by
  obtain ⟨s, i, -, hw, hr, hsize⟩ := byteFile_written
  refine ⟨s, i, hw, hr, (read_contract_iff hw _).mpr ⟨by decide, fun j _ hfind _ => ⟨hr.parent, ?_⟩⟩⟩
  have hj : some i = some j := (hr.find hw).symm.trans hfind
  rw [← Option.some.inj hj]
  exact (congrArg (fun n : UInt32 => clusterCount n.toNat * clusterSize) hsize).trans_le (by decide)

/-- One byte is asked for, and 2048 are written. -/
theorem read_overruns : ∃ s i, write (createFat32 (fun _ => 0) (boot zeroBytes)) byteRequest =
    .ok (0, s) ∧ WellFormed s ∧ Readable s byteRequest i ∧ ¬ ReadContract s byteRequest := by
  obtain ⟨s, i, hs, hw, hr, hsize⟩ := byteFile_written
  refine ⟨s, i, hs, hw, hr, hr.not_contract hw ?_⟩
  rw [hsize]
  decide

end Doors.Fat32
