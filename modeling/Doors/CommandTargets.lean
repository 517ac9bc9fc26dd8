import Doors.FolderLookup
import Doors.PathPrefix
import Doors.ProcessCreation
import Doors.ReadBuffer
import Doors.SubtreeDelete

/-! Whether the commands act on the entry that the resolver found. `rm` and `cat` hand its
name and extension to the kernel, `rm -r` and `exec` only its name. -/

namespace Doors.Shell

open PointerTree Fat32 FileSystem
open Kernel (KernelState processCreateUserProcess processCreateSuccess)

variable {s : FileSystem} {state : ShellState} {path : List UInt8} {p : Nat} {i : Fin entryCount}
  {r : Resolved}

/-- `exec` up to the answer of the kernel. The program is read over `mem`, the pages of the
new process, unless the creation has failed before. -/
def exec (state : ShellState) (s : FileSystem) (k : KernelState) (mem : Nat → UInt8)
    (filename : List UInt8) : Except Fault (Option (Int × (Nat → UInt8) × KernelState)) := do
  match ← execRequest state s filename with
  | none => return none
  | some req =>
    let (readCode, loaded, _) ← read s { req with buf := mem }
    match processCreateUserProcess k req readCode with
    | none => .error .outOfBounds
    | some (resCode, k) => return some (resCode, loaded, k)

/-- The bytes of a file of `n` bytes on the chain `l`. -/
def fileBytes (s : FileSystem) (l : List Nat) (n : Nat) : List UInt8 :=
  (List.range n).map (chainByte s l)

/-- A zero byte is among the bytes or behind them, or they fill the cluster. -/
def BytesEnd (s : FileSystem) (l : List Nat) (n : Nat) : Prop :=
  n = clusterSize ∨ chainByte s l n = 0 ∨ 0 ∈ fileBytes s l n

/-- What the commands do with the entry in slot `i` of `p`. -/
structure ActsOn (state : ShellState) (s : FileSystem) (path : List UInt8) (p : Nat)
    (i : Fin entryCount) : Prop where
  rmFile : FileSlot s p i → ∃ s', rm state s path = .ok s' ∧ Pruned s s' p i
  rmFolder : ∀ a, folderChild s p i = some a → (∀ j, ¬ LiveSlot s a j) →
    ∃ s', rm state s path = .ok s' ∧ Pruned s s' p i
  rmRefused : ∀ a j, folderChild s p i = some a → LiveSlot s a j →
    ∃ s', rm state s path = .ok s' ∧ s'.clusterMap = s.clusterMap ∧ s'.disk = s.disk
  rmRec : ∀ a, folderChild s p i = some a → (s.table p i).ext = noExt →
    ∃ s', rmRec state s path = .ok s' ∧ Pruned s s' p i
  cat : ∀ l, FileSlot s p i → Walk s.next fatEndOfFile (s.table p i).clusterNumber l →
    (s.table p i).filesize.toNat ≤ clusterSize → BytesEnd s l (s.table p i).filesize.toNat →
    cat state s path =
      .ok (some ((fileBytes s l (s.table p i).filesize.toNat).takeWhile (· ≠ 0)))
  exec : ∀ l, FileSlot s p i → Walk s.next fatEndOfFile (s.table p i).clusterNumber l →
    (s.table p i).ext = noExt → ∀ k mem loaded k',
    exec state s k mem path = .ok (some (processCreateSuccess, loaded, k')) →
    (List.range (s.table p i).filesize.toNat).map loaded =
      fileBytes s l (s.table p i).filesize.toNat
  wrongKind : (FileSlot s p i → Shell.rmRec state s path = .ok s) ∧ ∀ a, folderChild s p i = some a →
    Shell.cat state s path = .ok none ∧ ∀ k mem, Shell.exec state s k mem path = .ok none

/-- The entry that the answer of the resolver is about. -/
structure Found (s : FileSystem) (r : Resolved) (i : Fin entryCount) : Prop where
  live : LiveDir s r.parentCluster
  entry : EntryAt s r.parentCluster r.filename r.ext i
  cluster : r.currentCluster = (s.table r.parentCluster i).clusterNumber
  code : r.code = if (s.table r.parentCluster i).isSubdirectory then 1 else 0

section Resolving

variable {d : Nat}

theorem enter_liveDir (hw : WellFormed s) (hd : LiveDir s d) {row : List UInt8} {c : Nat}
    (h : enter s d row = some c) : LiveDir s c := by
  rw [enter] at h
  split_ifs at h
  cases hf : findEntry (readTable s d) (toName row) noExt with
  | none => simp [hf] at h
  | some e =>
    obtain ⟨j, hj, rfl, hlive, -⟩ := findEntry_some hf
    cases hk : (readTable s d j).isSubdirectory with
    | false => simp [hf, hk] at h
    | true =>
      obtain rfl : (readTable s d j).clusterNumber = c := by simpa [hf, hk] using h
      by_cases hone : j.val = 1
      · obtain rfl : j = 1 := Fin.ext hone
        obtain ⟨-, hparent⟩ | ⟨k, hp, -⟩ := (parentOf_iff hw hd).mpr rfl
        · exact hparent ▸ reach_root
        · exact hp
      · exact hd.step (folderChild_eq_some.mpr ⟨⟨by omega, hlive⟩, hk, rfl⟩)

theorem enters_liveDir (hw : WellFormed s) (hd : LiveDir s d) {folders : List (List UInt8)}
    {c : Nat} (h : folders.foldlM (enter s) d = some c) : LiveDir s c := by
  induction folders generalizing d with
  | nil =>
    cases h
    exact hd
  | cons row folders ih =>
    rw [List.foldlM_cons, Option.bind_eq_bind, Option.bind_eq_some_iff] at h
    obtain ⟨b, hb, h⟩ := h
    exact ih (enter_liveDir hw hd hb) h

theorem found_of_code (hw : WellFormed s) (hd : LiveDir s d)
    (hr : getCurrAndParentCluster s path d = .ok r) (hcode : r.code = 0 ∨ r.code = 1) :
    ∃ i, Found s r i := by
  obtain ⟨last, c, e, h⟩ := leadsTo_of_code hr hcode
  obtain rfl := Except.ok.inj (h.eq.symm.trans hr)
  obtain ⟨folders, -, -, hc⟩ := h.looks
  have hlive := enters_liveDir hw hd hc
  obtain ⟨i, hi, rfl⟩ := (findEntry_iff hw hlive
    (toName_ne_dotDot (dot_not_mem_namePart last))).mp h.names.found
  exact ⟨i, hlive, hi, rfl, rfl⟩

theorem Found.file (h : Found s r i) (hf : FileSlot s r.parentCluster i) : r.code = 0 := by
  rw [h.code, hf.2]
  rfl

theorem Found.folder (h : Found s r i) {a : Nat}
    (ha : folderChild s r.parentCluster i = some a) : r.code = 1 := by
  rw [h.code, if_pos (folderChild_eq_some.mp ha).2.1]

end Resolving

theorem Found.request (hw : WellFormed s) (h : Found s r i) (req : Request)
    (hname : req.name = r.filename) (hext : req.ext = (s.table r.parentCluster i).ext)
    (hparent : req.parentClusterNumber = UInt32.ofNat r.parentCluster) :
    req.parent = r.parentCluster ∧ LiveDir s req.parent ∧
      req.names (s.table req.parent i) = true := by
  have hpar : req.parent = r.parentCluster := by
    have hlt := (hw.dir_range h.live).2
    simp only [FAT32DriverRequest.parent, hparent, UInt32.toNat_ofNat']
    omega
  rw [hpar]
  exact ⟨rfl, h.live, FAT32DriverRequest.names_iff.mpr
    ⟨h.entry.2.1.trans hname.symm, hext.symm⟩⟩

section Removing

variable (hw : WellFormed s) (hr : getCurrAndParentCluster s path state.workDir = .ok r)
  (hf : Found s r i)

section Equations

include hr

theorem rm_eq (hcode : r.code = 0 ∨ r.code = 1) : rm state s path =
    (delete s (request r.filename r.ext r.parentCluster)).map Prod.snd := by
  simp only [rm, bind, Except.bind, hr, if_neg (show ¬ (r.code ≠ 0 ∧ r.code ≠ 1) by omega)]
  cases delete s (request r.filename r.ext r.parentCluster) <;> rfl

theorem rmRec_eq (hcode : r.code = 1) : rmRec state s path =
    (deleteFolderRec s (request r.filename noExt r.parentCluster)).map Prod.snd := by
  simp only [rmRec, bind, Except.bind, hr, if_neg (not_not.mpr hcode)]
  cases deleteFolderRec s (request r.filename noExt r.parentCluster) <;> rfl

end Equations

include hw hr hf

theorem rm_file (hfile : FileSlot s r.parentCluster i) :
    ∃ s', rm state s path = .ok s' ∧ Pruned s s' r.parentCluster i := by
  rw [rm_eq hr (.inl (hf.file hfile))]
  generalize hreq : Shell.request r.filename r.ext r.parentCluster = req
  obtain ⟨hp, hlive, hn⟩ := hf.request hw req (by rw [← hreq]; rfl)
    (by rw [← hreq]; exact hf.entry.2.2.symm) (by rw [← hreq]; rfl)
  rw [← hp] at hfile ⊢
  obtain ⟨s', hs, hpr⟩ := delete_file hw hlive hfile hn
  rw [hs]
  exact ⟨s', rfl, hpr⟩

theorem rm_folder {a : Nat} (ha : folderChild s r.parentCluster i = some a) :
    ((∀ j, ¬ LiveSlot s a j) → ∃ s', rm state s path = .ok s' ∧ Pruned s s' r.parentCluster i) ∧
    ∀ j, LiveSlot s a j → rm state s path = .ok (s.loadDir r.parentCluster) := by
  rw [rm_eq hr (.inr (hf.folder ha))]
  generalize hreq : Shell.request r.filename r.ext r.parentCluster = req
  obtain ⟨hp, hlive, hn⟩ := hf.request hw req (by rw [← hreq]; rfl)
    (by rw [← hreq]; exact hf.entry.2.2.symm) (by rw [← hreq]; rfl)
  rw [← hp] at ha ⊢
  rw [delete_found hw hlive (folderChild_eq_some.mp ha).1 hn]
  constructor
  · intro hempty
    obtain ⟨s', hs, hpr⟩ := deleteAt_empty hw hlive ha hempty
    rw [hs]
    exact ⟨s', rfl, hpr⟩
  · intro j hj
    rw [deleteAt_nonempty ha hj]
    rfl

/-- `rm -r` removes the folder just if it has no extension. -/
theorem rmRec_removes_iff {a : Nat} (ha : folderChild s r.parentCluster i = some a) :
    (∃ s', rmRec state s path = .ok s' ∧ Pruned s s' r.parentCluster i) ↔
      (s.table r.parentCluster i).ext = noExt := by
  rw [rmRec_eq hr (hf.folder ha)]
  generalize hreq : Shell.request r.filename noExt r.parentCluster = req
  have hp : req.parent = r.parentCluster := by
    rw [← hreq]
    exact ofNat_parent (hw.dir_range hf.live).2
  constructor
  · rintro ⟨s', hs, hpr⟩
    have hcleared := hpr.entry_cleared
    have hslot := hf.entry.1
    obtain ⟨code, h⟩ | ⟨j, b, t, -, hn, h, hpr'⟩ := deleteFolderRec_outcome hw (hp ▸ hf.live)
    · rw [h] at hs
      cases hs
      rw [LiveSlot, show s.table r.parentCluster i = .zero from hcleared] at hslot
      simp at hslot
    · rw [h] at hs
      cases hs
      rw [hp] at hpr' hn
      by_cases hij : i = j
      · have hext := (FAT32DriverRequest.names_iff.mp hn).2
        rw [← hreq] at hext
        exact hij ▸ hext
      · rw [hpr'.table_eq, Function.update_of_ne hij] at hcleared
        rw [LiveSlot, hcleared] at hslot
        simp at hslot
  · intro hext
    obtain ⟨-, hlive, hn⟩ := hf.request hw req (by rw [← hreq]; rfl)
      (by rw [← hreq]; exact hext.symm) (by rw [← hreq]; rfl)
    rw [← hp] at ha ⊢
    obtain ⟨s', hs, hpr⟩ := deleteFolderRec_folder hw hlive ha hn
    rw [hs]
    exact ⟨s', rfl, hpr⟩

end Removing

section Reading

theorem puts_bytes {buf f : Nat → UInt8} {n size : Nat} (hsize : n ≤ size)
    (hbuf : ∀ k < n, buf k = f k)
    (hend : n = size ∨ buf n = 0 ∨ 0 ∈ (List.range n).map f) :
    puts buf size = ((List.range n).map f).takeWhile (· ≠ 0) := by
  obtain ⟨m, rfl⟩ := Nat.exists_eq_add_of_le hsize
  have hbytes : (List.range n).map buf = (List.range n).map f :=
    List.map_congr_left fun k hk => hbuf k (List.mem_range.mp hk)
  rw [puts, List.range_add, List.map_append, hbytes, List.takeWhile_append]
  split_ifs with hall
  · -- no byte is zero, and what follows ends at once
    have hself := (List.takeWhile_prefix fun b : UInt8 => decide (b ≠ 0)).eq_of_length hall
    rw [hself]
    cases m with
    | zero => simp
    | succ m =>
      have hzero : 0 ∉ (List.range n).map f := fun hz => by
        simpa using List.takeWhile_eq_self_iff.mp hself 0 hz
      obtain hn | hn | hn := hend
      · omega
      · simp [List.range_succ_eq_map, hn]
      · exact absurd hn hzero
  · rfl

variable (hw : WellFormed s) (hr : getCurrAndParentCluster s path state.workDir = .ok r)
  (hf : Found s r i)
include hw hr hf

/-- `cat` shows the bytes of a file of one cluster up to the first zero byte. -/
theorem cat_file {l : List Nat} (hfile : FileSlot s r.parentCluster i)
    (hl : Walk s.next fatEndOfFile (s.table r.parentCluster i).clusterNumber l)
    (hsize : (s.table r.parentCluster i).filesize.toNat ≤ clusterSize)
    (hend : BytesEnd s l (s.table r.parentCluster i).filesize.toNat) : cat state s path =
      .ok (some ((fileBytes s l (s.table r.parentCluster i).filesize.toNat).takeWhile (· ≠ 0))) := by
  have hrequest : catRequest state s path = .ok (some
      ⟨zeroBytes, r.filename, r.ext, UInt32.ofNat r.parentCluster, 2048⟩) := by
    simp only [catRequest, bind, Except.bind, hr, if_neg (not_not.mpr (hf.file hfile))]
    rfl
  simp only [cat, bind, Except.bind, hrequest]
  generalize hreq : (⟨zeroBytes, r.filename, r.ext, UInt32.ofNat r.parentCluster, 2048⟩ :
    Request) = req
  obtain ⟨hp, hlive, hn⟩ := hf.request hw req (by rw [← hreq])
    (by rw [← hreq]; exact hf.entry.2.2.symm) (by rw [← hreq])
  have hbuf : req.buf = zeroBytes := by rw [← hreq]
  have hcount : req.bufferSize.toNat = clusterSize := by
    rw [← hreq]
    rfl
  rw [← hp] at hfile hl hsize hend ⊢
  have hreadable : Readable s req i := ⟨hlive, hfile, hn, by
    rw [UInt32.le_iff_toNat_le, hcount]
    exact hsize⟩
  obtain ⟨buf, hread, hrest, hbytes⟩ := hreadable.bytes hw hl
  obtain ⟨s', hread⟩ := read_of_readBack hread
  have hlen := hreadable.length_le hw hl
  rw [hread]
  simp only [if_true]
  refine congrArg (fun t => Except.ok (some t)) (puts_bytes hsize
    (fun k hk => hbytes k (hk.trans_le hlen)) ?_)
  -- a byte behind the file is in its last cluster, or the file is empty
  obtain hfull | hzero | hmem := hend
  · exact .inl hfull
  · refine .inr (.inl ?_)
    by_cases hin : (s.table req.parent i).filesize.toNat < 2048 * l.length
    · rw [hbytes _ hin, hzero]
    · rw [hrest _ (Nat.le_of_not_lt hin), hbuf]
      rfl
  · exact .inr (.inr hmem)

end Reading

section Loading

variable {k k' : KernelState} {mem loaded : Nat → UInt8}

theorem readCode_of_success {req : FAT32DriverRequest UInt32} {readCode : Int}
    (h : processCreateUserProcess k req readCode = some (processCreateSuccess, k')) :
    readCode = 0 := by
  obtain ⟨-, result, hne, hfail⟩ | ⟨-, d, -, hcreate⟩ := Kernel.create_eq k req readCode
  · cases hfail.symm.trans h
    exact absurd rfl hne
  · by_contra hcode
    rw [if_pos hcode] at hcreate
    cases hcreate.symm.trans h

/-- The parts of a successful `exec`. -/
theorem exec_success (h : exec state s k mem path = .ok (some (processCreateSuccess, loaded, k')))
    (hr : getCurrAndParentCluster s path state.workDir = .ok r) : r.code = 0 ∧
      readBack s ⟨mem, r.filename, noExt, UInt32.ofNat r.parentCluster, 0x100000⟩ =
        .ok (0, loaded) := by
  obtain ⟨found, hrequest, h⟩ := bind_ok h
  rw [execRequest, hr] at hrequest
  by_cases hcode : r.code = 0
  · simp only [bind, Except.bind, if_neg (not_not.mpr hcode), pure, Except.pure] at hrequest
    cases hrequest
    obtain ⟨⟨readCode, buf, t⟩, hread, h⟩ := bind_ok h
    dsimp only at h
    cases hcreate : processCreateUserProcess k
        ⟨0, r.filename, noExt, UInt32.ofNat r.parentCluster, 0x100000⟩ readCode with
    | none => simp [hcreate] at h
    | some result =>
      obtain ⟨res, k''⟩ := result
      simp only [hcreate] at h
      cases h
      obtain rfl := readCode_of_success hcreate
      exact ⟨hcode, readBack_of_read hread⟩
  · simp only [bind, Except.bind, if_pos hcode, pure, Except.pure] at hrequest
    cases hrequest
    cases h

/-- A successful `exec` has loaded the file of that name without an extension. -/
theorem exec_loads (hw : WellFormed s) (hr : getCurrAndParentCluster s path state.workDir = .ok r)
    (hf : Found s r i)
    (h : exec state s k mem path = .ok (some (processCreateSuccess, loaded, k'))) :
    ∃ j l, EntryAt s r.parentCluster r.filename noExt j ∧ FileSlot s r.parentCluster j ∧
      Walk s.next fatEndOfFile (s.table r.parentCluster j).clusterNumber l ∧
      (List.range (s.table r.parentCluster j).filesize.toNat).map loaded =
        fileBytes s l (s.table r.parentCluster j).filesize.toNat := by
  obtain ⟨-, hread⟩ := exec_success h hr
  generalize hreq : (⟨mem, r.filename, noExt, UInt32.ofNat r.parentCluster, 0x100000⟩ :
    Request) = req at hread
  have hp : req.parent = r.parentCluster := by
    rw [← hreq]
    exact ofNat_parent (hw.dir_range hf.live).2
  have hnames : req.name = r.filename ∧ req.ext = noExt := by
    rw [← hreq]
    exact ⟨rfl, rfl⟩
  obtain ⟨j, hj⟩ := readable_of_ok hw (hp ▸ hf.live) hread
  obtain ⟨l, hl, -⟩ := hw.file_chain hj.parent hj.file
  obtain ⟨buf, hbuf, -, hbytes⟩ := hj.bytes hw hl
  cases hbuf.symm.trans hread
  obtain ⟨hname, hext⟩ := FAT32DriverRequest.names_iff.mp hj.named
  have hlen := hj.length_le hw hl
  have hfile := hj.file
  rw [hp] at hl hname hext hlen hfile
  refine ⟨j, l, ⟨hfile.1, hname.trans hnames.1, hext.trans hnames.2⟩, hfile, hl, ?_⟩
  exact List.map_congr_left fun n hn => hbytes n ((List.mem_range.mp hn).trans_le hlen)

end Loading

section Components

variable {d : Nat}

theorem resolves_component (hw : WellFormed s) (hd : LiveDir s d)
    (hrow : path.splitOn slash = [path]) (hlen : path.length < 256)
    (hparts : (path.splitOn dot).length ≤ 16) (hname : (namePart path).length ≤ 8)
    (hext : (extPart path).length ≤ 3)
    (hi : EntryAt s d (toName (namePart path)) (toExt (extPart path)) i) :
    ∃ r, getCurrAndParentCluster s path d = .ok r ∧ Found s r i ∧ r.parentCluster = d := by
  have hlook : LooksAt (path.splitOn slash) [] path := ⟨⟨[], hrow, by simp⟩, by simp⟩
  have hfits : Fits path [] path := by
    refine ⟨by simp [hrow], fun row hr => ?_, by decide, hparts⟩
    rw [hrow] at hr
    rwa [List.mem_singleton.mp hr]
  have hf := (findEntry_iff hw hd (toName_ne_dotDot (dot_not_mem_namePart path))).mpr ⟨i, hi, rfl⟩
  have hleads : LeadsTo s d path path d (s.table d i) :=
    ⟨⟨[], hlook, hfits, rfl⟩, hname, hext, hf⟩
  exact ⟨_, hleads.eq, ⟨hd, hi, rfl, rfl⟩, rfl⟩

/-- The path of the file `aaaaaaaa.x`. -/
def extPath : List UInt8 := bytePath ++ [dot, 120]

/-- That file or folder in the root. -/
def extRequest (buf : Nat → UInt8) (size : UInt32) : Request :=
  ⟨buf, fun _ => 'a'.toUInt8, toExt [120], 2, size⟩

theorem resolves_bytePath (hw : WellFormed s)
    (hi : EntryAt s rootClusterNumber (fun _ => 'a'.toUInt8) noExt i) :
    ∃ r, getCurrAndParentCluster s bytePath rootClusterNumber = .ok r ∧ Found s r i ∧
      r.parentCluster = rootClusterNumber :=
  resolves_component hw reach_root (by decide) (by decide) (by decide) (by decide) (by decide)
    (by convert hi using 1 <;> decide)

theorem resolves_extPath (hw : WellFormed s)
    (hi : EntryAt s rootClusterNumber (fun _ => 'a'.toUInt8) (toExt [120]) i) :
    ∃ r, getCurrAndParentCluster s extPath rootClusterNumber = .ok r ∧ Found s r i ∧
      r.parentCluster = rootClusterNumber :=
  resolves_component hw reach_root (by decide) (by decide) (by decide) (by decide) (by decide)
    (by convert hi using 1 <;> decide)

end Components

/-- Each command acts on the entry that the path was resolved to, and on nothing else. -/
theorem commands_act_on (hw : WellFormed s) (hd : LiveDir s state.workDir)
    (hr : getCurrAndParentCluster s path state.workDir = .ok r) (hcode : r.code = 0 ∨ r.code = 1) :
    ∃ i, Found s r i ∧ ActsOn state s path r.parentCluster i := by
  obtain ⟨i, hf⟩ := found_of_code hw hd hr hcode
  refine ⟨i, hf, ?_⟩
  constructor
  case rmFile => exact rm_file hw hr hf
  case rmFolder => exact fun a ha hempty => (rm_folder hw hr hf ha).1 hempty
  case rmRefused => exact fun a j ha hj => ⟨_, (rm_folder hw hr hf ha).2 j hj, rfl, rfl⟩
  case rmRec => exact fun a ha hext => (rmRec_removes_iff hw hr hf ha).mpr hext
  case cat => exact fun l hfile hl hsize hend => cat_file hw hr hf hfile hl hsize hend
  case exec =>
    intro l hfile hl hext k mem loaded k' h
    obtain ⟨j, l', hj, -, hl', hbytes⟩ := exec_loads hw hr hf h
    obtain rfl := hj.unique hw hf.live ⟨hf.entry.1, hf.entry.2.1, hext⟩
    rwa [hl'.unique hl] at hbytes
  case wrongKind =>
    constructor
    · intro hfile
      have hne : r.code ≠ 1 := by simp [hf.file hfile]
      simp only [rmRec, bind, Except.bind, hr, if_pos hne]
      rfl
    · intro a ha
      have hne : r.code ≠ 0 := by simp [hf.folder ha]
      constructor
      · simp only [cat, catRequest, bind, Except.bind, hr, if_pos hne]
        rfl
      · intro k mem
        simp only [exec, execRequest, bind, Except.bind, hr, if_pos hne]
        rfl

/-- A file of one byte. -/
theorem commands_act_on_file : ∃ s r i, WellFormed s ∧
    getCurrAndParentCluster s bytePath initial.workDir = .ok r ∧ Found s r i ∧
    ActsOn initial s bytePath r.parentCluster i := by
  obtain ⟨s, i, cs, -, hw, hwr⟩ :=
    createFat32_written (fun _ => 0) zeroBytes byteRequest rfl (by decide)
  have hi : EntryAt s rootClusterNumber byteRequest.name byteRequest.ext i := entryAt_written hwr rfl
  have hfile : FileSlot s rootClusterNumber i := hwr.fileSlot (by decide)
  obtain ⟨r, hr, hf, hp⟩ := resolves_bytePath hw hi
  rw [← hp] at hfile
  have hr : getCurrAndParentCluster s bytePath initial.workDir = .ok r := hr
  obtain ⟨j, hj, hacts⟩ := commands_act_on hw reach_root hr (.inl (hf.file hfile))
  exact ⟨s, r, j, hw, hr, hj, hacts⟩

section Counterexamples

theorem nestedFolder_exists : ∃ s k a j, WellFormed s ∧
    EntryAt s rootClusterNumber (fun _ => 'a'.toUInt8) noExt k ∧
    folderChild s rootClusterNumber k = some a ∧ LiveSlot s a j := by
  obtain ⟨s, k, cs, -, hw, hwr⟩ := createFat32_written (fun _ => 0) zeroBytes
    (request (fun _ => 'a'.toUInt8) noExt rootClusterNumber) rfl (by decide)
  obtain ⟨a, rfl, -, ha⟩ := hwr.folderChild_new rfl
  have ha : folderChild s rootClusterNumber k = some a := ha
  have hlive : LiveDir s a := reach_root.step ha
  have hempty : ∀ j : Fin entryCount, 2 ≤ j.val → (s.table a j).live = false := fun j hj => by
    rw [hwr.empty rfl a (by simp), newDirectoryTable_empty _ _ hj]
    simp
  have hpar : (request (fun _ => 'a'.toUInt8) noExt a).parent = a :=
    ofNat_parent (hw.dir_range hlive).2
  have hclash : ¬ Clash s (request (fun _ => 'a'.toUInt8) noExt a) := by
    rintro ⟨j, hj, -⟩
    rw [hpar] at hj
    exact absurd hj.2 (by simp [hempty j hj.1])
  obtain ⟨j, hj⟩ := firstFree_exists (show 2 ≤ (2 : Fin entryCount).val by decide)
    (hempty 2 (by decide))
  have hroom := hwr.room
  rw [createFat32_room] at hroom
  obtain ⟨s', cs', -, hwr'⟩ := write_new hw (hpar.symm ▸ hlive) hclash (hpar.symm ▸ hj)
    (show 1 ≤ s.freeClusters.length by
      have hone : clustersNeeded (request (fun _ => 'a'.toUInt8) noExt rootClusterNumber) = 1 := by
        decide
      omega)
  have hg := hwr'.grown
  rw [hpar] at hg
  have hne : rootClusterNumber ≠ a := by
    rintro rfl
    exact hw.tree.root_orphan reach_root ha
  have hentry : s'.table rootClusterNumber k = s.table rootClusterNumber k :=
    hg.entry_eq hw reach_root fun h => absurd h hne
  refine ⟨s', k, a, j, hwr'.wellFormed hw hclash, (entryAt_written hwr rfl).of_entry_eq hentry,
    ?_, hg.liveSlot_new⟩
  rw [hg.child_eq hw reach_root fun h => absurd h hne, ha]

/-- `rm` refuses a folder with an entry. -/
theorem rm_keeps_nested : ∃ s r i, WellFormed s ∧
    getCurrAndParentCluster s bytePath initial.workDir = .ok r ∧ Found s r i ∧
    ∀ s', rm initial s bytePath = .ok s' → ¬ Pruned s s' r.parentCluster i := by
  obtain ⟨s, k, a, j, hw, hk, ha, hj⟩ := nestedFolder_exists
  obtain ⟨r, hr, hf, hp⟩ := resolves_bytePath hw hk
  have hr : getCurrAndParentCluster s bytePath initial.workDir = .ok r := hr
  refine ⟨s, r, k, hw, hr, hf, fun s' hs hpr => ?_⟩
  rw [← hp] at ha
  cases ((rm_folder hw hr hf ha).2 j hj).symm.trans hs
  have hcleared : s.table r.parentCluster k = .zero := hpr.entry_cleared
  have hslot := hf.entry.1
  rw [LiveSlot, hcleared] at hslot
  simp at hslot

/-- `rm -r` does not find a folder with an extension. -/
theorem rmRec_keeps_ext : ∃ s r i, WellFormed s ∧
    getCurrAndParentCluster s extPath initial.workDir = .ok r ∧ Found s r i ∧
    (∃ a, folderChild s r.parentCluster i = some a) ∧
    ∀ s', rmRec initial s extPath = .ok s' → ¬ Pruned s s' r.parentCluster i := by
  obtain ⟨s, i, cs, -, hw, hwr⟩ :=
    createFat32_written (fun _ => 0) zeroBytes (extRequest zeroBytes 0) rfl (by decide)
  obtain ⟨a, -, -, ha⟩ := hwr.folderChild_new rfl
  have hi := entryAt_written hwr (d := rootClusterNumber) rfl
  obtain ⟨r, hr, hf, hp⟩ := resolves_extPath hw hi
  have hr : getCurrAndParentCluster s extPath initial.workDir = .ok r := hr
  have ha : folderChild s r.parentCluster i = some a := by
    rw [hp]
    exact ha
  refine ⟨s, r, i, hw, hr, hf, ⟨a, ha⟩, fun s' hs hpr => ?_⟩
  have hext := (rmRec_removes_iff hw hr hf ha).mp ⟨s', hs, hpr⟩
  rw [hp] at hext
  exact absurd (hi.2.2.symm.trans hext) (by decide)

theorem chainByte_written {s' : FileSystem} {req : Request} {cs : List Nat}
    (h : Written s s' req i cs) (hz : req.bufferSize ≠ 0) : chainByte s' cs 0 = req.buf 0 := by
  have hpos : 0 < req.bufferSize.toNat := by
    refine Nat.pos_of_ne_zero fun h0 => hz (UInt32.toNat_inj.mp ?_)
    rw [h0]
    rfl
  have hread := h.readAll_eq hz req.buf hpos
  rw [readAll_from_start] at hread
  split_ifs at hread with hin
  · exact hread
  · have hlen := h.one_le_length hz
    omega

/-- A file of one zero byte is shown as nothing. -/
theorem cat_stops_at_zero : ∃ s r i l, WellFormed s ∧
    getCurrAndParentCluster s bytePath initial.workDir = .ok r ∧ Found s r i ∧
    FileSlot s r.parentCluster i ∧
    Walk s.next fatEndOfFile (s.table r.parentCluster i).clusterNumber l ∧
    (s.table r.parentCluster i).filesize.toNat ≤ clusterSize ∧
    cat initial s bytePath ≠
      .ok (some (fileBytes s l (s.table r.parentCluster i).filesize.toNat)) := by
  obtain ⟨s, i, cs, -, hw, hwr⟩ := createFat32_written (fun _ => 0) zeroBytes
    ⟨zeroBytes, fun _ => 'a'.toUInt8, noExt, 2, 1⟩ rfl (by decide)
  obtain ⟨r, hr, hf, hp⟩ := resolves_bytePath hw (entryAt_written hwr rfl)
  have hr : getCurrAndParentCluster s bytePath initial.workDir = .ok r := hr
  have hfile : FileSlot s r.parentCluster i := by
    rw [hp]
    exact hwr.fileSlot (by decide)
  have hl : Walk s.next fatEndOfFile (s.table r.parentCluster i).clusterNumber cs := by
    rw [hp]
    exact hwr.walk
  have hone : (s.table r.parentCluster i).filesize.toNat = 1 := by
    rw [hp]
    exact congrArg UInt32.toNat hwr.filesize
  have hbytes : fileBytes s cs 1 = [0] := congrArg (fun b => [b])
    (chainByte_written hwr (by decide))
  have hle : (s.table r.parentCluster i).filesize.toNat ≤ clusterSize := by
    rw [hone]
    decide
  refine ⟨s, r, i, cs, hw, hr, hf, hfile, hl, hle, ?_⟩
  rw [cat_file hw hr hf hfile hl hle (.inr (.inr (by simp [hone, hbytes]))), hone, hbytes]
  decide

/-- The new kernel takes the program of `exec`. -/
theorem boot_admits_exec (name : Name) (parent : UInt32) :
    ∃ k', processCreateUserProcess .boot ⟨0, name, noExt, parent, 0x100000⟩ 0 =
      some (processCreateSuccess, k') := by
  have ha : Kernel.Admits .boot ⟨0, name, noExt, parent, 0x100000⟩ := by
    constructor
    · exact show (0 : UInt32).toNat < 16 by decide
    · exact show (0 : UInt32).toNat < 0xC0000000 by decide
    · exact show (Kernel.requiredPageFrames 0x100000).toNat ≤
        KernelState.boot.paging.freePageFrameCount.toNat by decide
    · exact show (Kernel.requiredPageFrames 0x100000).toNat ≤ 8 by decide
  exact ⟨_, Kernel.create_of_step (Kernel.boot_create ha)⟩

/-- A file of the name without an extension is loaded by the new kernel. -/
theorem exec_of_readable (hw : WellFormed s)
    (hr : getCurrAndParentCluster s path state.workDir = .ok r) (hcode : r.code = 0)
    {mem : Nat → UInt8} {req : Request} {j : Fin entryCount} {l : List Nat}
    (hreq : req = ⟨mem, r.filename, noExt, UInt32.ofNat r.parentCluster, 0x100000⟩)
    (hj : Readable s req j)
    (hl : Walk s.next fatEndOfFile (s.table req.parent j).clusterNumber l) :
    ∃ loaded k', exec state s .boot mem path = .ok (some (processCreateSuccess, loaded, k')) ∧
      ∀ n < 2048 * l.length, loaded n = chainByte s l n := by
  obtain ⟨loaded, hread, -, hbytes⟩ := hj.bytes hw hl
  obtain ⟨s', hread⟩ := read_of_readBack hread
  obtain ⟨k', hcreate⟩ := boot_admits_exec r.filename (UInt32.ofNat r.parentCluster)
  refine ⟨loaded, k', ?_, hbytes⟩
  rw [hreq] at hread
  have hrequest : execRequest state s path =
      .ok (some ⟨0, r.filename, noExt, UInt32.ofNat r.parentCluster, 0x100000⟩) := by
    simp only [execRequest, bind, Except.bind, hr, if_neg (not_not.mpr hcode)]
    rfl
  simp only [exec, bind, Except.bind, hrequest, hread, hcreate]
  rfl

theorem chainByte_kept {s' : FileSystem} {d : Nat} {l : List Nat} (h : KeepsFile s s' d i l)
    (hne : l ≠ []) : chainByte s' l 0 = chainByte s l 0 := by
  obtain ⟨x, l, rfl⟩ := List.exists_cons_of_ne_nil hne
  rw [chainByte_head (by decide), chainByte_head (by decide), h.contents x List.mem_cons_self]

/-- With `aaaaaaaa.x` and `aaaaaaaa` on the disk, the second is loaded for the first. -/
theorem exec_loads_other : ∃ s r i l loaded k', WellFormed s ∧
    getCurrAndParentCluster s extPath initial.workDir = .ok r ∧ Found s r i ∧
    FileSlot s r.parentCluster i ∧
    Walk s.next fatEndOfFile (s.table r.parentCluster i).clusterNumber l ∧
    exec initial s .boot zeroBytes extPath = .ok (some (processCreateSuccess, loaded, k')) ∧
    (List.range (s.table r.parentCluster i).filesize.toNat).map loaded ≠
      fileBytes s l (s.table r.parentCluster i).filesize.toNat := by
  obtain ⟨s, i, cs, -, hw, hwr⟩ :=
    createFat32_written (fun _ => 0) zeroBytes (extRequest (fun _ => 7) 1) rfl (by decide)
  obtain ⟨s', j, cs', -, hw', hwr', -⟩ := @createFat32_second _ _ _ _
    ⟨fun _ => 8, fun _ => 'a'.toUInt8, noExt, 2, 1⟩ _ _ hwr hw rfl rfl
    (fun h => absurd h.2 (by decide)) (by decide)
  have hfile : FileSlot s rootClusterNumber i := hwr.fileSlot (by decide)
  have hsize : (s.table rootClusterNumber i).filesize = 1 := hwr.filesize
  obtain ⟨l, hkeep⟩ := hwr'.grown.keepsFile hw reach_root hfile
  obtain rfl : l = cs := hkeep.chain.unique hwr.walk
  have hentry : s'.table rootClusterNumber i = s.table rootClusterNumber i := hkeep.entry
  have hi : EntryAt s' rootClusterNumber (fun _ => 'a'.toUInt8) (toExt [120]) i :=
    (entryAt_written hwr rfl).of_entry_eq hentry
  obtain ⟨r, hr, hf, hp⟩ := resolves_extPath hw' hi
  have hr : getCurrAndParentCluster s' extPath initial.workDir = .ok r := hr
  have hfile' := hkeep.fileSlot hfile
  have hcode : r.code = 0 := hf.file (by rwa [hp])
  have hwalk' : Walk s'.next fatEndOfFile (s'.table r.parentCluster i).clusterNumber l := by
    rw [hp, hentry]
    exact hkeep.chain'
  have hrname : r.filename = fun _ => 'a'.toUInt8 := by
    rw [← hi.2.1, ← hp]
    exact hf.entry.2.1.symm
  -- the request of `exec` names the second file
  obtain ⟨req, hreq⟩ : ∃ req : Request,
    req = ⟨zeroBytes, r.filename, noExt, UInt32.ofNat r.parentCluster, 0x100000⟩ := ⟨_, rfl⟩
  have hpar : req.parent = rootClusterNumber := by
    rw [hreq, hp]
    rfl
  have hsize₂ : (s'.table rootClusterNumber j).filesize = 1 := hwr'.filesize
  have hwalk₂ : Walk s'.next fatEndOfFile (s'.table req.parent j).clusterNumber cs' := by
    rw [hpar]
    exact hwr'.walk
  have hj : Readable s' req j :=
    hwr'.readable hw (by decide) hpar (by rw [hreq, hrname]) (by rw [hreq])
      (by rw [hreq]; exact show (1 : UInt32) ≤ 0x100000 by decide)
  obtain ⟨loaded, k', hexec, hbytes⟩ := exec_of_readable hw' hr hcode hreq hj hwalk₂
  have hlen := hj.length_le hw' hwalk₂
  rw [hpar, hsize₂] at hlen
  have hloaded : loaded 0 = 8 := (hbytes 0 (Nat.lt_of_lt_of_le Nat.one_pos hlen)).trans
    (chainByte_written hwr' (by decide))
  have hne : l ≠ [] := by
    rintro rfl
    exact absurd (hwr.one_le_length (by decide)) (by decide)
  have hbyte : chainByte s' l 0 = 7 := (chainByte_kept hkeep hne).trans
    (chainByte_written hwr (by decide))
  refine ⟨s', r, i, l, loaded, k', hw', hr, hf, hp ▸ hfile', hwalk', hexec, ?_⟩
  rw [hp, hentry, hsize]
  exact fun h => absurd (hloaded.symm.trans ((List.cons.inj h).1.trans hbyte)) (by decide)

/-- A property of the entries that paths are resolved to from the root. -/
def OfEveryEntry (P : FileSystem → List UInt8 → Nat → Fin entryCount → Prop) : Prop :=
  ∀ s path r i, WellFormed s → getCurrAndParentCluster s path initial.workDir = .ok r →
    Found s r i → P s path r.parentCluster i

/-- Folders with entries stay, a zero byte ends what is shown, and without its extension an
entry is not found or another one is. -/
theorem commands_not_exact :
    ¬ OfEveryEntry (fun s path p i => ∃ s', rm initial s path = .ok s' ∧ Pruned s s' p i) ∧
    ¬ OfEveryEntry (fun s path p i => ∀ l, FileSlot s p i →
      Walk s.next fatEndOfFile (s.table p i).clusterNumber l →
      (s.table p i).filesize.toNat ≤ clusterSize →
      cat initial s path = .ok (some (fileBytes s l (s.table p i).filesize.toNat))) ∧
    ¬ OfEveryEntry (fun s path p i => ∀ a, folderChild s p i = some a →
      ∃ s', rmRec initial s path = .ok s' ∧ Pruned s s' p i) ∧
    ¬ OfEveryEntry (fun s path p i => ∀ l, FileSlot s p i →
      Walk s.next fatEndOfFile (s.table p i).clusterNumber l → ∀ k mem loaded k',
      exec initial s k mem path = .ok (some (processCreateSuccess, loaded, k')) →
      (List.range (s.table p i).filesize.toNat).map loaded =
        fileBytes s l (s.table p i).filesize.toNat) := by
  refine ⟨fun h => ?_, fun h => ?_, fun h => ?_, fun h => ?_⟩
  · obtain ⟨s, r, i, hw, hr, hf, hkept⟩ := rm_keeps_nested
    obtain ⟨s', hs, hpr⟩ := h s bytePath r i hw hr hf
    exact hkept s' hs hpr
  · obtain ⟨s, r, i, l, hw, hr, hf, hfile, hl, hsize, hcat⟩ := cat_stops_at_zero
    exact hcat (h s bytePath r i hw hr hf l hfile hl hsize)
  · obtain ⟨s, r, i, hw, hr, hf, ⟨a, ha⟩, hkept⟩ := rmRec_keeps_ext
    obtain ⟨s', hs, hpr⟩ := h s extPath r i hw hr hf a ha
    exact hkept s' hs hpr
  · obtain ⟨s, r, i, l, loaded, k', hw, hr, hf, hfile, hl, hexec, hne⟩ := exec_loads_other
    exact hne (h s extPath r i hw hr hf l hfile hl .boot zeroBytes loaded k' hexec)

end Counterexamples

end Doors.Shell
