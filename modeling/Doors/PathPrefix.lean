import Doors.CString
import Doors.MoveFile
import Doors.PathWalk

/-! How much of a path is looked at. The components end at the first empty one behind the
first, and of the last component only the part up to the second dot is used. -/

namespace Doors.Shell

open PointerTree Fat32 FileSystem

variable {s : FileSystem} {d : Nat} {path last : List UInt8} {rows folders : List (List UInt8)}

def namePart (last : List UInt8) : List UInt8 := (last.splitOn dot).getD 0 []

def extPart (last : List UInt8) : List UInt8 := (last.splitOn dot).getD 1 []

/-- The rows up to the first empty one behind the first. -/
structure LooksAt (rows folders : List (List UInt8)) (last : List UInt8) : Prop where
  cut : ∃ behind, rows = folders ++ last :: behind ∧ ∀ row ∈ behind.head?, row = []
  nonempty : ∀ row ∈ (folders ++ [last]).tail, row ≠ []

/-- The path fits the array it is split into, with an empty row behind the last component that is
looked at, and so does that component. -/
structure Fits (path : List UInt8) (folders : List (List UInt8)) (last : List UInt8) : Prop where
  count : (path.splitOn slash).length ≤ 16
  rows : ∀ row ∈ path.splitOn slash, row.length < 256
  folders : folders.length < 15
  parts : (last.splitOn dot).length ≤ 16

/-- The part of the path that is looked at names an entry. -/
def PrefixNames (s : FileSystem) (d : Nat) (path : List UInt8) : Prop :=
  ∃ folders last c i, LooksAt (path.splitOn slash) folders last ∧ Fits path folders last ∧
    Walks s d folders c ∧ (namePart last).length ≤ 8 ∧ (extPart last).length ≤ 3 ∧
    EntryAt s c (toName (namePart last)) (toExt (extPart last)) i

/-- An empty component is followed by one that is not, or the last one has several dots. -/
def Overlong (path : List UInt8) : Prop :=
  (∃ before behind, path.splitOn slash = before ++ [] :: behind ∧ ∃ row ∈ behind, row ≠ []) ∨
    ∃ before last n, path.splitOn slash = before ++ last :: List.replicate n [] ∧
      last ≠ dotDotRow ∧ 2 ≤ last.count dot

/-- The resolver stays inside its arrays: the path fits its array, and where the folders that are
looked at are there, the last component too. -/
structure StaysInside (s : FileSystem) (d : Nat) (path : List UInt8) : Prop where
  count : (path.splitOn slash).length ≤ 16
  rows : ∀ row ∈ path.splitOn slash, row.length < 256
  last : ∀ folders last c, LooksAt (path.splitOn slash) folders last → Walks s d folders c →
    folders.length < 15 ∧ (last.splitOn dot).length ≤ 16

/-- The resolver returns and the path is not resolved, and no command acts on what it names. -/
structure Ignored (state : ShellState) (s : FileSystem) (path : List UInt8) : Prop where
  unresolved : ∃ r, getCurrAndParentCluster s path state.workDir = .ok r ∧ r.code ≠ 0 ∧ r.code ≠ 1
  rm : rm state s path = .ok s
  rmRec : rmRec state s path = .ok s
  mv : ∀ dest, mv state s path dest = .ok s
  cp : ∀ dest, cp state s path dest = .ok s
  cat : catRequest state s path = .ok none
  exec : execRequest state s path = .ok none

section Rows

theorem exists_looksAt : ∀ {rows : List (List UInt8)}, rows ≠ [] →
    ∃ folders last, LooksAt rows folders last
  | [row], _ => ⟨[], row, ⟨[], rfl, by simp⟩, by simp⟩
  | row :: next :: rows, _ => by
    by_cases hnext : next = []
    · subst hnext
      exact ⟨[], row, ⟨[] :: rows, rfl, by simp⟩, by simp⟩
    · obtain ⟨folders, last, ⟨behind, hcut, hhead⟩, hne⟩ :=
        exists_looksAt (List.cons_ne_nil next rows)
      refine ⟨row :: folders, last, ⟨behind, by rw [hcut]; rfl, hhead⟩, fun r hr => ?_⟩
      rw [List.cons_append, List.tail_cons] at hr
      cases folders with
      | nil =>
        obtain rfl := List.mem_singleton.mp hr
        exact (List.cons.inj hcut).1 ▸ hnext
      | cons f folders =>
        obtain rfl | hr := List.mem_cons.mp hr
        · exact (List.cons.inj hcut).1 ▸ hnext
        · exact hne r hr

theorem strsplit_rows {str : List UInt8} {delim : UInt8} (h : strsplit str delim = .ok rows) :
    ((str.splitOn delim).length < 16 ∧ rows = str.splitOn delim ++ [[]]) ∨
      ((str.splitOn delim).length = 16 ∧ rows = str.splitOn delim) := by
  unfold strsplit at h
  dsimp only at h
  split_ifs at h with hfit hlt
  · exact .inl ⟨hlt, (Except.ok.inj h).symm⟩
  · exact .inr ⟨Nat.le_antisymm hfit.1 (Nat.le_of_not_lt hlt), (Except.ok.inj h).symm⟩

theorem strsplit_getD {str : List UInt8} {delim : UInt8} (h : strsplit str delim = .ok rows)
    (k : Nat) : rows.getD k [] = (str.splitOn delim).getD k [] := by
  obtain ⟨-, rfl⟩ | ⟨-, rfl⟩ := strsplit_rows h
  · by_cases hk : k = (str.splitOn delim).length
    · simp [hk]
    · exact CString.getD_concat_of_ne hk
  · rfl

theorem strsplit_exists {str : List UInt8} {delim : UInt8} :
    (∃ rows, strsplit str delim = .ok rows) ↔
      (str.splitOn delim).length ≤ 16 ∧ ∀ row ∈ str.splitOn delim, row.length < 256 := by
  unfold strsplit
  dsimp only
  split_ifs <;> simp_all

/-- Of at most 15 components the last is seen with an empty row behind it. -/
theorem LooksAt.grid (hlook : LooksAt (path.splitOn slash) folders last)
    (h : strsplit path slash = .ok rows) (hcount : folders.length < 15) :
    ∃ behind, rows = folders ++ last :: [] :: behind := by
  obtain ⟨behind, hcut, hhead⟩ := hlook.cut
  obtain ⟨-, rfl⟩ | ⟨hlen, rfl⟩ := strsplit_rows h
  · cases behind with
    | nil => exact ⟨[], by rw [hcut]; simp⟩
    | cons row behind =>
      obtain rfl := hhead row rfl
      exact ⟨behind ++ [[]], by rw [hcut]; simp⟩
  · cases behind with
    | nil =>
      rw [hcut, List.length_append, List.length_singleton] at hlen
      omega
    | cons row behind =>
      obtain rfl := hhead row rfl
      exact ⟨behind, hcut⟩

/-- Of 16 components the last is the last row of the array. -/
theorem LooksAt.full (hlook : LooksAt (path.splitOn slash) folders last)
    (h : strsplit path slash = .ok rows) (hcount : 15 ≤ folders.length) :
    rows = folders ++ [last] := by
  obtain ⟨behind, hcut, -⟩ := hlook.cut
  obtain ⟨hlen, -⟩ | ⟨hlen, rfl⟩ := strsplit_rows h
  · rw [hcut, List.length_append, List.length_cons] at hlen
    omega
  · rw [hcut, List.length_append, List.length_cons] at hlen
    obtain rfl : behind = [] := List.length_eq_zero_iff.mp (by omega)
    exact hcut

/-- What is looked at is determined by the rows. -/
theorem LooksAt.eq (h : LooksAt rows folders last) :
    folders ++ [last] = rows.take 1 ++ rows.tail.takeWhile (· ≠ []) := by
  obtain ⟨behind, hcut, hhead⟩ := h.cut
  have hne := h.nonempty
  obtain ⟨x, xs, hx⟩ := List.exists_cons_of_ne_nil (List.append_ne_nil_of_right_ne_nil folders
    (List.cons_ne_nil last []))
  have hrows : rows = x :: (xs ++ behind) := by
    rw [hcut, List.append_cons, hx, List.cons_append]
  have hbehind : behind.takeWhile (· ≠ []) = [] := by
    cases behind with
    | nil => rfl
    | cons row behind => simp [hhead row rfl]
  rw [hx, List.tail_cons] at hne
  rw [hx, hrows, List.tail_cons, List.takeWhile_append_of_pos fun row hr => by simpa using hne row hr,
    hbehind, List.append_nil]
  rfl

theorem LooksAt.unique {folders' : List (List UInt8)} {last' : List UInt8}
    (h : LooksAt rows folders last) (h' : LooksAt rows folders' last') :
    folders = folders' ∧ last = last' := by
  obtain ⟨hfolders, hlast⟩ := List.append_inj' (h.eq.trans h'.eq.symm) rfl
  exact ⟨hfolders, List.singleton_inj.mp hlast⟩

theorem LooksAt.mem (hlook : LooksAt rows folders last) {row : List UInt8}
    (hr : row ∈ folders ++ [last]) : row ∈ rows := by
  obtain ⟨behind, rfl, -⟩ := hlook.cut
  simp only [List.mem_append, List.mem_cons] at hr ⊢
  tauto

theorem LooksAt.zero (hlook : LooksAt (path.splitOn slash) folders last) (hz : 0 ∉ path)
    {row : List UInt8} (hr : row ∈ folders ++ [last]) : 0 ∉ row :=
  fun h => hz ((CString.infix_of_mem_splitOn (hlook.mem hr)).subset h)

theorem dot_not_mem_namePart (last : List UInt8) : dot ∉ namePart last := by
  obtain ⟨row, rows, h⟩ := List.exists_cons_of_ne_nil (List.splitOn_ne_nil dot last)
  have hmem : row ∈ last.splitOn dot := by simp [h]
  simpa [namePart, h] using mem_splitOn hmem

end Rows

section Last

variable {c : Nat}

/-- The answer about the last component in directory `c`. -/
def resolvedIn (s : FileSystem) (c : Nat) (last : List UInt8) : Resolved :=
  if 8 < (namePart last).length then ⟨4, c, 0, toName [], toExt []⟩
  else if 3 < (extPart last).length then ⟨5, c, 0, toName [], toExt []⟩
  else match findEntry (readTable s c) (toName (namePart last)) (toExt (extPart last)) with
    | none => ⟨2, c, 0, toName (namePart last), toExt (extPart last)⟩
    | some e => ⟨if e.isSubdirectory then 1 else 0, c, e.clusterNumber, toName (namePart last),
        toExt (extPart last)⟩

/-- The entry that the last component names there. -/
structure LastNames (s : FileSystem) (c : Nat) (last : List UInt8) (e : FAT32DirectoryEntry) :
    Prop where
  name : (namePart last).length ≤ 8
  ext : (extPart last).length ≤ 3
  found : findEntry (readTable s c) (toName (namePart last)) (toExt (extPart last)) = some e

theorem LastNames.resolved {e : FAT32DirectoryEntry} (h : LastNames s c last e) :
    resolvedIn s c last = ⟨if e.isSubdirectory then 1 else 0, c, e.clusterNumber,
      toName (namePart last), toExt (extPart last)⟩ := by
  rw [resolvedIn, if_neg (Nat.not_lt.mpr h.name), if_neg (Nat.not_lt.mpr h.ext), h.found]

theorem lastNames_of_code (h : (resolvedIn s c last).code = 0 ∨ (resolvedIn s c last).code = 1) :
    ∃ e, LastNames s c last e := by
  rw [resolvedIn] at h
  split_ifs at h with hname hext
  · simp at h
  · simp at h
  · cases hf : findEntry (readTable s c) (toName (namePart last)) (toExt (extPart last)) with
    | none => simp [hf] at h
    | some e => exact ⟨e, Nat.le_of_not_lt hname, Nat.le_of_not_lt hext, hf⟩

end Last

section Resolving

variable {c : Nat}

theorem resolve_entered (hlook : LooksAt (path.splitOn slash) folders last)
    (hfits : Fits path folders last) (hc : folders.foldlM (enter s) d = some c) :
    getCurrAndParentCluster s path d = .ok (resolvedIn s c last) := by
  obtain ⟨rows, hrows⟩ := strsplit_exists.mpr ⟨hfits.count, hfits.rows⟩
  obtain ⟨behind, rfl⟩ := hlook.grid hrows hfits.folders
  have hloop : parentLoop s (folders ++ last :: [] :: behind) d = .ok (some (c, last)) := by
    rw [parentLoop_enters hlook.nonempty, hc]
    exact if_pos rfl
  have hlast : ∀ row ∈ last.splitOn dot, row.length < 256 := fun row hr =>
    (CString.infix_of_mem_splitOn hr).length_le.trans_lt (hfits.rows last (hlook.mem (by simp)))
  obtain ⟨fileRows, hfile⟩ := strsplit_exists.mpr ⟨hfits.parts, hlast⟩
  exact getCurrAndParentCluster_reached hrows hloop hfile (strsplit_getD hfile 0)
    (strsplit_getD hfile 1)

theorem resolve_refused (hrows : strsplit path slash = .ok rows)
    (hlook : LooksAt (path.splitOn slash) folders last)
    (hnone : folders.foldlM (enter s) d = none) :
    getCurrAndParentCluster s path d = .ok ⟨3, d, 0, toName [], toExt []⟩ := by
  obtain ⟨behind, rfl⟩ : ∃ behind, rows = folders ++ last :: behind := by
    by_cases hcount : folders.length < 15
    · obtain ⟨behind, h⟩ := hlook.grid hrows hcount
      exact ⟨_, h⟩
    · exact ⟨[], hlook.full hrows (Nat.le_of_not_lt hcount)⟩
  have hloop : parentLoop s (folders ++ last :: behind) d = .ok none := by
    rw [parentLoop_enters hlook.nonempty, hnone]
  simp only [getCurrAndParentCluster, bind, Except.bind, hrows, hloop]
  rfl

/-- The folders are entered, and the row behind the last component or a piece of it is looked
for outside its array. -/
theorem resolve_outside (hrows : strsplit path slash = .ok rows)
    (hlook : LooksAt (path.splitOn slash) folders last)
    (hc : folders.foldlM (enter s) d = some c) (hfits : ¬ Fits path folders last) :
    getCurrAndParentCluster s path d = .error .outOfBounds := by
  obtain ⟨hcount, hlen⟩ := strsplit_exists.mp ⟨_, hrows⟩
  by_cases hroom : folders.length < 15
  · obtain ⟨behind, rfl⟩ := hlook.grid hrows hroom
    have hloop : parentLoop s (folders ++ last :: [] :: behind) d = .ok (some (c, last)) := by
      rw [parentLoop_enters hlook.nonempty, hc]
      exact if_pos rfl
    have hlast : strsplit last dot = .error .outOfBounds :=
      if_neg fun h => hfits ⟨hcount, hlen, hroom, h.1⟩
    simp only [getCurrAndParentCluster, bind, Except.bind, hrows, hloop, hlast]
  · obtain rfl := hlook.full hrows (Nat.le_of_not_lt hroom)
    have hloop : parentLoop s (folders ++ [last]) d = .error .outOfBounds := by
      rw [parentLoop_enters hlook.nonempty, hc]
      rfl
    simp only [getCurrAndParentCluster, bind, Except.bind, hrows, hloop]

/-- A path that is not refused leads somewhere and fits. -/
theorem resolve_fits {r : Resolved} (hr : getCurrAndParentCluster s path d = .ok r)
    (hcode : r.code ≠ 3) (hlook : LooksAt (path.splitOn slash) folders last) :
    Fits path folders last ∧ ∃ c, folders.foldlM (enter s) d = some c := by
  obtain ⟨rows, hrows, -⟩ := bind_ok hr
  cases hc : folders.foldlM (enter s) d with
  | none =>
    rw [resolve_refused hrows hlook hc] at hr
    cases hr
    exact absurd rfl hcode
  | some c =>
    refine ⟨by_contra fun hfits => ?_, c, rfl⟩
    rw [resolve_outside hrows hlook hc hfits] at hr
    cases hr

/-- The path leads to an entry of that name in directory `c`. -/
structure LeadsTo (s : FileSystem) (d : Nat) (path last : List UInt8) (c : Nat)
    (e : FAT32DirectoryEntry) : Prop where
  looks : ∃ folders, LooksAt (path.splitOn slash) folders last ∧ Fits path folders last ∧
    folders.foldlM (enter s) d = some c
  names : LastNames s c last e

theorem LeadsTo.eq {e : FAT32DirectoryEntry} (h : LeadsTo s d path last c e) :
    getCurrAndParentCluster s path d = .ok ⟨if e.isSubdirectory then 1 else 0, c,
      e.clusterNumber, toName (namePart last), toExt (extPart last)⟩ := by
  obtain ⟨folders, hlook, hfits, hc⟩ := h.looks
  rw [resolve_entered hlook hfits hc, h.names.resolved]

theorem leadsTo_of_code {r : Resolved} (hr : getCurrAndParentCluster s path d = .ok r)
    (hcode : r.code = 0 ∨ r.code = 1) : ∃ last c e, LeadsTo s d path last c e := by
  obtain ⟨folders, last, hlook⟩ := exists_looksAt (List.splitOn_ne_nil slash path)
  obtain ⟨hfits, c, hc⟩ := resolve_fits hr (by omega) hlook
  rw [resolve_entered hlook hfits hc] at hr
  obtain rfl := Except.ok.inj hr
  obtain ⟨e, he⟩ := lastNames_of_code hcode
  exact ⟨last, c, e, ⟨folders, hlook, hfits, hc⟩, he⟩

variable (hw : WellFormed s) (hx : PlainParents s) (hd : LiveDir s d) (hz : 0 ∉ path)
include hw hx hd hz

/-- The path is resolved to an entry exactly when what is looked at names one. -/
theorem resolved_iff : (∃ r, getCurrAndParentCluster s path d = .ok r ∧
    (r.code = 0 ∨ r.code = 1)) ↔ PrefixNames s d path := by
  constructor
  · rintro ⟨r, hr, hcode⟩
    obtain ⟨last, c, e, ⟨folders, hlook, hfits, hc⟩, hlast⟩ := leadsTo_of_code hr hcode
    have hwalks := (enters_walks hw hx (fun row hr =>
      hlook.zero hz (List.mem_append_left _ hr)) hd).mp hc
    obtain ⟨i, hi, -⟩ := (findEntry_iff hw (hwalks.liveDir hd)
      (toName_ne_dotDot (dot_not_mem_namePart last))).mp hlast.found
    exact ⟨folders, last, c, i, hlook, hfits, hwalks, hlast.name, hlast.ext, hi⟩
  · rintro ⟨folders, last, c, i, hlook, hfits, hwalks, hname, hext, hi⟩
    have hc := (enters_walks hw hx (fun row hr =>
      hlook.zero hz (List.mem_append_left _ hr)) hd).mpr hwalks
    have hf := (findEntry_iff hw (hwalks.liveDir hd)
      (toName_ne_dotDot (dot_not_mem_namePart last))).mpr ⟨i, hi, rfl⟩
    have hleads : LeadsTo s d path last c (s.table c i) :=
      ⟨⟨folders, hlook, hfits, hc⟩, hname, hext, hf⟩
    refine ⟨_, hleads.eq, ?_⟩
    cases (s.table c i).isSubdirectory <;> simp

/-- The resolver returns exactly when it stays inside its arrays. -/
theorem returns_iff : (∃ r, getCurrAndParentCluster s path d = .ok r) ↔ StaysInside s d path := by
  obtain ⟨folders, last, hlook⟩ := exists_looksAt (List.splitOn_ne_nil slash path)
  have hwalks {c : Nat} : folders.foldlM (enter s) d = some c ↔ Walks s d folders c :=
    enters_walks hw hx (fun row hr => hlook.zero hz (List.mem_append_left _ hr)) hd
  constructor
  · rintro ⟨r, hr⟩
    obtain ⟨rows, hrows, -⟩ := bind_ok hr
    obtain ⟨hcount, hlen⟩ := strsplit_exists.mp ⟨rows, hrows⟩
    refine ⟨hcount, hlen, fun folders' last' c hlook' hc => ?_⟩
    obtain ⟨rfl, rfl⟩ := hlook'.unique hlook
    by_contra hfits
    rw [resolve_outside hrows hlook (hwalks.mpr hc) fun h => hfits ⟨h.folders, h.parts⟩] at hr
    cases hr
  · intro h
    cases hc : folders.foldlM (enter s) d with
    | none =>
      obtain ⟨rows, hrows⟩ := strsplit_exists.mpr ⟨h.count, h.rows⟩
      exact ⟨_, resolve_refused hrows hlook hc⟩
    | some c =>
      obtain ⟨hroom, hparts⟩ := h.last folders last c hlook (hwalks.mp hc)
      exact ⟨_, resolve_entered hlook ⟨h.count, h.rows, hroom, hparts⟩ hc⟩

end Resolving

section Commands

variable {state : ShellState}

theorem ignored_of_unresolved {r : Resolved}
    (hr : getCurrAndParentCluster s path state.workDir = .ok r) (h : r.code ≠ 0 ∧ r.code ≠ 1) :
    Ignored state s path where
  unresolved := ⟨r, hr, h⟩
  rm := by simp [Shell.rm, hr, h, bind, Except.bind, pure, Except.pure]
  rmRec := by simp [Shell.rmRec, hr, h, bind, Except.bind, pure, Except.pure]
  mv dest := by simp [Shell.mv, hr, h, bind, Except.bind, pure, Except.pure]
  cp dest := by simp [Shell.cp, hr, h, bind, Except.bind, pure, Except.pure]
  cat := by simp [catRequest, hr, h, bind, Except.bind, pure, Except.pure]
  exec := by simp [execRequest, hr, h, bind, Except.bind, pure, Except.pure]

end Commands

/-- Whatever stands behind the part of a path that is looked at, the path is ignored exactly
when that part names nothing and the resolver stays inside its arrays. -/
theorem path_ignored_iff {state : ShellState} (hw : WellFormed s) (hx : PlainParents s)
    (hd : LiveDir s state.workDir) (hz : 0 ∉ path) :
    Ignored state s path ↔
      StaysInside s state.workDir path ∧ ¬ PrefixNames s state.workDir path := by
  rw [← resolved_iff hw hx hd hz, ← returns_iff hw hx hd hz]
  constructor
  · intro h
    obtain ⟨r, hr, hcode⟩ := h.unresolved
    refine ⟨⟨r, hr⟩, ?_⟩
    rintro ⟨r', hr', hcode'⟩
    obtain rfl := Except.ok.inj (hr.symm.trans hr')
    omega
  · rintro ⟨⟨r, hr⟩, h⟩
    refine ignored_of_unresolved hr ⟨?_, ?_⟩
    · exact fun hcode => h ⟨r, hr, .inl hcode⟩
    · exact fun hcode => h ⟨r, hr, .inr hcode⟩

/-- A tree of the root and one folder in it, which is empty. -/
structure OneFolder (s : FileSystem) (a : Nat) (k : Fin entryCount) (name : Name) : Prop where
  wellFormed : WellFormed s
  plain : PlainParents s
  folder : folderChild s rootClusterNumber k = some a
  name : (s.table rootClusterNumber k).name = name
  ext : (s.table rootClusterNumber k).ext = noExt
  only : ∀ i, LiveSlot s rootClusterNumber i → i = k
  empty : ∀ i, ¬ LiveSlot s a i

section OneFolder

variable {a : Nat} {k : Fin entryCount} {name : Name}

theorem OneFolder.child (h : OneFolder s a k name) (hd : LiveDir s d) {i : Fin entryCount} {c : Nat}
    (hc : folderChild s d i = some c) : d = rootClusterNumber ∧ i = k ∧ c = a := by
  obtain ⟨n, hn⟩ := hd
  induction hn generalizing i c with
  | root =>
    obtain rfl := h.only i (folderChild_eq_some.mp hc).1
    exact ⟨rfl, rfl, Option.some.inj (hc.symm.trans h.folder)⟩
  | child _ hb ih =>
    obtain ⟨-, -, rfl⟩ := ih hb
    exact absurd (folderChild_eq_some.mp hc).1 (h.empty i)

theorem oneFolder_exists (name : Name) : ∃ s a k, OneFolder s a k name := by
  obtain ⟨s, k, cs, hs, hw, hwr⟩ := createFat32_written (fun _ => 0) zeroBytes
    (request name noExt rootClusterNumber) rfl (Nat.le_of_ble_eq_true rfl)
  have hx := plainParents_written (createFat32_wellFormed _ _) (createFat32_plainParents _ _)
    reach_root hs hwr
  obtain ⟨a, rfl, -, ha⟩ := hwr.folderChild_new rfl
  have hi := entryAt_written hwr (d := rootClusterNumber) rfl
  refine ⟨s, a, k, hw, hx, ha, hi.2.1, hi.2.2, fun i hi => createFat32_only _ _ hwr rfl hi,
    fun i hi => ?_⟩
  rw [LiveSlot, hwr.empty rfl a (by simp), newDirectoryTable_empty _ _ hi.1] at hi
  exact absurd hi.2 (by simp)

end OneFolder

/-- A file name, two slashes and another name. -/
def overlongPath : List UInt8 := bytePath ++ [slash, slash, 98]

theorem overlongPath_rows : overlongPath.splitOn slash = [bytePath, [], [98]] := by decide

theorem overlongPath_overlong : Overlong overlongPath :=
  .inl ⟨[bytePath], [[98]], overlongPath_rows, [98], by simp, by simp⟩

theorem overlongPath_looksAt : LooksAt (overlongPath.splitOn slash) [] bytePath :=
  ⟨⟨[[], [98]], overlongPath_rows, by simp⟩, by simp⟩

theorem overlongPath_names : ∃ s, WellFormed s ∧ PlainParents s ∧
    PrefixNames s rootClusterNumber overlongPath := by
  obtain ⟨s, i, cs, hs, hw, hwr⟩ :=
    createFat32_written (fun _ => 0) zeroBytes byteRequest rfl (by decide)
  have hx := plainParents_written (createFat32_wellFormed _ _) (createFat32_plainParents _ _)
    reach_root hs hwr
  obtain ⟨hslot, hname, hext⟩ := entryAt_written hwr (d := rootClusterNumber) rfl
  have hi : EntryAt s rootClusterNumber (toName (namePart bytePath)) (toExt (extPart bytePath)) i :=
    ⟨hslot, hname.trans (by decide), hext.trans (by decide)⟩
  refine ⟨s, hw, hx, [], bytePath, rootClusterNumber, i, overlongPath_looksAt, ?_, .here _, by decide,
    by decide, hi⟩
  exact ⟨by decide, by decide, by decide, by decide⟩

/-- On a new disk the path names nothing and is ignored. -/
theorem path_ignored_iff_overlong : ∃ s, Overlong overlongPath ∧ WellFormed s ∧
    Ignored initial s overlongPath := by
  have hw := createFat32_wellFormed (fun _ => 0) zeroBytes
  refine ⟨_, overlongPath_overlong, hw, (path_ignored_iff hw (createFat32_plainParents _ _) reach_root
    (by decide)).mpr ⟨⟨by decide, by decide, ?_⟩, ?_⟩⟩
  · rintro folders last c hlook -
    obtain ⟨rfl, rfl⟩ := hlook.unique overlongPath_looksAt
    exact ⟨by decide, by decide⟩
  · rintro ⟨folders, last, c, i, -, -, hc, -, -, hi⟩
    exact createFat32_liveSlot _ _ (hc.liveDir reach_root) hi.1

/-- The file is found, and `rm` acts on it. -/
theorem overlong_path_resolved : ¬ ∀ (s : FileSystem) (path : List UInt8), WellFormed s →
    PlainParents s → 0 ∉ path → Overlong path → Ignored initial s path := by
  intro h
  obtain ⟨s, hw, hx, hnames⟩ := overlongPath_names
  obtain ⟨r, hr, hcode⟩ := (resolved_iff hw hx reach_root (by decide)).mpr hnames
  obtain ⟨r', hr', hno⟩ := (h s overlongPath hw hx (by decide) overlongPath_overlong).unresolved
  obtain rfl := Except.ok.inj (hr.symm.trans hr')
  omega

end Doors.Shell
