import Doors.FolderLookup
import Doors.WorkDir
import Mathlib.Data.List.TakeWhile

/-! Resolving a path against the directory tree. A component names a folder without an
extension, and ".." the parent, the root being its own. -/

namespace Doors.Shell

open PointerTree Fat32 FileSystem

variable {Fits : UInt32 → Nat → Prop} {s : FileSystem}

def dotDotRow : List UInt8 := [dot, dot]

/-- The directory above `d`. -/
def ParentOf (s : FileSystem) (d p : Nat) : Prop :=
  (d = rootClusterNumber ∧ p = rootClusterNumber) ∨
    ∃ k, LiveDir s p ∧ folderChild s p k = some d

/-- The slot holds an entry of that name and extension. -/
def EntryAt (s : FileSystem) (d : Nat) (name : Name) (ext : Ext) (i : Fin entryCount) : Prop :=
  LiveSlot s d i ∧ (s.table d i).name = name ∧ (s.table d i).ext = ext

/-- One component leads from directory `d` to directory `c`. -/
inductive Leads (s : FileSystem) (d : Nat) : List UInt8 → Nat → Prop
  | up {p : Nat} : ParentOf s d p → Leads s d dotDotRow p
  | down {row : List UInt8} {c : Nat} {i : Fin entryCount} :
    row ≠ dotDotRow → row.length ≤ 8 → EntryAt s d (toName row) noExt i →
    folderChild s d i = some c → Leads s d row c

/-- The components lead from directory `d` to directory `c`, one after the other. -/
inductive Walks (s : FileSystem) : Nat → List (List UInt8) → Nat → Prop
  | here (d : Nat) : Walks s d [] d
  | step {d b c : Nat} {row : List UInt8} {rows : List (List UInt8)} :
    Leads s d row b → Walks s b rows c → Walks s d (row :: rows) c

/-- The part of a component before its dot. -/
def baseName (row : List UInt8) : List UInt8 := row.takeWhile (· != dot)

/-- The part of a component behind its dot. -/
def extension (row : List UInt8) : List UInt8 := (row.dropWhile (· != dot)).drop 1

/-- A relative path of at most 15 components, each a C string that fits its row. -/
structure Canonical (folders : List (List UInt8)) (last : List UInt8) : Prop where
  count : folders.length < 15
  rows : ∀ row ∈ folders ++ [last], row ≠ [] ∧ row.length < 256 ∧ slash ∉ row ∧ 0 ∉ row
  last_dots : last.count dot ≤ 1

def pathOf (folders : List (List UInt8)) (last : List UInt8) : List UInt8 :=
  [slash].intercalate (folders ++ [last])

/-- What is found at the end of a path whose folders lead to directory `c`. -/
structure Finds (s : FileSystem) (c : Nat) (last : List UInt8) (r : Resolved) : Prop where
  parent : r.parentCluster = c
  filename : r.filename = toName (baseName last)
  ext : r.ext = toExt (extension last)
  file : r.code = 0 ↔ ∃ i, EntryAt s c r.filename r.ext i ∧ FileSlot s c i
  folder : r.code = 1 ↔ ∃ i b, EntryAt s c r.filename r.ext i ∧ folderChild s c i = some b
  absent : r.code = 2 ↔ ∀ i, ¬ EntryAt s c r.filename r.ext i
  current : ∀ i, EntryAt s c r.filename r.ext i →
    r.currentCluster = (s.table c i).clusterNumber

/-- The answer for a path, read off the tree. -/
structure Resolves (s : FileSystem) (d : Nat) (folders : List (List UInt8)) (last : List UInt8)
    (r : Resolved) : Prop where
  invalid : r.code = 3 ↔ ¬ ∃ c, Walks s d folders c
  name_long : ∀ c, Walks s d folders c → (r.code = 4 ↔ 8 < (baseName last).length)
  ext_long : ∀ c, Walks s d folders c →
    (r.code = 5 ↔ (baseName last).length ≤ 8 ∧ 3 < (extension last).length)
  found : ∀ c, Walks s d folders c → (baseName last).length ≤ 8 →
    (extension last).length ≤ 3 → Finds s c last r

/-- Entry 1 of every directory has no extension. -/
def PlainParents (s : FileSystem) : Prop := ∀ d, LiveDir s d → (s.table d 1).ext = noExt

section Parents

theorem createFat32_plainParents (root : Name) (disk : Nat → UInt8) :
    PlainParents (createFat32 root (boot disk)) := by
  intro d hd
  rw [createFat32_liveDir root disk hd, createFat32_table]
  rfl

theorem plainParents_edit (s s' : FileSystem) (hw : WellFormed s) (hx : PlainParents s)
    (h : Edit s s') : PlainParents s' := by
  intro d hd
  cases h with
  | loadDir => exact hx d hd
  | written _ hwr =>
    rcases (hwr.grown.liveDir_iff hw).mp hd with hd | ⟨hk, rfl⟩
    · rw [(hwr.grown.header_eq hw hd).2]
      exact hx d hd
    · have hz := newEntry_isSubdirectory _ _ _ ▸ hk
      have hmem : (newEntry _ _ _ _).clusterNumber ∈ _ :=
        (hwr.grown.folder hk).1 ▸ List.mem_singleton.mpr rfl
      rw [hwr.empty (of_decide_eq_true hz) _ hmem]
      rfl
  | pruned hp =>
    obtain ⟨hds, hr⟩ := (hp.liveDir_iff hw).mp hd
    rw [(hp.header_eq hw hds hr).2]
    exact hx d hds

theorem plainParents_of_run {root : Name} {disk : Nat → UInt8} {calls : List Call}
    (h : Run CallStep (createFat32 root (boot disk)) calls s) :
    WellFormed s ∧ PlainParents s := by
  apply Run.invariant _ h ⟨createFat32_wellFormed root disk, createFat32_plainParents root disk⟩
  rintro s call s' ⟨hw, hx⟩ hs
  exact (callStep_edits hw hs).invariant plainParents_edit hw hx

theorem plainParents_written {s' : FileSystem} {request : Request} {i : Fin entryCount}
    {cs : List Nat} (hw : WellFormed s) (hx : PlainParents s) (hp : LiveDir s request.parent)
    (hs : write s request = .ok (0, s')) (hwr : Written s s' request i cs) : PlainParents s' := by
  have hc : ¬ Clash s request := fun hc => by
    rw [write_clash hw hp hc] at hs
    exact absurd (Except.ok.inj hs) (by simp)
  exact plainParents_edit s s' hw hx (.written hc hwr)

end Parents

section Names

/-- Among C strings of at most 8 bytes only ".." is the parent's name. -/
theorem toName_eq_dotDot {row : List UInt8} (hlen : row.length ≤ 8) (hzero : 0 ∉ row) :
    toName row = dotDot ↔ row = dotDotRow := by
  constructor
  · intro h
    have hget : ∀ k : Fin 8, row.getD k 0 = dotDot k := fun k => congrFun h k
    have h0 := hget 0
    have h1 := hget 1
    have h2 := hget 2
    rcases row with _ | ⟨a, _ | ⟨b, _ | ⟨c, row⟩⟩⟩
    · exact absurd (show (0 : UInt8) = dot from h0) (by decide)
    · exact absurd (show (0 : UInt8) = dot from h1) (by decide)
    · have ha : a = dot := h0
      have hb : b = dot := h1
      rw [ha, hb]
      rfl
    · have hc : c = 0 := h2
      simp [hc] at hzero
  · rintro rfl
    decide

theorem EntryAt.unique (hw : Formed Fits s) {d : Nat} (hd : LiveDir s d) {name : Name} {ext : Ext}
    {i j : Fin entryCount} (hi : EntryAt s d name ext i) (hj : EntryAt s d name ext j) : i = j :=
  hw.names_unique hd hi.1 hj.1 (hi.2.1.trans hj.2.1.symm) (hi.2.2.trans hj.2.2.symm)

theorem EntryAt.of_entry_eq {s' : FileSystem} {d : Nat} {name : Name} {ext : Ext}
    {i : Fin entryCount} (h : EntryAt s d name ext i) (he : s'.table d i = s.table d i) :
    EntryAt s' d name ext i := by
  rwa [EntryAt, LiveSlot, he]

theorem entryAt_written {s' : FileSystem} {req : Request} {i : Fin entryCount}
    {cs : List Nat} (h : Written s s' req i cs) {d : Nat} (hd : req.parent = d) :
    EntryAt s' d req.name req.ext i := by
  subst hd
  exact ⟨h.grown.liveSlot_new, FAT32DriverRequest.names_iff.mp h.named⟩

/-- A name that is not the parent's is looked for among the files and folders. -/
theorem findEntry_iff (hw : Formed Fits s) {d : Nat} (hd : LiveDir s d) {name : Name} {ext : Ext}
    (hn : name ≠ dotDot) {e : FAT32DirectoryEntry} :
    findEntry (readTable s d) name ext = some e ↔
      ∃ i, EntryAt s d name ext i ∧ s.table d i = e := by
  constructor
  · intro h
    obtain ⟨i, hi, rfl, hlive, hname, hext⟩ := findEntry_some h
    have hone : i.val ≠ 1 := by
      intro h1
      obtain rfl : i = 1 := Fin.ext h1
      exact hn (hname.symm.trans (parent_entry hw hd).2.1)
    exact ⟨i, ⟨⟨by omega, hlive⟩, hname, hext⟩, rfl⟩
  · rintro ⟨i, ⟨hi, rfl, rfl⟩, rfl⟩
    exact findEntry_found hw hd hi hn

theorem findEntry_none_iff (hw : Formed Fits s) {d : Nat} (hd : LiveDir s d) {name : Name}
    {ext : Ext} (hn : name ≠ dotDot) :
    findEntry (readTable s d) name ext = none ↔ ∀ i, ¬ EntryAt s d name ext i := by
  constructor
  · intro h i hi
    rw [(findEntry_iff hw hd hn).mpr ⟨i, hi, rfl⟩] at h
    cases h
  · intro h
    cases hf : findEntry (readTable s d) name ext with
    | none => rfl
    | some e =>
      obtain ⟨i, hi, -⟩ := (findEntry_iff hw hd hn).mp hf
      exact absurd hi (h i)

theorem parentOf_iff (hw : Formed Fits s) {d p : Nat} (hd : LiveDir s d) :
    ParentOf s d p ↔ (s.table d 1).clusterNumber = p := by
  obtain ⟨q, hh, hq⟩ := hw.dir_header hd
  rw [hh.parent_cluster]
  constructor
  · rintro (⟨rfl, rfl⟩ | ⟨k, hp, hk⟩)
    · exact hh.parent_cluster.symm.trans hw.root_header.parent_cluster
    · exact hh.parent_cluster.symm.trans (hw.header hp hk).1.parent_cluster
  · rintro rfl
    exact hq

end Names

section Walk

variable {d : Nat}

theorem Leads.length_le {row : List UInt8} {c : Nat} (h : Leads s d row c) : row.length ≤ 8 := by
  cases h with
  | up => decide
  | down _ hlen => exact hlen

theorem findEntry_leads (hw : Formed Fits s) (hx : PlainParents s) (hd : LiveDir s d)
    {row : List UInt8} (hlen : row.length ≤ 8) (hzero : 0 ∉ row) {c : Nat} :
    Leads s d row c ↔ ∃ e, findEntry (readTable s d) (toName row) noExt = some e ∧
      e.isSubdirectory = true ∧ e.clusterNumber = c := by
  by_cases hdots : row = dotDotRow
  · have hup := findEntry_parent hw hd (hx d hd)
    have hname := (toName_eq_dotDot hlen hzero).mpr hdots
    have hkind : (s.table d 1).isSubdirectory = true := by
      obtain ⟨q, hh, -⟩ := hw.dir_header hd
      exact hh.parent_kind.2
    rw [hname, hup]
    constructor
    · intro h
      cases h with
      | up hp => exact ⟨_, rfl, hkind, (parentOf_iff hw hd).mp hp⟩
      | down hne => exact absurd hdots hne
    · rintro ⟨e, he, -, hc⟩
      cases he
      rw [hdots]
      exact .up ((parentOf_iff hw hd).mpr hc)
  · have hname : toName row ≠ dotDot := fun h => hdots ((toName_eq_dotDot hlen hzero).mp h)
    simp only [findEntry_iff hw hd hname]
    constructor
    · intro h
      cases h with
      | up => exact absurd rfl hdots
      | down _ _ hi hc =>
        obtain ⟨-, hk, hcn⟩ := folderChild_eq_some.mp hc
        exact ⟨_, ⟨_, hi, rfl⟩, hk, hcn⟩
    · rintro ⟨e, ⟨i, hi, rfl⟩, hk, hc⟩
      exact .down hdots hlen hi (folderChild_eq_some.mpr ⟨hi.1, hk, hc⟩)

theorem Leads.liveDir (hd : LiveDir s d) {row : List UInt8} {c : Nat}
    (h : Leads s d row c) : LiveDir s c := by
  cases h with
  | up hp =>
    rcases hp with ⟨-, rfl⟩ | ⟨k, hp, -⟩
    · exact reach_root
    · exact hp
  | down _ _ _ hc => exact hd.step hc

theorem Walks.liveDir {folders : List (List UInt8)} {c : Nat} (hd : LiveDir s d)
    (h : Walks s d folders c) : LiveDir s c := by
  induction h with
  | here => exact hd
  | step hb _ ih => exact ih (hb.liveDir hd)

/-- The folder that a component leads to, in the table as it is read. -/
def enter (s : FileSystem) (d : Nat) (row : List UInt8) : Option Nat :=
  if 8 < row.length then none
  else match findEntry (readTable s d) (toName row) noExt with
    | none => none
    | some e => if !e.isSubdirectory then none else some e.clusterNumber

theorem enter_leads (hw : Formed Fits s) (hx : PlainParents s) (hd : LiveDir s d)
    {row : List UInt8} (hzero : 0 ∉ row) {c : Nat} : enter s d row = some c ↔ Leads s d row c := by
  rw [enter]
  by_cases hlen : 8 < row.length
  · simp only [if_pos hlen, reduceCtorEq, false_iff]
    exact fun h => absurd h.length_le (Nat.not_le.mpr hlen)
  · rw [if_neg hlen, findEntry_leads hw hx hd (Nat.not_lt.mp hlen) hzero]
    cases findEntry (readTable s d) (toName row) noExt with
    | none => simp
    | some e => cases hk : e.isSubdirectory <;> simp [hk]

theorem enters_walks (hw : Formed Fits s) (hx : PlainParents s) {folders : List (List UInt8)}
    (hzero : ∀ row ∈ folders, 0 ∉ row) (hd : LiveDir s d) {c : Nat} :
    folders.foldlM (enter s) d = some c ↔ Walks s d folders c := by
  induction folders generalizing d with
  | nil =>
    constructor
    · intro h
      cases h
      exact .here _
    · intro h
      cases h
      rfl
  | cons row folders ih =>
    have hrest : ∀ r ∈ folders, 0 ∉ r := fun r hr => hzero r (List.mem_cons_of_mem _ hr)
    have hrow : 0 ∉ row := hzero row List.mem_cons_self
    rw [List.foldlM_cons, Option.bind_eq_bind, Option.bind_eq_some_iff]
    constructor
    · rintro ⟨b, hb, h⟩
      have hb := (enter_leads hw hx hd hrow).mp hb
      exact .step hb ((ih hrest (hb.liveDir hd)).mp h)
    · intro h
      cases h with
      | step hb h =>
        exact ⟨_, (enter_leads hw hx hd hrow).mpr hb, (ih hrest (hb.liveDir hd)).mpr h⟩

theorem Walks.unique (hw : Formed Fits s) (hx : PlainParents s) {folders : List (List UInt8)}
    (hzero : ∀ row ∈ folders, 0 ∉ row) {b c : Nat} (hd : LiveDir s d) (hb : Walks s d folders b)
    (hc : Walks s d folders c) : b = c :=
  Option.some.inj (((enters_walks hw hx hzero hd).mpr hb).symm.trans
    ((enters_walks hw hx hzero hd).mpr hc))

theorem parentLoop_cons {row next : List UInt8} {rows : List (List UInt8)} (hne : next ≠ []) :
    parentLoop s (row :: next :: rows) d =
      if 8 < row.length then .ok none
      else match findEntry (readTable s d) (toName row) noExt with
        | none => .ok none
        | some e =>
          if !e.isSubdirectory then .ok none
          else parentLoop s (next :: rows) e.clusterNumber := by
  rw [parentLoop]
  exact if_neg hne

theorem rows_cons {rows behind : List (List UInt8)} {row last : List UInt8}
    (hne : ∀ r ∈ (row :: rows ++ [last]).tail, r ≠ []) :
    ∃ next rest, rows ++ last :: behind = next :: rest ∧ next ≠ [] := by
  cases rows with
  | nil => exact ⟨last, behind, rfl, hne last (by simp)⟩
  | cons next rest => exact ⟨next, _, rfl, hne next (by simp)⟩

/-- The loop enters the folders one after the other. Only the first component may be empty. -/
theorem parentLoop_enters {last : List UInt8} {folders behind : List (List UInt8)}
    (hne : ∀ row ∈ (folders ++ [last]).tail, row ≠ []) :
    parentLoop s (folders ++ last :: behind) d =
      match folders.foldlM (enter s) d with
      | none => .ok none
      | some c => parentLoop s (last :: behind) c := by
  induction folders generalizing d with
  | nil => rfl
  | cons row rows ih =>
    obtain ⟨next, rest, hnext, hnonempty⟩ := rows_cons hne
    have hrest : ∀ r ∈ (rows ++ [last]).tail, r ≠ [] := fun r hr => hne r (List.mem_of_mem_tail hr)
    rw [List.cons_append, hnext, parentLoop_cons hnonempty, List.foldlM_cons, enter]
    by_cases hlen : 8 < row.length
    · rw [if_pos hlen, if_pos hlen]
      rfl
    · rw [if_neg hlen, if_neg hlen]
      cases findEntry (readTable s d) (toName row) noExt with
      | none => rfl
      | some e =>
        cases hk : e.isSubdirectory with
        | false => simp [hk]
        | true =>
          simp only [hk, Bool.not_true, Bool.false_eq_true, if_false, ← hnext]
          exact ih hrest

theorem parentLoop_walks (hw : Formed Fits s) (hx : PlainParents s) {last : List UInt8}
    {folders behind : List (List UInt8)} (hzero : ∀ row ∈ folders, 0 ∉ row)
    (hne : ∀ row ∈ (folders ++ [last]).tail, row ≠ []) {c : Nat} (hd : LiveDir s d)
    (h : Walks s d folders c) :
    parentLoop s (folders ++ last :: behind) d = parentLoop s (last :: behind) c := by
  rw [parentLoop_enters hne, (enters_walks hw hx hzero hd).mpr h]

theorem parentLoop_refused (hw : Formed Fits s) (hx : PlainParents s) {last : List UInt8}
    {folders behind : List (List UInt8)} (hzero : ∀ row ∈ folders, 0 ∉ row)
    (hne : ∀ row ∈ (folders ++ [last]).tail, row ≠ []) (hd : LiveDir s d)
    (h : ¬ ∃ c, Walks s d folders c) : parentLoop s (folders ++ last :: behind) d = .ok none := by
  rw [parentLoop_enters hne]
  cases hc : folders.foldlM (enter s) d with
  | none => rfl
  | some c => exact absurd ⟨c, (enters_walks hw hx hzero hd).mp hc⟩ h

end Walk

section Rows

theorem strsplit_ok {str : List UInt8} {delim : UInt8} {rows : List (List UInt8)}
    (h : str.splitOn delim = rows) (hcount : rows.length < 16)
    (hlen : ∀ row ∈ rows, row.length < 256) : strsplit str delim = .ok (rows ++ [[]]) := by
  rw [strsplit, h, if_pos ⟨Nat.le_of_lt hcount, hlen⟩, if_pos hcount]

theorem Canonical.strsplit {folders : List (List UInt8)} {last : List UInt8}
    (h : Canonical folders last) :
    strsplit (pathOf folders last) slash = .ok (folders ++ [last, []]) := by
  have hsplit : (pathOf folders last).splitOn slash = folders ++ [last] :=
    List.splitOn_intercalate _ (fun row hr => (h.rows row hr).2.2.1) (by simp)
  have hcount : (folders ++ [last]).length < 16 := by
    rw [List.length_append]
    exact Nat.succ_lt_succ h.count
  rw [strsplit_ok hsplit hcount fun row hr => (h.rows row hr).2.1, List.append_assoc]
  rfl

theorem bne_dot {row : List UInt8} (h : dot ∉ row) : ∀ b ∈ row, (b != dot) = true := by
  intro b hb
  simp only [bne_iff_ne]
  rintro rfl
  exact h hb

/-- The last component is cut at its only dot. -/
theorem strsplit_last {last : List UInt8} (hlen : last.length < 256) (hdots : last.count dot ≤ 1) :
    ∃ rows, Shell.strsplit last dot = .ok rows ∧ rows.getD 0 [] = baseName last ∧
      rows.getD 1 [] = extension last := by
  by_cases hmem : dot ∈ last
  · obtain ⟨name, ext, rfl, hname⟩ := List.eq_append_cons_of_mem hmem
    have hext : dot ∉ ext := by
      rw [List.count_append, List.count_cons_self] at hdots
      exact List.count_eq_zero.mp (by omega)
    have hsplit : (name ++ dot :: ext).splitOn dot = [name, ext] := by
      rw [List.splitOn_append_cons_self_of_not_mem hname, List.splitOn_eq_singleton hext]
    rw [List.length_append, List.length_cons] at hlen
    refine ⟨_, strsplit_ok hsplit (by simp) (by simp; omega), ?_, ?_⟩
    · simp [baseName, List.takeWhile_append_of_pos (bne_dot hname)]
    · simp [extension, List.dropWhile_append_of_pos (bne_dot hname)]
  · have hsplit : last.splitOn dot = [last] := List.splitOn_eq_singleton hmem
    have hrest : last.dropWhile (· != dot) = [] :=
      List.dropWhile_eq_nil_iff.mpr (bne_dot hmem)
    refine ⟨_, strsplit_ok hsplit (by simp) (by simpa using hlen), ?_, ?_⟩
    · exact (List.takeWhile_eq_self_iff.mpr (bne_dot hmem)).symm
    · simp [extension, hrest]

theorem toName_ne_dotDot {row : List UInt8} (h : dot ∉ row) : toName row ≠ dotDot := by
  intro hname
  have h0 : row.getD 0 0 = dot := congrFun hname 0
  cases row with
  | nil => exact absurd h0 (by decide)
  | cons b row =>
    rw [List.getD_cons_zero] at h0
    exact h (h0 ▸ List.mem_cons_self)

/-- The first part of a component has no dot, so it is not the parent's name. -/
theorem baseName_ne_dotDot (last : List UInt8) : toName (baseName last) ≠ dotDot :=
  toName_ne_dotDot fun h => absurd (List.mem_takeWhile_imp h) (by simp)

end Rows

theorem Finds.code {c : Nat} {last : List UInt8} {r : Resolved} (h : Finds s c last r) :
    r.code = 0 ∨ r.code = 1 ∨ r.code = 2 := by
  by_cases hentry : ∃ i, EntryAt s c r.filename r.ext i
  · obtain ⟨i, hi⟩ := hentry
    rcases hi.1.kind with hfile | hfolder
    · exact .inl (h.file.mpr ⟨i, hi, hfile⟩)
    · exact .inr (.inl (h.folder.mpr ⟨i, _, hi, hfolder⟩))
  · exact .inr (.inr (h.absent.mpr (not_exists.mp hentry)))

section Resolution

variable {d c : Nat} {path last : List UInt8} {rows fileRows : List (List UInt8)}

theorem getCurrAndParentCluster_refused (hrows : strsplit path slash = .ok rows)
    (hloop : parentLoop s rows d = .ok none) :
    getCurrAndParentCluster s path d = .ok ⟨3, d, 0, toName [], toExt []⟩ := by
  simp only [getCurrAndParentCluster, bind, Except.bind, hrows, hloop]
  rfl

theorem getCurrAndParentCluster_reached {name ext : List UInt8}
    (hrows : strsplit path slash = .ok rows) (hloop : parentLoop s rows d = .ok (some (c, last)))
    (hlast : strsplit last dot = .ok fileRows) (hname : fileRows.getD 0 [] = name)
    (hext : fileRows.getD 1 [] = ext) :
    getCurrAndParentCluster s path d = .ok (
      if 8 < name.length then ⟨4, c, 0, toName [], toExt []⟩
      else if 3 < ext.length then ⟨5, c, 0, toName [], toExt []⟩
      else match findEntry (readTable s c) (toName name) (toExt ext) with
        | none => ⟨2, c, 0, toName name, toExt ext⟩
        | some e => ⟨if e.isSubdirectory then 1 else 0, c, e.clusterNumber, toName name,
            toExt ext⟩) := by
  simp only [getCurrAndParentCluster, bind, Except.bind, hrows, hloop, hlast, hname, hext]
  split_ifs
  · rfl
  · rfl
  · cases findEntry (readTable s c) (toName name) (toExt ext) <;> rfl

theorem finds_last (hw : Formed Fits s) (hc : LiveDir s c) : Finds s c last
    (match findEntry (readTable s c) (toName (baseName last)) (toExt (extension last)) with
    | none => ⟨2, c, 0, toName (baseName last), toExt (extension last)⟩
    | some e => ⟨if e.isSubdirectory then 1 else 0, c, e.clusterNumber,
        toName (baseName last), toExt (extension last)⟩) := by
  have hn := baseName_ne_dotDot last
  cases hf : findEntry (readTable s c) (toName (baseName last)) (toExt (extension last)) with
  | none =>
    have hnone := (findEntry_none_iff hw hc hn).mp hf
    refine ⟨rfl, rfl, rfl, iff_of_false (by simp) ?_, iff_of_false (by simp) ?_,
      iff_of_true rfl hnone, fun i hi => absurd hi (hnone i)⟩
    · rintro ⟨i, hi, -⟩
      exact hnone i hi
    · rintro ⟨i, b, hi, -⟩
      exact hnone i hi
  | some e =>
    obtain ⟨i, hi, rfl⟩ := (findEntry_iff hw hc hn).mp hf
    have honly : ∀ j, EntryAt s c (toName (baseName last)) (toExt (extension last)) j → j = i :=
      fun j hj => hj.unique hw hc hi
    have hcurrent : ∀ j, EntryAt s c (toName (baseName last)) (toExt (extension last)) j →
        (s.table c i).clusterNumber = (s.table c j).clusterNumber :=
      fun j hj => by rw [honly j hj]
    cases hk : (s.table c i).isSubdirectory with
    | false =>
      refine ⟨rfl, rfl, rfl, iff_of_true (by simp [hk]) ⟨i, hi, hi.1, hk⟩,
        iff_of_false (by simp [hk]) ?_, iff_of_false (by simp [hk]) fun h => h i hi, hcurrent⟩
      rintro ⟨j, b, hj, hb⟩
      obtain rfl := honly j hj
      rw [(folderChild_eq_some.mp hb).2.1] at hk
      cases hk
    | true =>
      refine ⟨rfl, rfl, rfl, iff_of_false (by simp [hk]) ?_,
        iff_of_true (by simp [hk]) ⟨i, _, hi, folderChild_eq_some.mpr ⟨hi.1, hk, rfl⟩⟩,
        iff_of_false (by simp [hk]) fun h => h i hi, hcurrent⟩
      rintro ⟨j, hj, hfile⟩
      obtain rfl := honly j hj
      rw [hfile.2] at hk
      cases hk

end Resolution

/-- Resolving a canonical path is a walk over the tree. -/
theorem path_resolution {d : Nat} {folders : List (List UInt8)} {last : List UInt8}
    (hw : WellFormed s) (hx : PlainParents s) (hd : LiveDir s d) (hp : Canonical folders last) :
    ∃ r, getCurrAndParentCluster s (pathOf folders last) d = .ok r ∧
      Resolves s d folders last r := by
  have hzero : ∀ row ∈ folders, 0 ∉ row :=
    fun row hr => (hp.rows row (List.mem_append_left _ hr)).2.2.2
  have hne : ∀ row ∈ (folders ++ [last]).tail, row ≠ [] :=
    fun row hr => (hp.rows row (List.mem_of_mem_tail hr)).1
  by_cases hwalks : ∃ c, Walks s d folders c
  · obtain ⟨c, hc⟩ := hwalks
    have hloop : parentLoop s (folders ++ [last, []]) d = .ok (some (c, last)) :=
      parentLoop_walks hw hx hzero hne hd hc
    have honly : ∀ b, Walks s d folders b → b = c := fun b hb => hb.unique hw hx hzero hd hc
    obtain ⟨fileRows, hsplit, hname, hext⟩ :=
      strsplit_last (hp.rows last (by simp)).2.1 hp.last_dots
    refine ⟨_, getCurrAndParentCluster_reached hp.strsplit hloop hsplit hname hext, ?_⟩
    have hfinds : Finds s c last _ := finds_last hw (hc.liveDir hd)
    by_cases hlong : 8 < (baseName last).length
    · rw [if_pos hlong]
      refine ⟨iff_of_false (by simp) (not_not.mpr ⟨c, hc⟩), fun _ _ => iff_of_true rfl hlong,
        fun _ _ => iff_of_false (by simp) fun h => ?_, fun _ _ h => ?_⟩
      · exact absurd hlong (Nat.not_lt.mpr h.1)
      · exact absurd hlong (Nat.not_lt.mpr h)
    · rw [if_neg hlong]
      by_cases hext : 3 < (extension last).length
      · rw [if_pos hext]
        exact ⟨iff_of_false (by simp) (not_not.mpr ⟨c, hc⟩), fun _ _ => iff_of_false (by simp) hlong,
          fun _ _ => iff_of_true rfl ⟨Nat.not_lt.mp hlong, hext⟩,
          fun _ _ _ h => absurd hext (Nat.not_lt.mpr h)⟩
      · rw [if_neg hext]
        have hcode := hfinds.code
        refine ⟨iff_of_false ?_ (not_not.mpr ⟨c, hc⟩), fun _ _ => iff_of_false ?_ hlong,
          fun _ _ => iff_of_false ?_ fun h => hext h.2, fun b hb _ _ => honly b hb ▸ hfinds⟩
        all_goals
          intro h
          rw [h] at hcode
          exact absurd hcode (by decide)
  · refine ⟨_, getCurrAndParentCluster_refused hp.strsplit
      (parentLoop_refused hw hx hzero hne hd hwalks), ?_⟩
    exact ⟨iff_of_true rfl hwalks, fun c hc => absurd ⟨c, hc⟩ hwalks,
      fun c hc => absurd ⟨c, hc⟩ hwalks, fun c hc => absurd ⟨c, hc⟩ hwalks⟩

/-- `../a` on a new disk: the root is its own parent, and holds nothing. -/
theorem path_resolution_root : ∃ r,
    getCurrAndParentCluster (createFat32 (fun _ => 0) (boot zeroBytes)) [46, 46, 47, 97]
      rootClusterNumber = .ok r ∧ r.code = 2 ∧ r.parentCluster = rootClusterNumber := by
  have hp : Canonical [dotDotRow] [97] := ⟨by decide, by decide, by decide⟩
  obtain ⟨r, hr, hres⟩ := path_resolution (createFat32_wellFormed (fun _ => 0) zeroBytes)
    (createFat32_plainParents _ _) reach_root hp
  have hwalk : Walks (createFat32 (fun _ => 0) (boot zeroBytes)) rootClusterNumber [dotDotRow]
      rootClusterNumber := .step (.up (.inl ⟨rfl, rfl⟩)) (.here _)
  have hfinds := hres.found _ hwalk (by decide) (by decide)
  exact ⟨r, hr, hfinds.absent.mpr fun i hi => createFat32_liveSlot _ _ reach_root hi.1,
    hfinds.parent⟩

end Doors.Shell
