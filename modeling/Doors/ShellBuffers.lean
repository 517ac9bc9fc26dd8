import Doors.CdPath
import Doors.CommandLine
import Doors.FindReport

/-! The arrays that a command line is cut into. None of the string functions is given a size,
so it depends on the line, the working directory and the disk whether they stay inside. -/

namespace Doors.Shell

open PointerTree Fat32 FileSystem

variable {s : FileSystem} {d : Nat} {state : ShellState} {stack : Nat → UInt8}
  {path name line : List UInt8}

/-- The target is resolved when the source is what the command takes. -/
def resolveBoth (state : ShellState) (s : FileSystem) (src dest : List UInt8)
    (goesOn : Int → Bool) : Except Fault Unit := do
  let source ← getCurrAndParentCluster s src state.workDir
  if goesOn source.code then
    (getCurrAndParentCluster s dest state.workDir).map fun _ => ()
  else .ok ()

/-- What a command does with its arrays before it calls the kernel. -/
def Action.buffers (state : ShellState) (s : FileSystem) (stack : Nat → UInt8) :
    Action → Except Fault Unit
  | .file (.cd name) => (cd state s name).map fun _ => ()
  | .file (.rm path) | .file (.rmRec path) | .cat path | .exec path =>
    (getCurrAndParentCluster s path state.workDir).map fun _ => ()
  | .file (.cp src dest) => resolveBoth state s src dest fun code => code = 0
  | .file (.cpRec src dest) => resolveBoth state s src dest fun code => code = 1
  | .file (.mv src dest) => resolveBoth state s src dest fun code => code = 0 || code = 1
  | .find name => (runFind s stack name).map fun _ => ()
  | .file (.mkdir _) | .message _ | .ls | .clearScreen | .help | .ps | .doors | .kill _ => .ok ()

/-- `run_command` over the arrays of the shell. -/
def shellBuffers (state : ShellState) (s : FileSystem) (stack : Nat → UInt8) (line : List UInt8) :
    Except Fault Unit := do
  let action ← runCommand line
  action.buffers state s stack

/-- At most 15 slashes, and when the folders are entered there is a row behind the last
component, and at most 15 dots in it. -/
structure PathBounds (s : FileSystem) (d : Nat) (path : List UInt8) : Prop where
  count : (path.splitOn slash).length ≤ 16
  last : ∀ folders last c, LooksAt (path.splitOn slash) folders last →
    folders.foldlM (enter s) d = some c → folders.length < 15 ∧ (last.splitOn dot).length ≤ 16

/-- At most 15 slashes, every path on the way fits its array, and of 16 components one is
not entered. -/
structure CdBounds (state : ShellState) (s : FileSystem) (name : List UInt8) : Prop where
  count : (name.splitOn slash).length ≤ 16
  room : EditsFit s (state.workDir, state.workDirName) (components name)
  ended : 16 ≤ (components name).length → (components name).foldlM (enter s) state.workDir = none

/-- At most 15 dots, and room for the path of every folder where there is one. -/
structure FindBounds (s : FileSystem) (stack : Nat → UInt8) (name : List UInt8) : Prop where
  count : (name.splitOn dot).length ≤ 16
  room : (∀ i, folderChild s rootClusterNumber i = none) ∨
    ∃ text, CString.Holds (startPath stack) text ∧ PathRoom s rootClusterNumber text

/-- The path leads to a file, or to a folder. -/
def NamesKind (s : FileSystem) (d : Nat) (path : List UInt8) (isFolder : Bool) : Prop :=
  ∃ last c e, LeadsTo s d path last c e ∧ e.isSubdirectory = isFolder

def Action.InBounds (state : ShellState) (s : FileSystem) (stack : Nat → UInt8) : Action → Prop
  | .file (.cd name) => CdBounds state s name
  | .file (.rm path) | .file (.rmRec path) | .cat path | .exec path =>
    PathBounds s state.workDir path
  | .file (.cp src dest) => PathBounds s state.workDir src ∧
    (NamesKind s state.workDir src false → PathBounds s state.workDir dest)
  | .file (.cpRec src dest) => PathBounds s state.workDir src ∧
    (NamesKind s state.workDir src true → PathBounds s state.workDir dest)
  | .file (.mv src dest) => PathBounds s state.workDir src ∧
    ((∃ isFolder, NamesKind s state.workDir src isFolder) → PathBounds s state.workDir dest)
  | .find name => FindBounds s stack name
  | .file (.mkdir _) | .message _ | .ls | .clearScreen | .help | .ps | .doors | .kill _ => True

/-- The line ends inside its buffer, has at most 15 spaces, and its command stays inside. -/
structure LineBounds (state : ShellState) (s : FileSystem) (stack : Nat → UInt8)
    (line : List UInt8) : Prop where
  length : line.length < 256
  rows : (line.splitOn space).length ≤ 16
  action : (dispatch fun k => (line.splitOn space).getD k []).InBounds state s stack

section Paths

theorem splitOn_short {delim : UInt8} {str : List UInt8} (hlen : str.length < 256) :
    ∀ row ∈ str.splitOn delim, row.length < 256 :=
  fun _ hr => (CString.infix_of_mem_splitOn hr).length_le.trans_lt hlen

theorem resolve_ok_iff (hlen : path.length < 256) :
    (∃ r, getCurrAndParentCluster s path d = .ok r) ↔ PathBounds s d path := by
  constructor
  · rintro ⟨r, hr⟩
    obtain ⟨rows, hrows, -⟩ := bind_ok hr
    refine ⟨(strsplit_exists.mp ⟨_, hrows⟩).1, fun folders last c hlook hc => ?_⟩
    by_contra hout
    have hfits : ¬ Fits path folders last := fun h => hout ⟨h.folders, h.parts⟩
    rw [resolve_outside hrows hlook hc hfits] at hr
    cases hr
  · intro h
    obtain ⟨folders, last, hlook⟩ := exists_looksAt (List.splitOn_ne_nil slash path)
    have hshort : ∀ row ∈ path.splitOn slash, row.length < 256 := splitOn_short hlen
    obtain ⟨rows, hrows⟩ := strsplit_exists.mpr ⟨h.count, hshort⟩
    cases hc : folders.foldlM (enter s) d with
    | none => exact ⟨_, resolve_refused hrows hlook hc⟩
    | some c =>
      obtain ⟨hfolders, hparts⟩ := h.last folders last c hlook hc
      exact ⟨_, resolve_entered hlook ⟨h.count, hshort, hfolders, hparts⟩ hc⟩

theorem namesKind_iff {isFolder : Bool} : (∃ r, getCurrAndParentCluster s path d = .ok r ∧
    r.code = if isFolder then 1 else 0) ↔ NamesKind s d path isFolder := by
  constructor
  · rintro ⟨r, hr, hcode⟩
    obtain ⟨last, c, e, h⟩ := leadsTo_of_code hr (by cases isFolder <;> simp_all)
    rw [h.eq] at hr
    obtain rfl := Except.ok.inj hr
    refine ⟨last, c, e, h, ?_⟩
    cases isFolder <;> cases hk : e.isSubdirectory <;> simp_all
  · rintro ⟨last, c, e, h, rfl⟩
    exact ⟨_, h.eq, rfl⟩

end Paths

section Commands

theorem map_ignored {α : Type} {x : Except Fault α} : x.map (fun _ => ()) = .ok () ↔ ∃ a, x = .ok a := by
  cases x <;> simp [Except.map]

theorem resolveBoth_iff {src dest : List UInt8} {goesOn : Int → Bool} (hsrc : src.length < 256)
    (hdest : dest.length < 256) : resolveBoth state s src dest goesOn = .ok () ↔
      PathBounds s state.workDir src ∧
        ((∃ r, getCurrAndParentCluster s src state.workDir = .ok r ∧ goesOn r.code = true) →
          PathBounds s state.workDir dest) := by
  rw [← resolve_ok_iff hsrc, ← resolve_ok_iff hdest, resolveBoth]
  cases hr : getCurrAndParentCluster s src state.workDir with
  | error f => simp [bind, Except.bind]
  | ok r =>
    by_cases hgo : goesOn r.code = true
    · simp [bind, Except.bind, hgo, map_ignored]
    · simp [bind, Except.bind, hgo]

theorem cd_ok_loop {rows : List (List UInt8)} (hrows : strsplit name slash = .ok rows) :
    (∃ state', cd state s name = .ok state') ↔
      ∃ r, cdLoop s rows state.workDir state.workDirName = .ok r := by
  simp only [cd, bind, Except.bind, hrows]
  cases cdLoop s rows state.workDir state.workDirName with
  | error f => simp
  | ok r => cases r <;> simp [pure, Except.pure]

theorem cdLoop_ok_iff {rows : List (List UInt8)} (hname : state.workDirName.length < 256)
    (hrows : strsplit name slash = .ok rows) :
    (∃ r, cdLoop s rows state.workDir state.workDirName = .ok r) ↔ CdBounds state s name := by
  have hcount := (strsplit_exists.mp ⟨_, hrows⟩).1
  have hne : ∀ row ∈ components name, row ≠ [] := fun row hr => by
    simpa using List.mem_takeWhile_imp hr
  by_cases hfit : EditsFit s (state.workDir, state.workDirName) (components name)
  · obtain ⟨hcut, behind, rfl⟩ | ⟨hfull, rfl⟩ := strsplit_components hrows
    · refine iff_of_true ?_ ⟨hcount, hfit, fun h => by omega⟩
      rw [cdLoop_enters hne hfit]
      split
      · exact ⟨_, rfl⟩
      · exact ⟨_, if_pos rfl⟩
    · -- 16 components: the loop looks for the row behind the last one
      have hloop := @cdLoop_enters s _ _ _ [] hne hfit
      have hfst := foldlM_fst (s := s) (components name) state.workDir state.workDirName
      rw [List.append_nil] at hloop
      rw [hloop]
      cases hc : (components name).foldlM (enterPath s) (state.workDir, state.workDirName) with
      | none =>
        rw [hc] at hfst
        exact iff_of_true ⟨none, rfl⟩ ⟨hcount, hfit, fun _ => hfst.symm⟩
      | some here =>
        rw [hc] at hfst
        refine iff_of_false (by simp [cdLoop]) fun h => ?_
        simp [h.ended hfull] at hfst
  · obtain ⟨behind, rfl⟩ := strsplit_behind hrows
    rw [cdLoop_overflows hne hname hfit]
    exact iff_of_false (by simp) fun h => hfit h.room

theorem cd_ok_iff (hname : state.workDirName.length < 256) (hlen : name.length < 256) :
    (∃ state', cd state s name = .ok state') ↔ CdBounds state s name := by
  by_cases hcount : (name.splitOn slash).length ≤ 16
  · obtain ⟨rows, hrows⟩ := strsplit_exists.mpr ⟨hcount, splitOn_short hlen⟩
    rw [cd_ok_loop hrows, cdLoop_ok_iff hname hrows]
  · refine iff_of_false ?_ fun h => hcount h.count
    rintro ⟨state', h⟩
    obtain ⟨rows, hrows, -⟩ := bind_ok h
    exact hcount (strsplit_exists.mp ⟨_, hrows⟩).1

theorem find_ok_iff (hw : WellFormed s) (word : Name) (ext : Ext) :
    (∃ lines, find s word ext clusterMapSize rootClusterNumber (startPath stack) = .ok lines) ↔
      ((∀ i, folderChild s rootClusterNumber i = none) ∨
        ∃ text, CString.Holds (startPath stack) text ∧ PathRoom s rootClusterNumber text) := by
  cases hm : CString.strlen (startPath stack) with
  | none =>
    obtain ⟨hfolder, hplain⟩ := @find_unended s rootClusterNumber word ext _ hm 511
    constructor
    · rintro ⟨lines, h⟩
      refine .inl fun i => Option.eq_none_iff_forall_ne_some.mpr fun c hc => ?_
      cases h.symm.trans (hfolder ⟨i, c, hc⟩)
    · exact fun h => ⟨_, hplain (no_folder_of_room hm h)⟩
  | some n =>
    have hheld := CString.holds_of_strlen hm
    constructor
    · rintro ⟨lines, h⟩
      refine .inr ⟨_, hheld, by_contra fun hfull => ?_⟩
      cases h.symm.trans (find_full hw hheld hfull)
    · exact fun h => ⟨_, find_ok hw hheld (pathRoom_of_room hheld h)⟩

theorem runFind_ok_iff (hw : WellFormed s) (hlen : name.length < 256) :
    (∃ r, runFind s stack name = .ok r) ↔ FindBounds s stack name := by
  constructor
  · rintro ⟨r, h⟩
    obtain ⟨rows, hrows, h⟩ := bind_ok h
    obtain ⟨lines, hlines, -⟩ := bind_ok h
    exact ⟨(strsplit_exists.mp ⟨_, hrows⟩).1, (find_ok_iff hw _ _).mp ⟨_, hlines⟩⟩
  · intro h
    obtain ⟨rows, hrows⟩ := strsplit_exists.mpr ⟨h.count, splitOn_short hlen⟩
    obtain ⟨lines, hlines⟩ := (find_ok_iff hw (toName (rows.getD 0 []))
      (toExt (rows.getD 1 []))).mpr h.room
    exact ⟨_, by simp only [runFind, bind, Except.bind, hrows, hlines]; rfl⟩

end Commands

section Line

def Action.args : Action → List (List UInt8)
  | .file (.cd x) | .file (.mkdir x) | .file (.rm x) | .file (.rmRec x) => [x]
  | .file (.cp x y) | .file (.cpRec x y) | .file (.mv x y) => [x, y]
  | .cat x | .kill x | .exec x | .find x => [x]
  | .message _ | .ls | .clearScreen | .help | .ps | .doors => []

/-- The arguments of a command are cut out of the rows. -/
def FromRows (buf : Nat → List UInt8) (action : Action) : Prop :=
  ∀ x ∈ action.args, ∃ k, x <:+ buf k

variable {buf : Nat → List UInt8} {action : Action}

theorem FromRows.ite {p : Prop} [Decidable p] {a b : Action} (ha : FromRows buf a)
    (hb : FromRows buf b) : FromRows buf (if p then a else b) := by
  split
  · exact ha
  · exact hb

theorem fromRows_of (ks : List Nat) (h : action.args = ks.map buf) : FromRows buf action := by
  intro x hx
  obtain ⟨k, -, rfl⟩ := List.mem_map.mp (h ▸ hx)
  exact ⟨k, List.suffix_rfl⟩

theorem fromRows_exec : FromRows buf (.exec ((buf 0).drop 2)) := by
  intro x hx
  obtain rfl := List.mem_singleton.mp hx
  exact ⟨0, List.drop_suffix _ _⟩

theorem dispatch_args (buf : Nat → List UInt8) : FromRows buf (dispatch buf) := by
  unfold dispatch runMkdir runRm runCp runMv
  dsimp only
  repeat' apply FromRows.ite
  all_goals first
    | exact fromRows_of [] rfl
    | exact fromRows_of [1] rfl
    | exact fromRows_of [2] rfl
    | exact fromRows_of [1, 2] rfl
    | exact fromRows_of [2, 3] rfl
    | exact fromRows_exec

theorem buffers_iff (hw : WellFormed s) (hname : state.workDirName.length < 256)
    (hargs : ∀ x ∈ action.args, x.length < 256) :
    action.buffers state s stack = .ok () ↔ action.InBounds state s stack := by
  have hpath : ∀ path ∈ action.args,
      ((getCurrAndParentCluster s path state.workDir).map fun _ => ()) = .ok () ↔
        PathBounds s state.workDir path :=
    fun path hp => map_ignored.trans (resolve_ok_iff (hargs path hp))
  cases action with
  | file c =>
    cases c with
    | cd name => exact map_ignored.trans (cd_ok_iff hname (hargs name (by simp [Action.args])))
    | mkdir name => exact iff_of_true rfl trivial
    | rm path => exact hpath path (by simp [Action.args])
    | rmRec path => exact hpath path (by simp [Action.args])
    | cp src dest =>
      have hkind : _ ↔ NamesKind s state.workDir src false := namesKind_iff
      rw [Action.buffers, resolveBoth_iff (hargs src (by simp [Action.args]))
        (hargs dest (by simp [Action.args]))]
      simp only [Action.InBounds, ← hkind, decide_eq_true_eq, Bool.false_eq_true, if_false]
    | cpRec src dest =>
      have hkind : _ ↔ NamesKind s state.workDir src true := namesKind_iff
      rw [Action.buffers, resolveBoth_iff (hargs src (by simp [Action.args]))
        (hargs dest (by simp [Action.args]))]
      simp only [Action.InBounds, ← hkind, decide_eq_true_eq, if_true]
    | mv src dest =>
      have hfile : _ ↔ NamesKind s state.workDir src false := namesKind_iff
      have hfolder : _ ↔ NamesKind s state.workDir src true := namesKind_iff
      rw [Action.buffers, resolveBoth_iff (hargs src (by simp [Action.args]))
        (hargs dest (by simp [Action.args]))]
      simp only [Action.InBounds, Bool.exists_bool, ← hfile, ← hfolder, Bool.or_eq_true,
        decide_eq_true_eq, Bool.false_eq_true, if_false, if_true, and_or_left, exists_or]
  | cat path => exact hpath path (by simp [Action.args])
  | exec path => exact hpath path (by simp [Action.args])
  | find name => exact map_ignored.trans (runFind_ok_iff hw (hargs name (by simp [Action.args])))
  | message | ls | clearScreen | help | ps | doors | kill => exact iff_of_true rfl trivial

/-- A line leaves the arrays of the shell exactly where its bounds do not hold. -/
theorem line_in_bounds_iff (hw : WellFormed s) (hname : state.workDirName.length < 256)
    (hline : Typed line) :
    shellBuffers state s stack line = .ok () ↔ line = [] ∨ LineBounds state s stack line := by
  by_cases hnil : line = []
  · subst hnil
    exact iff_of_true rfl (.inl rfl)
  · rw [or_iff_right hnil]
    by_cases hlen : line.length < 256
    · have hrun := runCommand_short hline.zero_not_mem hnil hlen
      by_cases hcount : (line.splitOn space).length ≤ 16
      · have hshort : ∀ k, ((line.splitOn space).getD k []).length < 256 := fun k => by
          by_cases hk : k < (line.splitOn space).length
          · simpa [hk] using splitOn_short hlen _ (List.getElem_mem hk)
          · simp [Nat.le_of_not_lt hk]
        rw [if_pos hcount] at hrun
        have hbuf : shellBuffers state s stack line =
            (dispatch fun k => (line.splitOn space).getD k []).buffers state s stack := by
          rw [shellBuffers, hrun]
          rfl
        rw [hbuf, buffers_iff hw hname fun x hx => by
          obtain ⟨k, hk⟩ := dispatch_args _ x hx
          exact hk.length_le.trans_lt (hshort k)]
        exact ⟨fun h => ⟨hlen, hcount, h⟩, fun h => h.action⟩
      · rw [if_neg hcount] at hrun
        refine iff_of_false ?_ fun h => hcount h.rows
        rw [shellBuffers, hrun]
        simp [bind, Except.bind]
    · have hfull := (typed_iff.mp hline).1
      refine iff_of_false ?_ fun h => hlen h.length
      rw [shellBuffers, runCommand_full hline.zero_not_mem (by omega)]
      simp [bind, Except.bind]

end Line

section Runs

theorem map_fault {α β : Type} {x : Except Fault α} {g : α → β} {f : Fault} :
    x.map g = .error f ↔ x = .error f := by
  cases x <;> simp [Except.map]

theorem bind_fault {α β : Type} {x : Except Fault α} {g : α → Except Fault β} {f : Fault}
    (h : x = .error f) : x >>= g = .error f := by
  rw [h]
  rfl

theorem resolveBoth_fault {src dest : List UInt8} {goesOn : Int → Bool} {f : Fault}
    (h : resolveBoth state s src dest goesOn = .error f) :
    getCurrAndParentCluster s src state.workDir = .error f ∨
      ∃ r, getCurrAndParentCluster s src state.workDir = .ok r ∧ goesOn r.code = true ∧
        getCurrAndParentCluster s dest state.workDir = .error f := by
  rw [resolveBoth] at h
  cases hr : getCurrAndParentCluster s src state.workDir with
  | error g =>
    rw [hr] at h
    exact .inl (congrArg Except.error (Except.error.inj h))
  | ok r =>
    by_cases hgo : goesOn r.code = true
    · simp only [hr, bind, Except.bind, if_pos hgo, map_fault] at h
      exact .inr ⟨r, rfl, hgo, h⟩
    · simp [hr, bind, Except.bind, if_neg hgo] at h

/-- A command that leaves its arrays does so in its whole run. -/
theorem run_of_buffers {c : Command} {f : Fault}
    (h : (Action.file c).buffers state s stack = .error f) : c.run state s = .error f := by
  cases c with
  | cd name => exact map_fault.mpr (map_fault.mp h)
  | mkdir name => cases h
  | rm path => exact map_fault.mpr (bind_fault (map_fault.mp h))
  | rmRec path => exact map_fault.mpr (bind_fault (map_fault.mp h))
  | cp src dest =>
    rw [Action.buffers] at h
    refine map_fault.mpr ?_
    obtain hr | ⟨r, hr, hgo, hdest⟩ := resolveBoth_fault h
    · exact bind_fault hr
    · have hcode : r.code = 0 := of_decide_eq_true hgo
      simp only [cp, bind, Except.bind, hr, if_neg (not_not.mpr hcode), hdest]
  | cpRec src dest =>
    rw [Action.buffers] at h
    refine map_fault.mpr ?_
    obtain hr | ⟨r, hr, hgo, hdest⟩ := resolveBoth_fault h
    · exact bind_fault hr
    · have hcode : r.code = 1 := of_decide_eq_true hgo
      simp only [cpRec, bind, Except.bind, hr, if_neg (not_not.mpr hcode), hdest]
  | mv src dest =>
    rw [Action.buffers] at h
    refine map_fault.mpr ?_
    obtain hr | ⟨r, hr, hgo, hdest⟩ := resolveBoth_fault h
    · exact bind_fault hr
    · have hcode : ¬ (r.code ≠ 0 ∧ r.code ≠ 1) := by
        simp only [Bool.or_eq_true, decide_eq_true_eq] at hgo
        omega
      simp only [mv, bind, Except.bind, hr, if_neg hcode, hdest]

end Runs

/-- A short line stays inside. -/
theorem line_in_bounds_rm : shellBuffers initial (createFat32 (fun _ => 0) (boot zeroBytes))
    (fun _ => 0) (text "rm a") = .ok () := by
  have hplain : ∀ b ∈ text "rm a", b ∉ [0, 0x08, 0x0A, 0x11, 0x12, 0x13, 0x14] :=
    List.forall_iff_forall_mem.mp (by decide)
  have htyped : Typed (text "rm a") := typed_iff.mpr ⟨by decide, hplain⟩
  refine (line_in_bounds_iff (createFat32_wellFormed _ _) (by decide) htyped).mpr (.inr ?_)
  refine ⟨by decide, by decide, show PathBounds _ _ [97] from ⟨by decide, ?_⟩⟩
  intro folders last c hlook _
  obtain ⟨behind, hcut, -⟩ := hlook.cut
  have hrows : ([97] : List UInt8).splitOn slash = [[97]] := by decide
  rw [hrows] at hcut
  obtain ⟨rfl, rfl⟩ : folders = [] ∧ last = [97] := by
    cases folders <;> simp_all
  decide

def longLine : List UInt8 := List.replicate 256 97

/-- The scan of a full buffer runs on behind it. -/
theorem long_line_overruns : ¬ ∀ (state : ShellState) (s : FileSystem) (stack : Nat → UInt8)
    (line : List UInt8), WellFormed s → state.workDirName.length < 256 → Typed line →
    shellBuffers state s stack line = .ok () := by
  intro h
  have hplain : ∀ b ∈ longLine, IsPlain b := fun b hb => by
    rw [List.eq_of_mem_replicate hb]
    exact show (97 : UInt8) ∉ [0, 0x08, 0x0A, 0x11, 0x12, 0x13, 0x14] by decide
  have htyped : Typed longLine := typed_iff.mpr ⟨List.length_replicate.le, hplain⟩
  have hok := h initial _ (fun _ => 0) longLine (createFat32_wellFormed (fun _ => 0) zeroBytes)
    (by decide) htyped
  rw [shellBuffers, runCommand_full htyped.zero_not_mem List.length_replicate] at hok
  cases hok

end Doors.Shell
