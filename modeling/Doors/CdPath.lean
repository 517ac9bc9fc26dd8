import Doors.PathPrefix

/-! The path that `cd` writes while it walks. It is edited component by component in a buffer
of 256 bytes, and `cd` fails only where an edited path does not fit. -/

namespace Doors.Shell

open PointerTree Fat32 FileSystem

variable {s : FileSystem} {d c : Nat} {path path' row : List UInt8}
  {comps behind : List (List UInt8)}

/-- `cdPath` in a buffer without an end. -/
def stepPath (d : Nat) (row path : List UInt8) : List UInt8 :=
  if row.isPrefixOf [dot, dot] then if d ≠ rootClusterNumber then moveBack path else path
  else path ++ slash :: row

/-- The components lead from one directory to another, and the path is edited along. -/
inductive Travels (s : FileSystem) :
    Nat → List UInt8 → List (List UInt8) → Nat → List UInt8 → Prop
  | here (d : Nat) (path : List UInt8) : Travels s d path [] d path
  | step {d b c : Nat} {row path path' : List UInt8} {comps : List (List UInt8)} :
    Leads s d row b → Travels s b (stepPath d row path) comps c path' →
    Travels s d path (row :: comps) c path'

/-- Every path on the way is shorter than the buffer. -/
def PathsFit (s : FileSystem) (d : Nat) (path : List UInt8) (comps : List (List UInt8)) : Prop :=
  ∀ k c path', Travels s d path (comps.take k) c path' → path'.length < 256

section Travelling

theorem Travels.walks (h : Travels s d path comps c path') : Walks s d comps c := by
  induction h with
  | here d path => exact .here d
  | step hb _ ih => exact .step hb ih

theorem travels_of_walks (h : Walks s d comps c) (path : List UInt8) :
    ∃ path', Travels s d path comps c path' := by
  induction h generalizing path with
  | here d => exact ⟨path, .here d path⟩
  | step hb _ ih =>
    obtain ⟨path', h⟩ := ih (stepPath _ _ path)
    exact ⟨path', .step hb h⟩

theorem PathsFit.start (h : PathsFit s d path comps) : path.length < 256 :=
  h 0 d path (.here d path)

theorem pathsFit_cons : PathsFit s d path (row :: comps) ↔
    path.length < 256 ∧ ∀ b, Leads s d row b → PathsFit s b (stepPath d row path) comps := by
  constructor
  · intro h
    exact ⟨h.start, fun b hb k c path' ht => h (k + 1) c path' (.step hb ht)⟩
  · rintro ⟨hlen, h⟩ k c path' ht
    cases k with
    | zero =>
      cases ht
      exact hlen
    | succ k =>
      cases ht with
      | step hb ht => exact h _ hb k c path' ht

end Travelling

section Editing

theorem length_moveBack_le (path : List UInt8) : (moveBack path).length ≤ path.length := by
  rw [moveBack, List.length_reverse, List.length_drop]
  have := (List.dropWhile_sublist (fun b => b ≠ slash) (l := path.reverse)).length_le
  rw [List.length_reverse] at this
  omega

theorem cdPath_eq (hlen : path.length < 256) : cdPath d row path =
    if (stepPath d row path).length < 256 then .ok (stepPath d row path)
    else .error .outOfBounds := by
  unfold cdPath stepPath
  by_cases hdots : row.isPrefixOf [dot, dot] = true
  · have hback := (length_moveBack_le path).trans_lt hlen
    have hedit : (if d ≠ rootClusterNumber then moveBack path else path).length < 256 := by
      split
      · exact hback
      · exact hlen
    rw [if_pos hdots, if_pos hdots, if_pos hedit]
  · rw [if_neg hdots, if_neg hdots, List.length_append, List.length_cons]
    by_cases hslash : path.length + [slash].length < 256
    · have hrow : (path ++ [slash]).length + row.length = path.length + (row.length + 1) := by
        rw [List.length_append, List.length_singleton]
        omega
      rw [strcat, if_pos hslash]
      change strcat (path ++ [slash]) row = _
      rw [strcat, hrow, List.append_assoc, List.singleton_append]
    · rw [List.length_singleton] at hslash
      rw [strcat, List.length_singleton, if_neg hslash, if_neg (by omega)]
      rfl

end Editing

section Loop

/-- A component is entered, and the path is edited. -/
def enterPath (s : FileSystem) (here : Nat × List UInt8) (row : List UInt8) :
    Option (Nat × List UInt8) :=
  (enter s here.1 row).map fun c => (c, stepPath here.1 row here.2)

/-- Every path that is written on the way is shorter than the buffer. -/
def EditsFit (s : FileSystem) (here : Nat × List UInt8) (comps : List (List UInt8)) : Prop :=
  ∀ k c path, (comps.take k).foldlM (enterPath s) here = some (c, path) → path.length < 256

theorem enterPath_none (h : enter s d row = none) :
    (row :: comps).foldlM (enterPath s) (d, path) = none := by
  simp [List.foldlM_cons, enterPath, h]

theorem enterPath_some {b : Nat} (h : enter s d row = some b) :
    (row :: comps).foldlM (enterPath s) (d, path) =
      comps.foldlM (enterPath s) (b, stepPath d row path) := by
  simp [List.foldlM_cons, enterPath, h]

theorem foldlM_fst (comps : List (List UInt8)) (d : Nat) (path : List UInt8) :
    (comps.foldlM (enterPath s) (d, path)).map Prod.fst = comps.foldlM (enter s) d := by
  induction comps generalizing d path with
  | nil => rfl
  | cons row comps ih =>
    cases hb : enter s d row with
    | none => simp [enterPath_none hb, List.foldlM_cons, hb]
    | some b => simp [enterPath_some hb, List.foldlM_cons, hb, ih]

theorem EditsFit.start (h : EditsFit s (d, path) comps) : path.length < 256 := h 0 d path rfl

theorem editsFit_cons : EditsFit s (d, path) (row :: comps) ↔ path.length < 256 ∧
    ∀ b, enter s d row = some b → EditsFit s (b, stepPath d row path) comps := by
  constructor
  · intro h
    refine ⟨h.start, fun b hb k c path' hk => h (k + 1) c path' ?_⟩
    rwa [List.take_succ_cons, enterPath_some hb]
  · rintro ⟨hlen, h⟩ k c path' hk
    cases k with
    | zero =>
      cases hk
      exact hlen
    | succ k =>
      rw [List.take_succ_cons] at hk
      cases hb : enter s d row with
      | none => simp [enterPath_none hb] at hk
      | some b =>
        rw [enterPath_some hb] at hk
        exact h b hb k c path' hk

theorem cdLoop_cons (hne : row ≠ []) : cdLoop s (row :: behind) d path =
    match enter s d row with
    | none => .ok none
    | some b => cdPath d row path >>= cdLoop s behind b := by
  rw [cdLoop, if_neg hne, enter]
  by_cases hlen : 8 < row.length
  · rw [if_pos hlen, if_pos hlen]
  · rw [if_neg hlen, if_neg hlen]
    cases findEntry (readTable s d) (toName row) noExt with
    | none => rfl
    | some e => cases hk : e.isSubdirectory <;> simp [hk]

/-- The loop goes through components that lead on, and stops where one does not. -/
theorem cdLoop_enters (hcomps : ∀ row ∈ comps, row ≠ []) (hfit : EditsFit s (d, path) comps) :
    cdLoop s (comps ++ behind) d path =
      match comps.foldlM (enterPath s) (d, path) with
      | none => .ok none
      | some (c, path') => cdLoop s behind c path' := by
  induction comps generalizing d path with
  | nil => rfl
  | cons row comps ih =>
    obtain ⟨hlen, hfit⟩ := editsFit_cons.mp hfit
    rw [List.cons_append, cdLoop_cons (hcomps row List.mem_cons_self)]
    cases hb : enter s d row with
    | none => rw [enterPath_none hb]
    | some b =>
      have hstep := hfit b hb
      rw [enterPath_some hb, ← ih (fun r hr => hcomps r (List.mem_cons_of_mem _ hr)) hstep]
      simp only [cdPath_eq hlen, if_pos hstep.start]
      rfl

theorem cdLoop_overflows (hcomps : ∀ row ∈ comps, row ≠ []) (hlen : path.length < 256)
    (hfit : ¬ EditsFit s (d, path) comps) :
    cdLoop s (comps ++ behind) d path = .error .outOfBounds := by
  induction comps generalizing d path with
  | nil =>
    refine absurd (fun k c path' h => ?_) hfit
    rw [List.take_nil] at h
    cases h
    exact hlen
  | cons row comps ih =>
    have hno : ¬ ∀ b, enter s d row = some b → EditsFit s (b, stepPath d row path) comps :=
      fun h => hfit (editsFit_cons.mpr ⟨hlen, h⟩)
    obtain ⟨b, hb⟩ := not_forall.mp hno
    obtain ⟨hb, hrest⟩ := Classical.not_imp.mp hb
    rw [List.cons_append, cdLoop_cons (hcomps row List.mem_cons_self), hb]
    simp only [cdPath_eq hlen]
    by_cases hstep : (stepPath d row path).length < 256
    · rw [if_pos hstep]
      exact ih (fun r hr => hcomps r (List.mem_cons_of_mem _ hr)) hstep hrest
    · rw [if_neg hstep]
      rfl

end Loop

section Travel

variable (hw : WellFormed s) (hx : PlainParents s) (hd : LiveDir s d)
include hw hx hd

theorem enterPath_travels (hz : ∀ row ∈ comps, 0 ∉ row) :
    comps.foldlM (enterPath s) (d, path) = some (c, path') ↔ Travels s d path comps c path' := by
  induction comps generalizing d path with
  | nil =>
    constructor
    · intro h
      cases h
      exact .here _ _
    · intro h
      cases h
      rfl
  | cons row comps ih =>
    have hrest : ∀ r ∈ comps, 0 ∉ r := fun r hr => hz r (List.mem_cons_of_mem _ hr)
    have hrow : 0 ∉ row := hz row List.mem_cons_self
    constructor
    · intro h
      cases hb : enter s d row with
      | none => simp [enterPath_none hb] at h
      | some b =>
        rw [enterPath_some hb] at h
        have hb := (enter_leads hw hx hd hrow).mp hb
        exact .step hb ((ih (hb.liveDir hd) hrest).mp h)
    · intro h
      cases h with
      | step hb h =>
        rw [enterPath_some ((enter_leads hw hx hd hrow).mpr hb)]
        exact (ih (hb.liveDir hd) hrest).mpr h

theorem editsFit_of_pathsFit (hz : ∀ row ∈ comps, 0 ∉ row) (h : PathsFit s d path comps) :
    EditsFit s (d, path) comps := fun k c path' hk =>
  h k c path' ((enterPath_travels hw hx hd fun row hr => hz row (List.mem_of_mem_take hr)).mp hk)

end Travel

section Command

/-- The components of an argument of `cd`: the rows before the first empty one. -/
def components (name : List UInt8) : List (List UInt8) :=
  (name.splitOn slash).takeWhile (· ≠ [])

variable {state : ShellState} {name : List UInt8} {rows : List (List UInt8)}

theorem components_spec (hz : 0 ∉ name) : ∀ row ∈ components name, row ≠ [] ∧ 0 ∉ row := by
  intro row hr
  have hmem : row ∈ name.splitOn slash := (List.takeWhile_sublist _).subset hr
  exact ⟨by simpa using List.mem_takeWhile_imp hr,
    fun h => hz ((CString.infix_of_mem_splitOn hmem).subset h)⟩

theorem splitOn_components (name : List UInt8) : ∃ behind,
    name.splitOn slash = components name ++ behind ∧ ∀ row ∈ behind.head?, row = [] := by
  refine ⟨(name.splitOn slash).dropWhile (· ≠ []), List.takeWhile_append_dropWhile.symm, ?_⟩
  intro row hr
  have hhead := List.head?_dropWhile_not (fun r : List UInt8 => decide (r ≠ [])) (name.splitOn slash)
  rw [Option.mem_def.mp hr] at hhead
  simpa using hhead

/-- Only 16 components leave no empty row behind them. -/
theorem strsplit_components (h : strsplit name slash = .ok rows) :
    ((components name).length ≤ 15 ∧ ∃ behind, rows = components name ++ [] :: behind) ∨
      (16 ≤ (components name).length ∧ rows = components name) := by
  obtain ⟨behind, hcut, hhead⟩ := splitOn_components name
  have hlen : (name.splitOn slash).length = (components name).length + behind.length := by
    rw [hcut, List.length_append]
  obtain ⟨hlt, rfl⟩ | ⟨hfull, rfl⟩ := strsplit_rows h
  · cases behind with
    | nil => exact .inl ⟨by simp at hlen; omega, [], by rw [hcut, List.append_nil]⟩
    | cons row behind =>
      obtain rfl := hhead row rfl
      exact .inl ⟨by omega, behind ++ [[]], by rw [hcut]; simp⟩
  · cases behind with
    | nil => exact .inr ⟨by simp at hlen; omega, by rw [hcut, List.append_nil]⟩
    | cons row behind =>
      obtain rfl := hhead row rfl
      rw [List.length_cons] at hlen
      exact .inl ⟨by omega, behind, hcut⟩

theorem strsplit_behind (h : strsplit name slash = .ok rows) :
    ∃ behind, rows = components name ++ behind := by
  obtain ⟨-, behind, h⟩ | ⟨-, h⟩ := strsplit_components h
  · exact ⟨_, h⟩
  · exact ⟨[], h.trans (List.append_nil _).symm⟩

variable (hw : WellFormed s) (hx : PlainParents s) (hd : LiveDir s state.workDir) (hz : 0 ∉ name)
include hw hx hd hz

/-- `cd` arrives where the components lead, with the path that was edited along. -/
theorem cd_arrives (hrows : strsplit name slash = .ok rows)
    (hcount : (components name).length ≤ 15)
    (hfit : PathsFit s state.workDir state.workDirName (components name))
    (h : Travels s state.workDir state.workDirName (components name) c path') :
    cd state s name = .ok ⟨c, path'⟩ := by
  obtain ⟨-, behind, rfl⟩ | ⟨hfull, -⟩ := strsplit_components hrows
  · have hzero : ∀ row ∈ components name, 0 ∉ row := fun row hr => (components_spec hz row hr).2
    have hloop : cdLoop s (components name ++ [] :: behind) state.workDir state.workDirName =
        .ok (some (c, path')) := by
      rw [cdLoop_enters (fun row hr => (components_spec hz row hr).1)
        (editsFit_of_pathsFit hw hx hd hzero hfit), (enterPath_travels hw hx hd hzero).mpr h]
      exact if_pos rfl
    simp only [cd, bind, Except.bind, hrows, hloop]
    rfl
  · omega

theorem cd_refused (hrows : strsplit name slash = .ok rows)
    (hfit : PathsFit s state.workDir state.workDirName (components name))
    (h : ¬ ∃ c, Walks s state.workDir (components name) c) : cd state s name = .ok state := by
  have hzero : ∀ row ∈ components name, 0 ∉ row := fun row hr => (components_spec hz row hr).2
  have hstuck : (components name).foldlM (enterPath s) (state.workDir, state.workDirName) = none := by
    refine Option.eq_none_iff_forall_ne_some.mpr fun here hh => h ⟨here.1, ?_⟩
    exact ((enterPath_travels hw hx hd hzero).mp hh).walks
  have hloop : cdLoop s rows state.workDir state.workDirName = .ok none := by
    obtain ⟨behind, rfl⟩ := strsplit_behind hrows
    rw [cdLoop_enters (fun row hr => (components_spec hz row hr).1)
      (editsFit_of_pathsFit hw hx hd hzero hfit), hstuck]
  simp only [cd, bind, Except.bind, hrows, hloop]
  rfl

end Command

end Doors.Shell
