import Doors.CdPath
import Doors.TreePath

/-! The prompt's path over runs of `cd`. As long as no folder has a dot in its name it is the
path from the root to the working directory. -/

namespace Doors.Shell

open PointerTree Fat32 FileSystem

variable {s : FileSystem} {d c : Nat} {row text : List UInt8}

/-- The characters of a name. -/
def nameText (name : Name) : List UInt8 := (List.ofFn name).takeWhile (· ≠ 0)

def folderText (s : FileSystem) (d : Nat) (i : Fin entryCount) : List UInt8 :=
  nameText (s.table d i).name

/-- The names of the folders from the root to `c`. -/
abbrev FolderPath (s : FileSystem) (path : List (List UInt8)) (c : Nat) : Prop :=
  Descends (folderChild s) (folderText s) rootClusterNumber path c

def prompt (path : List (List UInt8)) : List UInt8 := '~'.toUInt8 :: path.flatMap (slash :: ·)

def Dotless (s : FileSystem) : Prop :=
  ∀ d i c, LiveDir s d → folderChild s d i = some c → ∀ k, (s.table d i).name k ≠ dot

/-- The prompt shows the path of the working directory. -/
structure Consistent (s : FileSystem) (state : ShellState) : Prop where
  dir : LiveDir s state.workDir
  shown : ∃ path, FolderPath s path state.workDir ∧ state.workDirName = prompt path

/-- An argument of `cd`, as it is cut out of a command line. -/
structure Argument (name : List UInt8) : Prop where
  string : 0 ∉ name
  length : name.length ≤ 255
  count : (name.splitOn slash).length ≤ 15

/-- The paths of the directories on the way fit the buffer. -/
def PromptsFit (s : FileSystem) (d : Nat) (name : List UInt8) : Prop :=
  ∀ k c path, Walks s d ((components name).take k) c → FolderPath s path c →
    (prompt path).length ≤ 255

/-- A sequence of `cd` commands. -/
inductive CdRun (s : FileSystem) : ShellState → List (List UInt8) → ShellState → Prop
  | start (state : ShellState) : CdRun s state [] state
  | cd {state state' state'' : ShellState} {name : List UInt8} {names : List (List UInt8)} :
    cd state s name = .ok state' → CdRun s state' names state'' →
    CdRun s state (name :: names) state''

section Prompt

theorem prompt_append (path : List (List UInt8)) (row : List UInt8) :
    prompt (path ++ [row]) = prompt path ++ slash :: row := by
  simp [prompt]

theorem moveBack_append (hrow : slash ∉ row) (text : List UInt8) :
    moveBack (text ++ slash :: row) = text := by
  have hdrop : ∀ b ∈ row.reverse, decide (b ≠ slash) = true := fun b hb =>
    decide_eq_true fun h : b = slash => hrow (h ▸ List.mem_reverse.mp hb)
  rw [moveBack, List.reverse_append, List.reverse_cons, List.append_assoc,
    List.dropWhile_append_of_pos hdrop]
  simp

theorem nameText_toName (hlen : row.length ≤ 8) (hz : 0 ∉ row) : nameText (toName row) = row := by
  have hbytes : List.ofFn (toName row) = row ++ List.replicate (8 - row.length) 0 := by
    refine List.ext_getElem (by simp; omega) fun k hk _ => ?_
    rw [List.length_ofFn] at hk
    rw [List.getElem_ofFn, toName]
    by_cases hin : k < row.length
    · simp [List.getElem_append_left hin, hin]
    · have hle : row.length ≤ k := Nat.le_of_not_lt hin
      simp [List.getElem_append_right hle, List.getElem?_eq_none hle]
  rw [nameText, hbytes, CString.takeWhile_padded hz]

end Prompt

/-- The path shown, whose names `move_back` can cut off again. -/
def Follows (s : FileSystem) (c : Nat) (text : List UInt8) : Prop :=
  ∃ path, FolderPath s path c ∧ (∀ row ∈ path, slash ∉ row) ∧ text = prompt path

section Step

theorem follows_root : Follows s rootClusterNumber (prompt []) :=
  ⟨[], .here _, by simp, rfl⟩

theorem follows_up (hw : WellFormed s) (h : Follows s d text) {b : Nat} (hp : ParentOf s d b) :
    Follows s b (stepPath d dotDotRow text) := by
  obtain ⟨path, hpath, hslash, rfl⟩ := h
  have hdots : dotDotRow.isPrefixOf [dot, dot] = true := by decide
  rw [stepPath, if_pos hdots]
  obtain rfl | ⟨path, row, rfl⟩ := path.eq_nil_or_concat'
  · -- the root is its own parent, and its path is kept
    cases hpath
    rw [if_neg (by simp)]
    obtain ⟨-, rfl⟩ | ⟨k, hb, hk⟩ := hp
    · exact follows_root
    · exact absurd hk (hw.tree.root_orphan hb)
  · obtain ⟨x, i, hx, hchild, rfl⟩ := hpath.last
    have hxl := hx.reach reach_root
    have hne : d ≠ rootClusterNumber := by
      rintro rfl
      exact hw.tree.root_orphan hxl hchild
    obtain ⟨hroot, -⟩ | ⟨k, hb, hk⟩ := hp
    · exact absurd hroot hne
    · obtain ⟨rfl, -⟩ := hw.tree.parent_unique hxl hb hchild hk
      rw [if_pos hne, prompt_append, moveBack_append (hslash _ (by simp))]
      exact ⟨path, hx, fun r hr => hslash r (List.mem_append_left _ hr), rfl⟩

theorem follows_down (hx : Dotless s) (hd : LiveDir s d) (h : Follows s d text) {b : Nat}
    {i : Fin entryCount} (hne : row ≠ []) (hz : 0 ∉ row) (hslash : slash ∉ row)
    (hlen : row.length ≤ 8) (hi : EntryAt s d (toName row) noExt i)
    (hb : folderChild s d i = some b) : Follows s b (stepPath d row text) := by
  obtain ⟨path, hpath, hclean, rfl⟩ := h
  have hdot : dot ∉ row := fun hmem => by
    obtain ⟨k, hk, hget⟩ := List.getElem_of_mem hmem
    refine hx d i b hd hb ⟨k, hk.trans_le hlen⟩ ?_
    rw [hi.2.1, toName, List.getD_eq_getElem?_getD, List.getElem?_eq_getElem hk, Option.getD_some, hget]
  have hprefix : ¬ row.isPrefixOf [dot, dot] = true := fun h => by
    obtain ⟨a, rest, rfl⟩ := List.exists_cons_of_ne_nil hne
    rw [List.isPrefixOf_cons_cons, Bool.and_eq_true, beq_iff_eq] at h
    exact hdot (h.1 ▸ List.mem_cons_self)
  have htext : folderText s d i = row := by
    rw [folderText, hi.2.1, nameText_toName hlen hz]
  rw [stepPath, if_neg hprefix, ← prompt_append]
  refine ⟨path ++ [row], hpath.append (htext ▸ .single hb), fun r hr => ?_, rfl⟩
  obtain hr | hr := List.mem_append.mp hr
  · exact hclean r hr
  · exact List.mem_singleton.mp hr ▸ hslash

theorem follows_travels (hw : WellFormed s) (hx : Dotless s) {comps : List (List UInt8)}
    {text' : List UInt8} (hcomps : ∀ row ∈ comps, row ≠ [] ∧ 0 ∉ row ∧ slash ∉ row)
    (hd : LiveDir s d) (h : Follows s d text) (ht : Travels s d text comps c text') :
    Follows s c text' := by
  induction ht with
  | here => exact h
  | @step d b c row text text' comps hb _ ih =>
    obtain ⟨hne, hz, hslash⟩ := hcomps row List.mem_cons_self
    refine ih (fun r hr => hcomps r (List.mem_cons_of_mem _ hr)) (hb.liveDir hd) ?_
    cases hb with
    | up hp => exact follows_up hw h hp
    | down hrow hlen hi hchild => exact follows_down hx hd h hne hz hslash hlen hi hchild

end Step

section Commands

variable {state : ShellState} {name : List UInt8}

theorem Argument.rows (ha : Argument name) : ∃ rows, strsplit name slash = .ok rows :=
  strsplit_exists.mpr ⟨ha.count.trans (by decide), fun _ hr =>
    (CString.infix_of_mem_splitOn hr).length_le.trans_lt (Nat.lt_succ_of_le ha.length)⟩

theorem Argument.components (ha : Argument name) : (components name).length ≤ 15 ∧
    ∀ row ∈ components name, row ≠ [] ∧ 0 ∉ row ∧ slash ∉ row := by
  have hsub := List.takeWhile_sublist (p := (· ≠ [])) (l := name.splitOn slash)
  refine ⟨hsub.length_le.trans ha.count, fun row hr => ?_⟩
  obtain ⟨hne, hz⟩ := components_spec ha.string row hr
  exact ⟨hne, hz, mem_splitOn (hsub.subset hr)⟩

/-- What the prompt shows and the `move_back` of its names. -/
structure Shows (s : FileSystem) (state : ShellState) : Prop where
  dir : LiveDir s state.workDir
  follows : Follows s state.workDir state.workDirName
  fits : state.workDirName.length < 256

theorem Shows.consistent (h : Shows s state) : Consistent s state :=
  ⟨h.dir, h.follows.imp fun _ hp => ⟨hp.1, hp.2.2⟩⟩

theorem shows_initial : Shows s initial := ⟨reach_root, follows_root, by decide⟩

/-- ".." is an argument that keeps the root and its path. -/
theorem cd_up_root (hw : WellFormed s) (hx : PlainParents s) (h : Shows s state)
    (hroot : state.workDir = rootClusterNumber) : Shell.cd state s dotDotRow = .ok state := by
  have hup : Leads s state.workDir dotDotRow state.workDir := .up (.inl ⟨hroot, hroot⟩)
  have hkeep : stepPath state.workDir dotDotRow state.workDirName = state.workDirName := by
    rw [stepPath, if_pos (by decide), if_neg (not_not.mpr hroot)]
  have ht : Travels s state.workDir state.workDirName [dotDotRow] state.workDir
      state.workDirName := .step hup (hkeep.symm ▸ .here _ _)
  have hpaths : PathsFit s state.workDir state.workDirName [dotDotRow] :=
    pathsFit_cons.mpr ⟨h.fits, fun b _ k c text hb => by
      rw [List.take_nil] at hb
      cases hb
      rw [hkeep]
      exact h.fits⟩
  exact cd_arrives hw hx h.dir (by decide) rfl (by decide) hpaths ht

variable (hw : WellFormed s) (hx : PlainParents s) (hdotless : Dotless s)
include hw hdotless

theorem Shows.pathsFit (h : Shows s state) (ha : Argument name)
    (hfit : PromptsFit s state.workDir name) :
    PathsFit s state.workDir state.workDirName (Shell.components name) := by
  intro k c text ht
  obtain ⟨path, hpath, -, rfl⟩ := follows_travels hw hdotless
    (fun row hr => ha.components.2 row (List.mem_of_mem_take hr)) h.dir h.follows ht
  exact Nat.lt_succ_of_le (hfit k c path ht.walks hpath)

include hx

/-- One command: it moves to where its components lead, or leaves everything as it was. -/
theorem Shows.cd (h : Shows s state) (ha : Argument name)
    (hfit : PromptsFit s state.workDir name) : ∃ state', Shell.cd state s name = .ok state' ∧
      Shows s state' ∧ (∀ c, Walks s state.workDir (Shell.components name) c →
        state'.workDir = c) ∧
      ((¬ ∃ c, Walks s state.workDir (Shell.components name) c) → state' = state) := by
  obtain ⟨rows, hrows⟩ := ha.rows
  have hpaths := h.pathsFit hw hdotless ha hfit
  by_cases hwalks : ∃ c, Walks s state.workDir (Shell.components name) c
  · obtain ⟨c, hc⟩ := hwalks
    obtain ⟨text, ht⟩ := travels_of_walks hc state.workDirName
    have hlen : text.length < 256 := hpaths (components name).length c text (by rwa [List.take_length])
    refine ⟨⟨c, text⟩, cd_arrives hw hx h.dir ha.string hrows ha.components.1 hpaths ht,
      ⟨hc.liveDir h.dir, follows_travels hw hdotless ha.components.2 h.dir h.follows ht, hlen⟩,
      fun b hb => ?_, fun hno => absurd ⟨c, hc⟩ hno⟩
    exact hc.unique hw hx (fun row hr => (components_spec ha.string row hr).2) h.dir hb
  · exact ⟨state, cd_refused hw hx h.dir ha.string hrows hpaths hwalks, h,
      fun c hc => absurd ⟨c, hc⟩ hwalks, fun _ => rfl⟩

theorem Shows.cdRun {names : List (List UInt8)} (h : Shows s state)
    (hargs : ∀ name ∈ names, Argument name)
    (hfit : ∀ before name behind, names = before ++ name :: behind →
      ∀ state', CdRun s state before state' → PromptsFit s state'.workDir name) :
    ∃ state', CdRun s state names state' ∧ Shows s state' := by
  induction names generalizing state with
  | nil => exact ⟨state, .start state, h⟩
  | cons name names ih =>
    obtain ⟨state', hcd, h', -⟩ := h.cd hw hx hdotless (hargs name (by simp))
      (hfit [] name names rfl state (.start state))
    obtain ⟨state'', hrun, h''⟩ := ih h' (fun n hn => hargs n (List.mem_cons_of_mem _ hn))
      fun before n behind heq st hst =>
        hfit (name :: before) n behind (by rw [heq]; rfl) st (.cd hcd hst)
    exact ⟨state'', .cd hcd hrun, h''⟩

end Commands

/-- After every sequence of `cd` commands the prompt shows the path of the working directory. A
command whose components are all there arrives where they lead; ".." at the root, and a command
that fails at any component, change nothing. -/
theorem prompt_follows {names : List (List UInt8)} (hw : WellFormed s) (hx : PlainParents s)
    (hdotless : Dotless s) (hargs : ∀ name ∈ names, Argument name)
    (hfit : ∀ before name behind, names = before ++ name :: behind →
      ∀ state, CdRun s initial before state → PromptsFit s state.workDir name) :
    ∃ state, CdRun s initial names state ∧ Consistent s state ∧
      (state.workDir = rootClusterNumber → cd state s dotDotRow = .ok state) ∧
      ∀ name, Argument name → PromptsFit s state.workDir name →
        (∀ c, Walks s state.workDir (components name) c →
          ∃ state', cd state s name = .ok state' ∧ state'.workDir = c) ∧
        ((¬ ∃ c, Walks s state.workDir (components name) c) → cd state s name = .ok state) := by
  obtain ⟨state, hrun, hshows⟩ := shows_initial.cdRun hw hx hdotless hargs hfit
  refine ⟨state, hrun, hshows.consistent, cd_up_root hw hx hshows, fun name ha hfits => ?_⟩
  obtain ⟨state', hcd, -, hgoes, hsame⟩ := hshows.cd hw hx hdotless ha hfits
  exact ⟨fun c hc => ⟨state', hcd, hgoes c hc⟩, fun hno => by rw [hcd, hsame hno]⟩

theorem OneFolder.path_eq {a : Nat} {k : Fin entryCount} {name : Name}
    (h : OneFolder s a k name) {path : List (List UInt8)} (hp : FolderPath s path c) :
    path = [] ∨ path = [nameText name] := by
  generalize hroot : rootClusterNumber = d at hp
  cases hp with
  | here => exact .inl rfl
  | @step _ b _ i path hb hrest =>
    subst hroot
    obtain ⟨-, rfl, rfl⟩ := h.child reach_root hb
    have hrest' : path = [] := by
      cases hrest with
      | here => rfl
      | @step _ b' _ j _ hb' _ =>
        exact absurd (folderChild_eq_some.mp hb').1 (h.empty j)
    exact .inr (by rw [folderText, h.name, hrest'])

/-- Into the only folder of a disk. -/
theorem prompt_follows_down : ∃ s state, CdRun s initial [[97]] state ∧ Consistent s state := by
  obtain ⟨s, a, k, h⟩ := oneFolder_exists (toName [97])
  have hdotless : Dotless s := fun d i c hd hc j => by
    obtain ⟨rfl, rfl, -⟩ := h.child hd hc
    rw [h.name]
    revert j
    decide
  have hfit : ∀ d, PromptsFit s d [97] := fun d j c path _ hp => by
    obtain rfl | rfl := h.path_eq hp
    · decide
    · decide
  obtain ⟨state, hrun, hshown, -⟩ := @prompt_follows s [[97]] h.wellFormed h.plain hdotless
    (fun name hn => by
      rw [List.mem_singleton.mp hn]
      exact ⟨by decide, by decide, by decide⟩)
    fun before name behind heq state _ => by
      have hn : name ∈ [([97] : List UInt8)] := heq ▸ by simp
      rw [List.mem_singleton.mp hn]
      exact hfit _
  exact ⟨s, state, hrun, hshown⟩

end Doors.Shell
