import Doors.CommandLine

/-! Which command lines reach the commands that change the file system. -/

namespace Doors.Shell

open Fat32 (Fault)

def Flag (row : List UInt8) : Prop := row = text "-r" ∨ row = text "-R"

/-- The grammar that `help` announces. -/
inductive Grammar : List (List UInt8) → Command → Prop
  | mkdir (x : List UInt8) : Grammar [text "mkdir", x] (.mkdir x)
  | rm {x : List UInt8} : ¬ Flag x → Grammar [text "rm", x] (.rm x)
  | rmRec {f : List UInt8} (x : List UInt8) : Flag f → Grammar [text "rm", f, x] (.rmRec x)
  | cp {x : List UInt8} (y : List UInt8) : ¬ Flag x → Grammar [text "cp", x, y] (.cp x y)
  | cpRec {f : List UInt8} (x y : List UInt8) : Flag f →
    Grammar [text "cp", f, x, y] (.cpRec x y)
  | mv (x y : List UInt8) : Grammar [text "mv", x, y] (.mv x y)

/-- Tokens as they are cut out of a line. -/
def Tokens (tokens : List (List UInt8)) : Prop :=
  ∀ x ∈ tokens, x ≠ [] ∧ space ∉ x ∧ 0 ∉ x

instance (tokens : List (List UInt8)) : Decidable (Tokens tokens) :=
  inferInstanceAs (Decidable (∀ x ∈ tokens, x ≠ [] ∧ space ∉ x ∧ 0 ∉ x))

def lineOf (tokens : List (List UInt8)) : List UInt8 := [space].intercalate tokens

/-- The first token is one of the four words. -/
def FileWord (tokens : List (List UInt8)) : Prop :=
  ∃ word ∈ [text "mkdir", text "rm", text "cp", text "mv"], tokens.head? = some word

/-- Only lines of the grammar reach a command, and then with their own arguments. -/
structure AcceptsOnly (tokens : List (List UInt8)) (action : Action) : Prop where
  calls : ∀ c, action = .file c → (∀ name, c ≠ .cd name) → Grammar tokens c
  others : FileWord tokens → (¬ ∃ c, Grammar tokens c) → ∃ puts, action = .message puts

/-- And every line of the grammar does. -/
structure AcceptsExactly (tokens : List (List UInt8)) (action : Action) : Prop
    extends AcceptsOnly tokens action where
  called : ∀ c, Grammar tokens c → action = .file c

/-- The arguments of `cp` without a surplus one. -/
def CpRegular (args : List (List UInt8)) : Prop :=
  args.length ≤ 2 ∨ (args.length = 3 ∧ ∃ f rest, args = f :: rest ∧ Flag f)

/-- No flag is cut short before a target, and `cp` and `mv` have no surplus argument. -/
structure Regular (tokens : List (List UInt8)) : Prop where
  rm : ∀ x, tokens ≠ [text "rm", text "-", x]
  cp : ∀ args, tokens = text "cp" :: args → CpRegular args
  mv : ∀ args, tokens = text "mv" :: args → args.length ≤ 2

/-- Nothing of the name "-" is removed or copied. -/
structure NoDash (tokens : List (List UInt8)) : Prop where
  rm : tokens ≠ [text "rm", text "-"]
  cp : ∀ y, tokens ≠ [text "cp", text "-", y]

section Dispatch

variable {tokens : List (List UInt8)}

theorem mem_intercalate {sep : List UInt8} {b : UInt8} (h : b ∈ sep.intercalate tokens) :
    b ∈ sep ∨ ∃ x ∈ tokens, b ∈ x := by
  induction tokens with
  | nil => simp at h
  | cons x tokens ih =>
    cases tokens with
    | nil => exact .inr ⟨x, List.mem_cons_self, by rwa [List.intercalate_singleton] at h⟩
    | cons y tokens =>
      rw [List.intercalate_cons_cons, List.mem_append, List.mem_append] at h
      obtain (h | h) | h := h
      · exact .inr ⟨x, List.mem_cons_self, h⟩
      · exact .inl h
      · exact (ih h).imp_right fun ⟨z, hz, hb⟩ => ⟨z, List.mem_cons_of_mem _ hz, hb⟩

theorem splitOn_lineOf (ht : Tokens tokens) (hne : tokens ≠ []) :
    (lineOf tokens).splitOn space = tokens :=
  List.splitOn_intercalate _ (fun x hx => (ht x hx).2.1) hne

theorem runCommand_tokens (ht : Tokens tokens) (hne : tokens ≠ []) (hcount : tokens.length ≤ 16)
    (hlen : (lineOf tokens).length < 256) :
    runCommand (lineOf tokens) = .ok (dispatch fun k => tokens.getD k []) := by
  have hz : 0 ∉ lineOf tokens := fun h => by
    obtain h | ⟨x, hx, h⟩ := mem_intercalate h
    · exact absurd h (by decide)
    · exact (ht x hx).2.2 h
  have hpos : lineOf tokens ≠ [] := fun h => by
    have hsplit := splitOn_lineOf ht hne
    rw [h, List.splitOn_nil] at hsplit
    exact (ht [] (hsplit ▸ List.mem_cons_self)).1 rfl
  rw [runCommand_short hz hpos hlen, splitOn_lineOf ht hne, if_pos hcount]

variable {buf : Nat → List UInt8}

theorem dispatch_mkdir (h : buf 0 = text "mkdir") : dispatch buf = runMkdir buf := by
  simp only [dispatch, h]
  rfl

theorem dispatch_rm (h : buf 0 = text "rm") : dispatch buf = runRm buf := by
  simp only [dispatch, h]
  rfl

theorem dispatch_cp (h : buf 0 = text "cp") : dispatch buf = runCp buf := by
  simp only [dispatch, h]
  rfl

theorem dispatch_mv (h : buf 0 = text "mv") : dispatch buf = runMv buf := by
  simp only [dispatch, h]
  rfl

/-- The only call of the file system is a change of directory. -/
def Harmless (action : Action) : Prop := ∀ c, action = .file c → ∃ name, c = .cd name

theorem Harmless.ite {p : Prop} [Decidable p] {a b : Action} (ha : Harmless a)
    (hb : Harmless b) : Harmless (if p then a else b) := by
  split
  · exact ha
  · exact hb

/-- No other word leads to one of the six commands. -/
theorem dispatch_other (hz : 0 ∉ buf 0)
    (hmem : buf 0 ∉ [text "mkdir", text "rm", text "cp", text "mv"]) :
    Harmless (dispatch buf) := by
  simp only [List.mem_cons, List.not_mem_nil, or_false, not_or] at hmem
  obtain ⟨hmkdir, hrm, hcp, hmv⟩ := hmem
  have hword : ∀ {word : String} {n : Nat}, (text word).length = n → buf 0 ≠ text word →
      isWord (buf 0) word n = false := fun hn hne =>
    Bool.eq_false_iff.mpr fun h => hne ((isWord_iff hz hn).mp h)
  unfold dispatch
  dsimp only
  rw [hword (n := 5) rfl hmkdir, hword (n := 2) rfl hrm, hword (n := 2) rfl hcp,
    hword (n := 2) rfl hmv]
  simp only [Bool.false_eq_true, if_false]
  repeat' apply Harmless.ite
  all_goals intro c h
  all_goals first | exact ⟨_, (Action.file.inj h).symm⟩ | cases h

end Dispatch

section Grammar

variable {tokens args : List (List UInt8)} {c : Command}

theorem grammar_iff : Grammar tokens c ↔
    (∃ x, tokens = [text "mkdir", x] ∧ c = .mkdir x) ∨
    (∃ x, tokens = [text "rm", x] ∧ ¬ Flag x ∧ c = .rm x) ∨
    (∃ f x, tokens = [text "rm", f, x] ∧ Flag f ∧ c = .rmRec x) ∨
    (∃ x y, tokens = [text "cp", x, y] ∧ ¬ Flag x ∧ c = .cp x y) ∨
    (∃ f x y, tokens = [text "cp", f, x, y] ∧ Flag f ∧ c = .cpRec x y) ∨
    ∃ x y, tokens = [text "mv", x, y] ∧ c = .mv x y := by
  constructor
  · intro h
    cases h <;> simp_all
  · rintro (⟨x, rfl, rfl⟩ | ⟨x, rfl, hx, rfl⟩ | ⟨f, x, rfl, hf, rfl⟩ | ⟨x, y, rfl, hx, rfl⟩ |
      ⟨f, x, y, rfl, hf, rfl⟩ | ⟨x, y, rfl, rfl⟩)
    · exact .mkdir x
    · exact .rm hx
    · exact .rmRec x hf
    · exact .cp y hx
    · exact .cpRec x y hf
    · exact .mv x y

theorem text_words : text "mkdir" = [109, 107, 100, 105, 114] ∧ text "rm" = [114, 109] ∧
    text "cp" = [99, 112] ∧ text "mv" = [109, 118] := by decide

theorem grammar_mkdir : Grammar (text "mkdir" :: args) c ↔ ∃ x, args = [x] ∧ c = .mkdir x := by
  simp [grammar_iff, text_words]

theorem grammar_rm : Grammar (text "rm" :: args) c ↔ (∃ x, args = [x] ∧ ¬ Flag x ∧ c = .rm x) ∨
    ∃ f x, args = [f, x] ∧ Flag f ∧ c = .rmRec x := by
  simp [grammar_iff, text_words]

theorem grammar_cp : Grammar (text "cp" :: args) c ↔
    (∃ x y, args = [x, y] ∧ ¬ Flag x ∧ c = .cp x y) ∨
    ∃ f x y, args = [f, x, y] ∧ Flag f ∧ c = .cpRec x y := by
  simp [grammar_iff, text_words]

theorem grammar_mv : Grammar (text "mv" :: args) c ↔ ∃ x y, args = [x, y] ∧ c = .mv x y := by
  simp [grammar_iff, text_words]

theorem Grammar.fileWord (h : Grammar tokens c) : FileWord tokens ∧ ∀ name, c ≠ .cd name := by
  cases h <;> simp [FileWord]

theorem Grammar.unique {c' : Command} (h : Grammar tokens c) (h' : Grammar tokens c') :
    c = c' := by
  cases h with
  | mkdir x => simp_all [grammar_mkdir]
  | rm hx => simp_all [grammar_rm]
  | rmRec x hf => simp_all [grammar_rm]
  | cp y hx => simp_all [grammar_cp]
  | cpRec x y hf => simp_all [grammar_cp]
  | mv x y => simp_all [grammar_mv]

end Grammar

section Accepts

variable {tokens : List (List UInt8)} {c : Command}

theorem acceptsOnly_message (puts : List Put) : AcceptsOnly tokens (.message puts) where
  calls := fun _ h => (nomatch h)
  others := fun _ _ => ⟨puts, rfl⟩

theorem acceptsOnly_file (hcd : ∀ name, c ≠ .cd name) :
    AcceptsOnly tokens (.file c) ↔ Grammar tokens c :=
  ⟨fun h => h.calls c rfl hcd, fun h =>
    ⟨fun _ hc _ => Action.file.inj hc ▸ h, fun _ hno => absurd ⟨c, h⟩ hno⟩⟩

theorem acceptsExactly_message (puts : List Put) :
    AcceptsExactly tokens (.message puts) ↔ ∀ c, ¬ Grammar tokens c :=
  ⟨fun h c hc => (nomatch h.called c hc),
    fun h => ⟨acceptsOnly_message puts, fun c hc => absurd hc (h c)⟩⟩

theorem acceptsExactly_file (hcd : ∀ name, c ≠ .cd name) :
    AcceptsExactly tokens (.file c) ↔ Grammar tokens c :=
  ⟨fun h => (acceptsOnly_file hcd).mp h.toAcceptsOnly,
    fun h => ⟨(acceptsOnly_file hcd).mpr h, fun _ hc => by rw [h.unique hc]⟩⟩

theorem accepts_message {p q : Prop} (puts : List Put) (hp : p)
    (hq : (∀ c, ¬ Grammar tokens c) ↔ q) :
    (AcceptsOnly tokens (.message puts) ↔ p) ∧ (AcceptsExactly tokens (.message puts) ↔ q) :=
  ⟨iff_of_true (acceptsOnly_message puts) hp, (acceptsExactly_message puts).trans hq⟩

theorem accepts_file {p q : Prop} (hcd : ∀ name, c ≠ .cd name) (hp : Grammar tokens c ↔ p)
    (hq : Grammar tokens c ↔ q) :
    (AcceptsOnly tokens (.file c) ↔ p) ∧ (AcceptsExactly tokens (.file c) ↔ q) :=
  ⟨(acceptsOnly_file hcd).trans hp, (acceptsExactly_file hcd).trans hq⟩

end Accepts

section Heads

variable {args : List (List UInt8)}

/-- The rows of a line, read behind its last token as well. -/
def rowsOf (tokens : List (List UInt8)) : Nat → List UInt8 := fun k => tokens.getD k []

theorem flag_of_isFlag {f : List UInt8} (hf : f ≠ [] ∧ space ∉ f ∧ 0 ∉ f) :
    isFlag f = true ↔ Flag f ∨ f = text "-" := by
  rw [isFlag_iff hf.2.2 hf.1, Flag]
  tauto

theorem not_flag_dash : ¬ Flag (text "-") := by
  unfold Flag
  decide

/-- The shell takes a lone `-` for a flag. -/
theorem flag_iff_ne_dash {f : List UInt8} (hf : f ≠ [] ∧ space ∉ f ∧ 0 ∉ f)
    (h : isFlag f = true) : Flag f ↔ f ≠ text "-" :=
  ⟨fun hflag hd => not_flag_dash (hd ▸ hflag), ((flag_of_isFlag hf).mp h).resolve_right⟩

theorem not_flag_of_isFlag {f : List UInt8} (hf : f ≠ [] ∧ space ∉ f ∧ 0 ∉ f)
    (h : ¬ isFlag f = true) : ¬ Flag f ∧ f ≠ text "-" :=
  not_or.mp (h ∘ (flag_of_isFlag hf).mpr)

theorem mkdir_accepts (ht : Tokens args) :
    AcceptsOnly (text "mkdir" :: args) (runMkdir (rowsOf (text "mkdir" :: args))) ∧
      AcceptsExactly (text "mkdir" :: args) (runMkdir (rowsOf (text "mkdir" :: args))) := by
  match args, ht with
  | [], _ =>
    exact ⟨acceptsOnly_message _, (acceptsExactly_message _).mpr (by simp [grammar_mkdir])⟩
  | [x], ht =>
    have hx : x ≠ [] := (ht x (by simp)).1
    have hrun : runMkdir (rowsOf [text "mkdir", x]) = .file (.mkdir x) := by
      simp [runMkdir, rowsOf, hx]
    rw [hrun]
    exact ⟨(acceptsOnly_file (by simp)).mpr (.mkdir x),
      (acceptsExactly_file (by simp)).mpr (.mkdir x)⟩
  | x :: y :: rest, ht =>
    have hx : x ≠ [] := (ht x (by simp)).1
    have hy : y ≠ [] := (ht y (by simp)).1
    have hrun : runMkdir (rowsOf (text "mkdir" :: x :: y :: rest)) =
        complaint "Too many arguments" 18 := by
      simp [runMkdir, rowsOf, hx, hy]
    rw [hrun]
    exact ⟨acceptsOnly_message _, (acceptsExactly_message _).mpr (by simp [grammar_mkdir])⟩

theorem rm_accepts (ht : Tokens args) :
    (AcceptsOnly (text "rm" :: args) (runRm (rowsOf (text "rm" :: args))) ↔
      ∀ x, args ≠ [text "-", x]) ∧
    (AcceptsExactly (text "rm" :: args) (runRm (rowsOf (text "rm" :: args))) ↔
      (∀ x, args ≠ [text "-", x]) ∧ args ≠ [text "-"]) := by
  match args, ht with
  | [], _ =>
    have hrun : runRm (rowsOf [text "rm"]) = complaint "Expected file/folder name" 26 := rfl
    rw [hrun]
    exact accepts_message _ (by simp) (by simp [grammar_rm])
  | [x], ht =>
    have hx : x ≠ [] := (ht x (by simp)).1
    by_cases hf : isFlag x = true
    · have hrun : runRm (rowsOf [text "rm", x]) = complaint "Expected file/folder name" 26 := by
        simp [runRm, rowsOf, hx, hf]
      rw [hrun]
      have hdash := flag_iff_ne_dash (ht x (by simp)) hf
      exact accepts_message _ (by simp) (by simpa [grammar_rm] using hdash)
    · have hrun : runRm (rowsOf [text "rm", x]) = .file (.rm x) := by
        simp [runRm, rowsOf, hx, hf]
      have hno := not_flag_of_isFlag (ht x (by simp)) hf
      rw [hrun]
      exact accepts_file (by simp) (iff_of_true (.rm hno.1) (by simp))
        (iff_of_true (.rm hno.1) (by simpa using hno.2))
  | [f, x], ht =>
    have hf0 : f ≠ [] := (ht f (by simp)).1
    have hx : x ≠ [] := (ht x (by simp)).1
    by_cases hf : isFlag f = true
    · have hrun : runRm (rowsOf [text "rm", f, x]) = .file (.rmRec x) := by
        simp [runRm, rowsOf, hf0, hf, hx]
      have hdash := flag_iff_ne_dash (ht f (by simp)) hf
      rw [hrun]
      exact accepts_file (by simp) (by simpa [grammar_rm] using hdash)
        (by simpa [grammar_rm] using hdash)
    · have hrun : runRm (rowsOf [text "rm", f, x]) = complaint "Too many arguments" 19 := by
        simp [runRm, rowsOf, hf0, hf, hx]
      have hno := not_flag_of_isFlag (ht f (by simp)) hf
      rw [hrun]
      exact accepts_message _ (by simpa using hno.2)
        (iff_of_true (by simpa [grammar_rm] using hno.1) (by simpa using hno.2))
  | f :: x :: y :: rest, ht =>
    have hf0 : f ≠ [] := (ht f (by simp)).1
    have hx : x ≠ [] := (ht x (by simp)).1
    have hy : y ≠ [] := (ht y (by simp)).1
    have hrun : runRm (rowsOf (text "rm" :: f :: x :: y :: rest)) =
        complaint "Too many arguments" 19 := by
      simp [runRm, rowsOf, hf0, hx, hy]
    rw [hrun]
    exact accepts_message _ (by simp) (iff_of_true (by simp [grammar_rm]) (by simp))

theorem cp_accepts (ht : Tokens args) :
    (AcceptsOnly (text "cp" :: args) (runCp (rowsOf (text "cp" :: args))) ↔ CpRegular args) ∧
    (AcceptsExactly (text "cp" :: args) (runCp (rowsOf (text "cp" :: args))) ↔
      CpRegular args ∧ ∀ y, args ≠ [text "-", y]) := by
  match args, ht with
  | [], _ =>
    have hrun : runCp (rowsOf [text "cp"]) = complaint "Expected file/folder names" 26 := rfl
    rw [hrun]
    exact accepts_message _ (by simp [CpRegular])
      (iff_of_true (by simp [grammar_cp]) (by simp [CpRegular]))
  | [x], ht =>
    have hrun : runCp (rowsOf [text "cp", x]) = complaint "Expected file/folder names" 26 := by
      simp [runCp, rowsOf]
    rw [hrun]
    exact accepts_message _ (by simp [CpRegular])
      (iff_of_true (by simp [grammar_cp]) (by simp [CpRegular]))
  | [x, y], ht =>
    have hx : x ≠ [] := (ht x (by simp)).1
    have hy : y ≠ [] := (ht y (by simp)).1
    have hreg : CpRegular [x, y] := .inl (by simp)
    by_cases hf : isFlag x = true
    · have hrun : runCp (rowsOf [text "cp", x, y]) =
          complaint "Expected file/folder names" 26 := by
        simp [runCp, rowsOf, hx, hy, hf]
      have hdash := flag_iff_ne_dash (ht x (by simp)) hf
      rw [hrun]
      exact accepts_message _ hreg (by simpa [grammar_cp, hreg] using hdash)
    · have hrun : runCp (rowsOf [text "cp", x, y]) = .file (.cp x y) := by
        simp [runCp, rowsOf, hx, hy, hf]
      have hno := not_flag_of_isFlag (ht x (by simp)) hf
      rw [hrun]
      exact accepts_file (by simp) (iff_of_true (.cp y hno.1) hreg)
        (iff_of_true (.cp y hno.1) ⟨hreg, by simpa using hno.2⟩)
  | x :: y :: z :: rest, ht =>
    have hx : x ≠ [] := (ht x (by simp)).1
    have hy : y ≠ [] := (ht y (by simp)).1
    have hz : z ≠ [] := (ht z (by simp)).1
    have hreg : CpRegular (x :: y :: z :: rest) ↔ rest = [] ∧ Flag x := by
      simp [CpRegular]
    by_cases hf : isFlag x = true
    · have hrun : runCp (rowsOf (text "cp" :: x :: y :: z :: rest)) = .file (.cpRec y z) := by
        simp [runCp, rowsOf, hx, hy, hz, hf]
      have hgram : Grammar (text "cp" :: x :: y :: z :: rest) (.cpRec y z) ↔
          rest = [] ∧ Flag x := by
        simp [grammar_cp]
      rw [hrun]
      exact accepts_file (by simp) (hgram.trans hreg.symm)
        (hgram.trans (hreg.symm.trans (and_iff_left (by simp)).symm))
    · have hrun : runCp (rowsOf (text "cp" :: x :: y :: z :: rest)) = .file (.cp x y) := by
        simp [runCp, rowsOf, hx, hy, hf]
      have hno := (not_flag_of_isFlag (ht x (by simp)) hf).1
      have hgram : ¬ Grammar (text "cp" :: x :: y :: z :: rest) (.cp x y) := by
        simp [grammar_cp]
      rw [hrun]
      exact accepts_file (by simp) (iff_of_false hgram fun h => hno (hreg.mp h).2)
        (iff_of_false hgram fun h => hno (hreg.mp h.1).2)

theorem mv_accepts (ht : Tokens args) :
    (AcceptsOnly (text "mv" :: args) (runMv (rowsOf (text "mv" :: args))) ↔ args.length ≤ 2) ∧
    (AcceptsExactly (text "mv" :: args) (runMv (rowsOf (text "mv" :: args))) ↔
      args.length ≤ 2) := by
  match args, ht with
  | [], _ =>
    have hrun : runMv (rowsOf [text "mv"]) = complaint "Expected file/folder names" 26 := rfl
    rw [hrun]
    exact accepts_message _ (by simp) (iff_of_true (by simp [grammar_mv]) (by simp))
  | [x], ht =>
    have hrun : runMv (rowsOf [text "mv", x]) = complaint "Expected file/folder names" 26 := by
      simp [runMv, rowsOf]
    rw [hrun]
    exact accepts_message _ (by simp) (iff_of_true (by simp [grammar_mv]) (by simp))
  | x :: y :: rest, ht =>
    have hx : x ≠ [] := (ht x (by simp)).1
    have hy : y ≠ [] := (ht y (by simp)).1
    have hrun : runMv (rowsOf (text "mv" :: x :: y :: rest)) = .file (.mv x y) := by
      simp [runMv, rowsOf, hx, hy]
    have hgram : Grammar (text "mv" :: x :: y :: rest) (.mv x y) ↔
        (x :: y :: rest).length ≤ 2 := by
      simp [grammar_mv]
    rw [hrun]
    exact accepts_file (by simp) hgram hgram

end Heads

section Conditions

variable {args : List (List UInt8)}

theorem regular_mkdir : Regular (text "mkdir" :: args) ∧ NoDash (text "mkdir" :: args) :=
  ⟨⟨by simp [text_words], by simp [text_words], by simp [text_words]⟩,
    ⟨by simp [text_words], by simp [text_words]⟩⟩

theorem regular_rm : (Regular (text "rm" :: args) ↔ ∀ x, args ≠ [text "-", x]) ∧
    (NoDash (text "rm" :: args) ↔ args ≠ [text "-"]) :=
  ⟨⟨fun h x hx => h.rm x (by rw [hx]), fun h =>
      ⟨fun x hx => h x (List.cons.inj hx).2, by simp [text_words], by simp [text_words]⟩⟩,
    ⟨fun h hx => h.rm (by rw [hx]), fun h =>
      ⟨fun hx => h (List.cons.inj hx).2, by simp [text_words]⟩⟩⟩

theorem regular_cp : (Regular (text "cp" :: args) ↔ CpRegular args) ∧
    (NoDash (text "cp" :: args) ↔ ∀ y, args ≠ [text "-", y]) :=
  ⟨⟨fun h => h.cp args rfl, fun h =>
      ⟨by simp [text_words], fun _ ha => (List.cons.inj ha).2 ▸ h, by simp [text_words]⟩⟩,
    ⟨fun h y hy => h.cp y (by rw [hy]), fun h =>
      ⟨by simp [text_words], fun y hy => h y (List.cons.inj hy).2⟩⟩⟩

theorem regular_mv : (Regular (text "mv" :: args) ↔ args.length ≤ 2) ∧
    NoDash (text "mv" :: args) :=
  ⟨⟨fun h => h.mv args rfl, fun h =>
      ⟨by simp [text_words], by simp [text_words], fun _ ha => (List.cons.inj ha).2 ▸ h⟩⟩,
    ⟨by simp [text_words], by simp [text_words]⟩⟩

theorem regular_other {tokens : List (List UInt8)} (h : ¬ FileWord tokens) :
    Regular tokens ∧ NoDash tokens := by
  have hword : ∀ {word}, word ∈ [text "mkdir", text "rm", text "cp", text "mv"] →
      ∀ args, tokens ≠ word :: args := fun hmem args ha => h ⟨_, hmem, by rw [ha]; rfl⟩
  exact ⟨⟨fun x => hword (by simp) _, fun args ha => absurd ha (hword (by simp) args),
    fun args ha => absurd ha (hword (by simp) args)⟩,
    ⟨hword (by simp) _, fun y => hword (by simp) _⟩⟩

end Conditions

/-- A line reaches the file commands only through the grammar unless a flag is cut short or
`cp` or `mv` is given a surplus argument; and all of the grammar unless something is named "-". -/
theorem file_commands_grammar {tokens : List (List UInt8)} (ht : Tokens tokens)
    (hcount : tokens.length ≤ 16) (hlen : (lineOf tokens).length ≤ 255) :
    ∃ action, runCommand (lineOf tokens) = .ok action ∧
      (AcceptsOnly tokens action ↔ Regular tokens) ∧
      (AcceptsExactly tokens action ↔ Regular tokens ∧ NoDash tokens) := by
  match tokens, ht with
  | [], _ =>
    have hreg : Regular [] ∧ NoDash [] := regular_other (by simp [FileWord])
    exact ⟨_, rfl, iff_of_true (acceptsOnly_message _) hreg.1,
      iff_of_true ((acceptsExactly_message _).mpr fun c h => nomatch h) hreg⟩
  | word :: args, ht =>
    have hargs : Tokens args := fun x hx => ht x (List.mem_cons_of_mem _ hx)
    refine ⟨_, runCommand_tokens ht (List.cons_ne_nil _ _) hcount (by omega), ?_⟩
    change (AcceptsOnly _ (dispatch (rowsOf (word :: args))) ↔ _) ∧
      (AcceptsExactly _ (dispatch (rowsOf (word :: args))) ↔ _)
    by_cases hword : word ∈ [text "mkdir", text "rm", text "cp", text "mv"]
    · simp only [List.mem_cons, List.not_mem_nil, or_false] at hword
      obtain rfl | rfl | rfl | rfl := hword
      · rw [dispatch_mkdir rfl]
        obtain ⟨honly, hexact⟩ := mkdir_accepts hargs
        exact ⟨iff_of_true honly regular_mkdir.1, iff_of_true hexact regular_mkdir⟩
      · rw [dispatch_rm rfl, regular_rm.1, regular_rm.2]
        exact rm_accepts hargs
      · rw [dispatch_cp rfl, regular_cp.1, regular_cp.2]
        exact cp_accepts hargs
      · rw [dispatch_mv rfl, regular_mv.1, and_iff_left regular_mv.2]
        exact mv_accepts hargs
    · have hno : ¬ FileWord (word :: args) := fun ⟨w, hw, hhead⟩ =>
        hword (Option.some.inj hhead ▸ hw)
      have hreg := regular_other hno
      have hgram : ∀ c, ¬ Grammar (word :: args) c := fun c h => hno h.fileWord.1
      have hcalls : Harmless (dispatch (rowsOf (word :: args))) :=
        dispatch_other (ht word (by simp)).2.2 hword
      have honly : AcceptsOnly (word :: args) (dispatch (rowsOf (word :: args))) :=
        ⟨fun c hc hcd => ((hcalls c hc).elim hcd).elim, fun h => absurd h hno⟩
      exact ⟨iff_of_true honly hreg.1,
        iff_of_true ⟨honly, fun c h => absurd h (hgram c)⟩ hreg⟩

/-- `rm - ab`. -/
theorem file_commands_grammar_dash : ∃ action,
    runCommand (lineOf [text "rm", text "-", text "ab"]) = .ok action ∧
      ¬ AcceptsOnly [text "rm", text "-", text "ab"] action := by
  obtain ⟨action, hrun, honly, -⟩ :=
    @file_commands_grammar [text "rm", text "-", text "ab"] (by decide) (by decide)
      (by decide)
  exact ⟨action, hrun, fun h => (honly.mp h).rm _ rfl⟩

/-- A dash removes a directory with everything below it, as the whole flag does. -/
theorem dash_is_a_flag : ¬ ∀ tokens action, Tokens tokens → tokens.length ≤ 16 →
    (lineOf tokens).length ≤ 255 → runCommand (lineOf tokens) = .ok action →
    AcceptsOnly tokens action := by
  intro h
  have hrun : runCommand (lineOf [text "rm", text "-", text "ab"]) =
      .ok (.file (.rmRec (text "ab"))) :=
    (runCommand_tokens (by decide) (by decide) (by decide) (by decide)).trans
      (congrArg Except.ok (dispatch_rm rfl))
  have honly := h _ _ (by decide) (by decide) (by decide) hrun
  have hgram := (acceptsOnly_file (by simp)).mp honly
  exact not_flag_dash (by simpa [grammar_rm] using hgram)

end Doors.Shell
