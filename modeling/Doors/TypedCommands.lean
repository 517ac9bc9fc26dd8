import Doors.CommandGrammar
import Doors.Session
import Doors.ShellPaths
import Mathlib.Data.List.ReduceOption

/-! From the keys to the disk and back to the screen. What is typed are lines; a line is cut into
tokens, and what it does shows on the map of paths. -/

namespace Doors.Shell

open PointerTree Fat32 FileSystem Keyboard
open Session (SessionEvent)
open PathStore (Node)

/-- A line that has to do with paths, or none at all. -/
inductive Line
  | command (c : Command)
  | ls
  | cat (filename : List UInt8)
  | blank

def Line.action : Line → Action
  | .command c => .file c
  | .ls => .ls
  | .cat filename => .cat filename
  | .blank => .message [newline 0xC]

def Line.command? : Line → Option Command
  | .command c => some c
  | _ => none

/-- What the tokens of a line say. -/
inductive Says : List (List UInt8) → Line → Prop
  | command {tokens : List (List UInt8)} {c : Command} : Grammar tokens c → NoDash tokens →
    Says tokens (.command c)
  | cd (name : List UInt8) : Says [text "cd", name] (.command (.cd name))
  | ls : Says [text "ls"] .ls
  | cat (filename : List UInt8) : Says [text "cat", filename] (.cat filename)
  | blank : Says [] .blank

structure Entered (line : List UInt8) (l : Line) : Prop where
  tokens : ∃ tokens, line = lineOf tokens ∧ Tokens tokens ∧ Says tokens l
  length : line.length < 256

/-- `read` leaves the directory of the file in the driver's buffer. -/
def diskAfterCat (state : ShellState) (s : FileSystem) (filename : List UInt8) :
    Except Fault FileSystem := do
  match ← catRequest state s filename with
  | none => return s
  | some req =>
    let (_, _, s) ← read s req
    return s

/-- What a line puts on the screen below it. -/
inductive Output
  | silent
  | listing (lines : List LsLine)
  | contents (shown : Option (List UInt8))

/-- The shell on the disk runs a line. -/
inductive LineStep (x : ShellState × FileSystem) :
    List UInt8 × Output → ShellState × FileSystem → Prop
  | command {line : List UInt8} {c : Command} {x' : ShellState × FileSystem} :
    runCommand line = .ok (.file c) → PlainStep x c x' → LineStep x (line, .silent) x'
  | ls {line : List UInt8} : runCommand line = .ok .ls →
    LineStep x (line, .listing (ls x.2 x.1).2) x
  | cat {line filename : List UInt8} {shown : Option (List UInt8)} {s' : FileSystem} :
    runCommand line = .ok (.cat filename) → cat x.1 x.2 filename = .ok shown →
    diskAfterCat x.1 x.2 filename = .ok s' → LineStep x (line, .contents shown) (x.1, s')
  | blank {line : List UInt8} : runCommand line = .ok (.message [newline 0xC]) →
    LineStep x (line, .silent) x

/-- What `cat` shows of what stands at a path: a file up to a zero byte, which may come behind its
end, when it fits into a cluster. -/
inductive Prints : Option (Node (List UInt8)) → Option (List UInt8) → Prop
  | file {bytes rest : List UInt8} : bytes.length + rest.length = 2048 →
    Prints (some (.file bytes)) (some ((bytes ++ rest).takeWhile (· ≠ 0)))
  | large {bytes : List UInt8} : 2048 < bytes.length → Prints (some (.file bytes)) none
  | folder : Prints (some .folder) none
  | missing : Prints none none

/-- The shell on the map lists a directory in any order. -/
inductive MapStep (y : Dir × Contents) : Line × Output → Dir × Contents → Prop
  | command (c : Command) : MapStep y (.command c, .silent) (PathShell.run y c)
  | ls {listing : List ((Name × Ext) × Node (List UInt8))} : (listing.map Prod.fst).Nodup →
    (∀ name node, (name, node) ∈ listing ↔ y.2 (y.1 ++ [name]) = some node) →
    MapStep y (.ls, .listing ((listing.zipIdx 1).map fun line => shownLine line.1 line.2)) y
  | cat {filename : List UInt8} {shown : Option (List UInt8)} :
    Prints ((target y.2 y.1 filename).bind fun x => y.2 (x.1 ++ [x.2])) shown →
    MapStep y (.cat filename, .contents shown) y
  | blank : MapStep y (.blank, .silent) y

section Reading

variable {s s' : FileSystem} {m : Contents} {dir : Dir} {state : ShellState}
  {filename : List UInt8} {shown : Option (List UInt8)}

theorem OnMap.loadDir (h : OnMap state s dir m) (d : Nat) : OnMap state (s.loadDir d) dir m where
  represents := h.represents.loadDir d
  wellFormed := h.wellFormed.loadDir d
  plain := h.plain
  slots := h.slots
  workDir := h.workDir
  workDirName := h.workDirName

theorem catRequest_found {r : Resolved}
    (hr : getCurrAndParentCluster s filename state.workDir = .ok r) (hcode : r.code = 0) :
    catRequest state s filename =
      .ok (some ⟨zeroBytes, r.filename, r.ext, UInt32.ofNat r.parentCluster, 2048⟩) := by
  rw [catRequest, hr]
  simp [bind, Except.bind, pure, Except.pure, hcode]

theorem catRequest_missing {r : Resolved}
    (hr : getCurrAndParentCluster s filename state.workDir = .ok r) (hcode : r.code ≠ 0) :
    catRequest state s filename = .ok none := by
  rw [catRequest, hr]
  simp [bind, Except.bind, pure, Except.pure, hcode]

/-- The buffer of `cat` begins with the bytes of the file. -/
theorem puts_prints {bytes : List UInt8} {buf : Nat → UInt8} (hlen : bytes.length ≤ 2048)
    (hbuf : (List.range bytes.length).map buf = bytes) :
    Prints (some (.file bytes)) (some (puts buf 2048)) := by
  have hsplit : (List.range 2048).map buf =
      bytes ++ (List.range (2048 - bytes.length)).map fun k => buf (bytes.length + k) := by
    rw [← Nat.add_sub_cancel' hlen, List.range_add, List.map_append, hbuf, Nat.add_sub_cancel_left,
      List.map_map]
    rfl
  rw [puts, hsplit]
  exact .file (by simp [hlen])

/-- `cat` shows what the map holds. -/
theorem cat_refines (h : OnMap state s dir m) (hrun : cat state s filename = .ok shown) :
    Prints ((target m dir filename).bind fun x => m (x.1 ++ [x.2])) shown := by
  obtain ⟨request, hrequest, hshown⟩ := bind_ok hrun
  obtain ⟨r, hr, -⟩ := bind_ok hrequest
  have hsilent (hcode : r.code ≠ 0) : shown = none := by
    rw [catRequest_missing hr hcode] at hrequest
    cases hrequest
    cases hshown
    rfl
  have hanswer := resolve_refines h.represents h.wellFormed h.plain h.workDir hr
  generalize target m dir filename = named at hanswer
  cases hanswer with
  | none hcode =>
    rw [hsilent (by omega)]
    exact .missing
  | @some parent name _ hparent hname hcode _ =>
    rw [Option.bind_some]
    dsimp only
    cases hm : m (parent ++ [name]) with
    | none =>
      rw [hsilent (by simp [hcode, hm, kindCode])]
      exact .missing
    | some node =>
      cases node with
      | folder =>
        rw [hsilent (by simp [hcode, hm, kindCode])]
        exact .folder
      | file bytes =>
        rw [catRequest_found hr (by simp [hcode, hm, kindCode])] at hrequest
        cases hrequest
        have hnames : Names s (⟨zeroBytes, r.filename, r.ext, UInt32.ofNat r.parentCluster,
            2048⟩ : Request) parent name :=
          ⟨(request_names h.wellFormed hparent r.filename r.ext).1, hname⟩
        have hreads := h.represents.reads h.wellFormed hnames
        simp only [ReadsAs, hm, UInt32.reduceToNat] at hreads
        by_cases hlen : bytes.length ≤ 2048
        · rw [if_pos hlen] at hreads
          obtain ⟨buf, hback, hbuf⟩ := hreads
          obtain ⟨t, hread⟩ := read_of_readBack hback
          simp only [hread, bind, Except.bind, if_true] at hshown
          cases hshown
          exact puts_prints hlen hbuf
        · rw [if_neg hlen] at hreads
          obtain ⟨t, hread⟩ := read_of_readBack hreads
          simp only [hread, bind, Except.bind] at hshown
          cases hshown
          exact .large (by omega)

theorem OnMap.cat (h : OnMap state s dir m) (hrun : diskAfterCat state s filename = .ok s') :
    OnMap state s' dir m := by
  obtain ⟨request, -, hdisk⟩ := bind_ok hrun
  cases request with
  | none =>
    cases hdisk
    exact h
  | some req =>
    obtain ⟨⟨code, buf, t⟩, hread, ht⟩ := bind_ok hdisk
    cases ht
    rcases read_disk hread with rfl | rfl
    · exact h
    · exact h.loadDir _

end Reading

section Lines

variable {tokens : List (List UInt8)} {line : List UInt8} {l : Line}
  {x x' : ShellState × FileSystem} {y : Dir × Contents} {out : Output}

theorem flag_ne_dash {f : List UInt8} (hf : Flag f) : f ≠ text "-" := fun h =>
  not_flag_dash (h ▸ hf)

theorem grammar_dispatch {c : Command} (hg : Grammar tokens c) (ht : Tokens tokens)
    (hdash : NoDash tokens) : dispatch (rowsOf tokens) = .file c := by
  have hargs : Tokens tokens.tail := fun x hx => ht x (List.mem_of_mem_tail hx)
  cases hg with
  | mkdir x =>
    rw [dispatch_mkdir rfl]
    exact (mkdir_accepts hargs).2.called _ (.mkdir x)
  | @rm x hx =>
    have hno : [x] ≠ [text "-"] := fun h => hdash.rm (congrArg (text "rm" :: ·) h)
    rw [dispatch_rm rfl]
    exact ((rm_accepts hargs).2.mpr ⟨by simp, hno⟩).called _ (.rm hx)
  | rmRec x hf =>
    have hne := flag_ne_dash hf
    rw [dispatch_rm rfl]
    exact ((rm_accepts hargs).2.mpr ⟨by simp [hne], by simp⟩).called _ (.rmRec x hf)
  | @cp x y hx =>
    have hno : ∀ z, [x, y] ≠ [text "-", z] := fun z h =>
      hdash.cp z (congrArg (text "cp" :: ·) h)
    rw [dispatch_cp rfl]
    exact ((cp_accepts hargs).2.mpr ⟨.inl (by simp), hno⟩).called _ (.cp y hx)
  | cpRec x y hf =>
    rw [dispatch_cp rfl]
    exact ((cp_accepts hargs).2.mpr ⟨.inr ⟨rfl, _, _, rfl, hf⟩, by simp⟩).called _ (.cpRec x y hf)
  | mv x y =>
    rw [dispatch_mv rfl]
    exact ((mv_accepts hargs).2.mpr (by simp)).called _ (.mv x y)

theorem Grammar.length_le {c : Command} (h : Grammar tokens c) :
    tokens ≠ [] ∧ tokens.length ≤ 16 := by
  cases h <;> simp

theorem Entered.runCommand (h : Entered line l) : runCommand line = .ok l.action := by
  obtain ⟨tokens, rfl, ht, hsays⟩ := h.tokens
  cases hsays with
  | command hg hdash =>
    rw [runCommand_tokens ht hg.length_le.1 hg.length_le.2 h.length]
    exact congrArg Except.ok (grammar_dispatch hg ht hdash)
  | cd name =>
    have hne : name ≠ [] := (ht name (by simp)).1
    have hls : isWord (text "cd") "ls" 2 = false := by decide
    have hcd : isWord (text "cd") "cd" 2 = true := by decide
    rw [runCommand_tokens ht (by simp) (by simp) h.length]
    simp [dispatch, hls, hcd, hne, Line.action]
  | cat filename =>
    have hne : filename ≠ [] := (ht filename (by simp)).1
    have hwords : ∀ x ∈ [("ls", 2), ("cd", 2), ("clear", 5), ("cls", 3), ("mkdir", 5), ("rm", 2),
        ("cp", 2), ("mv", 2)], isWord (text "cat") x.1 x.2 = false := by decide
    have hcat : isWord (text "cat") "cat" 3 = true := by decide
    simp only [List.forall_mem_cons] at hwords
    rw [runCommand_tokens ht (by simp) (by simp) h.length]
    simp [dispatch, hwords, hcat, hne, Line.action]
  | ls => rfl
  | blank => rfl

theorem Line.action_injective : Function.Injective Line.action := by
  intro l k h
  cases l <;> cases k <;> simp_all [Line.action]

theorem Entered.line_eq {k : Line} (h : Entered line l)
    (hrun : Shell.runCommand line = .ok k.action) : l = k :=
  Line.action_injective (Except.ok.inj (h.runCommand.symm.trans hrun))

/-- No command of these takes away the directory that the shell is in. -/
def LineStays (y : Dir × Contents) (ls : List Line) : Prop := Stays y (ls.filterMap Line.command?)

theorem line_simulates (h : OnMap x.1 x.2 y.1 y.2) (he : Entered line l)
    (hs : LineStep x (line, out) x') {ls : List Line} (hstays : LineStays y (l :: ls)) :
    ∃ y', MapStep y (l, out) y' ∧ OnMap x'.1 x'.2 y'.1 y'.2 ∧ LineStays y' ls := by
  cases hs with
  | command hrun hplain =>
    obtain rfl := he.line_eq hrun (k := .command _)
    exact ⟨_, .command _, command_refines h hplain hstays.1, hstays.2⟩
  | ls hrun =>
    obtain rfl := he.line_eq hrun (k := .ls)
    have hlive := h.workDir.reach reach_root
    refine ⟨y, ?_, h, hstays⟩
    rw [ls_lines h.wellFormed h.slots hlive]
    exact .ls (entriesAt_names_nodup h.wellFormed hlive) fun name node =>
      mem_entriesAt h.represents h.wellFormed h.workDir
  | cat hrun hcat hdisk =>
    obtain rfl := he.line_eq hrun (k := .cat _)
    exact ⟨y, .cat (cat_refines h hcat), h.cat hdisk, hstays⟩
  | blank hrun =>
    obtain rfl := he.line_eq hrun (k := .blank)
    exact ⟨y, .blank, h, hstays⟩

theorem lines_simulate {evs : List (List UInt8 × Output)} {ls : List Line}
    (h : OnMap x.1 x.2 y.1 y.2) (he : List.Forall₂ Entered (evs.map Prod.fst) ls)
    (hrun : Run LineStep x evs x') (hstays : LineStays y ls) :
    ∃ y', Run MapStep y (ls.zip (evs.map Prod.snd)) y' ∧ OnMap x'.1 x'.2 y'.1 y'.2 := by
  induction hrun generalizing y ls with
  | nil => exact ⟨y, by rw [List.map_nil, List.zip_nil_right]; exact .nil y, h⟩
  | @cons x x₁ x' e evs hs _ ih =>
    cases he with
    | cons hline hrest =>
      obtain ⟨y₁, hstep, h₁, hstays₁⟩ := line_simulates h hline hs hstays
      obtain ⟨y', hrun', h'⟩ := ih h₁ hrest hstays₁
      exact ⟨y', .cons hstep hrun', h'⟩

/-- What is typed at the keyboard happens on the map of paths, and what `ls` and `cat` show is what
the map holds. The lines may be typed at any pace that the polls follow, and with corrections. -/
theorem typed_lines_simulate (root : Name) (disk : Nat → UInt8) {calls : List Call}
    {d : FileSystem} {m : Contents} (hcalls : Run CallStep (createFat32 root (boot disk)) calls d)
    (hm : Represents d m) {s : Session} {log : List UInt8} {es : List SessionEvent}
    {ls : List Line} {evs : List (List UInt8 × Output)}
    (hk : Tracks s.keyboard log) (hempty : s.keyboard.keyboardBuffer = 0) (hline : s.line = [])
    (hview : Session.Viewed es)
    (hserved : Mailbox.Served none (accesses (some log) (es.map SessionEvent.toKeyboard)))
    (hentered : List.Forall₂ Entered
      (Session.enteredLines (typed log (codes (es.map SessionEvent.toKeyboard)))) ls)
    (hstays : LineStays ([], m) ls) (hlines : evs.map Prod.fst = s.linesRun es)
    (hrun : Run LineStep (initial, d) evs x) :
    ∃ y, Run MapStep ([], m) (ls.zip (evs.map Prod.snd)) y ∧ Represents x.2 y.2 ∧
      Fat32.FolderPath x.2 rootClusterNumber y.1 x.1.workDir := by
  rw [← Session.linesRun_typed hk hempty hline hview hserved, ← hlines] at hentered
  obtain ⟨y, hmap, hy⟩ := lines_simulate (onMap_start root disk hcalls hm) hentered hrun hstays
  exact ⟨y, hmap, hy.represents, hy.workDir⟩

theorem readsAs_returns {s : FileSystem} {m : Contents} {request : Request}
    {path : List (Name × Ext)} (h : ReadsAs s m request path) :
    ∃ code buf, readBack s request = .ok (code, buf) := by
  rw [ReadsAs] at h
  split at h
  · split_ifs at h
    · obtain ⟨buf, h, -⟩ := h
      exact ⟨_, buf, h⟩
    · exact ⟨_, _, h⟩
  · obtain ⟨code, -, h⟩ := h
    exact ⟨code, _, h⟩

theorem cat_bytePath {s : FileSystem} {m : Contents} (h : OnMap initial s [] m) :
    ∃ shown s', cat initial s bytePath = .ok shown ∧ diskAfterCat initial s bytePath = .ok s' := by
  obtain ⟨r, hr, hp⟩ := bytePath_resolves s
  by_cases hcode : r.code = 0
  · have hrequest := catRequest_found hr hcode
    have hnames : Names s (⟨zeroBytes, r.filename, r.ext, UInt32.ofNat r.parentCluster, 2048⟩ :
        Request) [] (r.filename, r.ext) := by
      rw [hp]
      exact ⟨.here _, rfl⟩
    obtain ⟨code, buf, hback⟩ := readsAs_returns (h.represents.reads h.wellFormed hnames)
    obtain ⟨t, hread⟩ := read_of_readBack hback
    refine ⟨if code = 0 then some (puts buf 2048) else none, t, ?_, ?_⟩
    · simp only [cat, bind, Except.bind, hrequest, hread]
      split_ifs <;> rfl
    · simp only [diskAfterCat, bind, Except.bind, hrequest, hread]
      rfl
  · have hrequest := catRequest_missing hr hcode
    refine ⟨none, s, ?_, ?_⟩
    · simp only [cat, bind, Except.bind, hrequest]
      rfl
    · simp only [diskAfterCat, bind, Except.bind, hrequest]
      rfl

/-- The keys of `cat` and `rm` for a file and of `ls`, each polled at once. -/
theorem typed_lines_simulate_file : ∃ (m : Contents) (y : Dir × Contents)
    (x : ShellState × FileSystem) (shown : Option (List UInt8)) (listed : List LsLine),
    m [(byteRequest.name, byteRequest.ext)] = some (.file [7]) ∧
      Run MapStep ([], m) [(.cat bytePath, .contents shown), (.command (.rm bytePath), .silent),
        (.ls, .listing listed)] y ∧ Represents x.2 y.2 := by
  let es : List SessionEvent := ((text "cat aaaaaaaa\nrm aaaaaaaa\nls\n").flatMap
    (strokes false)).flatMap fun code => [.interrupt code, .typeCommand true false]
  let lines : List Line := [.cat bytePath, .command (.rm bytePath), .ls]
  have hcat : Entered (text "cat aaaaaaaa") (.cat bytePath) :=
    ⟨⟨[text "cat", bytePath], by decide, by decide, .cat _⟩, by decide⟩
  have hflag : ¬ Flag bytePath := by
    rintro (h | h) <;> exact absurd h (by decide)
  have hrm : Entered (text "rm aaaaaaaa") (.command (.rm bytePath)) :=
    ⟨⟨[text "rm", bytePath], by decide, by decide, .command (.rm hflag)
      (regular_rm.2.mpr (by decide))⟩, by decide⟩
  have hls : Entered (text "ls") .ls := ⟨⟨_, rfl, by decide, .ls⟩, by decide⟩
  have hlines : Session.enteredLines (typed [] (codes (es.map SessionEvent.toKeyboard))) =
      [text "cat aaaaaaaa", text "rm aaaaaaaa", text "ls"] := by decide +kernel
  have hentered : List.Forall₂ Entered (Session.enteredLines
      (typed [] (codes (es.map SessionEvent.toKeyboard)))) lines := by
    rw [hlines]
    exact .cons hcat (.cons hrm (.cons hls .nil))
  have hk : Tracks KeyboardDriverState.boot.activate [] := ⟨rfl, rfl, rfl, rfl⟩
  have hview : Session.Viewed es := by simp [Session.Viewed, es]
  have hserved : Mailbox.Served none (accesses (some []) (es.map SessionEvent.toKeyboard)) := by
    decide +kernel
  obtain ⟨s, m, hcalls, hm, hfile⟩ := byteDisk
  have h := onMap_start (fun _ => 0) zeroBytes hcalls hm
  obtain ⟨shown, s₁, hshown, hs₁⟩ := cat_bytePath h
  obtain ⟨s₂, hs₂⟩ := rm_bytePath (h.cat hs₁).wellFormed
  have hstep : PlainStep (initial, s₁) (.rm bytePath) (initial, s₂) :=
    ⟨trivial, by rw [Command.run, hs₂]; rfl⟩
  have hrun := Run.cons (LineStep.cat (x := (initial, s)) hcat.runCommand hshown hs₁)
    (.cons (LineStep.command hrm.runCommand hstep) (.cons (LineStep.ls hls.runCommand) (.nil _)))
  have htyped := Session.linesRun_typed (s := ⟨KeyboardDriverState.boot.activate, []⟩) hk rfl rfl
    hview hserved
  obtain ⟨y, hmap, hy, -⟩ := typed_lines_simulate (fun _ => 0) zeroBytes hcalls hm hk rfl rfl hview
    hserved hentered (rm_bytePath_stays h hfile) (by rw [htyped, hlines]; rfl) hrun
  exact ⟨m, y, _, shown, _, hfile, hmap, hy⟩

end Lines

end Doors.Shell
