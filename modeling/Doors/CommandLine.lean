import Doors.CString

/-! The command line of the shell. What is typed is collected in a buffer of 256 bytes;
the buffer is cut at its spaces, and the first row selects the command. -/

namespace Doors.Shell

open Fat32 (Fault)

def text (s : String) : List UInt8 := s.toList.map Char.toUInt8

def space : UInt8 := ' '.toUInt8

/-- A character of the keyboard, and the kernel's answers about the cursor and the shift key. -/
structure Key where
  buf : UInt8
  isCursorViewable : Bool
  isShift : Bool

inductive KeyEffect
  | ignored
  | putChar (buf : UInt8)
  | runCommand
  | moveScreen (buf : UInt8)

/-- The characters typed so far after one more key. -/
def typeCommand (line : List UInt8) (key : Key) : List UInt8 × KeyEffect :=
  if key.buf = 0x08 ∧ key.isCursorViewable then
    if line.length ≠ 0 then (line.dropLast, .putChar key.buf) else (line, .ignored)
  else if key.buf = 0x0A ∧ key.isCursorViewable then ([], .runCommand)
  else if key.buf = 0x11 ∨ key.buf = 0x13 then
    if key.isShift then (line, .moveScreen key.buf) else (line, .ignored)
  else if key.buf ≠ 0 ∧ key.buf ≠ 0x12 ∧ key.buf ≠ 0x14 ∧ key.isCursorViewable then
    if line.length < 256 then (line ++ [key.buf], .putChar key.buf) else (line, .ignored)
  else (line, .ignored)

/-- The lines that some sequence of keys leaves in the buffer. -/
inductive Typed : List UInt8 → Prop
  | start : Typed []
  | key {line : List UInt8} (key : Key) : Typed line → Typed (typeCommand line key).1

/-- `curr_command_buffer`, cleared by `print_working_dir` before the first character. -/
def commandBuffer (line : List UInt8) : List UInt8 :=
  line ++ List.replicate (256 - line.length) 0

/-- One call of `put_chars`, or of `put_char` with a count of 1. -/
structure Put where
  chars : List UInt8
  count : Nat
  color : UInt8

def newline (color : UInt8) : Put := ⟨[0x0A], 1, color⟩

/-- What `run_command` goes on to do. -/
inductive Action
  | message (puts : List Put)
  | ls
  | clearScreen
  | help
  | ps
  | doors
  | file (command : Command)
  | cat (filename : List UInt8)
  | kill (pid : List UInt8)
  | exec (filename : List UInt8)
  | find (name : List UInt8)

def complaint (chars : String) (count : Nat) : Action :=
  .message [⟨text chars, count, 0xC⟩, newline 0xC]

def quoted (cmd : List UInt8) (chars : String) (count : Nat) : Action :=
  .message [⟨text "'", 1, 0xC⟩, ⟨cmd, cmd.length, 0xC⟩, ⟨text "'", 1, 0xC⟩,
    ⟨text chars, count, 0xC⟩, newline 0xC]

/-- `memcmp(row, word, n) == 0`. -/
def sameBytes (row word : List UInt8) (n : Nat) : Bool :=
  match CString.memcmp (row ++ [0]) (word ++ [0]) n with
  | .ok r => r = 0
  | .error _ => false

def isWord (cmd : List UInt8) (word : String) (n : Nat) : Bool :=
  sameBytes cmd (text word) cmd.length && cmd.length = n

/-- The flag of `rm` and `cp` is compared over the length that was typed. -/
def isFlag (row : List UInt8) : Bool :=
  sameBytes row (text "-r") row.length || sameBytes row (text "-R") row.length

def runMkdir (buf : Nat → List UInt8) : Action :=
  if (buf 1).length = 0 then complaint "Expected directory name" 23
  else if (buf 2).length ≠ 0 then complaint "Too many arguments" 18
  else .file (.mkdir (buf 1))

def runRm (buf : Nat → List UInt8) : Action :=
  if (buf 1).length = 0 then complaint "Expected file/folder name" 26
  else if isFlag (buf 1) then
    if (buf 2).length = 0 then complaint "Expected file/folder name" 26
    else if (buf 3).length ≠ 0 then complaint "Too many arguments" 19
    else .file (.rmRec (buf 2))
  else if (buf 2).length ≠ 0 then complaint "Too many arguments" 19
  else .file (.rm (buf 1))

def runCp (buf : Nat → List UInt8) : Action :=
  if (buf 1).length = 0 ∨ (buf 2).length = 0 then complaint "Expected file/folder names" 26
  else if isFlag (buf 1) then
    if (buf 2).length = 0 ∨ (buf 3).length = 0 then complaint "Expected file/folder names" 26
    else .file (.cpRec (buf 2) (buf 3))
  else .file (.cp (buf 1) (buf 2))

def runMv (buf : Nat → List UInt8) : Action :=
  if (buf 1).length = 0 ∨ (buf 2).length = 0 then complaint "Expected file/folder names" 26
  else .file (.mv (buf 1) (buf 2))

/-- The command for the rows of a line. -/
def dispatch (buf : Nat → List UInt8) : Action :=
  let cmd := buf 0
  if isWord cmd "ls" 2 then
    if (buf 1).length = 0 then .ls else quoted cmd " only receive one argument." 24
  else if isWord cmd "cd" 2 then
    if (buf 1).length = 0 then complaint "Expected directory name" 23 else .file (.cd (buf 1))
  else if isWord cmd "clear" 5 || isWord cmd "cls" 3 then .clearScreen
  else if isWord cmd "mkdir" 5 then runMkdir buf
  else if isWord cmd "rm" 2 then runRm buf
  else if isWord cmd "cp" 2 then runCp buf
  else if isWord cmd "mv" 2 then runMv buf
  else if isWord cmd "cat" 3 then
    if (buf 1).length = 0 then complaint "Expected file name" 18 else .cat (buf 1)
  else if isWord cmd "help" 4 then .help
  else if isWord cmd "ps" 2 then .ps
  else if isWord cmd "kill" 4 then
    if (buf 1).length = 0 then .message [⟨text "Expected process identifier\n", 29, 0xC⟩]
    else .kill (buf 1)
  else if isWord cmd "exec" 4 then
    if (buf 1).length = 0 then .message [⟨text "Expected binary file name\n", 27, 0xC⟩]
    else .exec (buf 1)
  else if isWord cmd "uwu" 3 then .doors
  else if sameBytes cmd (text "./") 2 then .exec (cmd.drop 2)
  else if sameBytes cmd (text "find") 4 && cmd.length = 4 then
    if (buf 1).length = 0 then complaint "Expected target directory name" 31 else .find (buf 1)
  else quoted cmd " is not recognized as an internal command." 42

def runCommand (line : List UInt8) : Except Fault Action :=
  if line.length = 0 then .ok (.message [newline 0xC])
  else do
    let grid ← CString.strsplit (commandBuffer line) space
    return dispatch (CString.rowText grid)

section Typing

/-- The characters that are put into the buffer. -/
def IsPlain (b : UInt8) : Prop := b ∉ [0, 0x08, 0x0A, 0x11, 0x12, 0x13, 0x14]

theorem typeCommand_plain {line : List UInt8} (key : Key) (hlen : line.length ≤ 256)
    (hplain : ∀ b ∈ line, IsPlain b) : (typeCommand line key).1.length ≤ 256 ∧
      ∀ b ∈ (typeCommand line key).1, IsPlain b := by
  unfold typeCommand
  split_ifs with hback _ hrun hmove _ hchar hroom
  · exact ⟨(List.dropLast_sublist line).length_le.trans hlen,
      fun b hb => hplain b (List.mem_of_mem_dropLast hb)⟩
  · exact ⟨hlen, hplain⟩
  · exact ⟨Nat.zero_le _, by simp⟩
  · exact ⟨hlen, hplain⟩
  · exact ⟨hlen, hplain⟩
  · refine ⟨List.length_append.trans_le (Nat.succ_le_of_lt hroom), fun b hb => ?_⟩
    obtain hb | hb := List.mem_append.mp hb
    · exact hplain b hb
    · obtain rfl := List.mem_singleton.mp hb
      simp_all [IsPlain]
  · exact ⟨hlen, hplain⟩
  · exact ⟨hlen, hplain⟩

theorem typeCommand_char {line : List UInt8} {b : UInt8} (hlen : line.length < 256)
    (hb : IsPlain b) : (typeCommand line ⟨b, true, false⟩).1 = line ++ [b] := by
  simp_all [typeCommand, IsPlain]

/-- Every line of at most 256 plain characters can be typed, and no other. -/
theorem typed_iff {line : List UInt8} :
    Typed line ↔ line.length ≤ 256 ∧ ∀ b ∈ line, IsPlain b := by
  constructor
  · intro h
    induction h with
    | start => simp
    | key key _ ih => exact typeCommand_plain key ih.1 ih.2
  · rintro ⟨hlen, hplain⟩
    induction line using List.reverseRecOn with
    | nil => exact .start
    | append_singleton line b ih =>
      rw [List.length_append, List.length_singleton] at hlen
      have hline := ih (by omega) fun c hc => hplain c (List.mem_append_left _ hc)
      have hb : IsPlain b := hplain b (List.mem_append_right _ List.mem_cons_self)
      have hroom : line.length < 256 := by omega
      exact typeCommand_char hroom hb ▸ hline.key ⟨b, true, false⟩

theorem Typed.zero_not_mem {line : List UInt8} (h : Typed line) : 0 ∉ line :=
  fun hmem => (typed_iff.mp h).2 0 hmem (by simp)

end Typing

section Words

variable {row : List UInt8}

theorem sameBytes_iff (hz : 0 ∉ row) (word : List UInt8) :
    sameBytes row word row.length = true ↔ row <+: word := by
  obtain ⟨r, hr, hiff⟩ := CString.memcmp_word hz
  rw [sameBytes, hr, ← hiff]
  exact decide_eq_true_iff

theorem isWord_iff (hz : 0 ∉ row) {word : String} {n : Nat} (hn : (text word).length = n) :
    isWord row word n = true ↔ row = text word := by
  rw [isWord, Bool.and_eq_true, sameBytes_iff hz, decide_eq_true_iff, ← hn]
  exact ⟨fun h => h.1.eq_of_length h.2, fun h => h ▸ ⟨List.prefix_rfl, rfl⟩⟩

/-- A dash alone passes for a flag. -/
theorem isFlag_iff (hz : 0 ∉ row) (hne : row ≠ []) :
    isFlag row = true ↔ row = text "-" ∨ row = text "-r" ∨ row = text "-R" := by
  have hwords : ∀ c : UInt8, row <+: [45, c] ↔ row = [45] ∨ row = [45, c] := by
    intro c
    cases row with
    | nil => exact absurd rfl hne
    | cons a row => cases row <;> simp [List.cons_prefix_cons]
  rw [isFlag, Bool.or_eq_true, sameBytes_iff hz, sameBytes_iff hz]
  change row <+: [45, 114] ∨ row <+: [45, 82] ↔ row = [45] ∨ row = [45, 114] ∨ row = [45, 82]
  rw [hwords, hwords]
  tauto

end Words

section Rows

variable {line : List UInt8}

theorem commandBuffer_eq (hlen : line.length < 256) :
    commandBuffer line = line ++ 0 :: List.replicate (255 - line.length) 0 := by
  rw [commandBuffer, ← List.replicate_succ]
  congr 2
  omega

theorem runCommand_short (hz : 0 ∉ line) (hpos : line ≠ []) (hlen : line.length < 256) :
    runCommand line = if (line.splitOn space).length ≤ 16 then
      .ok (dispatch fun k => (line.splitOn space).getD k []) else .error .outOfBounds := by
  have hrows : ∀ row ∈ line.splitOn space, row.length < 256 ∧ 0 ∉ row := fun row hr =>
    have hin := CString.infix_of_mem_splitOn hr
    ⟨hin.length_le.trans_lt hlen, fun h => hz (hin.subset h)⟩
  rw [runCommand, if_neg (by simpa using hpos), commandBuffer_eq hlen,
    CString.strsplit_grid hz fun row hr => (hrows row hr).1]
  by_cases hcount : (line.splitOn space).length ≤ 16
  · rw [if_pos hcount, if_pos hcount, ← CString.rowText_rows hrows]
    rfl
  · rw [if_neg hcount, if_neg hcount]
    rfl

/-- The scan of a full buffer does not end inside it. -/
theorem runCommand_full (hz : 0 ∉ line) (hlen : line.length = 256) :
    runCommand line = .error .outOfBounds := by
  rw [runCommand, if_neg (by omega), commandBuffer, hlen, Nat.sub_self, List.replicate_zero,
    List.append_nil, CString.strsplit_unterminated hz]
  rfl

end Rows

end Doors.Shell
