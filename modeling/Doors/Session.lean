import Doors.CommandLine
import Doors.Keyboard

/-! The shell at the keyboard: `type_command` polls the driver in a loop while the interrupts of
the keyboard come in between. What it runs are the lines of the text that was typed. -/

namespace Doors

open Keyboard Shell

structure Session where
  keyboard : KeyboardDriverState
  line : List UInt8

namespace Session

/-- A pass of the shell's loop comes with what the kernel answers about the cursor, and about
the shift key after the poll. -/
inductive SessionEvent
  | interrupt (scancode : UInt8)
  | typeCommand (isCursorViewable isShift : Bool)

def ran (line : List UInt8) : KeyEffect → Option (List UInt8)
  | .runCommand => some line
  | _ => none

def step (s : Session) : SessionEvent → Session × Option (List UInt8)
  | .interrupt scancode => (⟨keyboardIsr s.keyboard scancode, s.line⟩, none)
  | .typeCommand isCursorViewable isShift =>
    let poll := s.keyboard.getKeyboardBuffer
    let next := typeCommand s.line ⟨poll.1, isCursorViewable, isShift⟩
    (⟨poll.2, next.1⟩, ran s.line next.2)

def linesRun : Session → List SessionEvent → List (List UInt8)
  | _, [] => []
  | s, e :: es => (s.step e).2.toList ++ linesRun (s.step e).1 es

def SessionEvent.toKeyboard : SessionEvent → KeyboardEvent
  | .interrupt scancode => .interrupt scancode
  | .typeCommand _ _ => .getBuffer

/-- The view is never moved away from the cursor. -/
def Viewed (es : List SessionEvent) : Prop := ∀ shift, .typeCommand false shift ∉ es

def edit (line : List UInt8) (c : UInt8) : List UInt8 :=
  if c = 0x08 then line.dropLast
  else if c ∈ [arrowUp, arrowLeft, arrowDown, arrowRight] then line
  else if line.length < 256 then line ++ [c]
  else line

/-- The lines of a text, each as its own characters leave it; the last one is not run. -/
def enteredLines (text : List UInt8) : List (List UInt8) :=
  ((text.splitOn 0x0A).map (·.foldl edit [])).dropLast

/-- The first of the pieces goes on a line that has been begun. -/
def editFrom (line : List UInt8) : List (List UInt8) → List (List UInt8)
  | [] => []
  | piece :: pieces => piece.foldl edit line :: pieces.map (·.foldl edit [])

def runLines : List UInt8 → List UInt8 → List (List UInt8)
  | _, [] => []
  | line, c :: cs => if c = 0x0A then line :: runLines [] cs else runLines (edit line c) cs

variable {s : Session} {es : List SessionEvent} {line : List UInt8} {c : UInt8}

theorem typeCommand_edit (hzero : c ≠ 0) (hrun : c ≠ 0x0A) (line : List UInt8) (shift : Bool) :
    (typeCommand line ⟨c, true, shift⟩).1 = edit line c ∧
      ran line (typeCommand line ⟨c, true, shift⟩).2 = none := by
  unfold typeCommand edit
  simp only [and_true, List.mem_cons, List.not_mem_nil, or_false]
  by_cases hback : c = 0x08
  · rw [if_pos hback, if_pos hback]
    split_ifs with hline
    · exact ⟨rfl, rfl⟩
    · rw [List.length_eq_zero_iff.mp (not_not.mp hline)]
      exact ⟨rfl, rfl⟩
  · rw [if_neg hback, if_neg hback, if_neg hrun]
    split_ifs <;> simp_all [ran]

/-- The shell works on what its polls deliver. -/
theorem linesRun_eq (hview : Viewed es) : linesRun s es =
    runLines s.line ((polled s.keyboard (es.map SessionEvent.toKeyboard)).filter (· ≠ 0)) := by
  induction es generalizing s with
  | nil => rfl
  | cons e es ih =>
    have hes : Viewed es := fun shift he => hview shift (List.mem_cons_of_mem _ he)
    cases e with
    | interrupt b => exact ih hes
    | typeCommand view shift =>
      obtain rfl : view = true := by
        cases view
        · exact absurd List.mem_cons_self (hview shift)
        · rfl
      have hrest (line : List UInt8) := ih (s := ⟨s.keyboard.getKeyboardBuffer.2, line⟩) hes
      rw [List.map_cons, SessionEvent.toKeyboard, polled, linesRun, step]
      by_cases hzero : s.keyboard.getKeyboardBuffer.1 = 0
      · have hidle : typeCommand s.line ⟨0, true, shift⟩ = (s.line, .ignored) := by
          simp [typeCommand]
        rw [hzero, hidle, List.filter_cons_of_neg (by simp)]
        exact hrest s.line
      · rw [List.filter_cons_of_pos (by simpa using hzero), runLines]
        by_cases hrun : s.keyboard.getKeyboardBuffer.1 = 0x0A
        · have henter : typeCommand s.line ⟨0x0A, true, shift⟩ = ([], .runCommand) := by
            simp [typeCommand]
          rw [hrun, henter, if_pos rfl]
          exact congrArg (s.line :: ·) (hrest [])
        · obtain ⟨hline, hnone⟩ := typeCommand_edit hzero hrun s.line shift
          rw [hline, hnone, if_neg hrun]
          exact hrest _

theorem runLines_eq (line text : List UInt8) :
    runLines line text = (editFrom line (text.splitOn 0x0A)).dropLast := by
  induction text generalizing line with
  | nil => rfl
  | cons c text ih =>
    rw [runLines, List.splitOn_cons_eq_if_modifyHead, ih, ih]
    obtain ⟨piece, pieces, hp⟩ := List.exists_cons_of_ne_nil (List.splitOn_ne_nil 0x0A text)
    rw [hp]
    split_ifs with h1 h2 h3
    · simp [editFrom]
    · simp_all
    · simp_all
    · simp [editFrom]

theorem runLines_start (text : List UInt8) : runLines [] text = enteredLines text := by
  rw [runLines_eq, enteredLines]
  obtain ⟨piece, pieces, hp⟩ := List.exists_cons_of_ne_nil (List.splitOn_ne_nil 0x0A text)
  rw [hp]
  rfl

theorem linesRun_typed {log : List UInt8} (hk : Tracks s.keyboard log)
    (hempty : s.keyboard.keyboardBuffer = 0) (hline : s.line = []) (hview : Viewed es)
    (hserved : Mailbox.Served none (accesses (some log) (es.map SessionEvent.toKeyboard))) :
    linesRun s es = enteredLines (typed log (codes (es.map SessionEvent.toKeyboard))) := by
  have hes : Undisturbed (es.map SessionEvent.toKeyboard) := by
    intro e he
    obtain ⟨e, -, rfl⟩ := List.mem_map.mp he
    cases e <;> simp [SessionEvent.toKeyboard]
  rw [linesRun_eq hview, delivered_served hk hempty hes hserved, hline, runLines_start]

/-- Typed at whatever pace the shell follows, a text runs its lines: no key is lost, doubled or
taken for another one, with the caps lock on or off. -/
theorem text_runs_lines {log text : List UInt8} (hk : Tracks s.keyboard log)
    (hempty : s.keyboard.keyboardBuffer = 0) (hshift : s.keyboard.isShift = false)
    (hline : s.line = []) (htext : ∀ c ∈ text, Typeable c) (hview : Viewed es)
    (hcodes : codes (es.map SessionEvent.toKeyboard) = text.flatMap (strokes s.keyboard.capslock))
    (hserved : Mailbox.Served none (accesses (some log) (es.map SessionEvent.toKeyboard))) :
    linesRun s es = enteredLines text := by
  have hdown : shiftDown log = false := hk.shift ▸ hshift
  rw [linesRun_typed hk hempty hline hview hserved, hcodes, hk.caps, (text_typed htext hdown).1]

/-- "lx", a backspace, "s" and a newline, with an idle pass, run `ls`. -/
theorem text_runs_lines_ls : linesRun ⟨KeyboardDriverState.boot.activate, []⟩ [.interrupt 0x26,
    .interrupt 0xA6, .typeCommand true false, .interrupt 0x2D, .typeCommand true false,
    .interrupt 0xAD, .typeCommand true false, .interrupt 0x0E, .typeCommand true false,
    .interrupt 0x8E, .interrupt 0x1F, .interrupt 0x9F, .typeCommand true false, .interrupt 0x1C,
    .typeCommand true false, .interrupt 0x9C] = enteredLines (text "lx" ++ [0x08] ++ text "s\n") :=
  text_runs_lines (show Tracks _ [] from ⟨rfl, rfl, rfl, rfl⟩) rfl rfl rfl (by decide +kernel)
    (by simp [Viewed]) (by decide +kernel) (by decide +kernel)

end Session

end Doors
