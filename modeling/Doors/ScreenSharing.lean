import Doors.TextEdits

/-! Two programs on one screen. The console writes to the video memory and never reads it, so what
another program keeps in cells of its own changes nothing else. -/

namespace Doors.Console

/-- The same text, and the same video memory but for some bytes. -/
structure Agrees (cells : Set Int) (s s' : Console) : Prop where
  text : s'.text = s.text
  isCursorViewable : s'.isCursorViewable = s.isCursorViewable
  memory : ∀ pos ∉ cells, s'.memory pos = s.memory pos

section Stores

variable {cells : Set Int} {s s' : Console}

theorem Agrees.refl (cells : Set Int) (s : Console) : Agrees cells s s := ⟨rfl, rfl, fun _ _ => rfl⟩

theorem Agrees.touch (h : Agrees cells s s') (a a' : Access) :
    Agrees cells (s.touch a) (s'.touch a') :=
  ⟨h.text, h.isCursorViewable, h.memory⟩

theorem Agrees.edit (h : Agrees cells s s') (f : TextBuffer → TextBuffer) :
    Agrees cells (s.edit f) (s'.edit f) :=
  ⟨congrArg f h.text, h.isCursorViewable, h.memory⟩

theorem Agrees.writeLine (h : Agrees cells s s') (i : Int) (f : LineBuffer → LineBuffer) :
    Agrees cells (s.writeLine i f) (s'.writeLine i f) :=
  (h.touch _ _).edit _

theorem Agrees.setVideo (h : Agrees cells s s') (pos : Int) (value : UInt8) :
    Agrees cells (s.setVideo pos value) (s'.setVideo pos value) := by
  refine ⟨h.text, h.isCursorViewable, fun p hp => ?_⟩
  by_cases hpos : p = pos
  · simp [Console.setVideo, hpos]
  · simp [Console.setVideo, Console.touch, hpos, h.memory p hp]

/-- A store to one of the cells that may differ. -/
theorem Agrees.setVideo_left {pos : Int} (h : Agrees cells s s') (hpos : pos ∈ cells)
    (value : UInt8) : Agrees cells s (s'.setVideo pos value) := by
  refine ⟨h.text, h.isCursorViewable, fun p hp => ?_⟩
  have hne : p ≠ pos := fun he => hp (he ▸ hpos)
  simp [Console.setVideo, Console.touch, hne, h.memory p hp]

theorem Agrees.clearVideo (h : Agrees cells s s') (pos : Int) (value : UInt8) :
    Agrees cells (s.clearVideo pos value) (s'.clearVideo pos value) :=
  have hset := h.setVideo pos value
  ⟨hset.text, hset.isCursorViewable, hset.memory⟩

theorem Agrees.ite {t t' : Console} {P : Prop} [Decidable P] (h : Agrees cells s s')
    (ht : Agrees cells t t') : Agrees cells (if P then s else t) (if P then s' else t') := by
  split_ifs
  · exact h
  · exact ht

theorem Agrees.foldl {α : Type*} {f g : Console → α → Console} (h : Agrees cells s s')
    (hstep : ∀ {t t'}, Agrees cells t t' → ∀ x, Agrees cells (f t x) (g t' x)) (xs : List α) :
    Agrees cells (xs.foldl f s) (xs.foldl g s') := by
  induction xs generalizing s s' with
  | nil => exact h
  | cons x xs ih => exact ih (hstep h x)

end Stores

section Calls

variable {cells : Set Int} {s s' : Console}

theorem Agrees.framebufferClear (h : Agrees cells s s') :
    Agrees cells s.framebufferClear s'.framebufferClear := by
  have hcell {t t' : Console} (ht : Agrees cells t t') (i : Nat) :
      Agrees cells (t.clearCell i) (t'.clearCell i) := (ht.clearVideo _ _).clearVideo _ _
  rw [Console.framebufferClear, Console.framebufferClear]
  exact h.foldl hcell (List.range 4000)

theorem Agrees.drawCell (h : Agrees cells s s') (i j : Nat) :
    Agrees cells (drawCell i s j) (drawCell i s' j) := by
  simp only [Console.drawCell, touch_text, setVideo_text, h.text]
  exact h.ite (((((h.touch _ _).touch _ _).setVideo _ _).touch _ _ |>.touch _ _).setVideo _ _)

theorem Agrees.drawRow (h : Agrees cells s s') (i : Nat) :
    Agrees cells (s.drawRow i) (s'.drawRow i) := by
  simp only [Console.drawRow, touch_text, h.text]
  exact (h.touch _ _).foldl (fun ht j => ht.drawCell i j) _

theorem Agrees.redraw (h : Agrees cells s s') : Agrees cells s.redraw s'.redraw := by
  have hclear := h.framebufferClear
  rw [Console.redraw, Console.redraw, h.text]
  generalize s.framebufferClear = t at hclear ⊢
  generalize s'.framebufferClear = t' at hclear ⊢
  exact hclear.foldl Agrees.drawRow _

theorem Agrees.newFrameBufferView (h : Agrees cells s s') (change : Bool) :
    Agrees cells (s.newFrameBufferView change) (s'.newFrameBufferView change) := by
  rw [view_eq, view_eq, h.text]
  have hview : Agrees cells { s with text := s.text.scroll } { s' with text := s.text.scroll } :=
    ⟨rfl, h.isCursorViewable, h.memory⟩
  exact hview.redraw.ite h

theorem Agrees.framebufferErase (h : Agrees cells s s') :
    Agrees cells s.framebufferErase s'.framebufferErase := by
  rw [framebufferErase_eq, framebufferErase_eq]
  simp only [blankBefore, h.text]
  exact ((h.setVideo _ _).setVideo _ _).edit _

theorem Agrees.putNewline (h : Agrees cells s s') (fg bg : UInt8) :
    Agrees cells (s.putChar newline fg bg) (s'.putChar newline fg bg) := by
  by_cases hl : s.text.cursorLine < 4095
  · rw [putChar_newline s fg bg hl, putChar_newline s' fg bg (h.text ▸ hl)]
    have hbelow : Agrees cells s.clearBelow s'.clearBelow := by
      simp only [clearBelow, edit_text, h.text]
      exact (h.edit _).writeLine _ _
    have hgrow : Agrees cells s.clearBelow.growBuffer s'.clearBelow.growBuffer := by
      simp only [growBuffer, hbelow.text]
      exact (hbelow.newFrameBufferView true).ite (hbelow.edit _)
    exact (hgrow.newFrameBufferView true).edit _
  · rwa [putChar_last s fg bg hl, putChar_last s' fg bg (h.text ▸ hl)]

theorem Agrees.storeGlyph (h : Agrees cells s s') (c attr : UInt8) :
    Agrees cells (s.storeGlyph c attr) (s'.storeGlyph c attr) := by
  simp only [Console.storeGlyph, touch_text, writeLine_text, setVideo_text, h.text]
  exact ((((((h.setVideo _ _).setVideo _ _).touch _ _).writeLine _ _).touch _ _).writeLine _ _)
    |>.touch _ _

theorem Agrees.putChar (h : Agrees cells s s') (c fg bg : UInt8) :
    Agrees cells (s.putChar c fg bg) (s'.putChar c fg bg) := by
  by_cases hl : s.text.cursorLine < 4096
  · by_cases hc : c = newline
    · exact hc ▸ h.putNewline fg bg
    by_cases hr : c = carriageReturn
    · have hskip (t : Console) : t.putChar c fg bg = t := by
        simp [Console.putChar, hr, carriageReturn, newline]
      rwa [hskip, hskip]
    rw [putChar_glyph s c fg bg hl hc hr, putChar_glyph s' c fg bg (h.text ▸ hl) hc hr, h.text]
    have hstore := h.storeGlyph c (bg <<< 4 ||| fg)
    have hline : Agrees cells (s.storeGlyph c (bg <<< 4 ||| fg)).growLine
        (s'.storeGlyph c (bg <<< 4 ||| fg)).growLine := by
      simp only [growLine, hstore.text]
      exact (hstore.writeLine _ _).ite hstore
    rw [advanceCol_eq, advanceCol_eq]
    exact ((hline.edit _).newFrameBufferView false).ite h
  · have hfull {t : Console} (ht : ¬ t.text.cursorLine < 4096) : t.putChar c fg bg = t := if_neg ht
    rwa [hfull hl, hfull (h.text ▸ hl)]

theorem Agrees.clampCol (h : Agrees cells s s') : Agrees cells s.clampCol s'.clampCol :=
  (h.touch _ _).edit _

theorem Agrees.handleArrowUp (h : Agrees cells s s') :
    Agrees cells s.handleArrowUp s'.handleArrowUp := by
  rw [Console.handleArrowUp, Console.handleArrowUp, h.text]
  exact ((h.edit _).clampCol.newFrameBufferView false).ite h

theorem Agrees.handleArrowDown (h : Agrees cells s s') :
    Agrees cells s.handleArrowDown s'.handleArrowDown := by
  rw [Console.handleArrowDown, Console.handleArrowDown, h.text]
  exact ((h.edit _).clampCol.newFrameBufferView false).ite h

theorem Agrees.handleArrowLeft (h : Agrees cells s s') :
    Agrees cells s.handleArrowLeft s'.handleArrowLeft := by
  simp only [Console.handleArrowLeft, edit_text, h.text]
  exact ((((h.edit _).edit _ |>.touch _ _).edit _ |>.newFrameBufferView false).ite
    ((h.edit _).edit _)).ite (h.edit _)

theorem Agrees.handleArrowRight (h : Agrees cells s s') :
    Agrees cells s.handleArrowRight s'.handleArrowRight := by
  simp only [Console.handleArrowRight, edit_text, touch_text, h.text]
  have hright := (h.edit fun t => { t with cursorCol := t.cursorCol + 1 }).touch
  exact ((hright _ _).edit _ |>.newFrameBufferView false).ite
    (((hright _ _).edit _).ite (hright _ _))

theorem handleBackspace_eq (s : Console) : s.handleBackspace =
    if s.text.cursorCol > 0 ∨ s.text.cursorLine > 0 then
      if s.text.cursorCol = 0 then s.dropLine.joinLine.lineEnd
      else s.framebufferErase.writeLine s.framebufferErase.text.cursorLine fun l =>
        { l with size := uint8 (l.size - 1) }
    else s := rfl

theorem Agrees.handleBackspace (h : Agrees cells s s') :
    Agrees cells s.handleBackspace s'.handleBackspace := by
  have hdrop : Agrees cells s.dropLine s'.dropLine := by
    rw [dropLine, dropLine, h.text]
    exact ((h.touch _ _).edit _).ite (h.touch _ _)
  have hjoin : Agrees cells s.dropLine.joinLine s'.dropLine.joinLine := by
    rw [joinLine, joinLine, hdrop.text]
    exact ((hdrop.touch _ _).writeLine _ _).framebufferErase.ite
      (((hdrop.touch _ _).edit _).newFrameBufferView true)
  have hend : Agrees cells s.dropLine.joinLine.lineEnd s'.dropLine.joinLine.lineEnd :=
    (hjoin.touch _ _).edit _
  have herase := h.framebufferErase
  rw [handleBackspace_eq, handleBackspace_eq, h.text, herase.text]
  exact (hend.ite (herase.writeLine _ _)).ite h

theorem Agrees.handleNewChar (h : Agrees cells s s') (c fg bg : UInt8) :
    Agrees cells (s.handleNewChar c fg bg) (s'.handleNewChar c fg bg) := by
  rw [Console.handleNewChar, Console.handleNewChar, h.text]
  have hput := h.putChar c fg bg
  exact h.ite ((hput.ite ((h.handleArrowUp.ite (h.handleArrowDown.ite
    (h.handleArrowLeft.ite (h.handleArrowRight.ite hput)))).ite h.handleBackspace)).ite h)

/-- The first line in view after an arrow key. -/
def arrowTop (s : Console) (c : UInt8) : Console :=
  if c = arrowUp then
    if s.text.frameRowPointer > 0 then
      s.edit fun t => { t with frameRowPointer := t.frameRowPointer - 1 }
    else s
  else if c = arrowDown then
    if s.text.frameRowPointer + bufferHeightView < s.text.size then
      s.edit fun t => { t with frameRowPointer := t.frameRowPointer + 1 }
    else s
  else s

theorem moveScreen_eq (s : Console) (c : UInt8) : s.moveScreen c =
    if c = arrowUp ∨ c = arrowDown then redraw { s.arrowTop c with
      isCursorViewable := (s.arrowTop c).text.size > (s.arrowTop c).text.frameRowPointer ∧
        (s.arrowTop c).text.size ≤ (s.arrowTop c).text.frameRowPointer + bufferHeightView }
    else s.arrowTop c := rfl

theorem Agrees.moveScreen (h : Agrees cells s s') (c : UInt8) :
    Agrees cells (s.moveScreen c) (s'.moveScreen c) := by
  have htop : Agrees cells (s.arrowTop c) (s'.arrowTop c) := by
    rw [arrowTop, arrowTop, h.text]
    exact ((h.edit _).ite h).ite (((h.edit _).ite h).ite h)
  rw [moveScreen_eq, moveScreen_eq, htop.text]
  generalize s.arrowTop c = t at htop ⊢
  generalize s'.arrowTop c = t' at htop ⊢
  have hview : Agrees cells { t with isCursorViewable := t.text.size > t.text.frameRowPointer ∧
        t.text.size ≤ t.text.frameRowPointer + bufferHeightView }
      { t' with isCursorViewable := t.text.size > t.text.frameRowPointer ∧
        t.text.size ≤ t.text.frameRowPointer + bufferHeightView } :=
    ⟨htop.text, rfl, htop.memory⟩
  exact hview.redraw.ite htop

theorem Agrees.clearScreen (h : Agrees cells s s') :
    Agrees cells s.clearScreen s'.clearScreen where
  text := by rw [Console.clearScreen, Console.clearScreen, h.text]
  isCursorViewable := rfl
  memory pos hp := by simpa only [Console.clearScreen] using h.framebufferClear.memory pos hp

end Calls

/-- What a program asks of the console: the system calls that write to the screen. -/
inductive ConsoleCall
  | putCharColor (c : UInt8) (color : UInt32)
  | puts (str : Nat → UInt8) (cnt color : UInt32)
  | clearScreen
  | setCursorCol (col : UInt32)
  | moveScreen (c : UInt8)

def putCharColor (s : Console) (c : UInt8) (color : UInt32) : Console :=
  s.handleNewChar c (color &&& 0x0F).toUInt8 ((color &&& 0xF0) >>> 4).toUInt8

/-- The characters up to the first zero, `cnt` of them at most. -/
def puts (s : Console) (str : Nat → UInt8) (cnt color : UInt32) : Console :=
  (((List.range cnt.toNat).map str).takeWhile (· ≠ 0)).foldl (fun s c => s.putCharColor c color) s

/-- An `int` takes the bits of `col`. -/
def setCursorCol (s : Console) (col : UInt32) : Console :=
  s.edit fun t => { t with cursorCol := col.toInt32.toInt }

def ConsoleCall.run (s : Console) : ConsoleCall → Console
  | .putCharColor c color => s.putCharColor c color
  | .puts str cnt color => s.puts str cnt color
  | .clearScreen => s.clearScreen
  | .setCursorCol col => s.setCursorCol col
  | .moveScreen c => s.moveScreen c

theorem Agrees.call {cells : Set Int} {s s' : Console} (h : Agrees cells s s')
    (call : ConsoleCall) : Agrees cells (call.run s) (call.run s') := by
  have hput {t t' : Console} (ht : Agrees cells t t') (c : UInt8) (color : UInt32) :
      Agrees cells (t.putCharColor c color) (t'.putCharColor c color) := ht.handleNewChar ..
  cases call with
  | putCharColor c color => exact hput h c color
  | puts str cnt color =>
    rw [ConsoleCall.run, ConsoleCall.run, puts, puts]
    exact h.foldl (fun ht c => hput ht c color) _
  | clearScreen => exact h.clearScreen
  | setCursorCol col =>
    rw [ConsoleCall.run, ConsoleCall.run, setCursorCol, setCursorCol]
    exact h.edit _
  | moveScreen c => exact h.moveScreen c

end Doors.Console
