import Doors.Redraw
import Doors.Run
import Mathlib.Data.List.Induction

/-! What the three editing bytes do to the text: a glyph, a newline and a backspace as
functions of the line buffer and the cursor, without the video memory. -/

namespace Doors.Console

section SetLine

variable (t : TextBuffer) (i : Int) (f g : LineBuffer → LineBuffer)

@[simp] theorem setLine_size : (t.setLine i f).size = t.size := rfl

@[simp] theorem setLine_cursorRow : (t.setLine i f).cursorRow = t.cursorRow := rfl

@[simp] theorem setLine_cursorCol : (t.setLine i f).cursorCol = t.cursorCol := rfl

@[simp] theorem setLine_top : (t.setLine i f).frameRowPointer = t.frameRowPointer := rfl

@[simp] theorem setLine_cursorLine : (t.setLine i f).cursorLine = t.cursorLine := rfl

@[simp] theorem setLine_self : (t.setLine i f).buffer i = f (t.buffer i) :=
  Function.update_self ..

theorem setLine_of_ne {j : Int} (h : j ≠ i) : (t.setLine i f).buffer j = t.buffer j :=
  Function.update_of_ne h ..

@[simp] theorem setLine_setLine : (t.setLine i f).setLine i g = t.setLine i fun l => g (f l) := by
  simp only [TextBuffer.setLine, Function.update_self, Function.update_idem]

variable {t i f g}

theorem setLine_congr (h : f (t.buffer i) = g (t.buffer i)) : t.setLine i f = t.setLine i g := by
  rw [TextBuffer.setLine, TextBuffer.setLine, h]

end SetLine

/-- The view moved so that the cursor is in it. -/
def TextBuffer.scroll (t : TextBuffer) : TextBuffer :=
  if t.cursorRow < 0 then { t with frameRowPointer := t.frameRowPointer - 1, cursorRow := 0 }
  else if t.cursorRow ≥ 25 then
    { t with frameRowPointer := t.frameRowPointer + 1, cursorRow := 24 }
  else t

theorem scroll_eq {t : TextBuffer} (h : 0 ≤ t.cursorRow ∧ t.cursorRow < 25) : t.scroll = t := by
  rw [TextBuffer.scroll, if_neg (by omega), if_neg (by omega)]

theorem view_eq (s : Console) (change : Bool) : s.newFrameBufferView change =
    if (s.text.cursorRow < 0 ∨ s.text.cursorRow ≥ 25) ∨ change then
      redraw { s with text := s.text.scroll }
    else s := by
  unfold newFrameBufferView TextBuffer.scroll
  by_cases h : (s.text.cursorRow < 0 ∨ s.text.cursorRow ≥ 25) ∨ change
  · rw [if_pos h, if_pos h]
    by_cases h0 : s.text.cursorRow < 0
    · simp only [if_pos h0, edit]
    · by_cases h1 : s.text.cursorRow ≥ 25
      · rw [if_neg h0, if_pos h1, if_neg h0, if_pos h1]
        rfl
      · rw [if_neg h0, if_neg h1, if_neg h0, if_neg h1]
  · rw [if_neg h, if_neg h]

@[simp] theorem view_text (s : Console) (change : Bool) :
    (s.newFrameBufferView change).text = s.text.scroll := by
  rw [view_eq]
  by_cases h : (s.text.cursorRow < 0 ∨ s.text.cursorRow ≥ 25) ∨ change
  · rw [if_pos h, redraw_text]
  · rw [if_neg h, scroll_eq (by omega)]

namespace TextBuffer

/-- A line opened below the cursor. -/
def openLine (t : TextBuffer) : TextBuffer :=
  { t.setLine (t.cursorLine + 1) fun l => { l with size := 0 } with
    size := if t.cursorLine + 1 < t.size then t.size else t.size + 1
    cursorRow := t.cursorRow + 1 }

def home (t : TextBuffer) : TextBuffer := { t with cursorCol := 0 }

def newline (t : TextBuffer) : TextBuffer :=
  if t.cursorLine < 4095 then t.openLine.scroll.home else t

def writeCell (t : TextBuffer) (c attr : UInt8) : TextBuffer :=
  t.setLine t.cursorLine fun l =>
    { size := if t.cursorCol + 1 > l.size then uint8 (t.cursorCol + 1) else l.size
      lineBuf := Function.update l.lineBuf t.cursorCol c
      colorBuf := Function.update l.colorBuf t.cursorCol attr }

def advance (t : TextBuffer) : TextBuffer :=
  if t.cursorCol + 1 ≥ 79 then
    { t with size := t.size + 1, cursorRow := t.cursorRow + 1, cursorCol := 0 }
  else { t with cursorCol := t.cursorCol + 1 }

def glyph (t : TextBuffer) (c attr : UInt8) : TextBuffer :=
  if t.cursorCol + 1 < 79 ∨ t.cursorLine < 4095 then ((t.writeCell c attr).advance).scroll else t

/-- The last line goes when it is empty. -/
def dropLine (t : TextBuffer) : TextBuffer :=
  if (t.buffer t.cursorLine).size = 0 ∧ t.cursorLine = t.size - 1 then
    { t with size := t.size - 1 }
  else t

def shrinkLine (t : TextBuffer) (i : Int) : TextBuffer :=
  t.setLine i fun l => { l with size := uint8 (l.size - 1) }

/-- The cursor steps one column back, at the start of a row to column 79 of the row above. -/
def stepBack (t : TextBuffer) : TextBuffer :=
  if t.cursorCol > 0 then { t with cursorCol := t.cursorCol - 1 }
  else if t.cursorRow > 0 then { t with cursorRow := t.cursorRow - 1, cursorCol := 79 }
  else t

/-- The cursor steps to the end of the line before; from a full line it takes a character. -/
def joinLine (t : TextBuffer) : TextBuffer :=
  if (t.buffer (t.cursorLine - 1)).size ≥ 79 then
    (t.shrinkLine (t.cursorLine - 1)).stepBack
  else { t with cursorRow := t.cursorRow - 1 }.scroll

def lineEnd (t : TextBuffer) : TextBuffer :=
  { t with cursorCol := (t.buffer t.cursorLine).size }

def backspace (t : TextBuffer) : TextBuffer :=
  if t.cursorCol > 0 ∨ t.cursorLine > 0 then
    if t.cursorCol = 0 then t.dropLine.joinLine.lineEnd
    else
      t.stepBack.shrinkLine t.stepBack.cursorLine
  else t

end TextBuffer

section OpenLine

variable (t : TextBuffer)

@[simp] theorem openLine_cursorRow : t.openLine.cursorRow = t.cursorRow + 1 := rfl

@[simp] theorem openLine_cursorCol : t.openLine.cursorCol = t.cursorCol := rfl

@[simp] theorem openLine_top : t.openLine.frameRowPointer = t.frameRowPointer := rfl

@[simp] theorem openLine_cursorLine : t.openLine.cursorLine = t.cursorLine + 1 := by
  simp only [TextBuffer.cursorLine, openLine_cursorRow, openLine_top]
  omega

theorem openLine_self : t.openLine.buffer (t.cursorLine + 1) =
    { t.buffer (t.cursorLine + 1) with size := 0 } :=
  Function.update_self ..

theorem openLine_of_ne {i : Int} (h : i ≠ t.cursorLine + 1) : t.openLine.buffer i = t.buffer i :=
  Function.update_of_ne h ..

end OpenLine

section WriteCell

variable {t : TextBuffer} (c attr : UInt8)

theorem writeCell_size (h : 0 ≤ t.cursorCol ∧ t.cursorCol < 79) :
    ((t.writeCell c attr).buffer t.cursorLine).size =
      max (t.cursorCol + 1) (t.buffer t.cursorLine).size := by
  have hu : uint8 (t.cursorCol + 1) = t.cursorCol + 1 := by
    rw [uint8]
    omega
  rw [TextBuffer.writeCell, setLine_self, hu]
  dsimp only
  split_ifs <;> omega

theorem writeCell_of_ne {i : Int} (h : i ≠ t.cursorLine) :
    (t.writeCell c attr).buffer i = t.buffer i :=
  setLine_of_ne _ _ _ h

theorem advance_wrap (h : t.cursorCol + 1 ≥ 79) : t.advance =
    { t with size := t.size + 1, cursorRow := t.cursorRow + 1, cursorCol := 0 } :=
  if_pos h

theorem advance_step (h : t.cursorCol + 1 < 79) : t.advance =
    { t with cursorCol := t.cursorCol + 1 } :=
  if_neg (by omega)

theorem advance_row : t.cursorRow ≤ t.advance.cursorRow := by
  unfold TextBuffer.advance
  split_ifs
  · show t.cursorRow ≤ t.cursorRow + 1
    omega
  · exact Int.le_refl _

theorem advance_row_le : t.advance.cursorRow ≤ t.cursorRow + 1 := by
  unfold TextBuffer.advance
  split_ifs
  · exact Int.le_refl _
  · show t.cursorRow ≤ t.cursorRow + 1
    omega

end WriteCell

section Text

variable (s : Console) (c fg bg : UInt8)

theorem scroll_scroll {t : TextBuffer} (h : t.cursorRow ≤ 25) : t.scroll.scroll = t.scroll := by
  apply scroll_eq
  unfold TextBuffer.scroll
  split_ifs with h0 h1
  · simp only
    omega
  · simp only
    omega
  · omega

/-- The line below the cursor is emptied and the cursor put on it. -/
def clearBelow (s : Console) : Console :=
  let s := s.edit fun t => { t with cursorRow := t.cursorRow + 1 }
  s.writeLine s.text.cursorLine fun l => { l with size := 0 }

def growBuffer (s : Console) : Console :=
  if s.text.cursorLine < s.text.size then s.newFrameBufferView true
  else s.edit fun t => { t with size := t.size + 1 }

theorem putChar_newline (hl : s.text.cursorLine < 4095) : s.putChar newline fg bg =
    (s.clearBelow.growBuffer.newFrameBufferView true).edit TextBuffer.home := by
  unfold putChar
  dsimp only
  rw [if_pos (show s.text.cursorLine < 4096 by omega), if_pos rfl,
    if_pos (show s.text.cursorLine < bufferMaxHeight - 1 from hl)]
  rfl

theorem putChar_last (hl : ¬ s.text.cursorLine < 4095) : s.putChar newline fg bg = s := by
  unfold putChar
  dsimp only
  rw [if_pos rfl, if_neg (show ¬ s.text.cursorLine < bufferMaxHeight - 1 from hl), ite_self]

theorem growBuffer_cases :
    s.clearBelow.text = s.text.openLine ∧
        s.clearBelow.growBuffer = s.clearBelow.newFrameBufferView true ∨
      s.clearBelow.growBuffer.text = s.text.openLine ∧
        s.clearBelow.growBuffer = s.clearBelow.edit fun t => { t with size := t.size + 1 } := by
  have hline : s.text.cursorRow + 1 + s.text.frameRowPointer = s.text.cursorLine + 1 := by
    rw [TextBuffer.cursorLine]
    omega
  have htext : s.clearBelow.text =
      { s.text.setLine (s.text.cursorLine + 1) fun l => { l with size := 0 } with
        cursorRow := s.text.cursorRow + 1 } := by
    simp only [clearBelow, edit_text, writeLine_text, TextBuffer.cursorLine, hline]
    rfl
  have hcursor : s.clearBelow.text.cursorLine = s.text.cursorLine + 1 := by
    rw [htext]
    exact hline
  have hsize : s.clearBelow.text.size = s.text.size := rfl
  unfold growBuffer TextBuffer.openLine
  rw [hcursor, hsize]
  by_cases h : s.text.cursorLine + 1 < s.text.size
  · rw [if_pos h, if_pos h]
    exact .inl ⟨htext, rfl⟩
  · rw [if_neg h, if_neg h, edit_text, htext]
    exact .inr ⟨rfl, rfl⟩

theorem putChar_newline_text (hrow : s.text.cursorRow < 25) :
    (s.putChar newline fg bg).text = s.text.newline := by
  have hrow' : s.text.openLine.cursorRow ≤ 25 := by
    rw [openLine_cursorRow]
    omega
  unfold TextBuffer.newline
  by_cases hl : s.text.cursorLine < 4095
  · rw [if_pos hl, putChar_newline s fg bg hl, edit_text, view_text]
    rcases growBuffer_cases s with ⟨ht, hg⟩ | ⟨ht, -⟩
    · rw [hg, view_text, ht, scroll_scroll hrow']
    · rw [ht]
  · rw [if_neg hl, putChar_last s fg bg hl]

/-- The bytes of a character are stored, on the screen and in its line. -/
def storeGlyph (s : Console) (c attr : UInt8) : Console :=
  let pos := s.text.cursorRow * 160 + s.text.cursorCol * 2
  let s := (s.setVideo pos c).setVideo (pos + 1) attr
  let s := (s.touch (.cell s.text.cursorCol)).writeLine s.text.cursorLine fun l =>
    { l with lineBuf := Function.update l.lineBuf s.text.cursorCol c }
  let s := (s.touch (.cell s.text.cursorCol)).writeLine s.text.cursorLine fun l =>
    { l with colorBuf := Function.update l.colorBuf s.text.cursorCol attr }
  s.touch (.line s.text.cursorLine)

def growLine (s : Console) : Console :=
  if s.text.cursorCol + 1 > (s.text.buffer s.text.cursorLine).size then
    s.writeLine s.text.cursorLine fun l => { l with size := uint8 (s.text.cursorCol + 1) }
  else s

def advanceCol (s : Console) : Console :=
  let s := s.edit fun t => { t with cursorCol := t.cursorCol + 1 }
  if s.text.cursorCol ≥ 79 then
    s.edit fun t => { t with size := t.size + 1, cursorRow := t.cursorRow + 1, cursorCol := 0 }
  else s

theorem handleKey_newline_text (hline : s.text.cursorLine < bufferMaxHeight)
    (hrow : s.text.cursorRow < 25) : (s.handleKey ⟨newline, fg, bg⟩).text = s.text.newline := by
  rw [handleKey, handleNewChar, if_neg (show newline ≠ 0 by decide), if_pos hline, if_pos rfl]
  exact putChar_newline_text _ _ _ hrow

theorem advanceCol_eq : s.advanceCol = s.edit TextBuffer.advance := by
  unfold advanceCol TextBuffer.advance edit
  dsimp only
  by_cases h : s.text.cursorCol + 1 ≥ 79
  · rw [if_pos h, if_pos h]
  · rw [if_neg h, if_neg h]

theorem putChar_glyph (hl : s.text.cursorLine < 4096) (hc : c ≠ newline)
    (hr : c ≠ carriageReturn) : s.putChar c fg bg =
    if s.text.cursorCol + 1 < 79 ∨ s.text.cursorLine < 4095 then
      (s.storeGlyph c (bg <<< 4 ||| fg)).growLine.advanceCol.newFrameBufferView false
    else s := by
  unfold putChar
  dsimp only
  rw [if_pos hl, if_neg hc, if_pos hr]
  rfl

theorem storeGlyph_text (attr : UInt8) :
    (s.storeGlyph c attr).growLine.text = s.text.writeCell c attr := by
  have ht : (s.storeGlyph c attr).text = s.text.setLine s.text.cursorLine fun l =>
      { l with
        lineBuf := Function.update l.lineBuf s.text.cursorCol c
        colorBuf := Function.update l.colorBuf s.text.cursorCol attr } := by
    simp only [storeGlyph, touch_text, writeLine_text, setVideo_text, setLine_setLine,
      setLine_cursorLine, setLine_cursorCol]
  unfold growLine TextBuffer.writeCell
  simp only [ht, setLine_cursorCol, setLine_cursorLine, setLine_self]
  by_cases h : s.text.cursorCol + 1 > (s.text.buffer s.text.cursorLine).size
  · rw [if_pos h, writeLine_text, ht, setLine_setLine]
    apply setLine_congr
    rw [if_pos h]
  · rw [if_neg h, ht]
    apply setLine_congr
    rw [if_neg h]

theorem putChar_glyph_text (hl : s.text.cursorLine < 4096) (hc : c ≠ newline)
    (hr : c ≠ carriageReturn) :
    (s.putChar c fg bg).text = s.text.glyph c (bg <<< 4 ||| fg) := by
  rw [putChar_glyph s c fg bg hl hc hr, TextBuffer.glyph]
  by_cases h : s.text.cursorCol + 1 < 79 ∨ s.text.cursorLine < 4095
  · rw [if_pos h, if_pos h, view_text, advanceCol_eq, edit_text, storeGlyph_text]
  · rw [if_neg h, if_neg h]

/-- The backspace at the start of a line looks at its line. -/
def dropLine (s : Console) : Console :=
  if (s.text.buffer s.text.cursorLine).size = 0 ∧ s.text.cursorLine = s.text.size - 1 then
    (s.touch (.line s.text.cursorLine)).edit fun t => { t with size := t.size - 1 }
  else s.touch (.line s.text.cursorLine)

def joinLine (s : Console) : Console :=
  if (s.text.buffer (s.text.cursorLine - 1)).size ≥ 79 then
    ((s.touch (.line (s.text.cursorLine - 1))).writeLine (s.text.cursorLine - 1) fun l =>
      { l with size := uint8 (l.size - 1) }).framebufferErase
  else
    ((s.touch (.line (s.text.cursorLine - 1))).edit fun t =>
      { t with cursorRow := t.cursorRow - 1 }).newFrameBufferView true

def lineEnd (s : Console) : Console :=
  (s.touch (.line s.text.cursorLine)).edit TextBuffer.lineEnd

theorem handleBackspace_start (hcol : s.text.cursorCol = 0) (hl : s.text.cursorLine > 0) :
    s.handleBackspace = s.dropLine.joinLine.lineEnd := by
  unfold handleBackspace
  rw [if_pos (.inr hl), if_pos hcol]
  rfl

theorem handleBackspace_inside (hcol : s.text.cursorCol > 0) : s.handleBackspace =
    s.framebufferErase.writeLine s.framebufferErase.text.cursorLine fun l =>
      { l with size := uint8 (l.size - 1) } := by
  unfold handleBackspace
  rw [if_pos (.inl hcol), if_neg (by omega)]

theorem dropLine_text : s.dropLine.text = s.text.dropLine := by
  unfold dropLine TextBuffer.dropLine
  by_cases h : (s.text.buffer s.text.cursorLine).size = 0 ∧ s.text.cursorLine = s.text.size - 1
  · rw [if_pos h, if_pos h]
    rfl
  · rw [if_neg h, if_neg h]
    rfl

/-- The cell before the cursor is blanked. -/
def blankBefore (s : Console) : Console :=
  let pos := 160 * s.text.cursorRow + (s.text.cursorCol.tmod 80 - 1) * 2
  (s.setVideo pos 0x00).setVideo (pos + 1) 0x07

theorem edit_stepBack : (if s.text.cursorCol > 0 ∨ s.text.cursorRow > 0 then
      if s.text.cursorCol - 1 < 0 then
        (s.edit fun t => { t with cursorCol := t.cursorCol - 1 }).edit fun t =>
          { t with cursorRow := t.cursorRow - 1, cursorCol := 79 }
      else s.edit fun t => { t with cursorCol := t.cursorCol - 1 }
    else s) = s.edit TextBuffer.stepBack := by
  unfold TextBuffer.stepBack edit
  dsimp only
  split_ifs
  all_goals first | rfl | omega

theorem framebufferErase_eq : s.framebufferErase = s.blankBefore.edit TextBuffer.stepBack :=
  edit_stepBack s.blankBefore

theorem joinLine_text : s.joinLine.text = s.text.joinLine := by
  unfold joinLine TextBuffer.joinLine
  by_cases h : (s.text.buffer (s.text.cursorLine - 1)).size ≥ 79
  · rw [if_pos h, if_pos h, framebufferErase_eq]
    rfl
  · rw [if_neg h, if_neg h, view_text]
    rfl

theorem handleBackspace_text (hcol : 0 ≤ s.text.cursorCol) :
    s.handleBackspace.text = s.text.backspace := by
  unfold TextBuffer.backspace
  by_cases h0 : s.text.cursorCol = 0
  · by_cases hl : s.text.cursorLine > 0
    · rw [if_pos (.inr hl), if_pos h0, handleBackspace_start s h0 hl, lineEnd, edit_text, touch_text,
        joinLine_text, dropLine_text]
    · have hno : ¬ (s.text.cursorCol > 0 ∨ s.text.cursorLine > 0) := by
        omega
      unfold handleBackspace
      rw [if_neg hno, if_neg hno]
  · have hpos : s.text.cursorCol > 0 := by
      omega
    rw [if_pos (.inl hpos), if_neg h0, handleBackspace_inside s hpos, writeLine_text,
      framebufferErase_eq]
    rfl

/-- A key is handled in a state where `P` holds of the text and its byte. -/
def KeyStep (P : TextBuffer → UInt8 → Prop) (s : Console) (k : Key) (t : Console) : Prop :=
  P s.text k.c ∧ t = s.handleKey k

theorem handleKeys_snoc (ks : List Key) (k : Key) :
    s.handleKeys (ks ++ [k]) = (s.handleKeys ks).handleKey k := by
  rw [handleKeys, List.foldl_append]
  rfl

theorem run_of_prefixes {P : TextBuffer → UInt8 → Prop} {ks : List Key}
    (h : ∀ pre k, pre ++ [k] <+: ks → P (s.handleKeys pre).text k.c) :
    Run (KeyStep P) s ks (s.handleKeys ks) := by
  induction ks using List.reverseRecOn with
  | nil => exact .nil s
  | append_singleton ks k ih =>
    rw [handleKeys_snoc]
    refine Run.snoc (ih fun pre k' hpre => h pre k' ?_) ⟨h ks k (List.prefix_refl _), rfl⟩
    exact hpre.trans (List.prefix_append ks [k])

structure Glyph (c : UInt8) : Prop where
  nul : c ≠ 0
  newline : c ≠ Console.newline
  backspace : c ≠ Console.backspace
  carriageReturn : c ≠ Console.carriageReturn
  arrowUp : c ≠ Console.arrowUp
  arrowDown : c ≠ Console.arrowDown
  arrowLeft : c ≠ Console.arrowLeft
  arrowRight : c ≠ Console.arrowRight

theorem handleNewChar_glyph (hg : Glyph c) (hl : s.text.cursorLine < 4096) :
    s.handleNewChar c fg bg = s.putChar c fg bg := by
  unfold handleNewChar
  rw [if_neg hg.nul, if_pos (show s.text.cursorLine < bufferMaxHeight from hl), if_neg hg.newline,
    if_pos hg.backspace, if_neg hg.arrowUp, if_neg hg.arrowDown, if_neg hg.arrowLeft,
    if_neg hg.arrowRight]

theorem handleNewChar_backspace (hl : s.text.cursorLine < 4096) :
    s.handleNewChar backspace fg bg = s.handleBackspace := by
  rw [handleNewChar, if_neg (by decide), if_pos (show s.text.cursorLine < bufferMaxHeight from hl),
    if_neg (by decide), if_neg (by decide)]

end Text

/-- An empty line is filled with `n` times the same character. -/
theorem handleKeys_fill {s : Console} {k : Key} (hg : Glyph k.c)
    (hrow : 0 ≤ s.text.cursorRow ∧ s.text.cursorRow < 25) (hl : s.text.cursorLine < 4096)
    (hcol : s.text.cursorCol = 0) (hsize : (s.text.buffer s.text.cursorLine).size = 0) {n : Nat}
    (hn : n ≤ 78) : ∃ b, (s.handleKeys (List.replicate n k)).text =
      { s.text with cursorCol := n, buffer := b } ∧ (b s.text.cursorLine).size = n := by
  induction n with
  | zero => exact ⟨s.text.buffer, by simp [handleKeys, ← hcol], by simp [hsize]⟩
  | succ n ih =>
    obtain ⟨b, ht, hb⟩ := ih (by omega)
    have hlast : s.handleKeys (List.replicate (n + 1) k) =
        (s.handleKeys (List.replicate n k)).handleKey k := by
      rw [List.replicate_succ', handleKeys_snoc]
    generalize s.handleKeys (List.replicate n k) = u at ht hlast
    have hul : u.text.cursorLine = s.text.cursorLine := by
      rw [ht]
      rfl
    have huc : u.text.cursorCol = n := by
      rw [ht]
    have hline := writeCell_size (t := u.text) k.c (k.bg <<< 4 ||| k.fg) (by omega)
    refine ⟨(u.text.writeCell k.c (k.bg <<< 4 ||| k.fg)).buffer, ?_, ?_⟩
    · rw [hlast, handleKey, handleNewChar_glyph _ _ _ _ hg (by omega),
        putChar_glyph_text _ _ _ _ (by omega) hg.newline hg.carriageReturn, TextBuffer.glyph,
        if_pos (by omega), advance_step (t := u.text.writeCell _ _), scroll_eq]
      · rw [ht]
        simp [TextBuffer.writeCell, TextBuffer.setLine]
      · rw [ht]
        exact hrow
      · show u.text.cursorCol + 1 < 79
        omega
    · rw [← hul, hline, huc, hul, ht]
      dsimp only
      omega

theorem clearScreen_size (s : Console) {i : Int} (h : 0 ≤ i ∧ i < 4096) :
    (s.clearScreen.text.buffer i).size = 0 := by
  have hline : s.clearScreen.text.buffer i =
      { size := 0
        lineBuf := fun j => if 0 ≤ j ∧ j < 79 then 0 else (s.text.buffer i).lineBuf j
        colorBuf := fun j => if 0 ≤ j ∧ j < 79 then 0 else (s.text.buffer i).colorBuf j } :=
    if_pos h
  rw [hline]

theorem clearScreen_fill (s : Console) {k : Key} (hg : Glyph k.c) {n : Nat} (hn : n ≤ 78) :
    ∃ b, (s.clearScreen.handleKeys (List.replicate n k)).text =
      { size := 1, buffer := b, cursorRow := 0, cursorCol := n, frameRowPointer := 0 } ∧
      (b 0).size = n := by
  have hrow : (0 : Int) ≤ 0 ∧ (0 : Int) < 25 := by
    omega
  have hfirst : (0 : Int) + 0 < 4096 := by
    omega
  exact handleKeys_fill (s := s.clearScreen) hg hrow hfirst rfl
    (clearScreen_size s ⟨Int.le_refl 0, hfirst⟩) hn

/-- The 79th character opens the second line. -/
theorem clearScreen_wrap (s : Console) {k : Key} (hg : Glyph k.c) :
    ∃ b, (s.clearScreen.handleKeys (List.replicate 79 k)).text =
      { size := 2, buffer := b, cursorRow := 1, cursorCol := 0, frameRowPointer := 0 } ∧
      (b 0).size = 79 := by
  have hlast : s.clearScreen.handleKeys (List.replicate 79 k) =
      (s.clearScreen.handleKeys (List.replicate 78 k)).handleKey k := by
    rw [List.replicate_succ', handleKeys_snoc]
  obtain ⟨b, ht, hb⟩ := clearScreen_fill s hg (Nat.le_refl 78)
  rw [hlast]
  generalize s.clearScreen.handleKeys (List.replicate 78 k) = u at ht
  have hul : u.text.cursorLine = 0 := by
    rw [ht]
    rfl
  have huc : u.text.cursorCol = 78 := by
    rw [ht]
    rfl
  have hline := writeCell_size (t := u.text) k.c (k.bg <<< 4 ||| k.fg) (by omega)
  refine ⟨(u.text.writeCell k.c (k.bg <<< 4 ||| k.fg)).buffer, ?_, ?_⟩
  · rw [handleKey, handleNewChar_glyph _ _ _ _ hg (by omega),
      putChar_glyph_text _ _ _ _ (by omega) hg.newline hg.carriageReturn, TextBuffer.glyph,
      if_pos (by omega), advance_wrap (t := u.text.writeCell _ _), scroll_eq]
    · rw [ht]
      rfl
    · show 0 ≤ u.text.cursorRow + 1 ∧ u.text.cursorRow + 1 < 25
      rw [ht]
      show (0 : Int) ≤ 0 + 1 ∧ (0 : Int) + 1 < 25
      omega
    · show u.text.cursorCol + 1 ≥ 79
      omega
  · rw [← hul, hline, huc, hul, ht]
    have hb' : (b 0).size = 78 := hb
    dsimp only
    omega

/-- A first line that fills up, one character in each column. -/
theorem run_fill (s : Console) {k : Key} (hg : Glyph k.c) {P : TextBuffer → UInt8 → Prop}
    (hP : ∀ (n : Nat) b, n ≤ 78 → P
      { size := 1, buffer := b, cursorRow := 0, cursorCol := n, frameRowPointer := 0 } k.c) :
    Run (KeyStep P) s.clearScreen (List.replicate 79 k)
      (s.clearScreen.handleKeys (List.replicate 79 k)) := by
  refine run_of_prefixes _ fun pre k' hpre => ?_
  obtain ⟨hlen, heq⟩ := List.prefix_replicate_iff.mp hpre
  rw [List.length_append, List.length_singleton, List.replicate_succ'] at heq
  obtain ⟨hpre', hk⟩ := List.append_inj' heq rfl
  rw [List.length_append, List.length_singleton] at hlen
  obtain ⟨b, ht, -⟩ := clearScreen_fill s hg (n := pre.length) (by omega)
  rw [hpre', ht, List.singleton_inj.mp hk]
  exact hP _ b (by omega)

end Doors.Console
