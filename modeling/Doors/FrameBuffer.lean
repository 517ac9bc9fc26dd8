import Mathlib.Logic.Function.Basic
import Mathlib.Data.List.Basic

/-! The text console: `framebuffer.c` function by function, over its line buffer, the
video memory and a log of the accesses made. The hardware cursor is left out. -/

namespace Doors.Console

abbrev bufferHeightView : Int := 25

abbrev bufferWidthView : Int := 79

abbrev bufferMaxHeight : Int := 4096

abbrev newline : UInt8 := 0x0A

abbrev backspace : UInt8 := 0x08

abbrev carriageReturn : UInt8 := 0x0D

abbrev arrowUp : UInt8 := 0x11

abbrev arrowLeft : UInt8 := 0x12

abbrev arrowDown : UInt8 := 0x13

abbrev arrowRight : UInt8 := 0x14

/-- The value of an `int` stored in a `uint8_t`. -/
def uint8 (n : Int) : Int := n % 256

structure LineBuffer where
  size : Int
  lineBuf : Int → UInt8
  colorBuf : Int → UInt8
deriving Inhabited

/-- `frame_buffer` with the cursor and the first line in view. -/
structure TextBuffer where
  size : Int
  buffer : Int → LineBuffer
  cursorRow : Int
  cursorCol : Int
  frameRowPointer : Int
deriving Inhabited

/-- `cursor_row + frame_row_pointer`. -/
def TextBuffer.cursorLine (t : TextBuffer) : Int := t.cursorRow + t.frameRowPointer

def TextBuffer.setLine (t : TextBuffer) (i : Int) (f : LineBuffer → LineBuffer) : TextBuffer :=
  { t with buffer := Function.update t.buffer i (f (t.buffer i)) }

/-- An access to the line array, to the characters or colours of a line, or to the video
memory; `clear` is a store of `framebuffer_clear`. -/
inductive Access
  | line (i : Int)
  | cell (j : Int)
  | video (pos : Int)
  | clear (pos : Int)

/-- The access lies in its array; the video memory has 80x25 cells of two bytes. -/
def Access.InBounds : Access → Prop
  | .line i => 0 ≤ i ∧ i < 4096
  | .cell j => 0 ≤ j ∧ j < 79
  | .video pos => 0 ≤ pos ∧ pos < 4000
  | .clear pos => 0 ≤ pos ∧ pos < 4000

end Doors.Console

namespace Doors

open Console

structure Console where
  text : TextBuffer
  isCursorViewable : Bool
  memory : Int → UInt8
  log : List Access
deriving Inhabited

namespace Console

def touch (s : Console) (a : Access) : Console := { s with log := a :: s.log }

def edit (s : Console) (f : TextBuffer → TextBuffer) : Console := { s with text := f s.text }

def writeLine (s : Console) (i : Int) (f : LineBuffer → LineBuffer) : Console :=
  (s.touch (.line i)).edit fun t => t.setLine i f

def setVideo (s : Console) (pos : Int) (value : UInt8) : Console :=
  { s.touch (.video pos) with memory := Function.update s.memory pos value }

def clearVideo (s : Console) (pos : Int) (value : UInt8) : Console :=
  { s.touch (.clear pos) with memory := Function.update s.memory pos value }

def clearCell (s : Console) (i : Nat) : Console :=
  (s.clearVideo (2 * i) 0x00).clearVideo (2 * i + 1) 0x07

/-- `n = 2 * 160 * 25` bytes, two at a time. -/
def framebufferClear (s : Console) : Console := (List.range 4000).foldl clearCell s

/-- The loop body of a redraw for character `j` of row `i`. -/
def drawCell (i : Nat) (s : Console) (j : Nat) : Console :=
  if j > 79 then s
  else
    let line := s.text.frameRowPointer + i
    let s := (s.touch (.line line)).touch (.cell j)
    let s := s.setVideo (i * 160 + j * 2) ((s.text.buffer line).lineBuf j)
    let s := (s.touch (.line line)).touch (.cell j)
    s.setVideo (i * 160 + j * 2 + 1) ((s.text.buffer line).colorBuf j)

/-- The loop body of a redraw for row `i`. -/
def drawRow (s : Console) (i : Nat) : Console :=
  let s := s.touch (.line (i + s.text.frameRowPointer))
  (List.range (s.text.buffer (i + s.text.frameRowPointer)).size.toNat).foldl (drawCell i) s

/-- The rows of a redraw, of which there are at most 25. -/
def visibleRows (t : TextBuffer) : Nat :=
  let row := (uint8 (t.size - t.frameRowPointer)).toNat
  if row > 25 then 25 else row

def redraw (s : Console) : Console :=
  (List.range (visibleRows s.text)).foldl drawRow s.framebufferClear

def newFrameBufferView (s : Console) (change : Bool) : Console :=
  if (s.text.cursorRow < 0 ∨ s.text.cursorRow ≥ bufferHeightView) ∨ change then
    let s :=
      if s.text.cursorRow < 0 then
        s.edit fun t => { t with frameRowPointer := t.frameRowPointer - 1, cursorRow := 0 }
      else if s.text.cursorRow ≥ bufferHeightView then
        s.edit fun t =>
          { t with frameRowPointer := t.frameRowPointer + 1, cursorRow := bufferHeightView - 1 }
      else s
    s.redraw
  else s

def clearScreen (s : Console) : Console where
  text :=
    { size := 1
      buffer := fun i => if 0 ≤ i ∧ i < bufferMaxHeight then
          { size := 0
            lineBuf := fun j => if 0 ≤ j ∧ j < 79 then 0 else (s.text.buffer i).lineBuf j
            colorBuf := fun j => if 0 ≤ j ∧ j < 79 then 0 else (s.text.buffer i).colorBuf j }
        else s.text.buffer i
      cursorRow := 0
      cursorCol := 0
      frameRowPointer := 0 }
  isCursorViewable := true
  memory := s.framebufferClear.memory
  log := []

def moveScreen (s : Console) (c : UInt8) : Console :=
  let s :=
    if c = arrowUp then
      if s.text.frameRowPointer > 0 then
        s.edit fun t => { t with frameRowPointer := t.frameRowPointer - 1 }
      else s
    else if c = arrowDown then
      if s.text.frameRowPointer + bufferHeightView < s.text.size then
        s.edit fun t => { t with frameRowPointer := t.frameRowPointer + 1 }
      else s
    else s
  if c = arrowUp ∨ c = arrowDown then
    redraw { s with
      isCursorViewable := s.text.size > s.text.frameRowPointer ∧
        s.text.size ≤ s.text.frameRowPointer + bufferHeightView }
  else s

def putChar (s : Console) (c fg bg : UInt8) : Console :=
  if s.text.cursorLine < bufferMaxHeight then
    if c = newline then
      if s.text.cursorLine < bufferMaxHeight - 1 then
        let s := s.edit fun t => { t with cursorRow := t.cursorRow + 1 }
        let s := s.writeLine s.text.cursorLine fun l => { l with size := 0 }
        let s :=
          if s.text.cursorLine < s.text.size then s.newFrameBufferView true
          else s.edit fun t => { t with size := t.size + 1 }
        let s := s.newFrameBufferView true
        s.edit fun t => { t with cursorCol := 0 }
      else s
    else if c ≠ carriageReturn then
      if s.text.cursorCol + 1 < bufferWidthView ∨ s.text.cursorLine < bufferMaxHeight - 1 then
        let attr := bg <<< 4 ||| fg
        let pos := s.text.cursorRow * 160 + s.text.cursorCol * 2
        let s := (s.setVideo pos c).setVideo (pos + 1) attr
        let s := (s.touch (.cell s.text.cursorCol)).writeLine s.text.cursorLine fun l =>
          { l with lineBuf := Function.update l.lineBuf s.text.cursorCol c }
        let s := (s.touch (.cell s.text.cursorCol)).writeLine s.text.cursorLine fun l =>
          { l with colorBuf := Function.update l.colorBuf s.text.cursorCol attr }
        let s := s.touch (.line s.text.cursorLine)
        let s :=
          if s.text.cursorCol + 1 > (s.text.buffer s.text.cursorLine).size then
            s.writeLine s.text.cursorLine fun l => { l with size := uint8 (s.text.cursorCol + 1) }
          else s
        let s := s.edit fun t => { t with cursorCol := t.cursorCol + 1 }
        let s :=
          if s.text.cursorCol ≥ bufferWidthView then
            s.edit fun t =>
              { t with size := t.size + 1, cursorRow := t.cursorRow + 1, cursorCol := 0 }
          else s
        s.newFrameBufferView false
      else s
    else s
  else s

/-- `framebuffer_erase(&cursor_row, &cursor_col)`. -/
def framebufferErase (s : Console) : Console :=
  let pos := 160 * s.text.cursorRow + (s.text.cursorCol.tmod 80 - 1) * 2
  let s := (s.setVideo pos 0x00).setVideo (pos + 1) 0x07
  if s.text.cursorCol > 0 ∨ s.text.cursorRow > 0 then
    let s := s.edit fun t => { t with cursorCol := t.cursorCol - 1 }
    if s.text.cursorCol < 0 then
      s.edit fun t => { t with cursorRow := t.cursorRow - 1, cursorCol := 79 }
    else s
  else s

/-- `cursor_col` clamped to the size of the line of the cursor. -/
def clampCol (s : Console) : Console :=
  (s.touch (.line s.text.cursorLine)).edit fun t =>
    { t with
      cursorCol :=
        if t.cursorCol < (t.buffer t.cursorLine).size then t.cursorCol
        else (t.buffer t.cursorLine).size }

def handleArrowUp (s : Console) : Console :=
  if s.text.cursorLine > 0 then
    ((s.edit fun t => { t with cursorRow := t.cursorRow - 1 }).clampCol).newFrameBufferView false
  else s

def handleArrowDown (s : Console) : Console :=
  if s.text.cursorLine < s.text.size - 1 then
    ((s.edit fun t => { t with cursorRow := t.cursorRow + 1 }).clampCol).newFrameBufferView false
  else s

def handleArrowLeft (s : Console) : Console :=
  let s := s.edit fun t => { t with cursorCol := t.cursorCol - 1 }
  if s.text.cursorCol < 0 then
    if s.text.cursorLine > 0 then
      let s := s.edit fun t => { t with cursorRow := t.cursorRow - 1 }
      let s := (s.touch (.line s.text.cursorLine)).edit fun t =>
        { t with cursorCol := (t.buffer t.cursorLine).size }
      s.newFrameBufferView false
    else s.edit fun t => { t with cursorCol := t.cursorCol + 1 }
  else s

def handleArrowRight (s : Console) : Console :=
  let s := s.edit fun t => { t with cursorCol := t.cursorCol + 1 }
  let s := s.touch (.line s.text.cursorLine)
  if s.text.cursorCol > (s.text.buffer s.text.cursorLine).size ∧
      s.text.cursorLine < s.text.size - 1 then
    (s.edit fun t =>
      { t with cursorCol := 0, cursorRow := t.cursorRow + 1 }).newFrameBufferView false
  else if s.text.cursorCol > (s.text.buffer s.text.cursorLine).size ∧
      s.text.cursorLine ≥ s.text.size - 1 then
    s.edit fun t => { t with cursorCol := t.cursorCol - 1 }
  else s

def handleBackspace (s : Console) : Console :=
  if s.text.cursorCol > 0 ∨ s.text.cursorLine > 0 then
    if s.text.cursorCol = 0 then
      let s := s.touch (.line s.text.cursorLine)
      let s :=
        if (s.text.buffer s.text.cursorLine).size = 0 ∧ s.text.cursorLine = s.text.size - 1 then
          s.edit fun t => { t with size := t.size - 1 }
        else s
      let s := s.touch (.line (s.text.cursorLine - 1))
      let s :=
        if (s.text.buffer (s.text.cursorLine - 1)).size ≥ bufferWidthView then
          (s.writeLine (s.text.cursorLine - 1) fun l =>
            { l with size := uint8 (l.size - 1) }).framebufferErase
        else
          (s.edit fun t => { t with cursorRow := t.cursorRow - 1 }).newFrameBufferView true
      (s.touch (.line s.text.cursorLine)).edit fun t =>
        { t with cursorCol := (t.buffer t.cursorLine).size }
    else
      let s := s.framebufferErase
      s.writeLine s.text.cursorLine fun l => { l with size := uint8 (l.size - 1) }
  else s

def handleNewChar (s : Console) (c fg bg : UInt8) : Console :=
  if c = 0 then s
  else if s.text.cursorLine < bufferMaxHeight then
    if c = newline then s.putChar c fg bg
    else if c ≠ backspace then
      if c = arrowUp then s.handleArrowUp
      else if c = arrowDown then s.handleArrowDown
      else if c = arrowLeft then s.handleArrowLeft
      else if c = arrowRight then s.handleArrowRight
      else s.putChar c fg bg
    else s.handleBackspace
  else s

end Console

namespace Console

/-- A byte for `handle_new_char` with its colours. -/
structure Key where
  c : UInt8
  fg : UInt8
  bg : UInt8

end Console

def Console.handleKey (s : Console) (k : Key) : Console := s.handleNewChar k.c k.fg k.bg

def Console.handleKeys (s : Console) (ks : List Key) : Console := ks.foldl handleKey s

end Doors
