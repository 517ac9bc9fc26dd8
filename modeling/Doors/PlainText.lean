import Doors.Typing
import Doors.TextLayout

/-! Plain text typed on a cleared screen. The buffer holds the text in rows of 79, and the
screen shows the last rows of it. -/

namespace Doors.Console

/-- A character and the colours it is drawn in. -/
def Key.cell (k : Key) : UInt8 × UInt8 := (k.c, k.bg <<< 4 ||| k.fg)

def Key.isNewline (k : Key) : Bool := k.c == newline

/-- The text split at its newlines and wrapped every 79 characters. -/
def textLines (ks : List Key) : List (List (UInt8 × UInt8)) :=
  (Layout.layout 79 Key.isNewline ks).map (List.map Key.cell)

def LineBuffer.cells (l : LineBuffer) : List (UInt8 × UInt8) :=
  (List.range l.size.toNat).map fun j : Nat => (l.lineBuf j, l.colorBuf j)

/-- The lines from `0` to `n`. -/
def TextBuffer.linesTo (t : TextBuffer) (n : Nat) : List (List (UInt8 × UInt8)) :=
  (List.range n).map fun i : Nat => (t.buffer i).cells

def TextBuffer.lines (t : TextBuffer) : List (List (UInt8 × UInt8)) := t.linesTo t.size.toNat

section Reference

variable {ks : List Key} {k : Key}

theorem textLines_newline (hk : k.c = newline) :
    textLines (ks ++ [k]) = textLines ks ++ [[]] := by
  have hbreak : k.isNewline = true := beq_iff_eq.mpr hk
  rw [textLines, Layout.layout_break hbreak, List.map_append]
  rfl

theorem textLines_glyph (ks : List Key) (hk : k.c ≠ newline) : ∃ rows row, textLines ks = rows ++ [row] ∧
    textLines (ks ++ [k]) =
      if row.length + 1 < 79 then rows ++ [row ++ [k.cell]] else rows ++ [row ++ [k.cell], []] := by
  have hbreak : k.isNewline = false := beq_false_of_ne hk
  obtain ⟨rows, row, hold, -, hnew⟩ := Layout.layout_snoc (show 0 < 79 by omega) hbreak ks
  refine ⟨rows.map (List.map Key.cell), row.map Key.cell, ?_, ?_⟩
  · rw [textLines, hold, List.map_append]
    rfl
  · rw [textLines, hnew, List.length_map]
    by_cases h : row.length + 1 < 79
    · simp [if_pos h]
    · simp [if_neg h]

theorem textLines_length_le : (textLines ks).length ≤ (textLines (ks ++ [k])).length := by
  simp only [textLines, List.length_map]
  exact Layout.layout_length_le (by omega) ks k

end Reference

section Lines

variable {t : TextBuffer}

theorem linesTo_succ (t : TextBuffer) (n : Nat) :
    t.linesTo (n + 1) = t.linesTo n ++ [(t.buffer n).cells] := by
  rw [TextBuffer.linesTo, List.range_succ, List.map_append]
  rfl

theorem linesTo_congr {u : TextBuffer} {n : Nat} (h : ∀ i : Nat, i < n → u.buffer i = t.buffer i) :
    u.linesTo n = t.linesTo n := by
  apply List.map_congr_left
  intro i hi
  rw [h i (List.mem_range.mp hi)]

theorem lines_scroll (t : TextBuffer) : t.scroll.lines = t.lines := by
  obtain ⟨hsize, hbuffer, -⟩ := scroll_kept t
  rw [TextBuffer.lines, TextBuffer.lines, hsize]
  exact linesTo_congr fun i _ => congrFun hbuffer i

theorem cells_length (l : LineBuffer) : l.cells.length = l.size.toNat := by
  simp [LineBuffer.cells]

theorem cells_empty {l : LineBuffer} (h : l.size = 0) : l.cells = [] := by
  simp [LineBuffer.cells, h]

theorem AtEnd.lines (h : AtEnd t) :
    t.lines = t.linesTo t.cursorLine.toNat ++ [(t.buffer t.cursorLine).cells] := by
  have hcl := h.cursorLine
  have hline : ((t.cursorLine.toNat : Nat) : Int) = t.cursorLine := Int.toNat_of_nonneg hcl.1
  have hsize : t.size.toNat = t.cursorLine.toNat + 1 := by
    rw [h.last]
    omega
  rw [TextBuffer.lines, hsize, linesTo_succ, hline]

theorem AtEnd.lines_newline (h : AtEnd t) (hl : t.cursorLine < 4095) :
    t.newline.lines = t.lines ++ [[]] := by
  have hcl := h.cursorLine
  have hlast := h.last
  have hsize : t.openLine.size = t.size + 1 := if_neg (by omega)
  have hnat : (t.size + 1).toNat = t.size.toNat + 1 := by
    omega
  have hnew : ((t.size.toNat : Nat) : Int) = t.cursorLine + 1 := by
    omega
  have hempty : (t.openLine.buffer (t.cursorLine + 1)).cells = [] :=
    cells_empty (congrArg LineBuffer.size (openLine_self t))
  rw [TextBuffer.newline, if_pos hl]
  show t.openLine.scroll.lines = t.lines ++ [[]]
  rw [lines_scroll, TextBuffer.lines, hsize, hnat, linesTo_succ, hnew, hempty, TextBuffer.lines,
    linesTo_congr]
  intro i hi
  exact openLine_of_ne t (by omega)

theorem AtEnd.writeCell_cells (h : AtEnd t) (c attr : UInt8) :
    ((t.writeCell c attr).buffer t.cursorLine).cells =
      (t.buffer t.cursorLine).cells ++ [(c, attr)] := by
  have hcol := h.col
  have hce := h.col_eq
  have hline : (t.writeCell c attr).buffer t.cursorLine =
      { size := t.cursorCol + 1
        lineBuf := Function.update (t.buffer t.cursorLine).lineBuf t.cursorCol c
        colorBuf := Function.update (t.buffer t.cursorLine).colorBuf t.cursorCol attr } := by
    have hsize := writeCell_size c attr hcol
    rw [show max (t.cursorCol + 1) (t.buffer t.cursorLine).size = t.cursorCol + 1 by omega] at hsize
    rw [← hsize, TextBuffer.writeCell, setLine_self]
  have hnat : (t.cursorCol + 1).toNat = (t.buffer t.cursorLine).size.toNat + 1 := by
    omega
  have hend : (((t.buffer t.cursorLine).size.toNat : Nat) : Int) = t.cursorCol := by
    omega
  rw [hline, LineBuffer.cells]
  dsimp only
  rw [hnat, List.range_succ, List.map_append, List.map_singleton, hend, Function.update_self,
    Function.update_self, LineBuffer.cells]
  congr 1
  apply List.map_congr_left
  intro j hj
  have hlt := List.mem_range.mp hj
  rw [Function.update_of_ne (by omega), Function.update_of_ne (by omega)]

theorem AtEnd.lines_glyph (h : AtEnd t) (c attr : UInt8)
    (hroom : t.cursorCol + 1 < 79 ∨ t.cursorLine < 4095) :
    (t.glyph c attr).lines = t.linesTo t.cursorLine.toNat ++
      if t.cursorCol + 1 < 79 then [(t.buffer t.cursorLine).cells ++ [(c, attr)]]
      else [(t.buffer t.cursorLine).cells ++ [(c, attr)], []] := by
  have hcl := h.cursorLine
  have hlast := h.last
  have hline : ((t.cursorLine.toNat : Nat) : Int) = t.cursorLine := Int.toNat_of_nonneg hcl.1
  have habove : (t.writeCell c attr).linesTo t.cursorLine.toNat = t.linesTo t.cursorLine.toNat :=
    linesTo_congr fun i hi => writeCell_of_ne c attr (by omega)
  have hcells := h.writeCell_cells c attr
  rw [TextBuffer.glyph, if_pos hroom, lines_scroll, TextBuffer.lines]
  by_cases hw : t.cursorCol + 1 < 79
  · have hsize : t.size.toNat = t.cursorLine.toNat + 1 := by
      omega
    rw [if_pos hw, advance_step (t := t.writeCell c attr) hw]
    show (t.writeCell c attr).linesTo t.size.toNat = _
    rw [hsize, linesTo_succ, habove, hline, hcells]
  · have hsize : (t.size + 1).toNat = t.cursorLine.toNat + 1 + 1 := by
      omega
    have hnext : ((t.cursorLine.toNat + 1 : Nat) : Int) = t.cursorLine + 1 := by
      omega
    have hempty : ((t.writeCell c attr).buffer (t.cursorLine + 1)).cells = [] := by
      rw [writeCell_of_ne c attr (by omega)]
      exact cells_empty (h.after _ (by omega) (by omega))
    rw [if_neg hw, advance_wrap (t := t.writeCell c attr) (by show t.cursorCol + 1 ≥ 79; omega)]
    show (t.writeCell c attr).linesTo (t.size + 1).toNat = _
    rw [hsize, linesTo_succ, linesTo_succ, habove, hline, hcells, hnext, hempty, List.append_assoc]
    rfl

theorem lines_getElem? (t : TextBuffer) {i : Nat} (hi : (i : Int) < t.size) :
    t.lines[i]? = some (t.buffer i).cells := by
  rw [TextBuffer.lines, TextBuffer.linesTo, List.getElem?_map, List.getElem?_range (by omega)]
  rfl

theorem lines_cell (t : TextBuffer) (i j : Nat) : (t.lines[i]?.bind fun row => row[j]?) =
    if (i : Int) < t.size ∧ (j : Int) < (t.buffer i).size then
      some ((t.buffer i).lineBuf j, (t.buffer i).colorBuf j)
    else none := by
  by_cases hi : (i : Int) < t.size
  · rw [lines_getElem? t hi]
    by_cases hj : (j : Int) < (t.buffer i).size
    · rw [if_pos ⟨hi, hj⟩]
      show (t.buffer i).cells[j]? = _
      rw [LineBuffer.cells, List.getElem?_map, List.getElem?_range (by omega)]
      rfl
    · rw [if_neg fun h => hj h.2]
      apply List.getElem?_eq_none
      rw [cells_length]
      omega
  · rw [if_neg fun h => hi h.1, List.getElem?_eq_none]
    · rfl
    · simp only [TextBuffer.lines, TextBuffer.linesTo, List.length_map, List.length_range]
      omega

/-- The view has moved down only as far as the last line demands. -/
def Lowest (t : TextBuffer) : Prop := t.frameRowPointer > 0 → t.cursorRow = 24

theorem Lowest.scroll (hrow : t.cursorRow ≤ 25) (h0 : 0 ≤ t.cursorRow)
    (h : t.frameRowPointer > 0 → t.cursorRow ≥ 24) : Lowest t.scroll := by
  rw [Lowest, TextBuffer.scroll, if_neg (by omega)]
  split_ifs with hlow
  · exact fun _ => rfl
  · intro hp
    have hge := h hp
    omega

theorem Lowest.newline (h : Lowest t) (hrow : 0 ≤ t.cursorRow ∧ t.cursorRow < 25) :
    Lowest t.newline := by
  unfold TextBuffer.newline
  split_ifs with hl
  · apply Lowest.scroll (t := t.openLine)
    · rw [openLine_cursorRow]
      omega
    · rw [openLine_cursorRow]
      omega
    · intro hp
      have hlow := h hp
      rw [openLine_cursorRow]
      omega
  · exact h

theorem Lowest.glyph (h : Lowest t) (hrow : 0 ≤ t.cursorRow ∧ t.cursorRow < 25) (c attr : UInt8) :
    Lowest (t.glyph c attr) := by
  have hge := advance_row (t := t.writeCell c attr)
  have hle := advance_row_le (t := t.writeCell c attr)
  have hkeep : (t.writeCell c attr).cursorRow = t.cursorRow := rfl
  have htop : (t.writeCell c attr).advance.frameRowPointer = t.frameRowPointer := by
    unfold TextBuffer.advance
    split_ifs
    · rfl
    · rfl
  unfold TextBuffer.glyph
  split_ifs with hroom
  · apply Lowest.scroll
    · omega
    · omega
    · intro hp
      have hlow := h (htop ▸ hp)
      omega
  · exact h

end Lines

/-- The console after the text `ks`. -/
structure Displays (ks : List Key) (s : Console) : Prop where
  atEnd : AtEnd s.text
  shows : Shows s
  lines : s.text.lines = textLines ks
  lowest : Lowest s.text

section Displays

variable {ks : List Key} {s : Console}

theorem Displays.size (h : Displays ks s) : s.text.size = (textLines ks).length := by
  have hcl := h.atEnd.cursorLine
  have hlast := h.atEnd.last
  rw [← h.lines]
  simp only [TextBuffer.lines, TextBuffer.linesTo, List.length_map, List.length_range]
  omega

theorem Displays.glyph (h : Displays ks s) {k : Key} (hg : Glyph k.c)
    (hfit : (textLines (ks ++ [k])).length ≤ 4096) :
    (s.text.glyph k.c (k.bg <<< 4 ||| k.fg)).lines = textLines (ks ++ [k]) := by
  have hend := h.atEnd
  have hcl := hend.cursorLine
  have hlast := hend.last
  have hcol := hend.col
  have hce := hend.col_eq
  obtain ⟨rows, row, hold, hnew⟩ := textLines_glyph ks hg.newline
  have hsplit : rows = s.text.linesTo s.text.cursorLine.toNat ∧
      row = (s.text.buffer s.text.cursorLine).cells := by
    have heq : rows ++ [row] = s.text.linesTo s.text.cursorLine.toNat ++
        [(s.text.buffer s.text.cursorLine).cells] := by
      rw [← hold, ← h.lines, hend.lines]
    obtain ⟨hrows, hrow⟩ := List.append_inj' heq rfl
    exact ⟨hrows, List.singleton_inj.mp hrow⟩
  have hlen : (row.length : Int) = s.text.cursorCol := by
    rw [hsplit.2, cells_length]
    omega
  have hrows : (rows.length : Int) = s.text.cursorLine := by
    have hsize := h.size
    rw [hold, List.length_append, List.length_singleton] at hsize
    omega
  by_cases hw : row.length + 1 < 79
  · rw [if_pos hw] at hnew
    rw [hend.lines_glyph _ _ (.inl (by omega)), if_pos (by omega), hnew, hsplit.1, hsplit.2]
    rfl
  · rw [if_neg hw] at hnew
    rw [hnew, List.length_append] at hfit
    have hroom : s.text.cursorLine < 4095 := by
      simp only [List.length_cons, List.length_nil] at hfit
      omega
    rw [hend.lines_glyph _ _ (.inr hroom), if_neg (by omega), hnew, hsplit.1, hsplit.2]
    rfl

theorem Displays.step (h : Displays ks s) {k : Key} (hk : Glyph k.c ∨ k.c = newline)
    (hfit : (textLines (ks ++ [k])).length ≤ 4096) : Displays (ks ++ [k]) (s.handleKey k) := by
  have hend := h.atEnd
  have hcl := hend.cursorLine
  have htyped : Typed k.c := hk.imp id .inl
  have hnoback : k.c ≠ backspace := by
    rcases hk with hg | hn
    · exact hg.backspace
    · rw [hn]
      decide
  have hkeep : KeepsFull s.text k.c := fun hb => absurd hb hnoback
  refine ⟨hend.step htyped hkeep, h.shows.step hend htyped hkeep, ?_, ?_⟩
  · rcases typed_cases hcl.2 htyped with ⟨hg, he⟩ | ⟨hn, he⟩ | ⟨hb, -⟩
    · rw [he, putChar_glyph_text _ _ _ _ hcl.2 hg.newline hg.carriageReturn]
      exact h.glyph hg hfit
    · have hroom : s.text.cursorLine < 4095 := by
        have hsize := h.size
        have hlast := hend.last
        rw [textLines_newline hn, List.length_append, List.length_singleton] at hfit
        omega
      rw [he, putChar_newline_text _ _ _ hend.row.2, hend.lines_newline hroom, h.lines,
        textLines_newline hn]
    · exact absurd hb hnoback
  · rcases typed_cases hcl.2 htyped with ⟨hg, he⟩ | ⟨-, he⟩ | ⟨hb, -⟩
    · rw [he, putChar_glyph_text _ _ _ _ hcl.2 hg.newline hg.carriageReturn]
      exact h.lowest.glyph hend.row _ _
    · rw [he, putChar_newline_text _ _ _ hend.row.2]
      exact h.lowest.newline hend.row
    · exact absurd hb hnoback

theorem clearScreen_displays (s₀ : Console) : Displays [] s₀.clearScreen where
  atEnd := clearScreen_atEnd s₀
  shows := clearScreen_shows s₀
  lines := by
    have hempty : (s₀.clearScreen.text.buffer (0 : Nat)).cells = [] :=
      cells_empty (clearScreen_size s₀ (by omega))
    rw [textLines, Layout.layout_nil]
    show [(s₀.clearScreen.text.buffer (0 : Nat)).cells] = [[]]
    rw [hempty]
  lowest := fun h => absurd h (Int.lt_irrefl 0)

theorem displays_keys (s₀ : Console) (ks : List Key) (hks : ∀ k ∈ ks, Glyph k.c ∨ k.c = newline)
    (hfit : (textLines ks).length ≤ 4096) : Displays ks (s₀.clearScreen.handleKeys ks) := by
  induction ks using List.reverseRecOn with
  | nil => exact clearScreen_displays s₀
  | append_singleton ks k ih =>
    rw [handleKeys_snoc]
    apply Displays.step _ (hks k (by simp)) hfit
    apply ih
    · intro k' hk'
      exact hks k' (by simp [hk'])
    · exact Nat.le_trans textLines_length_le hfit

theorem Displays.cell (h : Displays ks s) {r c : Nat} (hr : r < 25) (hc : c < 79) :
    cellAt s.memory r c =
      ((textLines ks)[r + s.text.frameRowPointer.toNat]?.bind fun row => row[c]?).getD blank := by
  have hend := h.atEnd
  have hrows := hend.visibleRows
  have htop := hend.top
  have hlast := hend.last
  have hidx : ((r + s.text.frameRowPointer.toNat : Nat) : Int) = r + s.text.frameRowPointer := by
    omega
  have hsee : r < visibleRows s.text ↔ (r : Int) + s.text.frameRowPointer < s.text.size := by
    rw [hlast, TextBuffer.cursorLine]
    omega
  rw [h.shows r c hr (by omega), TextBuffer.shown, ← h.lines, lines_cell, hidx]
  by_cases hin : (r : Int) + s.text.frameRowPointer < s.text.size ∧
      (c : Int) < (s.text.buffer (r + s.text.frameRowPointer)).size
  · rw [if_pos ⟨hsee.mpr hin.1, hin.2⟩, if_pos hin]
    rfl
  · rw [if_neg fun hh => hin ⟨hsee.mp hh.1, hh.2⟩, if_neg hin]
    rfl

end Displays

/-- Plain text of at most 4096 lines is kept, wrapped and shown. -/
theorem plainText_displayed (s₀ : Console) (ks : List Key)
    (hks : ∀ k ∈ ks, Glyph k.c ∨ k.c = newline) (hfit : (textLines ks).length ≤ 4096) :
    let s := s₀.clearScreen.handleKeys ks
    s.text.size = (textLines ks).length ∧ s.text.lines = textLines ks ∧
      s.text.cursorLine = s.text.size - 1 ∧
      ((textLines ks).getLast?.map fun line => (line.length : Int)) = some s.text.cursorCol ∧
      s.text.frameRowPointer = max 0 (s.text.size - 25) ∧
      ∀ r c, r < 25 → c < 79 → cellAt s.memory r c =
        ((textLines ks)[r + s.text.frameRowPointer.toNat]?.bind fun row => row[c]?).getD blank := by
  intro s
  have h : Displays ks s := displays_keys s₀ ks hks hfit
  have hend := h.atEnd
  have hlast := hend.last
  have hrow := hend.row
  have htop := hend.top
  have hcol := hend.col
  have hce := hend.col_eq
  refine ⟨h.size, h.lines, by omega, ?_, ?_, fun r c hr hc => h.cell hr hc⟩
  · rw [← h.lines, hend.lines, List.getLast?_concat, Option.map_some, cells_length]
    congr 1
    omega
  · rw [TextBuffer.cursorLine] at hlast
    by_cases hp : s.text.frameRowPointer > 0
    · have hlow := h.lowest hp
      omega
    · omega

theorem plainText_displayed_two_lines :
    ((default : Console).clearScreen.handleKeys
        [⟨0x61, 0x0F, 0⟩, ⟨newline, 0x0F, 0⟩, ⟨0x62, 0x0A, 1⟩]).text.lines =
      [[(0x61, 0x0F)], [(0x62, 0x1A)]] := by
  have ha : Glyph 0x61 := by
    constructor <;> decide
  have hb : Glyph 0x62 := by
    constructor <;> decide
  have hlines : textLines [⟨0x61, 0x0F, 0⟩, ⟨newline, 0x0F, 0⟩, ⟨0x62, 0x0A, 1⟩] =
      [[(0x61, 0x0F)], [(0x62, 0x1A)]] := by
    decide
  have h := plainText_displayed default [⟨0x61, 0x0F, 0⟩, ⟨newline, 0x0F, 0⟩, ⟨0x62, 0x0A, 1⟩]
    (by simp [ha, hb]) (by simp [hlines])
  exact h.2.1.trans hlines

end Doors.Console
