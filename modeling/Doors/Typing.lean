import Doors.ConsoleBounds

/-! Typing at the end of the text: characters, newlines and backspaces, with no arrow. The
screen then agrees with the buffer as long as no backspace takes a character from a full line. -/

namespace Doors.Console

/-- The cursor stands at the end of the last line. -/
structure AtEnd (t : TextBuffer) : Prop extends InRange t where
  last : t.size = t.cursorLine + 1
  col_eq : t.cursorCol = (t.buffer t.cursorLine).size
  after : ∀ i, t.cursorLine < i → i < 4096 → (t.buffer i).size = 0

section Text

variable {t : TextBuffer}

theorem AtEnd.scroll (h : InRange t.scroll) (hrow : -1 ≤ t.cursorRow ∧ t.cursorRow ≤ 25)
    (hlast : t.size = t.cursorLine + 1) (hcol : t.cursorCol = (t.buffer t.cursorLine).size)
    (hafter : ∀ i, t.cursorLine < i → i < 4096 → (t.buffer i).size = 0) : AtEnd t.scroll := by
  obtain ⟨hsize, hbuffer, hc⟩ := scroll_kept t
  have hline := scroll_cursorLine hrow
  refine ⟨h, ?_, ?_, ?_⟩
  · rw [hsize, hline, hlast]
  · rw [hbuffer, hc, hline, hcol]
  · rw [hbuffer, hline]
    exact hafter

theorem AtEnd.glyph (h : AtEnd t) (c attr : UInt8) : AtEnd (t.glyph c attr) := by
  have hcol := h.col
  have hlast := h.last
  have hce := h.col_eq
  have hcl := h.cursorLine
  have hold := h.lineSize t.cursorLine hcl.1 hcl.2
  unfold TextBuffer.glyph
  by_cases hroom : t.cursorCol + 1 < 79 ∨ t.cursorLine < 4095
  · have hreach := writeCell_reaches h.toInRange c attr (by omega)
    have hsize := writeCell_size c attr hcol
    have hother : ∀ i, t.cursorLine < i → i < 4096 → ((t.writeCell c attr).buffer i).size = 0 := by
      intro i hi h4096
      rw [writeCell_of_ne c attr (by omega)]
      exact h.after i hi h4096
    have hscroll := hreach.scroll
    rw [if_pos hroom]
    by_cases hw : t.cursorCol + 1 ≥ 79
    · have hup : t.cursorRow + 1 + t.frameRowPointer = t.cursorLine + 1 := by
        rw [TextBuffer.cursorLine]
        omega
      have hline : (t.writeCell c attr).advance.cursorLine = t.cursorLine + 1 := by
        rw [advance_wrap (t := t.writeCell c attr) hw]
        exact hup
      apply AtEnd.scroll hscroll hreach.row
      · rw [hline, advance_wrap (t := t.writeCell c attr) hw]
        show t.size + 1 = t.cursorLine + 1 + 1
        omega
      · rw [hline, advance_wrap (t := t.writeCell c attr) hw]
        exact (hother _ (by omega) (by omega)).symm
      · intro i hi h4096
        rw [hline] at hi
        rw [advance_wrap (t := t.writeCell c attr) hw]
        exact hother i (by omega) h4096
    · have hs : (t.writeCell c attr).cursorCol + 1 < 79 := by
        show t.cursorCol + 1 < 79
        omega
      rw [advance_step hs] at hreach hscroll ⊢
      apply AtEnd.scroll hscroll hreach.row
      · exact hlast
      · show t.cursorCol + 1 = ((t.writeCell c attr).buffer t.cursorLine).size
        omega
      · exact hother
  · rw [if_neg hroom]
    exact h

theorem AtEnd.newline (h : AtEnd t) : AtEnd t.newline := by
  have hcl := h.cursorLine
  have hlast := h.last
  unfold TextBuffer.newline
  split_ifs with hl
  · have hreach := openLine_reaches h.toInRange hl
    have hline : t.openLine.home.cursorLine = t.cursorLine + 1 := openLine_cursorLine t
    rw [← Reaches.scroll_home]
    apply AtEnd.scroll hreach.scroll hreach.row
    · rw [hline]
      exact (if_neg (by omega)).trans (by omega)
    · rw [hline]
      exact (congrArg LineBuffer.size (openLine_self t)).symm
    · intro i hi h4096
      rw [hline] at hi
      exact (congrArg LineBuffer.size (openLine_of_ne t (by omega))).trans
        (h.after i (by omega) h4096)
  · exact h

theorem backspace_inRange (h : InRange t) (hk : t.cursorCol = 0 → t.cursorRow = 0 →
    t.cursorLine > 0 → (t.buffer (t.cursorLine - 1)).size < 79) : InRange t.backspace := by
  have hs : Sound ⟨t, true, fun _ => 0, []⟩ := ⟨h, fun a ha => absurd ha List.not_mem_nil⟩
  have hb := hs.backspace hk
  rw [← handleBackspace_text ⟨t, true, fun _ => 0, []⟩ h.col.1]
  exact hb.inRange

theorem backspace_back (hcol : t.cursorCol > 0) : t.backspace =
    { t.shrinkLine t.cursorLine with cursorCol := t.cursorCol - 1 } := by
  rw [TextBuffer.backspace, if_pos (.inl hcol), if_neg (by omega), TextBuffer.stepBack, if_pos hcol]
  rfl

theorem AtEnd.backspace_up (h : AtEnd t) (h0 : t.cursorCol = 0) (hl : t.cursorLine > 0)
    (hk : (t.buffer (t.cursorLine - 1)).size < 79) : t.backspace =
    { t with size := t.size - 1, cursorRow := t.cursorRow - 1 }.lineEnd.scroll := by
  have hrow := h.row
  have hlast := h.last
  have hce := h.col_eq
  have hdrop : t.dropLine = { t with size := t.size - 1 } := if_pos ⟨by omega, by omega⟩
  have hshort : ¬ (t.buffer (t.cursorLine - 1)).size ≥ 79 := by
    omega
  have hjoin : t.dropLine.joinLine =
      { t with size := t.size - 1, cursorRow := t.cursorRow - 1 }.scroll := by
    rw [hdrop]
    exact if_neg hshort
  rw [TextBuffer.backspace, if_pos (.inr hl), if_pos h0, hjoin, scroll_lineEnd]
  show -1 ≤ t.cursorRow - 1 ∧ t.cursorRow - 1 ≤ 25
  omega

theorem AtEnd.backspace (h : AtEnd t) (hk : t.cursorCol = 0 → t.cursorLine > 0 →
    (t.buffer (t.cursorLine - 1)).size < 79) : AtEnd t.backspace := by
  have hrow := h.row
  have hcol := h.col
  have hcl := h.cursorLine
  have hlast := h.last
  have hce := h.col_eq
  have hin := backspace_inRange h.toInRange fun h0 _ hl => hk h0 hl
  by_cases h0 : t.cursorCol = 0
  · by_cases hl : t.cursorLine > 0
    · have hup : t.cursorRow - 1 + t.frameRowPointer = t.cursorLine - 1 := by
        rw [TextBuffer.cursorLine]
        omega
      rw [h.backspace_up h0 hl (hk h0 hl)] at hin ⊢
      apply AtEnd.scroll hin
      · show -1 ≤ t.cursorRow - 1 ∧ t.cursorRow - 1 ≤ 25
        omega
      · show t.size - 1 = t.cursorRow - 1 + t.frameRowPointer + 1
        omega
      · rfl
      · intro i hi h4096
        have hi' : t.cursorRow - 1 + t.frameRowPointer < i := hi
        show (t.buffer i).size = 0
        by_cases he : i = t.cursorLine
        · rw [he]
          omega
        · exact h.after i (by omega) h4096
    · have hno : ¬ (t.cursorCol > 0 ∨ t.cursorLine > 0) := by
        omega
      rw [TextBuffer.backspace, if_neg hno]
      exact h
  · have hold := h.lineSize t.cursorLine hcl.1 hcl.2
    rw [backspace_back (by omega)] at hin ⊢
    refine ⟨hin, hlast, ?_, ?_⟩
    · show t.cursorCol - 1 = ((t.shrinkLine t.cursorLine).buffer t.cursorLine).size
      rw [TextBuffer.shrinkLine, setLine_self, uint8_pred (by omega), hce]
    · intro i hi h4096
      have hi' : t.cursorLine < i := hi
      show ((t.shrinkLine t.cursorLine).buffer i).size = 0
      rw [TextBuffer.shrinkLine, setLine_of_ne _ _ _ (by omega)]
      exact h.after i hi' h4096

end Text

/-- Every cell of the screen is what a redraw would make it. -/
def Shows (s : Console) : Prop :=
  ∀ r c, r < 25 → c < 80 → cellAt s.memory r c = s.text.shown r c

theorem Shows.redraw {s : Console} (h : Shows s) (hi : InRange s.text) {r c : Nat} (hr : r < 25)
    (hc : c < 80) : cellAt s.memory r c = cellAt s.redraw.memory r c := by
  rw [h r c hr hc, redraw_cell hr hc (Reaches.inView hi).size]

theorem view_shows {s : Console} {k : Int} (h : Reaches { s.text with cursorCol := k })
    {change : Bool} (hc : (s.text.cursorRow < 0 ∨ s.text.cursorRow ≥ 25) ∨ change) :
    Shows (s.newFrameBufferView change) := by
  have hi := h.scroll
  rw [Reaches.scroll_col] at hi
  have hview := Reaches.inView hi
  rw [view_eq, if_pos hc]
  intro r c hr hc
  rw [redraw_text]
  exact redraw_cell hr hc hview.size

theorem AtEnd.visibleRows {t : TextBuffer} (h : AtEnd t) :
    (visibleRows t : Int) = t.cursorRow + 1 := by
  have hrow := h.row
  have hlast := h.last
  have hrows : uint8 (t.size - t.frameRowPointer) = t.cursorRow + 1 := by
    rw [TextBuffer.cursorLine] at hlast
    rw [uint8]
    omega
  simp only [Console.visibleRows, hrows]
  split_ifs <;> omega

section Screen

variable {s : Console}

/-- One cell is painted, one character written: the picture stays that of the buffer. -/
theorem writeCell_shown {t : TextBuffer} (h : AtEnd t) (ch attr : UInt8)
    (hn : AtEnd (t.writeCell ch attr).advance) {r c : Nat} :
    (t.writeCell ch attr).advance.shown r c =
      if (r : Int) = t.cursorRow ∧ (c : Int) = t.cursorCol then (ch, attr) else t.shown r c := by
  have hcol := h.col
  have hce := h.col_eq
  have hrows := h.visibleRows
  have hrows' := hn.visibleRows
  have hsize := writeCell_size ch attr hcol
  obtain ⟨htop, hbuffer, hrow⟩ : (t.writeCell ch attr).advance.frameRowPointer = t.frameRowPointer ∧
      (t.writeCell ch attr).advance.buffer = (t.writeCell ch attr).buffer ∧
      ((t.writeCell ch attr).advance.cursorRow = t.cursorRow ∨
        (t.writeCell ch attr).advance.cursorRow = t.cursorRow + 1 ∧ t.cursorLine < 4095) := by
    have hl := hn.cursorLine
    by_cases hw : t.cursorCol + 1 ≥ 79
    · rw [advance_wrap (t := t.writeCell ch attr) hw] at hl ⊢
      have hl' : t.cursorRow + 1 + t.frameRowPointer < 4096 := hl.2
      refine ⟨rfl, rfl, .inr ⟨rfl, ?_⟩⟩
      rw [TextBuffer.cursorLine]
      omega
    · rw [advance_step (t := t.writeCell ch attr) (by show t.cursorCol + 1 < 79; omega)]
      exact ⟨rfl, rfl, .inl rfl⟩
  simp only [TextBuffer.shown, htop, hbuffer]
  rcases Int.lt_trichotomy r t.cursorRow with hr | hr | hr
  · -- a row above the cursor
    have hne : (r : Int) + t.frameRowPointer ≠ t.cursorLine := by
      rw [TextBuffer.cursorLine]
      omega
    have hpaint : ¬ ((r : Int) = t.cursorRow ∧ (c : Int) = t.cursorCol) := by
      omega
    rw [writeCell_of_ne ch attr hne, if_neg hpaint]
    by_cases hc : (c : Int) < (t.buffer (r + t.frameRowPointer)).size
    · rw [if_pos ⟨by omega, hc⟩, if_pos ⟨by omega, hc⟩]
    · rw [if_neg fun hh => hc hh.2, if_neg fun hh => hc hh.2]
  · -- the row of the cursor
    have he : (r : Int) + t.frameRowPointer = t.cursorLine := by
      rw [TextBuffer.cursorLine]
      omega
    have hcell : (t.writeCell ch attr).buffer t.cursorLine =
        { size := ((t.writeCell ch attr).buffer t.cursorLine).size
          lineBuf := Function.update (t.buffer t.cursorLine).lineBuf t.cursorCol ch
          colorBuf := Function.update (t.buffer t.cursorLine).colorBuf t.cursorCol attr } := by
      rw [TextBuffer.writeCell, setLine_self]
    rw [he, hcell, hsize]
    dsimp only
    rcases Int.lt_trichotomy c t.cursorCol with hc | hc | hc
    · have hpaint : ¬ ((r : Int) = t.cursorRow ∧ (c : Int) = t.cursorCol) := by
        omega
      rw [if_pos ⟨by omega, by omega⟩, if_neg hpaint, if_pos ⟨by omega, by omega⟩,
        Function.update_of_ne (by omega), Function.update_of_ne (by omega)]
    · rw [if_pos ⟨by omega, by omega⟩, if_pos ⟨hr, hc⟩, hc, Function.update_self,
        Function.update_self]
    · have hpaint : ¬ ((r : Int) = t.cursorRow ∧ (c : Int) = t.cursorCol) := by
        omega
      rw [if_neg (by omega), if_neg hpaint, if_neg (by omega)]
  · -- a row below the cursor, blank even if the cursor has moved to it
    have hpaint : ¬ ((r : Int) = t.cursorRow ∧ (c : Int) = t.cursorCol) := by
      omega
    have hold : ¬ (r < visibleRows t ∧ (c : Int) < (t.buffer (r + t.frameRowPointer)).size) := by
      omega
    rw [if_neg hpaint, if_neg hold, if_neg]
    rintro ⟨hv, hc⟩
    have hrow1 : (t.writeCell ch attr).advance.cursorRow = t.cursorRow + 1 ∧ t.cursorLine < 4095 := by
      omega
    have he : (r : Int) + t.frameRowPointer = t.cursorLine + 1 := by
      rw [TextBuffer.cursorLine]
      omega
    rw [he, writeCell_of_ne ch attr (by omega), h.after _ (by omega) (by omega)] at hc
    omega

theorem cellAt_paint {memory : Int → UInt8} {i j : Int} (hj : 0 ≤ j ∧ j < 80) (a b : UInt8)
    {r c : Nat} (hc : c < 80) :
    cellAt (Function.update (Function.update memory (i * 160 + j * 2) a) (i * 160 + j * 2 + 1) b) r c =
      if (r : Int) = i ∧ (c : Int) = j then (a, b) else cellAt memory r c := by
  simp only [cellAt, videoPos]
  by_cases h : (r : Int) = i ∧ (c : Int) = j
  · rw [if_pos h, h.1, h.2, Function.update_self, Function.update_of_ne (by omega),
      Function.update_self]
  · rw [if_neg h, Function.update_of_ne (by omega), Function.update_of_ne (by omega),
      Function.update_of_ne (by omega), Function.update_of_ne (by omega)]

theorem storeGlyph_memory (ch attr : UInt8) : (s.storeGlyph ch attr).growLine.memory =
    Function.update
      (Function.update s.memory (s.text.cursorRow * 160 + s.text.cursorCol * 2) ch)
      (s.text.cursorRow * 160 + s.text.cursorCol * 2 + 1) attr := by
  unfold growLine
  split_ifs
  · rfl
  · rfl

theorem glyph_shows (h : AtEnd s.text) (hs : Shows s) {ch : UInt8} (fg bg : UInt8)
    (hn : ch ≠ newline) (hr : ch ≠ carriageReturn) : Shows (s.putChar ch fg bg) := by
  have hcol := h.col
  have hlast := h.last
  have hcl := h.cursorLine
  rw [putChar_glyph s ch fg bg hcl.2 hn hr]
  by_cases hroom : s.text.cursorCol + 1 < 79 ∨ s.text.cursorLine < 4095
  · have hreach := writeCell_reaches h.toInRange ch (bg <<< 4 ||| fg) (by omega)
    have hadv : ((s.storeGlyph ch (bg <<< 4 ||| fg)).growLine.advanceCol).text =
        (s.text.writeCell ch (bg <<< 4 ||| fg)).advance := by
      rw [advanceCol_eq, edit_text, storeGlyph_text]
    have hmem : ((s.storeGlyph ch (bg <<< 4 ||| fg)).growLine.advanceCol).memory =
        (s.storeGlyph ch (bg <<< 4 ||| fg)).growLine.memory := by
      rw [advanceCol_eq, edit_memory]
    rw [if_pos hroom]
    generalize (s.storeGlyph ch (bg <<< 4 ||| fg)).growLine.advanceCol = u at hadv hmem ⊢
    by_cases hlow : u.text.cursorRow < 25
    · have hrow : 0 ≤ u.text.cursorRow ∧ u.text.cursorRow < 25 := by
        have hle := advance_row (t := s.text.writeCell ch (bg <<< 4 ||| fg))
        rw [hadv] at hlow ⊢
        exact ⟨Int.le_trans h.row.1 hle, hlow⟩
      have hend : AtEnd u.text := by
        have hg := h.glyph ch (bg <<< 4 ||| fg)
        rw [TextBuffer.glyph, if_pos hroom, ← hadv, scroll_eq hrow] at hg
        exact hg
      rw [view_still hrow]
      intro r c hr25 hc80
      rw [hmem, storeGlyph_memory, cellAt_paint ⟨by omega, by omega⟩ _ _ hc80, hadv,
        writeCell_shown h _ _ (hadv ▸ hend), hs r c hr25 hc80]
    · exact view_shows (k := u.text.cursorCol) (hadv ▸ hreach) (.inl (.inr (by omega)))
  · rw [if_neg hroom]
    exact hs

theorem glyph_cell (h : AtEnd s.text) {ch : UInt8} (fg bg : UInt8) (hn : ch ≠ newline)
    (hr : ch ≠ carriageReturn) (hroom : s.text.cursorLine < 4095) (hlow : s.text.cursorRow < 24)
    {r c : Nat} (hrow : (r : Int) = s.text.cursorRow) (hcol : (c : Int) = s.text.cursorCol) :
    cellAt (s.putChar ch fg bg).memory r c = (ch, bg <<< 4 ||| fg) := by
  have hc := h.col
  have hadv : ((s.storeGlyph ch (bg <<< 4 ||| fg)).growLine.advanceCol).text =
      (s.text.writeCell ch (bg <<< 4 ||| fg)).advance := by
    rw [advanceCol_eq, edit_text, storeGlyph_text]
  rw [putChar_glyph s ch fg bg h.cursorLine.2 hn hr, if_pos (.inr hroom), view_still]
  · rw [advanceCol_eq, edit_memory, storeGlyph_memory, cellAt_paint ⟨by omega, by omega⟩ _ _ (by omega),
      if_pos ⟨hrow, hcol⟩]
  · rw [hadv]
    have hge := advance_row (t := s.text.writeCell ch (bg <<< 4 ||| fg))
    have hle := advance_row_le (t := s.text.writeCell ch (bg <<< 4 ||| fg))
    have hkeep : (s.text.writeCell ch (bg <<< 4 ||| fg)).cursorRow = s.text.cursorRow := rfl
    omega

theorem newline_shows (h : AtEnd s.text) (hs : Shows s) (fg bg : UInt8) :
    Shows (s.putChar newline fg bg) := by
  by_cases hl : s.text.cursorLine < 4095
  · rw [putChar_newline s fg bg hl]
    exact view_shows (k := 0) (growBuffer_reaches h.toInRange hl) (.inr rfl)
  · rw [putChar_last s fg bg hl]
    exact hs

theorem shrinkLine_shown {t : TextBuffer} (h : AtEnd t) (hcol : t.cursorCol > 0) {r c : Nat} :
    t.backspace.shown r c =
      if (r : Int) = t.cursorRow ∧ (c : Int) = t.cursorCol - 1 then blank else t.shown r c := by
  have hce := h.col_eq
  have hcl := h.cursorLine
  have hold := h.lineSize t.cursorLine hcl.1 hcl.2
  have hrows := h.visibleRows
  have hu := uint8_pred (n := (t.buffer t.cursorLine).size) (by omega)
  have hview : visibleRows t.backspace = visibleRows t := by
    rw [backspace_back hcol]
    rfl
  have hshown : t.backspace.shown r c =
      if r < visibleRows t ∧
          (c : Int) < ((t.shrinkLine t.cursorLine).buffer (r + t.frameRowPointer)).size then
        (((t.shrinkLine t.cursorLine).buffer (r + t.frameRowPointer)).lineBuf c,
          ((t.shrinkLine t.cursorLine).buffer (r + t.frameRowPointer)).colorBuf c)
      else blank := by
    rw [TextBuffer.shown, hview, backspace_back hcol]
    rfl
  rw [hshown, TextBuffer.shown]
  by_cases hr : (r : Int) = t.cursorRow
  · have he : (r : Int) + t.frameRowPointer = t.cursorLine := by
      rw [TextBuffer.cursorLine]
      omega
    rw [he, TextBuffer.shrinkLine, setLine_self, hu]
    dsimp only
    rcases Int.lt_trichotomy c (t.cursorCol - 1) with hc | hc | hc
    · have hpaint : ¬ ((r : Int) = t.cursorRow ∧ (c : Int) = t.cursorCol - 1) := by
        omega
      rw [if_pos ⟨by omega, by omega⟩, if_neg hpaint, if_pos ⟨by omega, by omega⟩]
    · rw [if_neg (by omega), if_pos ⟨hr, hc⟩]
    · have hpaint : ¬ ((r : Int) = t.cursorRow ∧ (c : Int) = t.cursorCol - 1) := by
        omega
      rw [if_neg (by omega), if_neg hpaint, if_neg (by omega)]
  · have hne : (r : Int) + t.frameRowPointer ≠ t.cursorLine := by
      rw [TextBuffer.cursorLine]
      omega
    have hpaint : ¬ ((r : Int) = t.cursorRow ∧ (c : Int) = t.cursorCol - 1) := by
      omega
    rw [TextBuffer.shrinkLine, setLine_of_ne _ _ _ hne, if_neg hpaint]

theorem backspace_shows (h : AtEnd s.text) (hs : Shows s)
    (hk : s.text.cursorCol = 0 → s.text.cursorLine > 0 →
      (s.text.buffer (s.text.cursorLine - 1)).size < 79) : Shows s.handleBackspace := by
  have hcol := h.col
  by_cases h0 : s.text.cursorCol = 0
  · by_cases hl : s.text.cursorLine > 0
    · have hshort := hk h0 hl
      obtain ⟨n, hn, hle⟩ := dropLine_eq s.text h.line
      have hsize := h.size
      have hreach := join_short h.toInRange hl ⟨hle.1, by omega⟩ hshort
      have htext : s.dropLine.text = { s.text with size := n } := by
        rw [dropLine_text, hn]
      have hfull : ¬ (s.dropLine.text.buffer (s.dropLine.text.cursorLine - 1)).size ≥ 79 := by
        rw [htext]
        show ¬ (s.text.buffer (s.text.cursorLine - 1)).size ≥ 79
        omega
      rw [handleBackspace_start s h0 hl, joinLine, if_neg hfull]
      apply view_shows (k := (s.text.buffer (s.text.cursorLine - 1)).size) _ (.inr rfl)
      rw [edit_text, touch_text, htext]
      exact hreach
    · have hno : ¬ (s.text.cursorCol > 0 ∨ s.text.cursorLine > 0) := by
        omega
      unfold handleBackspace
      rw [if_neg hno]
      exact hs
  · have hpos : s.text.cursorCol > 0 := by
      omega
    intro r c hr hc
    rw [handleBackspace_text s hcol.1, shrinkLine_shown h hpos, handleBackspace_inside s hpos,
      writeLine_memory, framebufferErase_eq, edit_memory]
    have hmod : s.text.cursorCol.tmod 80 = s.text.cursorCol := by
      rw [Int.tmod_eq_emod_of_nonneg hcol.1]
      omega
    have hmem : s.blankBefore.memory = Function.update
        (Function.update s.memory (s.text.cursorRow * 160 + (s.text.cursorCol - 1) * 2) 0x00)
        (s.text.cursorRow * 160 + (s.text.cursorCol - 1) * 2 + 1) 0x07 := by
      simp only [blankBefore, setVideo_memory, hmod, Int.mul_comm 160]
    rw [hmem, cellAt_paint ⟨by omega, by omega⟩ _ _ hc, hs r c hr hc]
    rfl

end Screen

def Typed (c : UInt8) : Prop := Glyph c ∨ c = newline ∨ c = backspace

/-- The byte takes no character from a full line. -/
def KeepsFull (t : TextBuffer) (c : UInt8) : Prop :=
  c = backspace → t.cursorCol = 0 → t.cursorLine > 0 → (t.buffer (t.cursorLine - 1)).size < 79

theorem typed_cases {s : Console} (hl : s.text.cursorLine < 4096) {k : Key} (hk : Typed k.c) :
    (Glyph k.c ∧ s.handleKey k = s.putChar k.c k.fg k.bg) ∨
      (k.c = newline ∧ s.handleKey k = s.putChar newline k.fg k.bg) ∨
      (k.c = backspace ∧ s.handleKey k = s.handleBackspace) := by
  have hmax : s.text.cursorLine < bufferMaxHeight := hl
  rcases hk with hg | hn | hb
  · exact .inl ⟨hg, handleNewChar_glyph _ _ _ _ hg hl⟩
  · refine .inr (.inl ⟨hn, ?_⟩)
    rw [handleKey, hn, handleNewChar, if_neg (by decide), if_pos hmax, if_pos rfl]
  · refine .inr (.inr ⟨hb, ?_⟩)
    rw [handleKey, hb, handleNewChar_backspace s _ _ hl]

theorem AtEnd.step {s : Console} (h : AtEnd s.text) {k : Key} (hk : Typed k.c)
    (hf : KeepsFull s.text k.c) : AtEnd (s.handleKey k).text := by
  rcases typed_cases h.cursorLine.2 hk with ⟨hg, he⟩ | ⟨-, he⟩ | ⟨hb, he⟩
  · rw [he, putChar_glyph_text _ _ _ _ h.cursorLine.2 hg.newline hg.carriageReturn]
    exact h.glyph _ _
  · rw [he, putChar_newline_text _ _ _ h.row.2]
    exact h.newline
  · rw [he, handleBackspace_text _ h.col.1]
    exact h.backspace (hf hb)

theorem Shows.step {s : Console} (hs : Shows s) (h : AtEnd s.text) {k : Key} (hk : Typed k.c)
    (hf : KeepsFull s.text k.c) : Shows (s.handleKey k) := by
  rcases typed_cases h.cursorLine.2 hk with ⟨hg, he⟩ | ⟨-, he⟩ | ⟨hb, he⟩
  · rw [he]
    exact glyph_shows h hs _ _ hg.newline hg.carriageReturn
  · rw [he]
    exact newline_shows h hs _ _
  · rw [he]
    exact backspace_shows h hs (hf hb)

theorem clearScreen_atEnd (s : Console) : AtEnd s.clearScreen.text where
  toInRange := (clearScreen_sound s).inRange
  last := rfl
  col_eq := (clearScreen_size s (i := 0) (by omega)).symm
  after := fun i hi h4096 => clearScreen_size s ⟨Int.le_of_lt hi, h4096⟩

theorem clearScreen_shows (s : Console) : Shows s.clearScreen := by
  intro r c hr hc
  have hend := clearScreen_atEnd s
  have hrows : (visibleRows s.clearScreen.text : Int) = 1 := hend.visibleRows
  have hmem : s.clearScreen.memory = s.framebufferClear.memory := by
    rw [clearScreen]
  rw [hmem, framebufferClear_cell hr hc, TextBuffer.shown, if_neg]
  rintro ⟨hv, hcs⟩
  have hr0 : r = 0 := by
    omega
  subst hr0
  have hsize : (s.clearScreen.text.buffer ((0 : Nat) + s.clearScreen.text.frameRowPointer)).size = 0 :=
    clearScreen_size s (i := 0) (by omega)
  omega

/-- The screen agrees with the buffer after every run of typed keys. -/
theorem typing_shows {s₀ s : Console} {ks : List Key}
    (h : Run (KeyStep fun t c => Typed c ∧ KeepsFull t c) s₀.clearScreen ks s) {r c : Nat}
    (hr : r < 25) (hc : c < 79) : cellAt s.memory r c = cellAt s.redraw.memory r c := by
  have hs : AtEnd s.text ∧ Shows s := by
    apply h.invariant (P := fun s => AtEnd s.text ∧ Shows s) _
      ⟨clearScreen_atEnd s₀, clearScreen_shows s₀⟩
    rintro u k v ⟨hu, hshow⟩ ⟨⟨hk, hf⟩, rfl⟩
    exact ⟨hu.step hk hf, hshow.step hu hk hf⟩
  exact hs.2.redraw hs.1.toInRange hr (by omega)

theorem handleKeys_atEnd {s : Console} (h : AtEnd s.text) {k : Key} (hg : Glyph k.c) (n : Nat) :
    AtEnd (s.handleKeys (List.replicate n k)).text := by
  induction n with
  | zero => exact h
  | succ n ih =>
    rw [List.replicate_succ', handleKeys_snoc]
    exact ih.step (.inl hg) fun hb => absurd hb hg.backspace

/-- Behind a full line a newline, a backspace onto the empty line before it, and a character. -/
theorem run_behind {s u : Console} {ks : List Key} {b : Int → LineBuffer}
    (h : Run (KeyStep fun t c => Typed c ∧ KeepsFull t c) s ks u) (hend : AtEnd u.text)
    (ht : u.text = { size := 2, buffer := b, cursorRow := 1, cursorCol := 0, frameRowPointer := 0 }) :
    Run (KeyStep fun t c => Typed c ∧ KeepsFull t c) s
      (ks ++ [⟨newline, 0x0F, 0⟩] ++ [⟨backspace, 0x0F, 0⟩] ++ [⟨0x62, 0x0F, 0⟩])
      (((u.handleKey ⟨newline, 0x0F, 0⟩).handleKey ⟨backspace, 0x0F, 0⟩).handleKey
        ⟨0x62, 0x0F, 0⟩) := by
  have hnewline : (u.handleKey ⟨newline, 0x0F, 0⟩).text = u.text.newline :=
    handleKey_newline_text _ _ _ hend.cursorLine.2 hend.row.2
  have hback : KeepsFull (u.handleKey ⟨newline, 0x0F, 0⟩).text backspace := by
    have hshort : (b 1).size = 0 := by
      have hce := hend.col_eq
      rw [ht] at hce
      exact hce.symm
    have hline : u.text.newline.buffer (u.text.newline.cursorLine - 1) = b 1 := by
      rw [ht]
      rfl
    intro _ _ _
    rw [hnewline, hline, hshort]
    decide
  have hbreak := h.snoc (e := ⟨newline, 0x0F, 0⟩)
    ⟨⟨.inr (.inl rfl), fun h => absurd h (by decide)⟩, rfl⟩
  have herase := hbreak.snoc (e := ⟨backspace, 0x0F, 0⟩) ⟨⟨.inr (.inr rfl), hback⟩, rfl⟩
  exact herase.snoc ⟨⟨.inl (by constructor <;> decide), fun h => absurd h (by decide)⟩, rfl⟩

theorem typing_shows_wrap : ∃ s,
    Run (KeyStep fun t c => Typed c ∧ KeepsFull t c) (default : Console).clearScreen
      (List.replicate 79 ⟨0x61, 0x0F, 0⟩ ++ [⟨newline, 0x0F, 0⟩] ++ [⟨backspace, 0x0F, 0⟩] ++
        [⟨0x62, 0x0F, 0⟩]) s ∧
      cellAt s.memory 0 78 = cellAt s.redraw.memory 0 78 ∧
      cellAt s.memory 1 0 = cellAt s.redraw.memory 1 0 := by
  have hg : Glyph (Key.c ⟨0x61, 0x0F, 0⟩) := by
    constructor <;> decide
  have hfill := run_fill default hg (P := fun t c => Typed c ∧ KeepsFull t c)
    fun _ _ _ => ⟨.inl hg, fun h => absurd h (by decide)⟩
  obtain ⟨b, ht, -⟩ := clearScreen_wrap default hg
  have hrun := run_behind hfill (handleKeys_atEnd (clearScreen_atEnd default) hg 79) ht
  exact ⟨_, hrun, typing_shows hrun (by decide) (by decide),
    typing_shows hrun (by decide) (by decide)⟩

/-- The backspace after a full line blanks column 79 instead of the last character. -/
theorem backspace_full {s : Console} {b : Int → LineBuffer}
    (ht : s.text = { size := 2, buffer := b, cursorRow := 1, cursorCol := 0, frameRowPointer := 0 })
    (h0 : (b 0).size = 79) (h1 : (b 1).size = 0) :
    cellAt s.handleBackspace.memory 0 78 = cellAt s.memory 0 78 ∧
      s.handleBackspace.text = { (s.text.shrinkLine 0) with
        size := 1, cursorRow := 0, cursorCol := 78 } := by
  have hline : s.text.cursorLine = 1 := by
    rw [ht]
    rfl
  have hcol : s.text.cursorCol = 0 := by
    rw [ht]
  have hdrop : s.text.dropLine = { s.text with size := 1 } := by
    rw [TextBuffer.dropLine, hline, ht]
    exact if_pos ⟨h1, rfl⟩
  have hfull : (s.text.buffer (s.text.cursorLine - 1)).size = 79 := by
    rw [hline, ht]
    exact h0
  have hrow : s.text.cursorRow > 0 := by
    rw [ht]
    exact Int.one_pos
  refine ⟨?_, ?_⟩
  · have hpaint : ∀ memory : Int → UInt8, cellAt (Function.update (Function.update memory 158 0x00)
        159 0x07) 0 78 = cellAt memory 0 78 := fun memory =>
      (cellAt_paint (i := 0) (j := 79) (by omega) 0x00 0x07 (by omega)).trans (if_neg (by omega))
    have hmemory : s.dropLine.memory = s.memory := by
      unfold dropLine
      split_ifs
      · rfl
      · rfl
    have hfull' : (s.dropLine.text.buffer (s.dropLine.text.cursorLine - 1)).size ≥ 79 := by
      rw [dropLine_text, hdrop]
      exact Int.le_of_eq hfull.symm
    have hrow' : s.dropLine.text.cursorRow = 1 := by
      rw [dropLine_text, hdrop, ht]
    have hcol' : s.dropLine.text.cursorCol = 0 := by
      rw [dropLine_text, hdrop, ht]
    rw [handleBackspace_start s hcol (by omega), joinLine, if_pos hfull', framebufferErase_eq, lineEnd,
      edit_memory, touch_memory, edit_memory, blankBefore_start]
    · simp only [setVideo_memory, writeLine_memory, touch_memory, writeLine_text, touch_text,
        setLine_cursorRow, hrow', hmemory]
      exact hpaint s.memory
    · exact hcol'
  · rw [handleBackspace_text _ (by omega), TextBuffer.backspace, if_pos (.inr (by omega)), if_pos hcol,
      hdrop, joinLine_full_end hcol hrow hfull, hline, ht]
    rfl

theorem clearScreen_fill_cell (s : Console) {k : Key} (hg : Glyph k.c) :
    cellAt (s.clearScreen.handleKeys (List.replicate 79 k)).memory 0 78 =
      (k.c, k.bg <<< 4 ||| k.fg) := by
  obtain ⟨b, ht, -⟩ := clearScreen_fill s hg (Nat.le_refl 78)
  have hend := handleKeys_atEnd (clearScreen_atEnd s) hg 78
  rw [List.replicate_succ', handleKeys_snoc]
  generalize s.clearScreen.handleKeys (List.replicate 78 k) = u at ht hend ⊢
  have hline : u.text.cursorLine = 0 := by
    rw [ht]
    rfl
  have hrow0 : u.text.cursorRow = 0 := by
    rw [ht]
  have hcol : u.text.cursorCol = 78 := by
    rw [ht]
    rfl
  rw [handleKey, handleNewChar_glyph _ _ _ _ hg (by omega)]
  exact glyph_cell hend _ _ hg.newline hg.carriageReturn (by omega) (by omega) (by omega) (by omega)

/-- After 79 characters and a backspace the last character is still on the screen. -/
theorem typing_shows_stale :
    cellAt ((default : Console).clearScreen.handleKeys
        (List.replicate 79 ⟨0x61, 0x0F, 0⟩ ++ [⟨backspace, 0x0F, 0⟩])).memory 0 78 = (0x61, 0x0F) ∧
      cellAt ((default : Console).clearScreen.handleKeys
        (List.replicate 79 ⟨0x61, 0x0F, 0⟩ ++ [⟨backspace, 0x0F, 0⟩])).redraw.memory 0 78 = blank := by
  have hg : Glyph (Key.c ⟨0x61, 0x0F, 0⟩) := by
    constructor <;> decide
  obtain ⟨b, ht, hb⟩ := clearScreen_wrap default hg
  have hend := handleKeys_atEnd (clearScreen_atEnd default) hg 79
  have hlast := clearScreen_fill_cell default hg
  rw [handleKeys_snoc]
  generalize (default : Console).clearScreen.handleKeys
    (List.replicate 79 ⟨0x61, 0x0F, 0⟩) = u at ht hend hlast ⊢
  have hce := hend.col_eq
  have h1 : (b 1).size = 0 := by
    rw [ht] at hce
    exact hce.symm
  obtain ⟨hcell, htext⟩ := backspace_full ht hb h1
  have hback : InRange u.handleBackspace.text := by
    rw [handleBackspace_text _ hend.col.1]
    apply backspace_inRange hend.toInRange
    intro _ h0
    rw [ht] at h0
    exact absurd h0 Int.one_ne_zero
  have hshort : (u.handleBackspace.text.buffer 0).size = 78 := by
    have h79 : (u.text.buffer 0).size = 79 := by
      rw [ht]
      exact hb
    rw [htext]
    show ((u.text.shrinkLine 0).buffer 0).size = 78
    rw [TextBuffer.shrinkLine, setLine_self, h79]
    rfl
  rw [handleKey, handleNewChar_backspace _ _ _ hend.cursorLine.2]
  refine ⟨hcell.trans hlast, ?_⟩
  rw [redraw_cell (by decide) (by decide) (Reaches.inView hback).size, TextBuffer.shown, if_neg]
  rintro ⟨-, hlt⟩
  have htop : ((0 : Nat) : Int) + u.handleBackspace.text.frameRowPointer = 0 := by
    rw [htext, ht]
    rfl
  rw [htop, hshort] at hlt
  exact absurd hlt (by decide)

end Doors.Console
