import Doors.TextEdits

/-! The indices of the console and the bounds of its accesses, for any bytes: one
invariant, what each kind of byte does to it, and the inputs that break it. -/

namespace Doors.Console

/-- The invariant of the indices. -/
structure InRange (t : TextBuffer) : Prop where
  row : 0 ≤ t.cursorRow ∧ t.cursorRow < 25
  col : 0 ≤ t.cursorCol ∧ t.cursorCol < 79
  top : 0 ≤ t.frameRowPointer
  line : t.cursorLine < t.size
  size : t.size ≤ 4096
  lineSize : ∀ i, 0 ≤ i → i < 4096 → 0 ≤ (t.buffer i).size ∧ (t.buffer i).size ≤ 79
  clamp : t.cursorCol ≤ (t.buffer t.cursorLine).size

/-- The invariant before the view follows the cursor. -/
structure Reaches (t : TextBuffer) : Prop where
  row : -1 ≤ t.cursorRow ∧ t.cursorRow ≤ 25
  col : 0 ≤ t.cursorCol ∧ t.cursorCol < 79
  top : 0 ≤ t.frameRowPointer
  nonneg : 0 ≤ t.cursorLine
  line : t.cursorLine < t.size
  size : t.size ≤ 4096
  lineSize : ∀ i, 0 ≤ i → i < 4096 → 0 ≤ (t.buffer i).size ∧ (t.buffer i).size ≤ 79
  clamp : t.cursorCol ≤ (t.buffer t.cursorLine).size

theorem InRange.cursorLine {t : TextBuffer} (h : InRange t) :
    0 ≤ t.cursorLine ∧ t.cursorLine < 4096 := by
  have h1 := h.row
  have h2 := h.top
  have h3 := h.line
  have h4 := h.size
  rw [TextBuffer.cursorLine] at h3 ⊢
  omega

theorem InRange.reaches {t : TextBuffer} (h : InRange t) : Reaches t :=
  ⟨⟨by have := h.row; omega, by have := h.row; omega⟩, h.col, h.top, h.cursorLine.1, h.line, h.size,
    h.lineSize, h.clamp⟩

theorem scroll_cursorLine {t : TextBuffer} (h : -1 ≤ t.cursorRow ∧ t.cursorRow ≤ 25) :
    t.scroll.cursorLine = t.cursorLine := by
  unfold TextBuffer.scroll TextBuffer.cursorLine
  split_ifs with h0 h1
  · simp only
    omega
  · simp only
    omega
  · rfl

theorem scroll_kept (t : TextBuffer) : t.scroll.size = t.size ∧ t.scroll.buffer = t.buffer ∧
    t.scroll.cursorCol = t.cursorCol := by
  unfold TextBuffer.scroll
  split_ifs <;> exact ⟨rfl, rfl, rfl⟩

namespace Reaches

variable {t : TextBuffer}

theorem scroll (h : Reaches t) : InRange t.scroll := by
  have hrow := h.row
  have htop := h.top
  have hnonneg := h.nonneg
  have hline := scroll_cursorLine hrow
  obtain ⟨hsize, hbuffer, hcol⟩ := scroll_kept t
  rw [TextBuffer.cursorLine] at hnonneg
  have hview : (0 ≤ t.scroll.cursorRow ∧ t.scroll.cursorRow < 25) ∧ 0 ≤ t.scroll.frameRowPointer := by
    unfold TextBuffer.scroll
    split_ifs with h0 h1
    · simp only
      omega
    · simp only
      omega
    · omega
  exact {
    row := hview.1
    col := hcol ▸ h.col
    top := hview.2
    line := by
      rw [hline, hsize]
      exact h.line
    size := hsize ▸ h.size
    lineSize := by
      rw [hbuffer]
      exact h.lineSize
    clamp := by
      rw [hline, hbuffer, hcol]
      exact h.clamp }

theorem inView (h : InRange t) : InView t (visibleRows t) := by
  have hrow := h.row
  have htop := h.top
  have hline := h.line
  have hsize := h.size
  rw [TextBuffer.cursorLine] at hline
  have hrows : (visibleRows t : Int) ≤ t.size - t.frameRowPointer := by
    have hu : uint8 (t.size - t.frameRowPointer) ≤ t.size - t.frameRowPointer ∧
        0 ≤ uint8 (t.size - t.frameRowPointer) := by
      rw [uint8]
      omega
    have hle := visibleRows_uint8 t
    omega
  refine ⟨htop, by omega, fun i hi => (h.lineSize _ (by omega) (by omega)).2⟩

theorem scroll_col (t : TextBuffer) (col : Int) :
    { t with cursorCol := col }.scroll = { t.scroll with cursorCol := col } := by
  unfold TextBuffer.scroll
  split_ifs <;> rfl

theorem scroll_home (t : TextBuffer) : t.home.scroll = t.scroll.home := scroll_col t 0

theorem view_log {s : Console} {k : Int} (h : Reaches { s.text with cursorCol := k })
    (hl : LogInScreen s.log) (change : Bool) : LogInScreen (s.newFrameBufferView change).log := by
  rw [view_eq]
  by_cases hc : (s.text.cursorRow < 0 ∨ s.text.cursorRow ≥ 25) ∨ change
  · have hv := inView (scroll_col s.text k ▸ h.scroll)
    rw [if_pos hc]
    exact redraw_log ⟨hv.nonneg, hv.lines, hv.size⟩ hl
  · rw [if_neg hc]
    exact hl

end Reaches

/-- The state is in range and so is every access made, `framebuffer_clear` apart. -/
structure Sound (s : Console) : Prop where
  inRange : InRange s.text
  log : LogInScreen s.log

theorem sound_view {s : Console} (h : Reaches s.text) (hl : LogInScreen s.log) (change : Bool) :
    Sound (s.newFrameBufferView change) := by
  refine ⟨?_, Reaches.view_log (k := s.text.cursorCol) h hl change⟩
  rw [view_text]
  exact h.scroll

/-- The byte keeps the indices of state `t` in range. -/
structure StaysInRange (t : TextBuffer) (c : UInt8) : Prop where
  left : c = arrowLeft → t.cursorCol = 0 → t.cursorLine > 0 →
    (t.buffer (t.cursorLine - 1)).size < 79
  right : c = arrowRight → t.cursorCol = 78 → (t.buffer t.cursorLine).size < 79
  erase : c = backspace → t.cursorCol = 0 → t.cursorRow = 0 → t.cursorLine > 0 →
    (t.buffer (t.cursorLine - 1)).size < 79
  wrap : c ≠ 0 → c ≠ newline → c ≠ backspace → c ≠ carriageReturn → c ≠ arrowUp → c ≠ arrowDown →
    c ≠ arrowLeft → c ≠ arrowRight → t.cursorCol = 78 → t.cursorLine < 4095 → t.size < 4096

section Handlers

variable {s : Console}

/-- The cursor goes to row `r`, its column clamped to the line there. -/
theorem Sound.moveRow (h : Sound s) {f : TextBuffer → TextBuffer} {r : Int}
    (hf : f s.text = { s.text with cursorRow := r }) (hrow : -1 ≤ r ∧ r ≤ 25)
    (hline : 0 ≤ r + s.text.frameRowPointer ∧ r + s.text.frameRowPointer < s.text.size) :
    Sound (((s.edit f).clampCol).newFrameBufferView false) := by
  have hr := h.inRange
  have hcol := hr.col
  have hsize := hr.size
  have hl := hr.lineSize (r + s.text.frameRowPointer) hline.1 (by omega)
  have hmin : ∀ l : Int, 0 ≤ l → l ≤ 79 →
      0 ≤ (if s.text.cursorCol < l then s.text.cursorCol else l) ∧
        (if s.text.cursorCol < l then s.text.cursorCol else l) < 79 ∧
        (if s.text.cursorCol < l then s.text.cursorCol else l) ≤ l := by
    intro l h0 h79
    split_ifs <;> omega
  have hm := hmin _ hl.1 hl.2
  apply sound_view
  · simp only [clampCol, edit_text, touch_text, hf]
    exact ⟨hrow, ⟨hm.1, hm.2.1⟩, hr.top, hline.1, hline.2, hsize, hr.lineSize, hm.2.2⟩
  · simp only [clampCol, edit_log, touch_log, edit_text, hf]
    exact .cons (.inl ⟨hline.1, show r + s.text.frameRowPointer < 4096 by omega⟩) h.log

theorem Sound.arrowUp (h : Sound s) : Sound s.handleArrowUp := by
  have hrow := h.inRange.row
  have hline := h.inRange.line
  unfold handleArrowUp
  by_cases hc : s.text.cursorLine > 0
  · rw [if_pos hc]
    rw [TextBuffer.cursorLine] at hc hline
    exact h.moveRow rfl (by omega) (by omega)
  · rw [if_neg hc]
    exact h

theorem Sound.arrowDown (h : Sound s) : Sound s.handleArrowDown := by
  have hrow := h.inRange.row
  have htop := h.inRange.top
  unfold handleArrowDown
  by_cases hc : s.text.cursorLine < s.text.size - 1
  · rw [if_pos hc]
    rw [TextBuffer.cursorLine] at hc
    exact h.moveRow rfl (by omega) (by omega)
  · rw [if_neg hc]
    exact h

theorem Sound.arrowLeft (h : Sound s)
    (hk : s.text.cursorCol = 0 → s.text.cursorLine > 0 →
      (s.text.buffer (s.text.cursorLine - 1)).size < 79) : Sound s.handleArrowLeft := by
  have hr := h.inRange
  have hrow := hr.row
  have hcol := hr.col
  have hline := hr.line
  have hsize := hr.size
  have hclamp := hr.clamp
  unfold handleArrowLeft
  dsimp only
  split_ifs with hc hl
  · have hc' : s.text.cursorCol - 1 < 0 := hc
    have hl' : s.text.cursorRow + s.text.frameRowPointer > 0 := hl
    have hprev := hk (by omega) hl
    have he : s.text.cursorRow - 1 + s.text.frameRowPointer = s.text.cursorLine - 1 := by
      rw [TextBuffer.cursorLine]
      omega
    rw [← he] at hprev
    rw [TextBuffer.cursorLine] at hline
    have hnonneg := (hr.lineSize (s.text.cursorRow - 1 + s.text.frameRowPointer) (by omega)
      (by omega)).1
    apply sound_view
    · exact {
        row := by show -1 ≤ s.text.cursorRow - 1 ∧ s.text.cursorRow - 1 ≤ 25; omega
        col := ⟨hnonneg, hprev⟩
        top := hr.top
        nonneg := by show 0 ≤ s.text.cursorRow - 1 + s.text.frameRowPointer; omega
        line := by show s.text.cursorRow - 1 + s.text.frameRowPointer < s.text.size; omega
        size := hsize
        lineSize := hr.lineSize
        clamp := Int.le_refl _ }
    · have hin : (Access.line (s.text.cursorRow - 1 + s.text.frameRowPointer)).InScreen :=
        .inl ⟨by omega, by omega⟩
      exact .cons hin h.log
  · have hcol' : s.text.cursorCol - 1 + 1 = s.text.cursorCol := by omega
    refine ⟨?_, h.log⟩
    simp only [edit_text, hcol']
    exact hr
  · have hc' : ¬ s.text.cursorCol - 1 < 0 := hc
    exact ⟨⟨hrow, by show 0 ≤ s.text.cursorCol - 1 ∧ s.text.cursorCol - 1 < 79; omega, hr.top, hline,
      hsize, hr.lineSize, by
        show s.text.cursorCol - 1 ≤ (s.text.buffer s.text.cursorLine).size
        omega⟩, h.log⟩

theorem Sound.arrowRight (h : Sound s)
    (hk : s.text.cursorCol = 78 → (s.text.buffer s.text.cursorLine).size < 79) :
    Sound s.handleArrowRight := by
  have hr := h.inRange
  have hrow := hr.row
  have hcol := hr.col
  have htop := hr.top
  have hline := hr.line
  have hsize := hr.size
  have hcl := hr.cursorLine
  have hl := hr.lineSize s.text.cursorLine hcl.1 hcl.2
  have hlog : LogInScreen (.line s.text.cursorLine :: s.log) := .cons (.inl hcl) h.log
  unfold handleArrowRight
  dsimp only
  split_ifs with hn hp
  · have hn' : s.text.cursorRow + s.text.frameRowPointer < s.text.size - 1 := hn.2
    rw [TextBuffer.cursorLine] at hcl
    have hnext := hr.lineSize (s.text.cursorRow + 1 + s.text.frameRowPointer) (by omega) (by omega)
    apply sound_view
    · exact {
        row := by show -1 ≤ s.text.cursorRow + 1 ∧ s.text.cursorRow + 1 ≤ 25; omega
        col := by show (0 : Int) ≤ 0 ∧ (0 : Int) < 79; omega
        top := htop
        nonneg := by show 0 ≤ s.text.cursorRow + 1 + s.text.frameRowPointer; omega
        line := by show s.text.cursorRow + 1 + s.text.frameRowPointer < s.text.size; omega
        size := hsize
        lineSize := hr.lineSize
        clamp := hnext.1 }
    · exact hlog
  · have hcol' : s.text.cursorCol + 1 - 1 = s.text.cursorCol := by omega
    refine ⟨?_, hlog⟩
    simp only [edit_text, touch_text, hcol']
    exact hr
  · have hn' : ¬ (s.text.cursorCol + 1 > (s.text.buffer s.text.cursorLine).size ∧
        s.text.cursorLine < s.text.size - 1) := hn
    have hp' : ¬ (s.text.cursorCol + 1 > (s.text.buffer s.text.cursorLine).size ∧
        s.text.cursorLine ≥ s.text.size - 1) := hp
    have hle : s.text.cursorCol + 1 ≤ (s.text.buffer s.text.cursorLine).size := by omega
    have hlt : s.text.cursorCol + 1 < 79 := by
      by_cases h78 : s.text.cursorCol = 78
      · have hsmall := hk h78
        omega
      · omega
    exact ⟨⟨hrow, ⟨by show 0 ≤ s.text.cursorCol + 1; omega, hlt⟩, htop, hline, hsize, hr.lineSize,
      hle⟩, hlog⟩

/-- One line is edited and the cursor put on row `r`. -/
theorem InRange.edit {t : TextBuffer} (h : InRange t) {i r n k : Int}
    {f : LineBuffer → LineBuffer} (hrow : -1 ≤ r ∧ r ≤ 25) (hnonneg : 0 ≤ r + t.frameRowPointer)
    (hline : r + t.frameRowPointer < n) (hn : n ≤ 4096)
    (hf : 0 ≤ (f (t.buffer i)).size ∧ (f (t.buffer i)).size ≤ 79) (hcol : 0 ≤ k ∧ k < 79)
    (hclamp : k = 0 ∨ k ≤ ((t.setLine i f).buffer (r + t.frameRowPointer)).size) :
    Reaches { t.setLine i f with size := n, cursorRow := r, cursorCol := k } := by
  have hsizes : ∀ j, 0 ≤ j → j < 4096 → 0 ≤ ((t.setLine i f).buffer j).size ∧
      ((t.setLine i f).buffer j).size ≤ 79 := by
    intro j h0 hj
    by_cases hc : j = i
    · rw [hc, setLine_self]
      exact hf
    · rw [setLine_of_ne _ _ _ hc]
      exact h.lineSize j h0 hj
  exact {
    row := hrow
    col := hcol
    top := h.top
    nonneg := hnonneg
    line := hline
    size := hn
    lineSize := hsizes
    clamp := by
      rcases hclamp with rfl | hclamp
      · exact (hsizes (r + t.frameRowPointer) hnonneg (by omega)).1
      · exact hclamp }

theorem openLine_reaches {t : TextBuffer} (h : InRange t) (hl : t.cursorLine < 4095) :
    Reaches t.openLine.home := by
  have hrow := h.row
  have hline := h.line
  have hsize := h.size
  have hnonneg := h.cursorLine.1
  have hcursor : t.cursorRow + 1 + t.frameRowPointer = t.cursorLine + 1 := by
    rw [TextBuffer.cursorLine]
    omega
  have hgrow : t.cursorLine + 1 < (if t.cursorLine + 1 < t.size then t.size else t.size + 1) ∧
      (if t.cursorLine + 1 < t.size then t.size else t.size + 1) ≤ 4096 := by
    split_ifs <;> omega
  refine h.edit (i := t.cursorLine + 1) (r := t.cursorRow + 1) (n := t.openLine.size) (k := 0)
    (f := fun l => { l with size := 0 }) (by omega) (by omega) ?_ hgrow.2 ?_ (by omega) (.inl rfl)
  · rw [hcursor]
    exact hgrow.1
  · show (0 : Int) ≤ 0 ∧ (0 : Int) ≤ 79
    omega

theorem sound_home (h : Reaches s.text.home) (hl : LogInScreen s.log) :
    Sound ((s.newFrameBufferView true).edit TextBuffer.home) := by
  refine ⟨?_, Reaches.view_log (k := 0) h hl true⟩
  rw [edit_text, view_text]
  exact Reaches.scroll_home s.text ▸ h.scroll

theorem growBuffer_reaches (h : InRange s.text) (hl : s.text.cursorLine < 4095) :
    Reaches s.clearBelow.growBuffer.text.home := by
  have ho := openLine_reaches h hl
  rcases growBuffer_cases s with ⟨ht, hg⟩ | ⟨ht, -⟩
  · have hview : InRange s.clearBelow.text.scroll.home := by
      rw [ht, ← Reaches.scroll_home]
      exact ho.scroll
    rw [hg, view_text]
    exact hview.reaches
  · rw [ht]
    exact ho

theorem Sound.newline (h : Sound s) (fg bg : UInt8) : Sound (s.putChar newline fg bg) := by
  have hcl := h.inRange.cursorLine
  by_cases hl : s.text.cursorLine < 4095
  · have ho := openLine_reaches h.inRange hl
    have hlog : LogInScreen s.clearBelow.log := by
      refine .cons (.inl ?_) h.log
      show 0 ≤ s.text.cursorRow + 1 + s.text.frameRowPointer ∧
        s.text.cursorRow + 1 + s.text.frameRowPointer < 4096
      rw [TextBuffer.cursorLine] at hl hcl
      omega
    rw [putChar_newline s fg bg hl]
    apply sound_home (growBuffer_reaches h.inRange hl)
    rcases growBuffer_cases s with ⟨ht, hg⟩ | ⟨ht, hg⟩
    · rw [hg]
      exact Reaches.view_log (k := 0) (ht ▸ ho) hlog true
    · rw [hg]
      exact hlog
  · rw [putChar_last s fg bg hl]
    exact h

theorem writeCell_reaches {t : TextBuffer} (h : InRange t) (c attr : UInt8)
    (hroom : t.cursorCol + 1 < 79 ∨ t.cursorLine < 4095 ∧ t.size < 4096) :
    Reaches (t.writeCell c attr).advance := by
  have hrow := h.row
  have hcol := h.col
  have hline := h.line
  have hsize := h.size
  have hcl := h.cursorLine
  have hold := h.lineSize t.cursorLine hcl.1 hcl.2
  have hstep := writeCell_size c attr hcol
  have hf := hstep
  rw [TextBuffer.writeCell, setLine_self] at hf
  by_cases hw : t.cursorCol + 1 ≥ 79
  · have hcursor : t.cursorRow + 1 + t.frameRowPointer = t.cursorLine + 1 := by
      rw [TextBuffer.cursorLine]
      omega
    rw [advance_wrap (t := t.writeCell c attr) hw]
    exact h.edit (r := t.cursorRow + 1) (n := t.size + 1) (k := 0) (by omega) (by omega) (by omega)
      (by omega) (by rw [hf]; omega) (by omega) (.inl rfl)
  · have hcursor : t.cursorRow + t.frameRowPointer = t.cursorLine := rfl
    rw [advance_step (t := t.writeCell c attr) (by show t.cursorCol + 1 < 79; omega)]
    refine h.edit (r := t.cursorRow) (n := t.size) (k := t.cursorCol + 1) (by omega) hcl.1 hline hsize
      (by rw [hf]; omega) (by omega) (.inr ?_)
    show t.cursorCol + 1 ≤ ((t.writeCell c attr).buffer t.cursorLine).size
    omega

theorem Sound.glyph (h : Sound s) {c : UInt8} (fg bg : UInt8) (hc : c ≠ Console.newline)
    (hr : c ≠ carriageReturn)
    (hk : s.text.cursorCol = 78 → s.text.cursorLine < 4095 → s.text.size < 4096) :
    Sound (s.putChar c fg bg) := by
  have hrow := h.inRange.row
  have hcol := h.inRange.col
  have hl := h.inRange.cursorLine
  rw [putChar_glyph s c fg bg hl.2 hc hr]
  by_cases hroom : s.text.cursorCol + 1 < 79 ∨ s.text.cursorLine < 4095
  · have hline : (Access.line s.text.cursorLine).InScreen := .inl hl
    have hcell : (Access.cell s.text.cursorCol).InScreen := .inl hcol
    have hstore : LogInScreen (s.storeGlyph c (bg <<< 4 ||| fg)).log := by
      have hpos : (Access.video (s.text.cursorRow * 160 + s.text.cursorCol * 2)).InScreen :=
        .inl ⟨by omega, by omega⟩
      have hpos' : (Access.video (s.text.cursorRow * 160 + s.text.cursorCol * 2 + 1)).InScreen :=
        .inl ⟨by omega, by omega⟩
      exact .cons hline (.cons hline (.cons hcell (.cons hline (.cons hcell
        (.cons hpos' (.cons hpos h.log))))))
    rw [if_pos hroom]
    apply sound_view
    · rw [advanceCol_eq, edit_text, storeGlyph_text]
      exact writeCell_reaches h.inRange c _ (by omega)
    · rw [advanceCol_eq, edit_log]
      unfold growLine
      split_ifs
      · exact .cons hline hstore
      · exact hstore
  · rw [if_neg hroom]
    exact h

theorem backspace_row {t : TextBuffer} (hcol : t.cursorCol > 0) :
    t.backspace.cursorRow = t.cursorRow := by
  rw [TextBuffer.backspace, if_pos (.inl hcol), if_neg (by omega), TextBuffer.stepBack, if_pos hcol]
  rfl

theorem uint8_pred {n : Int} (h : 1 ≤ n ∧ n ≤ 79) : uint8 (n - 1) = n - 1 := by
  rw [uint8]
  omega

theorem backspace_inside {t : TextBuffer} (h : InRange t) (hcol : t.cursorCol > 0) :
    Reaches t.backspace := by
  have hrow := h.row
  have hc := h.col
  have hcl := h.cursorLine
  have hold := h.lineSize _ hcl.1 hcl.2
  have hclamp := h.clamp
  have hu := uint8_pred (n := (t.buffer t.cursorLine).size) (by omega)
  rw [TextBuffer.backspace, if_pos (.inl hcol), if_neg (by omega), TextBuffer.stepBack, if_pos hcol]
  refine h.edit (i := t.cursorLine) (r := t.cursorRow) (n := t.size) (k := t.cursorCol - 1)
    (f := fun l => { l with size := uint8 (l.size - 1) }) (by omega) hcl.1 h.line h.size ?_ (by omega)
    (.inr ?_)
  · show 0 ≤ uint8 ((t.buffer t.cursorLine).size - 1) ∧
      uint8 ((t.buffer t.cursorLine).size - 1) ≤ 79
    omega
  · show t.cursorCol - 1 ≤ ((t.shrinkLine t.cursorLine).buffer t.cursorLine).size
    rw [TextBuffer.shrinkLine, setLine_self]
    show t.cursorCol - 1 ≤ uint8 ((t.buffer t.cursorLine).size - 1)
    omega

theorem dropLine_eq (t : TextBuffer) (hl : t.cursorLine < t.size) :
    ∃ n, t.dropLine = { t with size := n } ∧ t.cursorLine ≤ n ∧ n ≤ t.size := by
  unfold TextBuffer.dropLine
  split_ifs with h
  · exact ⟨t.size - 1, rfl, by omega, by omega⟩
  · exact ⟨t.size, rfl, by omega, Int.le_refl _⟩

/-- The cursor goes to the end of the line before, which is not full. -/
theorem join_short {t : TextBuffer} (h : InRange t) {n : Int} (hl : t.cursorLine > 0)
    (hn : t.cursorLine ≤ n ∧ n ≤ 4096) (hk : (t.buffer (t.cursorLine - 1)).size < 79) :
    Reaches { t with
      size := n, cursorRow := t.cursorRow - 1,
      cursorCol := (t.buffer (t.cursorLine - 1)).size } := by
  have hrow := h.row
  have hcl := h.cursorLine
  have hprev := h.lineSize (t.cursorLine - 1) (by omega) (by omega)
  have hcursor : t.cursorRow - 1 + t.frameRowPointer = t.cursorLine - 1 := by
    rw [TextBuffer.cursorLine]
    omega
  exact {
    row := by show -1 ≤ t.cursorRow - 1 ∧ t.cursorRow - 1 ≤ 25; omega
    col := ⟨hprev.1, hk⟩
    top := h.top
    nonneg := by show 0 ≤ t.cursorRow - 1 + t.frameRowPointer; omega
    line := by show t.cursorRow - 1 + t.frameRowPointer < n; omega
    size := hn.2
    lineSize := h.lineSize
    clamp := by
      show (t.buffer (t.cursorLine - 1)).size ≤
        (t.buffer (t.cursorRow - 1 + t.frameRowPointer)).size
      exact Int.le_of_eq (by rw [hcursor]) }

theorem join_full {t : TextBuffer} (h : InRange t) {n : Int} (hl : t.cursorRow > 0)
    (hn : t.cursorLine ≤ n ∧ n ≤ 4096) (hk : (t.buffer (t.cursorLine - 1)).size ≥ 79) :
    Reaches { t.shrinkLine (t.cursorLine - 1) with
      size := n, cursorRow := t.cursorRow - 1, cursorCol := 78 } := by
  have hrow := h.row
  have hcl := h.cursorLine
  have htop := h.top
  have hcursor : t.cursorRow - 1 + t.frameRowPointer = t.cursorLine - 1 := by
    rw [TextBuffer.cursorLine]
    omega
  have hprev := h.lineSize (t.cursorLine - 1) (by omega) (by omega)
  have hu := uint8_pred (n := (t.buffer (t.cursorLine - 1)).size) (by omega)
  refine h.edit (i := t.cursorLine - 1) (r := t.cursorRow - 1) (n := n) (k := 78)
    (f := fun l => { l with size := uint8 (l.size - 1) }) (by omega) (by omega) (by omega) hn.2 ?_
    (by omega) (.inr ?_)
  · show 0 ≤ uint8 ((t.buffer (t.cursorLine - 1)).size - 1) ∧
      uint8 ((t.buffer (t.cursorLine - 1)).size - 1) ≤ 79
    omega
  · rw [hcursor, setLine_self]
    show 78 ≤ uint8 ((t.buffer (t.cursorLine - 1)).size - 1)
    omega

theorem Reaches.inRange {t : TextBuffer} (h : Reaches t)
    (hrow : 0 ≤ t.cursorRow ∧ t.cursorRow < 25) : InRange t :=
  scroll_eq hrow ▸ h.scroll

theorem scroll_lineEnd {t : TextBuffer} (h : -1 ≤ t.cursorRow ∧ t.cursorRow ≤ 25) :
    t.scroll.lineEnd = t.lineEnd.scroll := by
  obtain ⟨-, hbuffer, -⟩ := scroll_kept t
  have hcol : (t.scroll.buffer t.scroll.cursorLine).size = (t.buffer t.cursorLine).size := by
    rw [hbuffer, scroll_cursorLine h]
  simp only [TextBuffer.lineEnd, hcol]
  exact (Reaches.scroll_col t _).symm

section Join

variable {t : TextBuffer} {n : Int}

theorem joinShort_sound (h : InRange t) (ht : s.text = { t with size := n })
    (hlog : LogInScreen s.log) (hl : t.cursorLine > 0) (hn : t.cursorLine ≤ n ∧ n ≤ 4096)
    (hk : ¬ (t.buffer (t.cursorLine - 1)).size ≥ 79) : Sound s.joinLine.lineEnd := by
  have hrow := h.row
  have hcl := h.cursorLine
  have hjoin := join_short h hl hn (by omega)
  have hcursor : t.cursorRow - 1 + t.frameRowPointer = t.cursorLine - 1 := by
    rw [TextBuffer.cursorLine]
    omega
  have hprev : (Access.line (t.cursorLine - 1)).InScreen := .inl ⟨by omega, by omega⟩
  have hrow' : -1 ≤ t.cursorRow - 1 ∧ t.cursorRow - 1 ≤ 25 := by
    omega
  have heq : s.joinLine =
      ((s.touch (.line (t.cursorLine - 1))).edit fun t =>
        { t with cursorRow := t.cursorRow - 1 }).newFrameBufferView true := by
    rw [joinLine, if_neg]
    · rw [ht]
      rfl
    · rw [ht]
      exact hk
  have hup : ((s.touch (.line (t.cursorLine - 1))).edit fun t =>
      { t with cursorRow := t.cursorRow - 1 }).text =
        { t with size := n, cursorRow := t.cursorRow - 1 } := by
    rw [edit_text, touch_text, ht]
  have hend : ({ t with size := n, cursorRow := t.cursorRow - 1 } : TextBuffer).lineEnd =
      { t with
        size := n, cursorRow := t.cursorRow - 1,
        cursorCol := (t.buffer (t.cursorLine - 1)).size } := by
    rw [← hcursor]
    rfl
  rw [heq]
  refine ⟨?_, .cons (.inl ?_) (Reaches.view_log (k := (t.buffer (t.cursorLine - 1)).size) ?_
    (.cons hprev hlog) true)⟩
  · rw [lineEnd, edit_text, touch_text, view_text, hup, scroll_lineEnd hrow', hend]
    exact hjoin.scroll
  · rw [view_text, hup, scroll_cursorLine hrow']
    show 0 ≤ t.cursorRow - 1 + t.frameRowPointer ∧ t.cursorRow - 1 + t.frameRowPointer < 4096
    omega
  · rw [hup]
    exact hjoin

theorem joinLine_full (hcol : t.cursorCol = 0) (hl : t.cursorRow > 0)
    (hk : (t.buffer (t.cursorLine - 1)).size ≥ 79) : { t with size := n }.joinLine =
    { t.shrinkLine (t.cursorLine - 1) with
      size := n, cursorRow := t.cursorRow - 1, cursorCol := 79 } := by
  refine (if_pos hk).trans ((if_neg ?_).trans (if_pos hl))
  show ¬ t.cursorCol > 0
  omega

theorem joinLine_full_end (hcol : t.cursorCol = 0) (hl : t.cursorRow > 0)
    (hk : (t.buffer (t.cursorLine - 1)).size = 79) : { t with size := n }.joinLine.lineEnd =
    { t.shrinkLine (t.cursorLine - 1) with
      size := n, cursorRow := t.cursorRow - 1, cursorCol := 78 } := by
  have hcursor : t.cursorRow - 1 + t.frameRowPointer = t.cursorLine - 1 := by
    rw [TextBuffer.cursorLine]
    omega
  have h78 : uint8 ((t.buffer (t.cursorLine - 1)).size - 1) = 78 := by
    rw [uint8_pred (by omega)]
    omega
  have hcol' : ((t.shrinkLine (t.cursorLine - 1)).buffer
      (t.cursorRow - 1 + t.frameRowPointer)).size = 78 := by
    rw [hcursor, TextBuffer.shrinkLine, setLine_self, ← h78]
  rw [joinLine_full hcol hl (by omega), ← hcol']
  rfl

theorem blankBefore_start (hcol : s.text.cursorCol = 0) : s.blankBefore =
    (s.setVideo (160 * s.text.cursorRow - 2) 0x00).setVideo (160 * s.text.cursorRow - 1) 0x07 := by
  have hpos : 160 * s.text.cursorRow + (s.text.cursorCol.tmod 80 - 1) * 2 =
      160 * s.text.cursorRow - 2 := by
    rw [hcol]
    exact rfl
  have hpos' : 160 * s.text.cursorRow - 2 + 1 = 160 * s.text.cursorRow - 1 := by
    omega
  simp only [blankBefore, hpos, hpos']

theorem joinFull_sound (h : InRange t) (ht : s.text = { t with size := n })
    (hlog : LogInScreen s.log) (hcol : t.cursorCol = 0) (hl : t.cursorRow > 0)
    (hn : t.cursorLine ≤ n ∧ n ≤ 4096) (hk : (t.buffer (t.cursorLine - 1)).size ≥ 79) :
    Sound s.joinLine.lineEnd := by
  have hrow := h.row
  have hcl := h.cursorLine
  have htop := h.top
  have hcursor : t.cursorRow + t.frameRowPointer = t.cursorLine := rfl
  have hline : (Access.line (t.cursorLine - 1)).InScreen := .inl ⟨by omega, by omega⟩
  have hold := h.lineSize (t.cursorLine - 1) (by omega) (by omega)
  have hjoin := (join_full h hl hn hk).inRange
    (by show 0 ≤ t.cursorRow - 1 ∧ t.cursorRow - 1 < 25; omega)
  have heq : s.joinLine = (((s.touch (.line (t.cursorLine - 1))).writeLine (t.cursorLine - 1)
      fun l => { l with size := uint8 (l.size - 1) }).blankBefore).edit TextBuffer.stepBack := by
    rw [joinLine, if_pos, framebufferErase_eq]
    · rw [ht]
      rfl
    · rw [ht]
      exact hk
  refine ⟨?_, .cons (.inl ?_) ?_⟩
  · rw [lineEnd, edit_text, touch_text, joinLine_text, ht, joinLine_full_end hcol hl (by omega)]
    exact hjoin
  · rw [joinLine_text, ht, joinLine_full hcol hl hk]
    show 0 ≤ t.cursorRow - 1 + t.frameRowPointer ∧ t.cursorRow - 1 + t.frameRowPointer < 4096
    omega
  · rw [heq, edit_log, blankBefore_start (by rw [writeLine_text, touch_text, ht]; exact hcol)]
    simp only [setVideo_log, writeLine_log, touch_log, writeLine_text, touch_text, ht,
      setLine_cursorRow]
    exact .cons (.inl ⟨by omega, by omega⟩) (.cons (.inl ⟨by omega, by omega⟩)
      (.cons hline (.cons hline hlog)))

end Join

theorem sound_join (h : Sound s) (hcol : s.text.cursorCol = 0) (hl : s.text.cursorLine > 0)
    (hk : s.text.cursorRow = 0 → (s.text.buffer (s.text.cursorLine - 1)).size < 79) :
    Sound s.handleBackspace := by
  have hi := h.inRange
  have hsize := hi.size
  have hline : (Access.line s.text.cursorLine).InScreen := .inl hi.cursorLine
  obtain ⟨n, hdrop, hn⟩ := dropLine_eq s.text hi.line
  have hn' : s.text.cursorLine ≤ n ∧ n ≤ 4096 := ⟨hn.1, by omega⟩
  have hlog : LogInScreen s.dropLine.log := by
    unfold dropLine
    split_ifs
    · exact .cons hline h.log
    · exact .cons hline h.log
  have htext : s.dropLine.text = { s.text with size := n } := by
    rw [dropLine_text, hdrop]
  have hrow := hi.row
  rw [handleBackspace_start s hcol hl]
  by_cases hfull : (s.text.buffer (s.text.cursorLine - 1)).size ≥ 79
  · have hpos : s.text.cursorRow > 0 := by
      by_contra hr
      have hshort := hk (by omega)
      omega
    exact joinFull_sound hi htext hlog hcol hpos hn' hfull
  · exact joinShort_sound hi htext hlog hl hn' hfull

theorem Sound.backspace (h : Sound s)
    (hk : s.text.cursorCol = 0 → s.text.cursorRow = 0 → s.text.cursorLine > 0 →
      (s.text.buffer (s.text.cursorLine - 1)).size < 79) : Sound s.handleBackspace := by
  have hi := h.inRange
  have hcol := hi.col
  have hrow := hi.row
  by_cases h0 : s.text.cursorCol = 0
  · by_cases hl : s.text.cursorLine > 0
    · exact sound_join h h0 hl fun hr => hk h0 hr hl
    · have hno : ¬ (s.text.cursorCol > 0 ∨ s.text.cursorLine > 0) := by
        omega
      unfold handleBackspace
      rw [if_neg hno]
      exact h
  · have hpos : s.text.cursorCol > 0 := by
      omega
    have hinside := backspace_inside hi hpos
    refine ⟨?_, ?_⟩
    · rw [handleBackspace_text s hcol.1]
      apply hinside.inRange
      rw [backspace_row hpos]
      exact hrow
    · have hmod : s.text.cursorCol.tmod 80 = s.text.cursorCol := by
        rw [Int.tmod_eq_emod_of_nonneg hcol.1]
        omega
      have hline : (Access.line s.text.cursorLine).InScreen := .inl hi.cursorLine
      have hstay : s.framebufferErase.text.cursorLine = s.text.cursorLine := by
        rw [framebufferErase_eq, edit_text, TextBuffer.stepBack, if_pos]
        · rfl
        · exact hpos
      rw [handleBackspace_inside s hpos, writeLine_log, hstay, framebufferErase_eq, edit_log]
      simp only [blankBefore, setVideo_log, hmod]
      exact .cons hline (.cons (.inl ⟨by omega, by omega⟩) (.cons (.inl ⟨by omega, by omega⟩) h.log))

theorem Sound.putChar (h : Sound s) {c : UInt8} (fg bg : UInt8)
    (hk : c ≠ Console.newline → c ≠ carriageReturn → s.text.cursorCol = 78 →
      s.text.cursorLine < 4095 → s.text.size < 4096) : Sound (s.putChar c fg bg) := by
  by_cases hn : c = Console.newline
  · rw [hn]
    exact h.newline fg bg
  · by_cases hr : c = carriageReturn
    · have heq : s.putChar c fg bg = s := by
        unfold Console.putChar
        rw [if_neg hn, if_neg (not_not.mpr hr), ite_self]
      rw [heq]
      exact h
    · exact h.glyph fg bg hn hr (hk hn hr)

theorem Sound.step (h : Sound s) {c : UInt8} (fg bg : UInt8) (hk : StaysInRange s.text c) :
    Sound (s.handleNewChar c fg bg) := by
  have hcl := h.inRange.cursorLine
  unfold handleNewChar
  rw [if_pos (show s.text.cursorLine < bufferMaxHeight from hcl.2)]
  by_cases h0 : c = 0
  · rw [if_pos h0]
    exact h
  rw [if_neg h0]
  by_cases hn : c = Console.newline
  · rw [if_pos hn]
    exact h.putChar fg bg fun hne => absurd hn hne
  rw [if_neg hn]
  by_cases hb : c = Console.backspace
  · rw [if_neg (not_not.mpr hb)]
    exact h.backspace (hk.erase hb)
  rw [if_pos hb]
  by_cases hu : c = Console.arrowUp
  · rw [if_pos hu]
    exact h.arrowUp
  rw [if_neg hu]
  by_cases hd : c = Console.arrowDown
  · rw [if_pos hd]
    exact h.arrowDown
  rw [if_neg hd]
  by_cases hl : c = Console.arrowLeft
  · rw [if_pos hl]
    exact h.arrowLeft (hk.left hl)
  rw [if_neg hl]
  by_cases hri : c = Console.arrowRight
  · rw [if_pos hri]
    exact h.arrowRight (hk.right hri)
  rw [if_neg hri]
  exact h.putChar fg bg fun _ hr => hk.wrap h0 hn hb hr hu hd hl hri

end Handlers

/-- The byte leaves the view as it is, so that nothing is drawn anew. -/
structure NoRedraw (t : TextBuffer) (c : UInt8) : Prop where
  open_line : c = newline → t.cursorLine ≥ 4095
  erase : c = backspace → t.cursorCol = 0 → t.cursorLine > 0 →
    (t.buffer (t.cursorLine - 1)).size ≥ 79
  up : c = arrowUp → t.cursorLine > 0 → t.cursorRow > 0
  down : c = arrowDown → t.cursorLine < t.size - 1 → t.cursorRow < 24
  left : c = arrowLeft → t.cursorCol = 0 → t.cursorLine > 0 → t.cursorRow > 0
  right : c = arrowRight → t.cursorCol ≥ (t.buffer t.cursorLine).size →
    t.cursorLine < t.size - 1 → t.cursorRow < 24
  wrap : c ≠ 0 → c ≠ newline → c ≠ backspace → c ≠ carriageReturn → c ≠ arrowUp → c ≠ arrowDown →
    c ≠ arrowLeft → c ≠ arrowRight → t.cursorCol = 78 → t.cursorLine < 4095 → t.cursorRow < 24

/-- `framebuffer_clear` stored nothing. -/
def Unclear (log : List Access) : Prop := ∀ pos, .clear pos ∉ log

theorem view_still {s : Console} (h : 0 ≤ s.text.cursorRow ∧ s.text.cursorRow < 25) :
    s.newFrameBufferView false = s := by
  rw [view_eq, if_neg]
  simp only [Bool.false_eq_true, or_false]
  omega

section Still

variable {s : Console}

@[simp] theorem unclear_cons {a : Access} {log : List Access} :
    Unclear (a :: log) ↔ (∀ pos, a ≠ .clear pos) ∧ Unclear log := by
  simp only [Unclear, List.mem_cons, not_or, forall_and, ne_comm, ne_eq]

theorem unclear_putChar (hi : InRange s.text) {c : UInt8} (fg bg : UInt8) (hc : c ≠ newline)
    (hk : c ≠ carriageReturn → s.text.cursorCol = 78 → s.text.cursorLine < 4095 →
      s.text.cursorRow < 24) (h : Unclear s.log) : Unclear (s.putChar c fg bg).log := by
  have hrow := hi.row
  have hcol := hi.col
  by_cases hr : c = carriageReturn
  · unfold putChar
    rw [if_neg hc, if_neg (not_not.mpr hr), ite_self]
    exact h
  rw [putChar_glyph s c fg bg hi.cursorLine.2 hc hr]
  by_cases hroom : s.text.cursorCol + 1 < 79 ∨ s.text.cursorLine < 4095
  · have hview : 0 ≤ (s.text.writeCell c (bg <<< 4 ||| fg)).advance.cursorRow ∧
        (s.text.writeCell c (bg <<< 4 ||| fg)).advance.cursorRow < 25 := by
      by_cases hw : s.text.cursorCol + 1 ≥ 79
      · have hlow := hk hr (by omega) (by omega)
        rw [advance_wrap (t := s.text.writeCell c _) hw]
        show 0 ≤ s.text.cursorRow + 1 ∧ s.text.cursorRow + 1 < 25
        omega
      · rw [advance_step (t := s.text.writeCell c _) (by show s.text.cursorCol + 1 < 79; omega)]
        exact hrow
    rw [if_pos hroom, advanceCol_eq, view_still, edit_log]
    · unfold growLine
      split_ifs
      · simpa [storeGlyph] using h
      · simpa [storeGlyph] using h
    · rw [edit_text, storeGlyph_text]
      exact hview
  · rw [if_neg hroom]
    exact h

theorem unclear_backspace (hi : InRange s.text)
    (hk : s.text.cursorCol = 0 → s.text.cursorLine > 0 →
      (s.text.buffer (s.text.cursorLine - 1)).size ≥ 79)
    (h : Unclear s.log) : Unclear s.handleBackspace.log := by
  have hcol := hi.col
  by_cases h0 : s.text.cursorCol = 0
  · by_cases hl : s.text.cursorLine > 0
    · have hdrop : Unclear s.dropLine.log := by
        unfold dropLine
        split_ifs
        · simpa using h
        · simpa using h
      obtain ⟨n, hn, -⟩ := dropLine_eq s.text hi.line
      have hfull : (s.dropLine.text.buffer (s.dropLine.text.cursorLine - 1)).size ≥ 79 := by
        rw [dropLine_text, hn]
        exact hk h0 hl
      rw [handleBackspace_start s h0 hl, joinLine, if_pos hfull, framebufferErase_eq]
      simpa [lineEnd, blankBefore] using hdrop
    · have hno : ¬ (s.text.cursorCol > 0 ∨ s.text.cursorLine > 0) := by
        omega
      unfold handleBackspace
      rw [if_neg hno]
      exact h
  · rw [handleBackspace_inside s (by omega), framebufferErase_eq]
    simpa [blankBefore] using h

theorem clampCol_still {u : Console} (hrow : 0 ≤ u.text.cursorRow ∧ u.text.cursorRow < 25)
    (h : Unclear u.log) : Unclear (u.clampCol.newFrameBufferView false).log := by
  have hrow' : 0 ≤ u.clampCol.text.cursorRow ∧ u.clampCol.text.cursorRow < 25 := hrow
  rw [view_still hrow']
  simpa [clampCol] using h

theorem unclear_arrowUp (hi : InRange s.text) (hk : s.text.cursorLine > 0 → s.text.cursorRow > 0)
    (h : Unclear s.log) : Unclear s.handleArrowUp.log := by
  have hrow := hi.row
  unfold handleArrowUp
  split_ifs with hl
  · have hpos := hk hl
    apply clampCol_still
    · show 0 ≤ s.text.cursorRow - 1 ∧ s.text.cursorRow - 1 < 25
      omega
    · exact h
  · exact h

theorem unclear_arrowDown (hi : InRange s.text)
    (hk : s.text.cursorLine < s.text.size - 1 → s.text.cursorRow < 24)
    (h : Unclear s.log) : Unclear s.handleArrowDown.log := by
  have hrow := hi.row
  unfold handleArrowDown
  split_ifs with hl
  · have hlow := hk hl
    apply clampCol_still
    · show 0 ≤ s.text.cursorRow + 1 ∧ s.text.cursorRow + 1 < 25
      omega
    · exact h
  · exact h

theorem unclear_arrowLeft (hi : InRange s.text)
    (hk : s.text.cursorCol = 0 → s.text.cursorLine > 0 → s.text.cursorRow > 0)
    (h : Unclear s.log) : Unclear s.handleArrowLeft.log := by
  have hrow := hi.row
  have hcol := hi.col
  unfold handleArrowLeft
  dsimp only
  split_ifs with hc hl
  · have hc' : s.text.cursorCol - 1 < 0 := hc
    have hpos := hk (by omega) hl
    rw [view_still]
    · simpa using h
    · show 0 ≤ s.text.cursorRow - 1 ∧ s.text.cursorRow - 1 < 25
      omega
  · exact h
  · exact h

theorem unclear_arrowRight (hi : InRange s.text)
    (hk : s.text.cursorCol ≥ (s.text.buffer s.text.cursorLine).size →
      s.text.cursorLine < s.text.size - 1 → s.text.cursorRow < 24)
    (h : Unclear s.log) : Unclear s.handleArrowRight.log := by
  have hrow := hi.row
  unfold handleArrowRight
  dsimp only
  split_ifs with hn
  · have hn' : s.text.cursorCol + 1 > (s.text.buffer s.text.cursorLine).size ∧
        s.text.cursorLine < s.text.size - 1 := hn
    have hlow := hk (by omega) hn'.2
    rw [view_still]
    · simpa using h
    · show 0 ≤ s.text.cursorRow + 1 ∧ s.text.cursorRow + 1 < 25
      omega
  · simpa using h
  · simpa using h

theorem unclear_step (hi : InRange s.text) {c : UInt8} (fg bg : UInt8) (hk : NoRedraw s.text c)
    (h : Unclear s.log) : Unclear (s.handleNewChar c fg bg).log := by
  unfold handleNewChar
  split_ifs with h0 hl hn hb hu hd hle hr
  · exact h
  · have hlast := hk.open_line hn
    rw [hn, putChar_last s fg bg (by omega)]
    exact h
  · exact unclear_arrowUp hi (hk.up hu) h
  · exact unclear_arrowDown hi (hk.down hd) h
  · exact unclear_arrowLeft hi (hk.left hle) h
  · exact unclear_arrowRight hi (hk.right hr) h
  · exact unclear_putChar hi fg bg hn (fun hc => hk.wrap h0 hn hb hc hu hd hle hr) h
  · exact unclear_backspace hi (hk.erase (not_not.mp hb)) h
  · exact h

end Still

theorem clearScreen_sound (s : Console) : Sound s.clearScreen := by
  refine ⟨?_, fun a ha => absurd ha List.not_mem_nil⟩
  have h0 : (s.clearScreen.text.buffer s.clearScreen.text.cursorLine).size = 0 :=
    clearScreen_size s (i := 0) (by omega)
  exact {
    row := by show (0 : Int) ≤ 0 ∧ (0 : Int) < 25; omega
    col := by show (0 : Int) ≤ 0 ∧ (0 : Int) < 79; omega
    top := Int.le_refl 0
    line := by show (0 : Int) + 0 < 1; omega
    size := by show (1 : Int) ≤ 4096; omega
    lineSize := by
      intro i h0 hi
      rw [clearScreen_size s ⟨h0, hi⟩]
      omega
    clamp := by
      rw [h0]
      exact Int.le_refl 0 }

theorem sound_keys {s t : Console} {ks : List Key} (h : Run (KeyStep StaysInRange) s ks t)
    (hs : Sound s) : Sound t := by
  apply h.invariant _ hs
  rintro u k v hu ⟨hk, rfl⟩
  exact hu.step k.fg k.bg hk

/-- While no key breaks an index every access but those of `framebuffer_clear` is in bounds,
and while none draws the view anew those are too. -/
theorem keys_in_range (s₀ s : Console) (ks : List Key) :
    (Run (KeyStep StaysInRange) s₀.clearScreen ks s →
      InRange s.text ∧ ∀ a ∈ s.log, a.InBounds ∨ ∃ pos, a = .clear pos) ∧
    (Run (KeyStep fun t c => StaysInRange t c ∧ NoRedraw t c) s₀.clearScreen ks s →
      InRange s.text ∧ ∀ a ∈ s.log, a.InBounds) := by
  refine ⟨fun h => ?_, fun h => ?_⟩
  · have hs := sound_keys h (clearScreen_sound s₀)
    exact ⟨hs.inRange, hs.log⟩
  · have hs : Sound s ∧ Unclear s.log := by
      apply h.invariant (P := fun s => Sound s ∧ Unclear s.log) _
        ⟨clearScreen_sound s₀, fun pos => List.not_mem_nil⟩
      rintro u k v ⟨hu, hlog⟩ ⟨⟨hk, hstill⟩, rfl⟩
      exact ⟨hu.step k.fg k.bg hk, unclear_step hu.inRange k.fg k.bg hstill hlog⟩
    refine ⟨hs.1.inRange, fun a ha => ?_⟩
    rcases hs.1.log a ha with hin | ⟨pos, rfl⟩
    · exact hin
    · exact absurd ha (hs.2 pos)

section Kept

variable {t : TextBuffer} {c : UInt8}

theorem staysInRange_glyph (hg : Glyph c) (h : t.size < 4096) : StaysInRange t c where
  left hc := absurd hc hg.arrowLeft
  right hc := absurd hc hg.arrowRight
  erase hc := absurd hc hg.backspace
  wrap _ _ _ _ _ _ _ _ _ _ := h

theorem staysInRange_newline (t : TextBuffer) : StaysInRange t newline where
  left hc := absurd hc (by decide)
  right hc := absurd hc (by decide)
  erase hc := absurd hc (by decide)
  wrap _ hc := absurd rfl hc

theorem staysInRange_backspace (h : t.cursorRow ≠ 0) : StaysInRange t backspace where
  left hc := absurd hc (by decide)
  right hc := absurd hc (by decide)
  erase _ _ hrow := absurd hrow h
  wrap _ _ hc := absurd rfl hc

theorem noRedraw_glyph (hg : Glyph c) (h : t.cursorRow < 24) : NoRedraw t c where
  open_line hc := absurd hc hg.newline
  erase hc := absurd hc hg.backspace
  up hc := absurd hc hg.arrowUp
  down hc := absurd hc hg.arrowDown
  left hc := absurd hc hg.arrowLeft
  right hc := absurd hc hg.arrowRight
  wrap _ _ _ _ _ _ _ _ _ _ := h

theorem noRedraw_backspace (h : (t.buffer (t.cursorLine - 1)).size ≥ 79) : NoRedraw t backspace where
  open_line hc := absurd hc (by decide)
  erase _ _ _ := h
  up hc := absurd hc (by decide)
  down hc := absurd hc (by decide)
  left hc := absurd hc (by decide)
  right hc := absurd hc (by decide)
  wrap _ _ hc := absurd rfl hc

end Kept

/-- A line that fills up, with a newline and a backspace behind it or a backspace onto the full
line. -/
theorem keys_in_range_wrap :
    let s := (default : Console).clearScreen.handleKeys (List.replicate 79 ⟨0x61, 0x0F, 0⟩)
    InRange ((s.handleKey ⟨newline, 0x0F, 0⟩).handleKey ⟨backspace, 0x0F, 0⟩).text ∧
      InRange (s.handleKey ⟨backspace, 0x0F, 0⟩).text ∧
      ∀ a ∈ (s.handleKey ⟨backspace, 0x0F, 0⟩).log, a.InBounds := by
  intro s
  have hg : Glyph (Key.c ⟨0x61, 0x0F, 0⟩) := by
    constructor <;> decide
  have hsize : (1 : Int) < 4096 := by
    decide
  have hrow : (0 : Int) < 24 := by
    decide
  have hfill := run_fill default hg fun _ _ _ => staysInRange_glyph hg hsize
  have hfill' := run_fill default hg (P := fun t c => StaysInRange t c ∧ NoRedraw t c)
    fun _ _ _ => ⟨staysInRange_glyph hg hsize, noRedraw_glyph hg hrow⟩
  obtain ⟨b, ht, hb⟩ := clearScreen_wrap default hg
  have hs : (default : Console).clearScreen.handleKeys (List.replicate 79 ⟨0x61, 0x0F, 0⟩) = s := rfl
  rw [hs] at hfill hfill' ht
  clear_value s
  have hnewline : (s.handleKey ⟨newline, 0x0F, 0⟩).text.cursorRow = 2 := by
    have hline : s.text.cursorLine < bufferMaxHeight := by
      rw [ht]
      exact (by decide : (1 : Int) + 0 < 4096)
    have hlow : s.text.cursorRow < 25 := by
      rw [ht]
      exact (by decide : (1 : Int) < 25)
    rw [handleKey_newline_text _ _ _ hline hlow, ht]
    rfl
  have hfull : (s.text.buffer (s.text.cursorLine - 1)).size ≥ 79 := by
    rw [ht]
    exact Int.le_of_eq hb.symm
  have hbreaks := (hfill.snoc (e := ⟨newline, 0x0F, 0⟩) ⟨staysInRange_newline _, rfl⟩).snoc
    (e := ⟨backspace, 0x0F, 0⟩) ⟨staysInRange_backspace (by rw [hnewline]; decide), rfl⟩
  have herases := hfill'.snoc (e := ⟨backspace, 0x0F, 0⟩)
    ⟨⟨staysInRange_backspace (by rw [ht]; exact Int.one_ne_zero), noRedraw_backspace hfull⟩, rfl⟩
  exact ⟨((keys_in_range _ _ _).1 hbreaks).1, (keys_in_range _ _ _).2 herases⟩

theorem arrowLeft_full {s : Console} {b : Int → LineBuffer}
    (ht : s.text = { size := 2, buffer := b, cursorRow := 1, cursorCol := 0, frameRowPointer := 0 })
    (fg bg : UInt8) : (s.handleNewChar arrowLeft fg bg).text.cursorCol = (b 0).size := by
  have hline : s.text.cursorLine < bufferMaxHeight := by
    rw [ht]
    show (1 : Int) + 0 < 4096
    omega
  have hstep : s.handleNewChar arrowLeft fg bg = s.handleArrowLeft := by
    unfold handleNewChar
    rw [if_neg (by decide), if_pos hline, if_neg (by decide), if_pos (by decide),
      if_neg (by decide), if_neg (by decide), if_pos rfl]
  have hcol : (s.edit fun t => { t with cursorCol := t.cursorCol - 1 }).text.cursorCol < 0 := by
    rw [edit_text, ht]
    show (0 : Int) - 1 < 0
    omega
  have hup : (s.edit fun t => { t with cursorCol := t.cursorCol - 1 }).text.cursorLine > 0 := by
    rw [edit_text, ht]
    show (1 : Int) + 0 > 0
    omega
  rw [hstep]
  unfold handleArrowLeft
  dsimp only
  rw [if_pos hcol, if_pos hup, view_text, scroll_eq]
  · simp only [edit_text, touch_text, ht]
    rfl
  · simp only [edit_text, touch_text, ht]
    omega

theorem left_onto_full_line :
    ((default : Console).clearScreen.handleKeys
        (List.replicate 79 ⟨0x61, 0x0F, 0⟩ ++ [⟨arrowLeft, 0x0F, 0⟩])).text.cursorCol = 79 ∧
      ¬ InRange ((default : Console).clearScreen.handleKeys
        (List.replicate 79 ⟨0x61, 0x0F, 0⟩ ++ [⟨arrowLeft, 0x0F, 0⟩])).text := by
  obtain ⟨b, ht, hb⟩ := clearScreen_wrap default (k := ⟨0x61, 0x0F, 0⟩) (by constructor <;> decide)
  rw [handleKeys_snoc]
  generalize (default : Console).clearScreen.handleKeys
    (List.replicate 79 ⟨0x61, 0x0F, 0⟩) = u at ht ⊢
  have hcol := (arrowLeft_full ht 0x0F 0).trans hb
  exact ⟨hcol, fun h => Int.ne_of_lt h.col.2 hcol⟩

end Doors.Console
