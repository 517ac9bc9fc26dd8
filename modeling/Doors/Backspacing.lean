import Doors.ConsoleBounds

/-! Typing at the end of the text and erasing again. The keys typed so far are one number,
which gives the rows that are full, the column of the cursor and how far the view may have
moved; a backspace takes that number back by one. -/

namespace Doors.Console

/-- The cursor stands at the end of the last line, which is not full. -/
structure AtLastLine (t : TextBuffer) : Prop where
  row : 0 ≤ t.cursorRow ∧ t.cursorRow < 25
  line : 0 ≤ t.cursorLine ∧ t.cursorLine < 4096
  last : t.size = t.cursorLine + 1
  col_eq : t.cursorCol = (t.buffer t.cursorLine).size
  room : (t.buffer t.cursorLine).size < 79
  lineSize : ∀ i, 0 ≤ i → i < 4096 → 0 ≤ (t.buffer i).size ∧ (t.buffer i).size ≤ 79
  after : ∀ i, t.cursorLine < i → i < 4096 → (t.buffer i).size = 0

/-- The text and the cursor are those of `t₀`; the view may differ. -/
structure Restores (t₀ t : TextBuffer) : Prop where
  size : t.size = t₀.size
  lineSize : ∀ i, 0 ≤ i → i < 4096 → (t.buffer i).size = (t₀.buffer i).size
  stored : ∀ i j, 0 ≤ i → i < 4096 → 0 ≤ j → j < (t₀.buffer i).size →
    (t.buffer i).lineBuf j = (t₀.buffer i).lineBuf j ∧
      (t.buffer i).colorBuf j = (t₀.buffer i).colorBuf j
  cursorLine : t.cursorLine = t₀.cursorLine
  cursorCol : t.cursorCol = t₀.cursorCol

def Printable (c : UInt8) : Prop := 0x20 ≤ c ∧ c ≤ 0x7E

/-- The size of the `k`-th line below the first when `p` characters are laid out from there. -/
def filled (p k : Int) : Int := max 0 (min 79 (p - 79 * k))

/-- The text of `t₀` with its last line continued to `p` characters. -/
structure TypedTo (t₀ t : TextBuffer) (p : Int) : Prop where
  row : p / 79 ≤ t.cursorRow ∧ t.cursorRow < 25
  line : t.cursorLine = t₀.cursorLine + p / 79
  col : t.cursorCol = p % 79
  size : t.size = t₀.size + p / 79
  before : ∀ i, i < t₀.cursorLine → (t.buffer i).size = (t₀.buffer i).size
  after : ∀ i, t₀.cursorLine ≤ i → i < 4096 →
    (t.buffer i).size = filled p (i - t₀.cursorLine)
  stored : ∀ i j, 0 ≤ i → i < 4096 → j < (t₀.buffer i).size →
    (t.buffer i).lineBuf j = (t₀.buffer i).lineBuf j ∧
      (t.buffer i).colorBuf j = (t₀.buffer i).colorBuf j

variable {t₀ t : TextBuffer} {p : Int}

theorem AtLastLine.typedTo (h : AtLastLine t₀) :
    TypedTo t₀ t₀ t₀.cursorCol := by
  have hrow := h.row
  have hcol := h.col_eq
  have hroom := h.room
  have hsize := h.lineSize _ h.line.1 h.line.2
  have hzero : t₀.cursorCol / 79 = 0 := by omega
  refine ⟨by omega, by omega, by omega, by omega, fun _ _ => rfl, ?_, fun _ _ _ _ _ => ⟨rfl, rfl⟩⟩
  intro i hi h4096
  rw [filled]
  by_cases hlt : t₀.cursorLine < i
  · rw [h.after i hlt h4096]
    omega
  · rw [show i = t₀.cursorLine by omega]
    omega

theorem scroll_row (h : 0 ≤ t.cursorRow ∧ t.cursorRow ≤ 25) :
    t.scroll.cursorRow = min 24 t.cursorRow := by
  unfold TextBuffer.scroll
  split_ifs with h0 h1
  · omega
  · show 24 = min 24 t.cursorRow
    omega
  · omega

/-- The line of the cursor holds `p % 79` characters. -/
theorem TypedTo.cursor_size (h : TypedTo t₀ t p) (hp : 0 ≤ p) (hline : t.cursorLine < 4096) :
    (t.buffer t.cursorLine).size = p % 79 := by
  have hl := h.line
  rw [h.after _ (by omega) hline, filled]
  omega

/-- A character is stored behind those of `t₀`. -/
theorem TypedTo.stored_glyph (h₀ : AtLastLine t₀) (h : TypedTo t₀ t p) (hp : t₀.cursorCol ≤ p)
    (hp0 : 0 ≤ p) (c attr : UInt8) {i j : Int} (hi : 0 ≤ i) (h4096 : i < 4096)
    (hj : j < (t₀.buffer i).size) :
    ((t.writeCell c attr).buffer i).lineBuf j = (t₀.buffer i).lineBuf j ∧
      ((t.writeCell c attr).buffer i).colorBuf j = (t₀.buffer i).colorBuf j := by
  have hcol := h.col
  have hline := h.line
  have hold := h.stored i j hi h4096 hj
  by_cases hcur : i = t.cursorLine
  · have hne : j ≠ t.cursorCol := by
      by_cases hfirst : t₀.cursorLine < i
      · rw [h₀.after i hfirst h4096] at hj
        omega
      · rw [show i = t₀.cursorLine by omega, ← h₀.col_eq] at hj
        omega
    subst hcur
    rw [TextBuffer.writeCell, setLine_self]
    simp only [Function.update_of_ne hne]
    exact hold
  · rw [writeCell_of_ne c attr hcur]
    exact hold

theorem TypedTo.before_glyph (h : TypedTo t₀ t p) (hp0 : 0 ≤ p) (c attr : UInt8) {i : Int}
    (hi : i < t₀.cursorLine) : ((t.writeCell c attr).buffer i).size = (t₀.buffer i).size := by
  have hline := h.line
  rw [writeCell_of_ne c attr (by omega)]
  exact h.before i hi

/-- Only the line of the cursor gets longer. -/
theorem TypedTo.after_glyph (h : TypedTo t₀ t p) (hp0 : 0 ≤ p) (hl : t.cursorLine < 4096)
    (c attr : UInt8) {i : Int} (hi : t₀.cursorLine ≤ i) (h4096 : i < 4096) :
    ((t.writeCell c attr).buffer i).size = filled (p + 1) (i - t₀.cursorLine) := by
  have hline := h.line
  have hcol := h.col
  have hold := h.cursor_size hp0 hl
  rw [filled]
  by_cases hcur : i = t.cursorLine
  · rw [hcur, writeCell_size c attr (by omega)]
    omega
  · have hkept := h.after i hi h4096
    rw [filled] at hkept
    rw [writeCell_of_ne c attr hcur]
    omega

theorem TypedTo.glyph (h₀ : AtLastLine t₀) (h : TypedTo t₀ t p) (hp : t₀.cursorCol ≤ p)
    (hp0 : 0 ≤ p) (hpage : (p + 1) / 79 < 25) (hfit : t₀.cursorLine + (p + 1) / 79 < 4096)
    (c attr : UInt8) : TypedTo t₀ (t.glyph c attr) (p + 1) := by
  have hrow := h.row
  have hline := h.line
  have hcol := h.col
  have hsize := h.size
  have hold := h.cursor_size hp0 (by omega)
  rw [TextBuffer.glyph, if_pos (by omega)]
  by_cases hw : t.cursorCol + 1 ≥ 79
  · have hwrap := advance_wrap (t := t.writeCell c attr) hw
    have hrow' : 0 ≤ (t.writeCell c attr).advance.cursorRow ∧
        (t.writeCell c attr).advance.cursorRow ≤ 25 := by
      rw [hwrap]
      show 0 ≤ t.cursorRow + 1 ∧ t.cursorRow + 1 ≤ 25
      omega
    obtain ⟨hs, hb, hc⟩ := scroll_kept (t.writeCell c attr).advance
    refine ⟨?_, ?_, ?_, ?_, ?_, ?_, ?_⟩
    · rw [scroll_row hrow', hwrap]
      show (p + 1) / 79 ≤ min 24 (t.cursorRow + 1) ∧ min 24 (t.cursorRow + 1) < 25
      omega
    · rw [scroll_cursorLine (by omega), hwrap]
      show t.cursorRow + 1 + t.frameRowPointer = _
      rw [TextBuffer.cursorLine] at hline
      omega
    · rw [hc, hwrap]
      show 0 = (p + 1) % 79
      omega
    · rw [hs, hwrap]
      show t.size + 1 = _
      omega
    · rw [hb, hwrap]
      exact fun i => h.before_glyph hp0 c attr
    · rw [hb, hwrap]
      exact fun i => h.after_glyph hp0 (by omega) c attr
    · rw [hb, hwrap]
      exact fun i j => h.stored_glyph h₀ hp hp0 c attr
  · have hstep := advance_step (t := t.writeCell c attr) (Int.not_le.mp hw)
    have hview : 0 ≤ (t.writeCell c attr).advance.cursorRow ∧
        (t.writeCell c attr).advance.cursorRow < 25 := by
      rw [hstep]
      show 0 ≤ t.cursorRow ∧ t.cursorRow < 25
      omega
    rw [scroll_eq hview, hstep]
    refine ⟨?_, ?_, ?_, ?_, fun i => h.before_glyph hp0 c attr,
      fun i => h.after_glyph hp0 (by omega) c attr, fun i j => h.stored_glyph h₀ hp hp0 c attr⟩
    · show (p + 1) / 79 ≤ t.cursorRow ∧ t.cursorRow < 25
      omega
    · show t.cursorLine = _
      omega
    · show t.cursorCol + 1 = _
      omega
    · show t.size = _
      omega

/-- A backspace at the start of a row takes the last character of the full row above. -/
theorem TypedTo.backspace_wrap (h : TypedTo t₀ t p) (hp0 : 0 ≤ p) (h0 : t.cursorCol = 0)
    (hfull : 0 < p / 79) (hlast : t₀.size = t₀.cursorLine + 1) (hnonneg : 0 ≤ t₀.cursorLine)
    (hl : t.cursorLine < 4096) : t.backspace =
      { t.shrinkLine (t.cursorLine - 1) with
        size := t.size - 1, cursorRow := t.cursorRow - 1, cursorCol := 78 } := by
  have hrow := h.row
  have hline := h.line
  have hcol := h.col
  have hsize := h.size
  have hcur := h.cursor_size hp0 hl
  have habove := h.after (t.cursorLine - 1) (by omega) (by omega)
  rw [filled] at habove
  have hdrop : t.dropLine = { t with size := t.size - 1 } := if_pos ⟨by omega, by omega⟩
  have hjoin : t.dropLine.joinLine = { t.shrinkLine (t.cursorLine - 1) with
      size := t.size - 1, cursorRow := t.cursorRow - 1, cursorCol := 79 } := by
    rw [hdrop]
    refine (if_pos (show (t.buffer (t.cursorLine - 1)).size ≥ 79 by omega)).trans ?_
    rw [TextBuffer.stepBack]
    exact (if_neg (show ¬ t.cursorCol > 0 by omega)).trans
      (if_pos (show t.cursorRow > 0 by omega))
  have hup : t.cursorRow - 1 + t.frameRowPointer = t.cursorLine - 1 := by
    rw [TextBuffer.cursorLine]
    omega
  have hend : ((t.shrinkLine (t.cursorLine - 1)).buffer
      (t.cursorRow - 1 + t.frameRowPointer)).size = 78 := by
    rw [hup, TextBuffer.shrinkLine, setLine_self, uint8]
    simp only
    omega
  rw [TextBuffer.backspace, if_pos (.inr (by omega)), if_pos h0, hjoin]
  exact congrArg (fun col => { t.shrinkLine (t.cursorLine - 1) with
    size := t.size - 1, cursorRow := t.cursorRow - 1, cursorCol := col }) hend

/-- One line is a character shorter; its characters stay in their cells. -/
theorem TypedTo.shrink_stored (h : TypedTo t₀ t p) (k : Int) {i j : Int} (hi : 0 ≤ i)
    (h4096 : i < 4096) (hj : j < (t₀.buffer i).size) :
    ((t.shrinkLine k).buffer i).lineBuf j = (t₀.buffer i).lineBuf j ∧
      ((t.shrinkLine k).buffer i).colorBuf j = (t₀.buffer i).colorBuf j := by
  by_cases hk : i = k
  · subst hk
    rw [TextBuffer.shrinkLine, setLine_self]
    exact h.stored i j hi h4096 hj
  · rw [TextBuffer.shrinkLine, setLine_of_ne _ _ _ hk]
    exact h.stored i j hi h4096 hj

/-- The line that loses a character is the one that holds the last. -/
theorem TypedTo.shrink_size (h : TypedTo t₀ t (p + 1)) {k : Int}
    (hk : k = t₀.cursorLine + p / 79) {i : Int} (hi : t₀.cursorLine ≤ i) (h4096 : i < 4096) :
    ((t.shrinkLine k).buffer i).size = filled p (i - t₀.cursorLine) := by
  have hold := h.after i hi h4096
  rw [filled] at hold ⊢
  by_cases hik : i = k
  · rw [hik] at hold hi ⊢
    rw [TextBuffer.shrinkLine, setLine_self, uint8]
    simp only
    omega
  · rw [TextBuffer.shrinkLine, setLine_of_ne _ _ _ hik, hold]
    omega

theorem TypedTo.backspace (h₀ : AtLastLine t₀) (h : TypedTo t₀ t (p + 1)) (hp0 : 0 ≤ p)
    (hl : t.cursorLine < 4096) : TypedTo t₀ t.backspace p := by
  have hrow := h.row
  have hline := h.line
  have hcol := h.col
  have hsize := h.size
  have hbefore : ∀ k, t₀.cursorLine ≤ k → ∀ i, i < t₀.cursorLine →
      ((t.shrinkLine k).buffer i).size = (t₀.buffer i).size := by
    intro k hk i hi
    rw [TextBuffer.shrinkLine, setLine_of_ne _ _ _ (by omega)]
    exact h.before i hi
  by_cases h0 : t.cursorCol = 0
  · rw [h.backspace_wrap (by omega) h0 (by omega) h₀.last h₀.line.1 hl]
    refine ⟨?_, ?_, ?_, ?_, hbefore _ (by omega), fun i => h.shrink_size (by omega),
      fun i j => h.shrink_stored _⟩
    · show p / 79 ≤ t.cursorRow - 1 ∧ t.cursorRow - 1 < 25
      omega
    · show t.cursorRow - 1 + t.frameRowPointer = _
      rw [TextBuffer.cursorLine] at hline
      omega
    · show 78 = _
      omega
    · show t.size - 1 = _
      omega
  · have hback : t.backspace =
        { t.shrinkLine t.cursorLine with cursorCol := t.cursorCol - 1 } := by
      rw [TextBuffer.backspace, if_pos (.inl (by omega)), if_neg h0, TextBuffer.stepBack,
        if_pos (by omega)]
      rfl
    rw [hback]
    refine ⟨?_, ?_, ?_, ?_, hbefore _ (by omega), fun i => h.shrink_size (by omega),
      fun i j => h.shrink_stored _⟩
    · show p / 79 ≤ t.cursorRow ∧ t.cursorRow < 25
      omega
    · show t.cursorLine = _
      omega
    · show t.cursorCol - 1 = _
      omega
    · show t.size = _
      omega

theorem Printable.glyph {c : UInt8} (h : Printable c) : Glyph c := by
  obtain ⟨hlow, -⟩ := h
  constructor
  all_goals
    rintro rfl
    exact absurd hlow (by decide)

theorem typedTo_run {s : Console} (h₀ : AtLastLine t₀) {ks : List Key}
    (hk : ∀ k ∈ ks, Printable k.c) {p : Int} (hp : t₀.cursorCol ≤ p) (hp0 : 0 ≤ p)
    (h : TypedTo t₀ s.text p) (hpage : (p + ks.length) / 79 < 25)
    (hfit : t₀.cursorLine + (p + ks.length) / 79 < 4096) :
    TypedTo t₀ (s.handleKeys ks).text (p + ks.length) := by
  induction ks generalizing s p with
  | nil =>
    rw [List.length_nil, Int.natCast_zero, Int.add_zero]
    exact h
  | cons k ks ih =>
    have hlen : p + ((k :: ks).length : Int) = p + 1 + ks.length := by
      rw [List.length_cons]
      omega
    rw [hlen] at hpage hfit ⊢
    have hg := (hk k List.mem_cons_self).glyph
    have hl : s.text.cursorLine < 4096 := by
      have := h.line
      omega
    have hstep : TypedTo t₀ (s.handleKey k).text (p + 1) := by
      rw [handleKey, handleNewChar_glyph _ _ _ _ hg hl,
        putChar_glyph_text _ _ _ _ hl hg.newline hg.carriageReturn]
      exact h.glyph h₀ hp hp0 (by omega) (by omega) _ _
    exact ih (fun k hk' => hk k (List.mem_cons_of_mem _ hk')) (by omega) (by omega) hstep hpage hfit

theorem erasing_run {s : Console} (h₀ : AtLastLine t₀) {bs : List Key}
    (hb : ∀ b ∈ bs, b.c = backspace) {p : Int} (hp0 : 0 ≤ p)
    (h : TypedTo t₀ s.text (p + bs.length))
    (hfit : t₀.cursorLine + (p + bs.length) / 79 < 4096) :
    TypedTo t₀ (s.handleKeys bs).text p := by
  induction bs generalizing s with
  | nil =>
    rw [List.length_nil, Int.natCast_zero, Int.add_zero] at h
    exact h
  | cons b bs ih =>
    have hlen : p + ((b :: bs).length : Int) = p + bs.length + 1 := by
      rw [List.length_cons]
      omega
    rw [hlen] at h hfit
    have hl : s.text.cursorLine < 4096 := by
      have := h.line
      omega
    have hcol : 0 ≤ s.text.cursorCol := by
      have := h.col
      omega
    have hstep : TypedTo t₀ (s.handleKey b).text (p + bs.length) := by
      rw [handleKey, hb b List.mem_cons_self, handleNewChar_backspace s _ _ hl,
        handleBackspace_text s hcol]
      exact h.backspace h₀ (by omega) hl
    exact ih (fun b hb' => hb b (List.mem_cons_of_mem _ hb')) hstep (by omega)

theorem TypedTo.restores (h : TypedTo t₀ t t₀.cursorCol) (h₀ : AtLastLine t₀) :
    Restores t₀ t := by
  have hself := h₀.typedTo
  have hcol := h₀.col_eq
  have hroom := h₀.room
  have hsize := h₀.lineSize _ h₀.line.1 h₀.line.2
  refine ⟨by rw [h.size, ← hself.size], fun i hi h4096 => ?_, fun i j hi h4096 _ hj =>
    h.stored i j hi h4096 hj, by rw [h.line, ← hself.line], by rw [h.col, ← hself.col]⟩
  by_cases hlast : i < t₀.cursorLine
  · exact h.before i hlast
  · rw [h.after i (by omega) h4096, hself.after i (by omega) h4096]

/-- As many backspaces as characters were typed restore the text and the cursor. -/
theorem backspace_undoes_typing {s : Console} (h : AtLastLine s.text) {ks bs : List Key}
    (hk : ∀ k ∈ ks, Printable k.c) (hcount : ks.length ≤ 256)
    (hfit : s.text.cursorLine + (s.text.cursorCol + ks.length) / 79 < 4096)
    (hb : ∀ b ∈ bs, b.c = backspace) (hlen : bs.length = ks.length) :
    Restores s.text (s.handleKeys (ks ++ bs)).text := by
  have hrow := h.row
  have hcol := h.col_eq
  have hroom := h.room
  have hsize := h.lineSize _ h.line.1 h.line.2
  have htyped := typedTo_run h hk (Int.le_refl _) (by omega) h.typedTo (by omega) hfit
  rw [← hlen] at htyped hfit
  have herased := erasing_run h hb (by omega) htyped hfit
  rw [handleKeys, List.foldl_append]
  exact herased.restores h

theorem clearScreen_atLastLine (s : Console) : AtLastLine s.clearScreen.text := by
  have hsize : ∀ i, 0 ≤ i → i < 4096 → (s.clearScreen.text.buffer i).size = 0 := by
    intro i hi h4096
    exact congrArg LineBuffer.size (if_pos ⟨hi, h4096⟩)
  have hfirst := hsize 0 (by decide) (by decide)
  refine ⟨(by decide : (0 : Int) ≤ 0 ∧ (0 : Int) < 25),
    (by decide : (0 : Int) ≤ 0 ∧ (0 : Int) < 4096), rfl, hfirst.symm, ?_,
    fun i hi h4096 => ?_, fun i hi => ?_⟩
  · show (s.clearScreen.text.buffer 0).size < 79
    rw [hfirst]
    decide
  · rw [hsize i hi h4096]
    decide
  · exact hsize i (Int.le_of_lt hi)

/-- Eighty characters fill a row and open the next. -/
theorem backspace_undoes_typing_wrap :
    Restores (default : Console).clearScreen.text
      ((default : Console).clearScreen.handleKeys
        (List.replicate 80 ⟨0x61, 0x0F, 0⟩ ++ List.replicate 80 ⟨backspace, 0x0F, 0⟩)).text := by
  apply backspace_undoes_typing (clearScreen_atLastLine default)
  · intro k hk
    rw [(List.mem_replicate.mp hk).2]
    exact ⟨by decide, by decide⟩
  · decide
  · decide
  · intro b hb
    rw [(List.mem_replicate.mp hb).2]
  · decide

end Doors.Console
