import Doors.PlainText

/-! Scrolling between the keys. `move_screen` moves the view and leaves the cursor where it
is on the screen, so the line of the cursor is right again only when the view is back. -/

namespace Doors.Console

/-- `d` lines are added to the count. -/
def TextBuffer.count (t : TextBuffer) (d : Int) : TextBuffer := { t with size := t.size + d }

/-- The cursor stands at the end of the text. The last line may be missing from the count. -/
def AtTail (t : TextBuffer) : Prop := ∃ d, 0 ≤ d ∧ d ≤ 1 ∧ AtEnd (t.count d)

section Tail

variable {t : TextBuffer}

theorem AtEnd.atTail (h : AtEnd t) : AtTail t := by
  refine ⟨0, by omega, by omega, ?_⟩
  rw [TextBuffer.count, Int.add_zero]
  exact h

/-- What a tail says without its count. -/
structure TailFacts (t : TextBuffer) : Prop where
  row : 0 ≤ t.cursorRow ∧ t.cursorRow < 25
  col : 0 ≤ t.cursorCol
  line : t.cursorLine < 4096
  top : 0 ≤ t.frameRowPointer
  size : t.cursorLine ≤ t.size ∧ t.size ≤ t.cursorLine + 1

theorem AtTail.facts (h : AtTail t) : TailFacts t := by
  obtain ⟨d, h0, h1, hend⟩ := h
  have hlast : t.size + d = t.cursorLine + 1 := hend.last
  exact ⟨hend.row, hend.col.1, hend.cursorLine.2, hend.top, by omega⟩

theorem glyph_count (t : TextBuffer) (c attr : UInt8) (d : Int) :
    (t.count d).glyph c attr = (t.glyph c attr).count d := by
  by_cases hroom : t.cursorCol + 1 < 79 ∨ t.cursorLine < 4095
  · have hadvance : ((t.count d).writeCell c attr).advance =
        ((t.writeCell c attr).advance).count d := by
      by_cases hw : t.cursorCol + 1 ≥ 79
      · rw [advance_wrap (t := t.writeCell c attr) hw,
          advance_wrap (t := (t.count d).writeCell c attr) hw]
        simp only [TextBuffer.count, setLine_size, TextBuffer.writeCell, Int.add_right_comm]
        rfl
      · rw [TextBuffer.advance, TextBuffer.advance, if_neg (by exact hw), if_neg (by exact hw)]
        rfl
    rw [TextBuffer.glyph, TextBuffer.glyph, if_pos (by exact hroom), if_pos hroom, hadvance]
    unfold TextBuffer.scroll TextBuffer.count
    split_ifs <;> rfl
  · rw [TextBuffer.glyph, TextBuffer.glyph, if_neg (by exact hroom), if_neg hroom]

theorem newline_count {d : Int} (h : t.size ≤ t.cursorLine + 1) (hd : t.size + d ≤ t.cursorLine + 1) :
    (t.count d).newline = t.newline.count d := by
  have hopen : (t.count d).openLine = t.openLine.count d := by
    have hsize : t.openLine.size = t.size + 1 := if_neg (by omega)
    have hsize' : (t.count d).openLine.size = t.size + d + 1 := by
      apply if_neg
      show ¬ t.cursorLine + 1 < t.size + d
      omega
    have heq : (t.count d).openLine = { t.openLine with size := (t.count d).openLine.size } := rfl
    rw [heq, hsize', TextBuffer.count, hsize, Int.add_right_comm]
  by_cases hl : t.cursorLine < 4095
  · rw [TextBuffer.newline, TextBuffer.newline, if_pos (by exact hl), if_pos hl, hopen]
    unfold TextBuffer.scroll TextBuffer.count TextBuffer.home
    split_ifs <;> rfl
  · rw [TextBuffer.newline, TextBuffer.newline, if_neg (by exact hl), if_neg hl]

theorem AtTail.glyph (h : AtTail t) (c attr : UInt8) : AtTail (t.glyph c attr) := by
  obtain ⟨d, h0, h1, hend⟩ := h
  exact ⟨d, h0, h1, glyph_count t c attr d ▸ hend.glyph c attr⟩

theorem AtTail.newline (h : AtTail t) : AtTail t.newline := by
  have hsize := h.facts.size
  obtain ⟨d, h0, h1, hend⟩ := h
  have hlast : t.size + d = t.cursorLine + 1 := hend.last
  refine ⟨d, h0, h1, ?_⟩
  rw [← newline_count hsize.2 (Int.le_of_eq hlast)]
  exact hend.newline

/-- The empty last line leaves the count, unless it was missing from it already. -/
theorem tail_dropLine {d : Int} (h0 : 0 ≤ d) (h1 : d ≤ 1) (hend : AtEnd (t.count d))
    (hcol : t.cursorCol = 0) : t.dropLine = { t with size := t.cursorLine } := by
  have hlast : t.size + d = t.cursorLine + 1 := hend.last
  have hce : t.cursorCol = (t.buffer t.cursorLine).size := hend.col_eq
  unfold TextBuffer.dropLine
  split_ifs with h
  · rw [h.2]
  · have hsize : t.size = t.cursorLine := by
      omega
    rw [← hsize]

/-- From a full line a character is taken and the cursor put after the others. -/
theorem AtEnd.backspace_full (h : AtEnd t) (hcol : t.cursorCol = 0) (hrow : t.cursorRow > 0)
    (hk : (t.buffer (t.cursorLine - 1)).size ≥ 79) : AtEnd t.backspace := by
  have htop := h.top
  have hcl := h.cursorLine
  have hce := h.col_eq
  have hlast := h.last
  have hsize := h.size
  have hpos : t.cursorLine > 0 := by
    rw [TextBuffer.cursorLine]
    omega
  have hup : t.cursorRow - 1 + t.frameRowPointer = t.cursorLine - 1 := by
    rw [TextBuffer.cursorLine]
    omega
  have hprev := h.lineSize (t.cursorLine - 1) (by omega) (by omega)
  have hfull : (t.buffer (t.cursorLine - 1)).size = 79 := by
    omega
  have hreach := join_full h.toInRange hrow (n := t.cursorLine) ⟨Int.le_refl _, by omega⟩ hk
  have hdrop : t.dropLine = { t with size := t.cursorLine } := by
    rw [TextBuffer.dropLine, if_pos ⟨by omega, by omega⟩, hlast, Int.add_sub_cancel]
  have heq : t.backspace = { t.shrinkLine (t.cursorLine - 1) with
      size := t.cursorLine, cursorRow := t.cursorRow - 1, cursorCol := 78 } := by
    rw [TextBuffer.backspace, if_pos (.inr hpos), if_pos hcol, hdrop, joinLine_full_end hcol hrow hfull]
  have hview : 0 ≤ t.cursorRow - 1 ∧ t.cursorRow - 1 < 25 := by
    have hr := h.row
    omega
  rw [heq]
  refine ⟨hreach.inRange hview, ?_, ?_, ?_⟩
  · show t.cursorLine = t.cursorRow - 1 + t.frameRowPointer + 1
    omega
  · show 78 = ((t.shrinkLine (t.cursorLine - 1)).buffer (t.cursorRow - 1 + t.frameRowPointer)).size
    rw [hup, TextBuffer.shrinkLine, setLine_self, hfull]
    rfl
  · intro i hi h4096
    have hi' : t.cursorRow - 1 + t.frameRowPointer < i := hi
    show ((t.shrinkLine (t.cursorLine - 1)).buffer i).size = 0
    rw [TextBuffer.shrinkLine, setLine_of_ne _ _ _ (by omega)]
    by_cases he : i = t.cursorLine
    · rw [he]
      omega
    · exact h.after i (by omega) h4096

/-- In the first row the cursor does not follow, but the line has left the count. -/
theorem AtEnd.backspace_stuck (h : AtEnd t) (hcol : t.cursorCol = 0) (hrow : t.cursorRow = 0)
    (hpos : t.cursorLine > 0) (hk : (t.buffer (t.cursorLine - 1)).size ≥ 79) :
    AtTail t.backspace := by
  have hcl := h.cursorLine
  have hce := h.col_eq
  have hlast := h.last
  have hsize := h.size
  have hprev := h.lineSize (t.cursorLine - 1) (by omega) (by omega)
  have hu := uint8_pred (n := (t.buffer (t.cursorLine - 1)).size) (by omega)
  have hdrop : t.dropLine = { t with size := t.cursorLine } := by
    rw [TextBuffer.dropLine, if_pos ⟨by omega, by omega⟩, hlast, Int.add_sub_cancel]
  have hjoin : TextBuffer.joinLine { t with size := t.cursorLine } =
      { t.shrinkLine (t.cursorLine - 1) with size := t.cursorLine } := by
    refine (if_pos hk).trans ((if_neg ?_).trans (if_neg ?_))
    · show ¬ t.cursorCol > 0
      omega
    · show ¬ t.cursorRow > 0
      omega
  have hkeep : (t.shrinkLine (t.cursorLine - 1)).buffer t.cursorLine = t.buffer t.cursorLine :=
    setLine_of_ne _ _ _ (by omega)
  have heq : t.backspace = { t.shrinkLine (t.cursorLine - 1) with
      size := t.cursorLine, cursorCol := t.cursorCol } := by
    rw [TextBuffer.backspace, if_pos (.inr hpos), if_pos hcol, hdrop, hjoin, TextBuffer.lineEnd]
    show { t.shrinkLine (t.cursorLine - 1) with
      size := t.cursorLine
      cursorCol := ((t.shrinkLine (t.cursorLine - 1)).buffer t.cursorLine).size } = _
    rw [hkeep, hce]
  have hreach : Reaches { t.shrinkLine (t.cursorLine - 1) with
      size := t.cursorLine + 1, cursorRow := t.cursorRow, cursorCol := t.cursorCol } := by
    refine h.toInRange.edit (by omega) hcl.1 ?_ (by omega) ?_ h.col (.inl hcol)
    · show t.cursorLine < t.cursorLine + 1
      omega
    · show 0 ≤ uint8 ((t.buffer (t.cursorLine - 1)).size - 1) ∧
        uint8 ((t.buffer (t.cursorLine - 1)).size - 1) ≤ 79
      omega
  refine ⟨1, by omega, by omega, ?_⟩
  rw [heq]
  refine ⟨hreach.inRange h.row, rfl, ?_, ?_⟩
  · show t.cursorCol = ((t.shrinkLine (t.cursorLine - 1)).buffer t.cursorLine).size
    rw [hkeep, hce]
  · intro i hi h4096
    have hi' : t.cursorLine < i := hi
    show ((t.shrinkLine (t.cursorLine - 1)).buffer i).size = 0
    rw [TextBuffer.shrinkLine, setLine_of_ne _ _ _ (by omega)]
    exact h.after i hi' h4096

theorem AtEnd.backspace_start (h : AtEnd t) (hcol : t.cursorCol = 0) (hpos : t.cursorLine > 0) :
    AtTail t.backspace := by
  have hrow := h.row
  by_cases hk : (t.buffer (t.cursorLine - 1)).size ≥ 79
  · by_cases h0 : t.cursorRow > 0
    · exact (h.backspace_full hcol h0 hk).atTail
    · exact h.backspace_stuck hcol (by omega) hpos hk
  · exact (h.backspace fun _ _ => by omega).atTail

theorem AtTail.backspace (h : AtTail t) : AtTail t.backspace := by
  have hfacts := h.facts
  have hcol := hfacts.col
  obtain ⟨d, h0, h1, hend⟩ := h
  by_cases hc : t.cursorCol = 0
  · by_cases hpos : t.cursorLine > 0
    · have hdrop := tail_dropLine h0 h1 hend hc
      have hlast : t.size + d = t.cursorLine + 1 := hend.last
      have hdrop' := tail_dropLine (t := t.count d) (d := 0) (by omega) (by omega)
        (by rw [TextBuffer.count, Int.add_zero]; exact hend) hc
      have heq : t.backspace = (t.count d).backspace := by
        rw [TextBuffer.backspace, TextBuffer.backspace, if_pos (.inr hpos), if_pos hc,
          if_pos (.inr hpos), if_pos (by exact hc), hdrop, hdrop']
        rfl
      rw [heq]
      exact hend.backspace_start hc hpos
    · have hno : ¬ (t.cursorCol > 0 ∨ t.cursorLine > 0) := by
        omega
      rw [TextBuffer.backspace, if_neg hno]
      exact ⟨d, h0, h1, hend⟩
  · have hpos : t.cursorCol > 0 := by
      omega
    have heq : (t.count d).backspace = t.backspace.count d := by
      rw [backspace_back (t := t.count d) hpos, backspace_back hpos]
      rfl
    refine ⟨d, h0, h1, ?_⟩
    rw [← heq]
    exact hend.backspace fun hz _ => absurd hz hc

/-- What a typed key does to the text. -/
def TextBuffer.typed (t : TextBuffer) (k : Key) : TextBuffer :=
  if k.c = Console.newline then t.newline
  else if k.c = Console.backspace then t.backspace
  else t.glyph k.c (k.bg <<< 4 ||| k.fg)

theorem AtTail.typed (h : AtTail t) (k : Key) : AtTail (t.typed k) := by
  unfold TextBuffer.typed
  split_ifs
  · exact h.newline
  · exact h.backspace
  · exact h.glyph _ _

theorem handleKey_text {s : Console} (h : TailFacts s.text) {k : Key} (hk : Typed k.c) :
    (s.handleKey k).text = s.text.typed k := by
  unfold TextBuffer.typed
  rcases typed_cases h.line hk with ⟨hg, he⟩ | ⟨hn, he⟩ | ⟨hb, he⟩
  · rw [he, if_neg hg.newline, if_neg hg.backspace,
      putChar_glyph_text _ _ _ _ h.line hg.newline hg.carriageReturn]
  · rw [he, if_pos hn, putChar_newline_text _ _ _ h.row.2]
  · rw [he, if_neg (by rw [hb]; decide), if_pos hb, handleBackspace_text _ h.col]

end Tail

/-- A key for `handle_new_char`, or an arrow for `move_screen`. -/
inductive ScreenEvent
  | type (k : Key)
  | up
  | down

def ScreenEvent.key? : ScreenEvent → Option Key
  | .type k => some k
  | .up => none
  | .down => none

def handleEvent (s : Console) : ScreenEvent → Console
  | .type k => s.handleKey k
  | .up => s.moveScreen arrowUp
  | .down => s.moveScreen arrowDown

def handleEvents (s : Console) (es : List ScreenEvent) : Console := es.foldl handleEvent s

/-- The keys among the events. -/
def typedKeys (es : List ScreenEvent) : List Key := es.filterMap ScreenEvent.key?

/-- A key is typed only while the cursor is viewable. -/
def EventStep (s : Console) (e : ScreenEvent) (t : Console) : Prop :=
  (∀ k, e = .type k → Typed k.c ∧ s.isCursorViewable = true) ∧ t = handleEvent s e

/-- The text has a line in view, and none below the view. -/
def Viewed (t : TextBuffer) : Prop :=
  t.size > t.frameRowPointer ∧ t.size ≤ t.frameRowPointer + 25

section Arrows

variable (s : Console)

theorem moveScreen_viewed {c : UInt8} (hc : c = arrowUp ∨ c = arrowDown) :
    (s.moveScreen c).isCursorViewable = true ↔ Viewed (s.moveScreen c).text := by
  unfold moveScreen
  dsimp only
  rw [if_pos hc, redraw_text, redraw_painted.viewable]
  simp only [Viewed, decide_eq_true_eq]

theorem moveScreen_up_text : (s.moveScreen arrowUp).text = { s.text with
    frameRowPointer :=
      if s.text.frameRowPointer > 0 then s.text.frameRowPointer - 1
      else s.text.frameRowPointer } := by
  unfold moveScreen
  dsimp only
  rw [if_pos (.inl rfl), redraw_text, if_pos rfl]
  split_ifs <;> rfl

theorem moveScreen_down_text : (s.moveScreen arrowDown).text = { s.text with
    frameRowPointer :=
      if s.text.frameRowPointer + 25 < s.text.size then s.text.frameRowPointer + 1
      else s.text.frameRowPointer } := by
  unfold moveScreen
  dsimp only
  rw [if_pos (.inr rfl), redraw_text, if_neg (by decide), if_pos rfl]
  split_ifs <;> rfl

end Arrows

/-- The text and the cursor that a view moved by arrows shares with the view that was not. -/
structure Scrolled (s t : Console) : Prop where
  text : s.text = { t.text with frameRowPointer := s.text.frameRowPointer }
  above : s.text.frameRowPointer ≤ t.text.frameRowPointer
  full : s.text.frameRowPointer < t.text.frameRowPointer →
    t.text.size = t.text.frameRowPointer + 25
  viewable : s.isCursorViewable = true → s.text.frameRowPointer = t.text.frameRowPointer
  tail : AtTail t.text

/-- The view can be moved up: the text reaches down to its last row. -/
def FillsView (t : TextBuffer) : Prop :=
  t.frameRowPointer > 0 → t.frameRowPointer + 25 ≤ t.size

/-- The buffers are the same, and so is the line of the cursor while it is viewable. -/
structure SameText (s t : Console) : Prop where
  size : s.text.size = t.text.size
  buffer : s.text.buffer = t.text.buffer
  line : s.isCursorViewable = true → s.text.cursorLine = t.text.cursorLine

section Scrolled

variable {s t : Console}

theorem Scrolled.refl (h : AtTail s.text) : Scrolled s s :=
  ⟨rfl, Int.le_refl _, fun hlt => absurd hlt (Int.lt_irrefl _), fun _ => rfl, h⟩

theorem Scrolled.size_eq (h : Scrolled s t) : s.text.size = t.text.size := by
  rw [h.text]

theorem Scrolled.eq_text (h : Scrolled s t) (hv : s.isCursorViewable = true) : s.text = t.text := by
  have htop := h.viewable hv
  rw [h.text, htop]

theorem Scrolled.sameText (h : Scrolled s t) : SameText s t where
  size := h.size_eq
  buffer := by rw [h.text]
  line := fun hv => congrArg TextBuffer.cursorLine (h.eq_text hv)

theorem Scrolled.size_le (h : Scrolled s t) : t.text.size ≤ t.text.frameRowPointer + 25 := by
  have hrow := h.tail.facts.row
  have hsize := h.tail.facts.size
  rw [TextBuffer.cursorLine] at hsize
  omega

theorem Scrolled.type (h : Scrolled s t) (hv : s.isCursorViewable = true) {k : Key}
    (hk : Typed k.c) : Scrolled (s.handleKey k) (t.handleKey k) := by
  have hfacts := h.tail.facts
  have htext := h.eq_text hv
  have hs : (s.handleKey k).text = t.text.typed k := by
    rw [handleKey_text (htext ▸ hfacts) hk, htext]
  have ht := handleKey_text hfacts hk
  refine ⟨?_, ?_, ?_, fun _ => ?_, ?_⟩
  · rw [hs, ht]
  · exact Int.le_of_eq (by rw [hs, ht])
  · rw [hs, ht]
    exact fun hlt => absurd hlt (Int.lt_irrefl _)
  · rw [hs, ht]
  · rw [ht]
    exact h.tail.typed k

theorem Scrolled.move (h : Scrolled s t) {u : Console} {top : Int}
    (htext : u.text = { s.text with frameRowPointer := top })
    (hview : u.isCursorViewable = true → Viewed u.text) (habove : top ≤ t.text.frameRowPointer)
    (hfull : top < t.text.frameRowPointer → t.text.size = t.text.frameRowPointer + 25) :
    Scrolled u t := by
  have htop : u.text.frameRowPointer = top := congrArg TextBuffer.frameRowPointer htext
  have hsize : u.text.size = t.text.size := by
    rw [htext]
    exact h.size_eq
  refine ⟨?_, by omega, by omega, fun hv => ?_, h.tail⟩
  · rw [htop, htext, h.text]
  · obtain ⟨-, hbelow⟩ := hview hv
    by_contra hne
    have hlast := hfull (by omega)
    omega

theorem Scrolled.up (h : Scrolled s t) (hf : FillsView s.text) :
    Scrolled (s.moveScreen arrowUp) t := by
  have habove := h.above
  have hle := h.size_le
  have hsize := h.size_eq
  apply h.move (moveScreen_up_text s) (moveScreen_viewed s (.inl rfl)).mp
  · split_ifs <;> omega
  · split_ifs with hpos
    · have hroom := hf hpos
      intro _
      by_cases heq : s.text.frameRowPointer = t.text.frameRowPointer
      · omega
      · exact h.full (by omega)
    · exact h.full

theorem Scrolled.down (h : Scrolled s t) : Scrolled (s.moveScreen arrowDown) t := by
  have habove := h.above
  have hle := h.size_le
  have hsize := h.size_eq
  apply h.move (moveScreen_down_text s) (moveScreen_viewed s (.inr rfl)).mp
  · split_ifs <;> omega
  · split_ifs with hroom
    · intro hlt
      exact h.full (by omega)
    · exact h.full

/-- A text that has shrunk lets the view up while the cursor counts as viewable. -/
theorem Scrolled.up_breaks (h : Scrolled s t) (hf : ¬ FillsView s.text) :
    ¬ SameText (s.moveScreen arrowUp) t := by
  obtain ⟨hpos, hroom⟩ : s.text.frameRowPointer > 0 ∧
      ¬ s.text.frameRowPointer + 25 ≤ s.text.size := by
    simpa [FillsView] using hf
  have htext := moveScreen_up_text s
  rw [if_pos hpos] at htext
  have hsize := h.size_eq
  have hrow : s.text.cursorRow = t.text.cursorRow := by
    rw [h.text]
  have htop : s.text.frameRowPointer = t.text.frameRowPointer := by
    have habove := h.above
    by_contra hne
    have hfull := h.full (by omega)
    omega
  have hviewed : Viewed (s.moveScreen arrowUp).text := by
    have htail := h.tail.facts.size
    have hrow0 := h.tail.facts.row
    rw [TextBuffer.cursorLine] at htail
    rw [htext]
    refine ⟨?_, ?_⟩
    · show s.text.size > s.text.frameRowPointer - 1
      omega
    · show s.text.size ≤ s.text.frameRowPointer - 1 + 25
      omega
  intro hsame
  have hline := hsame.line ((moveScreen_viewed s (.inl rfl)).mpr hviewed)
  rw [htext] at hline
  have hline' : s.text.cursorRow + (s.text.frameRowPointer - 1) =
      t.text.cursorRow + t.text.frameRowPointer := hline
  omega

end Scrolled

section Runs

variable {s₀ s s' : Console} {es : List ScreenEvent}

theorem handleEvents_snoc (s : Console) (es : List ScreenEvent) (e : ScreenEvent) :
    handleEvents s (es ++ [e]) = handleEvent (handleEvents s es) e := by
  rw [handleEvents, List.foldl_append]
  rfl

theorem typedKeys_type (es : List ScreenEvent) (k : Key) :
    typedKeys (es ++ [.type k]) = typedKeys es ++ [k] := by
  rw [typedKeys, List.filterMap_append]
  rfl

theorem typedKeys_map (ks : List Key) : typedKeys (ks.map .type) = ks := by
  rw [typedKeys, List.filterMap_map]
  exact List.filterMap_some

theorem typedKeys_up (es : List ScreenEvent) : typedKeys (es ++ [.up]) = typedKeys es := by
  rw [typedKeys, List.filterMap_append]
  exact List.append_nil _

theorem typedKeys_down (es : List ScreenEvent) : typedKeys (es ++ [.down]) = typedKeys es := by
  rw [typedKeys, List.filterMap_append]
  exact List.append_nil _

theorem run_handleEvents (h : Run EventStep s es s') : s' = handleEvents s es := by
  induction h with
  | nil => rfl
  | cons he _ ih =>
    rw [ih, he.2]
    rfl

theorem run_snoc {e : ScreenEvent} (h : Run EventStep s (es ++ [e]) s') :
    Run EventStep s es (handleEvents s es) ∧
      ∀ k, e = .type k → Typed k.c ∧ (handleEvents s es).isCursorViewable = true := by
  obtain ⟨u, hu, hlast⟩ := h.split
  have heq := run_handleEvents hu
  subst heq
  refine ⟨hu, ?_⟩
  cases hlast with
  | cons he _ => exact he.1

/-- The view fills the screen before every arrow up. -/
def UpsFill (s₀ : Console) (es : List ScreenEvent) : Prop :=
  ∀ pre, pre ++ [.up] <+: es → FillsView (handleEvents s₀ pre).text

theorem UpsFill.init {e : ScreenEvent} (h : UpsFill s₀ (es ++ [e])) : UpsFill s₀ es :=
  fun pre hpre => h pre (hpre.trans (List.prefix_append es [e]))

theorem UpsFill.snoc {e : ScreenEvent} (h : UpsFill s₀ es)
    (he : e = .up → FillsView (handleEvents s₀ es).text) : UpsFill s₀ (es ++ [e]) := by
  intro pre hpre
  rcases List.prefix_concat_iff.mp hpre with heq | hpre'
  · obtain ⟨rfl, hlast⟩ := List.append_inj' heq rfl
    exact he (List.singleton_inj.mp hlast).symm
  · exact h pre hpre'

theorem upsFill_typed (ks : List Key) : UpsFill s₀ (ks.map .type) := by
  intro pre hpre
  obtain ⟨k, -, hk⟩ := List.mem_map.mp (hpre.subset (List.mem_append_right pre (List.mem_singleton_self _)))
  cases hk

theorem scrolled_run (h : Run EventStep s₀.clearScreen es s) (hf : UpsFill s₀.clearScreen es) :
    Scrolled (handleEvents s₀.clearScreen es) (s₀.clearScreen.handleKeys (typedKeys es)) := by
  induction es using List.reverseRecOn generalizing s with
  | nil => exact .refl (clearScreen_atEnd s₀).atTail
  | append_singleton es e ih =>
    obtain ⟨hrun, hkey⟩ := run_snoc h
    have hs := ih hrun hf.init
    rw [handleEvents_snoc]
    cases e with
    | type k =>
      obtain ⟨hk, hv⟩ := hkey k rfl
      rw [typedKeys_type, handleKeys_snoc]
      exact hs.type hv hk
    | up =>
      rw [typedKeys_up]
      exact hs.up (hf es (List.prefix_refl _))
    | down =>
      rw [typedKeys_down]
      exact hs.down

theorem upsFill_of_same (h : Run EventStep s₀.clearScreen es s)
    (hsame : ∀ pre, pre <+: es → SameText (handleEvents s₀.clearScreen pre)
      (s₀.clearScreen.handleKeys (typedKeys pre))) : UpsFill s₀.clearScreen es := by
  induction es using List.reverseRecOn generalizing s with
  | nil =>
    intro pre hpre
    exact absurd hpre (by simp)
  | append_singleton es e ih =>
    obtain ⟨hrun, -⟩ := run_snoc h
    have hf := ih hrun fun pre hpre => hsame pre (hpre.trans (List.prefix_append es [e]))
    intro pre hpre
    rcases List.prefix_concat_iff.mp hpre with heq | hpre
    · obtain ⟨rfl, he⟩ := List.append_inj' heq rfl
      obtain rfl := List.singleton_inj.mp he
      have hlast := hsame (pre ++ [.up]) (List.prefix_refl _)
      rw [handleEvents_snoc, typedKeys_up] at hlast
      by_contra hno
      exact (scrolled_run hrun hf).up_breaks hno hlast
    · exact hf pre hpre

end Runs

/-- Scrolling is transparent in a run exactly when the view is full before every arrow up. -/
theorem scrolling_transparent_iff {s₀ s : Console} {es : List ScreenEvent}
    (h : Run EventStep s₀.clearScreen es s) :
    (∀ pre, pre <+: es → SameText (handleEvents s₀.clearScreen pre)
        (s₀.clearScreen.handleKeys (typedKeys pre))) ↔
      ∀ pre, pre ++ [.up] <+: es → (handleEvents s₀.clearScreen pre).text.frameRowPointer > 0 →
        (handleEvents s₀.clearScreen pre).text.frameRowPointer + 25 ≤
          (handleEvents s₀.clearScreen pre).text.size := by
  refine ⟨fun hsame => upsFill_of_same h hsame, fun hf pre hpre => ?_⟩
  obtain ⟨post, rfl⟩ := hpre
  obtain ⟨u, hu, -⟩ := h.split
  have hf' : UpsFill s₀.clearScreen pre := fun p hp => hf p (hp.trans (List.prefix_append pre post))
  exact (scrolled_run hu hf').sameText

section Typing

variable {s : Console}

theorem view_viewable (s : Console) (change : Bool) :
    (s.newFrameBufferView change).isCursorViewable = s.isCursorViewable := by
  rw [view_eq]
  split_ifs
  · rw [redraw_painted.viewable]
  · rfl

theorem newline_viewable (s : Console) (fg bg : UInt8) :
    (s.putChar newline fg bg).isCursorViewable = s.isCursorViewable := by
  have hgrow : s.clearBelow.growBuffer.isCursorViewable = s.isCursorViewable := by
    rcases growBuffer_cases s with ⟨-, hg⟩ | ⟨-, hg⟩
    · rw [hg, view_viewable]
      rfl
    · rw [hg]
      rfl
  by_cases hl : s.text.cursorLine < 4095
  · rw [putChar_newline s fg bg hl]
    exact (view_viewable _ _).trans hgrow
  · rw [putChar_last s fg bg hl]

theorem glyph_viewable {c : UInt8} (fg bg : UInt8) (hg : Glyph c) (hl : s.text.cursorLine < 4096) :
    (s.putChar c fg bg).isCursorViewable = s.isCursorViewable := by
  rw [putChar_glyph s c fg bg hl hg.newline hg.carriageReturn]
  split_ifs
  · rw [view_viewable, advanceCol_eq, growLine]
    split_ifs <;> rfl
  · rfl

theorem backspace_viewable (hcol : 0 ≤ s.text.cursorCol) :
    s.handleBackspace.isCursorViewable = s.isCursorViewable := by
  by_cases h0 : s.text.cursorCol = 0
  · by_cases hl : s.text.cursorLine > 0
    · have hdrop : s.dropLine.isCursorViewable = s.isCursorViewable := by
        unfold dropLine
        split_ifs <;> rfl
      have hjoin : s.dropLine.joinLine.isCursorViewable = s.dropLine.isCursorViewable := by
        unfold joinLine
        split_ifs
        · rw [framebufferErase_eq]
          rfl
        · rw [view_viewable]
          rfl
      rw [handleBackspace_start s h0 hl]
      exact hjoin.trans hdrop
    · have hno : ¬ (s.text.cursorCol > 0 ∨ s.text.cursorLine > 0) := by
        omega
      unfold handleBackspace
      rw [if_neg hno]
  · rw [handleBackspace_inside s (by omega), framebufferErase_eq]
    rfl

theorem handleKey_viewable (h : TailFacts s.text) {k : Key} (hk : Typed k.c) :
    (s.handleKey k).isCursorViewable = s.isCursorViewable := by
  rcases typed_cases h.line hk with ⟨hg, he⟩ | ⟨-, he⟩ | ⟨-, he⟩
  · rw [he, glyph_viewable _ _ hg h.line]
  · rw [he, newline_viewable]
  · rw [he, backspace_viewable h.col]

theorem typing_run {ks : List Key} (hks : ∀ k ∈ ks, Typed k.c) (htail : AtTail s.text)
    (hv : s.isCursorViewable = true) : Run EventStep s (ks.map .type) (s.handleKeys ks) ∧
      AtTail (s.handleKeys ks).text := by
  induction ks generalizing s with
  | nil => exact ⟨.nil s, htail⟩
  | cons k ks ih =>
    have hk := hks k (by simp)
    have htext := handleKey_text htail.facts hk
    obtain ⟨hrun, hend⟩ := ih (s := s.handleKey k) (fun k' hk' => hks k' (by simp [hk']))
      (htext ▸ htail.typed k) ((handleKey_viewable htail.facts hk).trans hv)
    refine ⟨.cons ⟨fun k' he => ?_, rfl⟩ hrun, hend⟩
    obtain rfl := ScreenEvent.type.inj he
    exact ⟨hk, hv⟩

end Typing

section Shrunk

theorem blank_lines {t : TextBuffer} {n : Nat} (h : t.lines = List.replicate n []) {i : Nat}
    (hi : i < n) (hsize : t.size = n) : (t.buffer i).size.toNat = 0 := by
  have hcells := lines_getElem? t (i := i) (by omega)
  rw [h, List.getElem?_replicate, if_pos hi, Option.some.injEq] at hcells
  rw [← cells_length, ← hcells]
  rfl

theorem AtEnd.second_view {t : TextBuffer} (h : AtEnd t) (hlow : Lowest t)
    (hsize : t.size = (26 : Nat)) : t.frameRowPointer = 1 ∧ t.cursorRow = 24 := by
  have hrow := h.row
  have hlast := h.last
  rw [Lowest] at hlow
  rw [TextBuffer.cursorLine] at hlast
  omega

/-- The first line out of view comes back only with an arrow. -/
theorem AtEnd.backspace_blank {t : TextBuffer} (h : AtEnd t) (hlow : Lowest t)
    (hlines : t.lines = List.replicate 26 []) (hsize : t.size = (26 : Nat)) :
    t.backspace.frameRowPointer = 1 ∧ t.backspace.size = 25 := by
  have hlast := h.last
  have hcl : t.cursorLine = (25 : Nat) := by
    omega
  have hup : t.cursorLine - 1 = (24 : Nat) := by
    omega
  have hview := h.second_view hlow hsize
  have hcol : t.cursorCol = 0 := by
    have h0 := h.col.1
    have hce := h.col_eq
    have h25 := blank_lines hlines (i := 25) (by omega) hsize
    rw [hcl] at hce
    omega
  have hprev : (t.buffer (t.cursorLine - 1)).size < 79 := by
    have h24 := blank_lines hlines (i := 24) (by omega) hsize
    rw [hup]
    omega
  rw [h.backspace_up hcol (by omega) hprev, scroll_eq]
  · refine ⟨hview.1, ?_⟩
    show t.size - 1 = 25
    omega
  · show 0 ≤ t.cursorRow - 1 ∧ t.cursorRow - 1 < 25
    omega

theorem newlines_displayed : Displays (List.replicate 25 ⟨newline, 0x0F, 0⟩)
    ((default : Console).clearScreen.handleKeys (List.replicate 25 ⟨newline, 0x0F, 0⟩)) :=
  displays_keys default _ (fun k hk => .inr (by rw [List.eq_of_mem_replicate hk])) (by decide)

theorem newlines_textLines :
    textLines (List.replicate 25 ⟨newline, 0x0F, 0⟩) = List.replicate 26 [] := by
  decide

theorem newlines_size : ((default : Console).clearScreen.handleKeys
    (List.replicate 25 ⟨newline, 0x0F, 0⟩)).text.size = (26 : Nat) := by
  rw [newlines_displayed.size, newlines_textLines, List.length_replicate]

theorem newlines_backspace : (((default : Console).clearScreen.handleKeys
    (List.replicate 25 ⟨newline, 0x0F, 0⟩)).handleKey ⟨backspace, 0x0F, 0⟩).text.frameRowPointer = 1 ∧
    (((default : Console).clearScreen.handleKeys
      (List.replicate 25 ⟨newline, 0x0F, 0⟩)).handleKey ⟨backspace, 0x0F, 0⟩).text.size = 25 := by
  have hd := newlines_displayed
  have hline := hd.lines
  rw [newlines_textLines] at hline
  have htext := handleKey_text (k := ⟨backspace, 0x0F, 0⟩) hd.atEnd.atTail.facts (.inr (.inr rfl))
  rw [htext, TextBuffer.typed, if_neg (by decide), if_pos rfl]
  exact hd.atEnd.backspace_blank hd.lowest hline newlines_size

/-- A text that grows to 26 lines and loses one. -/
def shrinkKeys : List Key := List.replicate 25 ⟨newline, 0x0F, 0⟩ ++ [⟨backspace, 0x0F, 0⟩]

theorem shrinkKeys_typed {k : Key} (hk : k ∈ shrinkKeys) : Typed k.c := by
  rcases List.mem_append.mp hk with hk | hk
  · rw [List.eq_of_mem_replicate hk]
    exact .inr (.inl rfl)
  · rw [List.mem_singleton.mp hk]
    exact .inr (.inr rfl)

/-- An arrow up after them puts the cursor on the line above. -/
theorem up_after_shrink :
    Run EventStep (default : Console).clearScreen (shrinkKeys.map .type ++ [.up])
        (((default : Console).clearScreen.handleKeys shrinkKeys).moveScreen arrowUp) ∧
      ¬ SameText (((default : Console).clearScreen.handleKeys shrinkKeys).moveScreen arrowUp)
        ((default : Console).clearScreen.handleKeys
          (typedKeys (shrinkKeys.map .type ++ [.up]))) := by
  obtain ⟨htop, hsize⟩ := newlines_backspace
  rw [← handleKeys_snoc, ← shrinkKeys] at htop hsize
  obtain ⟨hrun, htail⟩ := typing_run (fun _ => shrinkKeys_typed) (clearScreen_atEnd default).atTail rfl
  refine ⟨hrun.snoc ⟨fun k hk => ScreenEvent.noConfusion hk, rfl⟩, ?_⟩
  rw [typedKeys_up, typedKeys_map]
  apply (Scrolled.refl htail).up_breaks
  intro hf
  have hroom := hf (by omega)
  omega

end Shrunk

/-- An arrow up to the first of 26 lines and one back, and then a character. -/
theorem up_down_type {s : Console} {es : List ScreenEvent} {k : Key}
    (h : Run EventStep s es (handleEvents s es)) (hf : UpsFill s es)
    (htop : (handleEvents s es).text.frameRowPointer = 1)
    (hsize : (handleEvents s es).text.size = (26 : Nat)) (hk : Typed k.c) :
    (handleEvents s (es ++ [.up])).text.frameRowPointer = 0 ∧
      UpsFill s (es ++ [.up] ++ [.down] ++ [.type k]) ∧
      ∃ s', Run EventStep s (es ++ [.up] ++ [.down] ++ [.type k]) s' := by
  generalize hu : handleEvents s es = u at h htop hsize
  have hup : (u.moveScreen arrowUp).text.frameRowPointer = 0 := by
    rw [moveScreen_up_text, if_pos (by omega), htop]
    rfl
  have hupSize : (u.moveScreen arrowUp).text.size = (26 : Nat) := by
    rw [moveScreen_up_text]
    exact hsize
  have hviewed : Viewed ((u.moveScreen arrowUp).moveScreen arrowDown).text := by
    rw [moveScreen_down_text, if_pos (by omega), hup, Viewed]
    dsimp only
    omega
  refine ⟨?_, ?_, _, ((h.snoc (e := .up) ⟨nofun, rfl⟩).snoc (e := .down) ⟨nofun, rfl⟩).snoc
    (e := .type k) ⟨fun k' hk' => ?_, rfl⟩⟩
  · rw [handleEvents_snoc, hu]
    exact hup
  · refine ((hf.snoc fun _ => ?_).snoc ScreenEvent.noConfusion).snoc ScreenEvent.noConfusion
    rw [hu, FillsView]
    omega
  · obtain rfl := ScreenEvent.type.inj hk'
    exact ⟨hk, (moveScreen_viewed _ (.inr rfl)).mpr hviewed⟩

/-- Twenty-five newlines, an arrow up to the first line and one back, and then a character. -/
theorem scrolling_transparent_two_views : ∃ s, Run EventStep (default : Console).clearScreen
    ((List.replicate 25 ⟨newline, 0x0F, 0⟩).map .type ++ [.up] ++ [.down] ++
      [.type ⟨0x61, 0x0F, 0⟩]) s ∧
    (handleEvents (default : Console).clearScreen
      ((List.replicate 25 ⟨newline, 0x0F, 0⟩).map .type ++ [.up])).text.frameRowPointer = 0 ∧
    SameText (handleEvents (default : Console).clearScreen
        ((List.replicate 25 ⟨newline, 0x0F, 0⟩).map .type ++ [.up] ++ [.down] ++
          [.type ⟨0x61, 0x0F, 0⟩]))
      ((default : Console).clearScreen.handleKeys
        (List.replicate 25 ⟨newline, 0x0F, 0⟩ ++ [⟨0x61, 0x0F, 0⟩])) := by
  have hview := newlines_displayed.atEnd.second_view newlines_displayed.lowest newlines_size
  have hnewlines : ∀ k ∈ List.replicate 25 (⟨newline, 0x0F, 0⟩ : Key), Typed k.c := fun k hk => by
    rw [List.eq_of_mem_replicate hk]
    exact .inr (.inl rfl)
  obtain ⟨htyped, -⟩ := typing_run hnewlines (clearScreen_atEnd default).atTail rfl
  have hu := run_handleEvents htyped
  have hsize := newlines_size
  rw [hu] at htyped hview hsize
  obtain ⟨htop, hfill, s, hrun⟩ := up_down_type (k := ⟨0x61, 0x0F, 0⟩) htyped (upsFill_typed _)
    hview.1 hsize (.inl (by constructor <;> decide))
  refine ⟨s, hrun, htop, ?_⟩
  have hsame := (scrolling_transparent_iff hrun).mpr hfill _ (List.prefix_refl _)
  rwa [typedKeys_type, typedKeys_down, typedKeys_up, typedKeys_map] at hsame

end Doors.Console
