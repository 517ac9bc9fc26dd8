import Doors.Scrolling

/-! The view that the arrows leave. Its rows are counted by the distance to the end of the
text modulo 256, so a view far above the end may lack lines of the text. -/

namespace Doors.Console

/-- The cell of the text in row `r`, column `c` of the view. -/
def TextBuffer.visible (t : TextBuffer) (r c : Nat) : UInt8 × UInt8 :=
  if r + t.frameRowPointer < t.size ∧ (c : Int) < (t.buffer (r + t.frameRowPointer)).size then
    ((t.buffer (r + t.frameRowPointer)).lineBuf c, (t.buffer (r + t.frameRowPointer)).colorBuf c)
  else blank

/-- The screen shows the lines of the text in view, and blanks elsewhere. -/
def ShowsText (s : Console) : Prop :=
  ∀ r c, r < 25 → c < 80 → cellAt s.memory r c = s.text.visible r c

structure Scrollable (t : TextBuffer) : Prop where
  size : t.size ≤ 4096
  top : 0 ≤ t.frameRowPointer ∧ t.frameRowPointer ≤ t.size
  line : ∀ i, 0 ≤ i → i < 4096 → 0 ≤ (t.buffer i).size ∧ (t.buffer i).size ≤ 79

/-- The first line in view after an arrow. -/
def TextBuffer.arrow (t : TextBuffer) (c : UInt8) : TextBuffer :=
  { t with
    frameRowPointer :=
      if c = arrowUp then
        if t.frameRowPointer > 0 then t.frameRowPointer - 1 else t.frameRowPointer
      else if t.frameRowPointer + 25 < t.size then t.frameRowPointer + 1
      else t.frameRowPointer }

/-- The rows of the view that the count modulo 256 leaves out hold nothing but blanks. -/
def BlankBeyond (t : TextBuffer) : Prop :=
  ∀ r c : Nat, r < 25 → uint8 (t.size - t.frameRowPointer) ≤ r → r + t.frameRowPointer < t.size →
    (c : Int) < (t.buffer (r + t.frameRowPointer)).size →
      ((t.buffer (r + t.frameRowPointer)).lineBuf c,
        (t.buffer (r + t.frameRowPointer)).colorBuf c) = blank

section Rows

variable {t : TextBuffer}

theorem uint8_le {n : Int} (h : 0 ≤ n) : uint8 n ≤ n := by
  unfold uint8
  omega

theorem lt_visibleRows {r : Nat} (hr : r < 25) :
    r < visibleRows t ↔ (r : Int) < uint8 (t.size - t.frameRowPointer) := by
  unfold visibleRows
  dsimp only
  split_ifs <;> omega

theorem blankBeyond_near (h : t.size - t.frameRowPointer < 256) : BlankBeyond t := by
  intro r c _ hcut hrow
  unfold uint8 at hcut
  omega

theorem Scrollable.line_le (h : Scrollable t) {r : Nat} (hr : r < visibleRows t) :
    (t.buffer (r + t.frameRowPointer)).size ≤ 79 := by
  have hview := visibleRows_le t
  have hcount := (lt_visibleRows (by omega)).mp hr
  have hle := uint8_le (n := t.size - t.frameRowPointer) (by have := h.top.2; omega)
  have htop := h.top.1
  have hsize := h.size
  exact (h.line _ (by omega) (by omega)).2

theorem Scrollable.shown_eq (h : Scrollable t) {r : Nat} (hr : r < 25) (c : Nat)
    (hcut : (r : Int) < uint8 (t.size - t.frameRowPointer)) : t.shown r c = t.visible r c := by
  have hle := uint8_le (n := t.size - t.frameRowPointer) (by have := h.top.2; omega)
  have hrow : r + t.frameRowPointer < t.size := by
    omega
  rw [TextBuffer.shown, TextBuffer.visible]
  simp only [(lt_visibleRows hr).mpr hcut, hrow, true_and]

theorem shown_cut {r : Nat} (hr : r < 25) (c : Nat)
    (hcut : uint8 (t.size - t.frameRowPointer) ≤ r) : t.shown r c = blank := by
  have hno : ¬ r < visibleRows t := by
    rw [lt_visibleRows hr]
    omega
  rw [TextBuffer.shown, if_neg fun h => hno h.1]

theorem Scrollable.shown_iff (h : Scrollable t) :
    (∀ r c, r < 25 → c < 80 → t.shown r c = t.visible r c) ↔ BlankBeyond t := by
  constructor
  · intro hall r c hr hcut hrow hc
    have htop := h.top.1
    have hsize := h.size
    have hline := h.line (r + t.frameRowPointer) (by omega) (by omega)
    have heq := hall r c hr (by omega)
    rw [shown_cut hr c hcut, TextBuffer.visible, if_pos ⟨hrow, hc⟩] at heq
    exact heq.symm
  · intro hblank r c hr hc
    by_cases hcut : (r : Int) < uint8 (t.size - t.frameRowPointer)
    · exact h.shown_eq hr c hcut
    · have hcut' : uint8 (t.size - t.frameRowPointer) ≤ r := by
        omega
      rw [shown_cut hr c hcut', TextBuffer.visible]
      split_ifs with hin
      · exact (hblank r c hr hcut' hin.1 hin.2).symm
      · rfl

theorem Scrollable.arrow (h : Scrollable t) (c : UInt8) : Scrollable (t.arrow c) := by
  have htop := h.top
  refine ⟨h.size, ?_, h.line⟩
  unfold TextBuffer.arrow
  dsimp only
  split_ifs <;> omega

theorem Scrollable.arrows (h : Scrollable t) (cs : List UInt8) :
    Scrollable (cs.foldl TextBuffer.arrow t) := by
  induction cs generalizing t with
  | nil => exact h
  | cons c cs ih => exact ih (h.arrow c)

end Rows

section Moves

variable {s : Console} {c : UInt8}

theorem moveScreen_text (hc : c = arrowUp ∨ c = arrowDown) :
    (s.moveScreen c).text = s.text.arrow c := by
  rcases hc with rfl | rfl
  · rw [moveScreen_up_text]
    rfl
  · rw [moveScreen_down_text]
    rfl

theorem moveScreen_redraw (hc : c = arrowUp ∨ c = arrowDown) :
    ∃ s' : Console, s'.text = s.text.arrow c ∧ s.moveScreen c = s'.redraw := by
  have hmove : ∃ s' : Console, s.moveScreen c = s'.redraw := ⟨_, if_pos hc⟩
  obtain ⟨s', hmove⟩ := hmove
  refine ⟨s', ?_, hmove⟩
  rw [← moveScreen_text hc, hmove, redraw_text]

theorem moveScreen_cell (h : Scrollable s.text) (hc : c = arrowUp ∨ c = arrowDown) {r j : Nat}
    (hr : r < 25) (hj : j < 80) :
    cellAt (s.moveScreen c).memory r j = (s.text.arrow c).shown r j := by
  obtain ⟨s', htext, hmove⟩ := moveScreen_redraw (s := s) hc
  rw [hmove, redraw_cell hr hj, htext]
  rw [htext]
  exact fun i hi => (h.arrow c).line_le hi

theorem moveScreens_text {cs : List UInt8} (hcs : ∀ c ∈ cs, c = arrowUp ∨ c = arrowDown) :
    (cs.foldl moveScreen s).text = cs.foldl TextBuffer.arrow s.text := by
  induction cs generalizing s with
  | nil => rfl
  | cons c cs ih =>
    rw [List.foldl_cons, List.foldl_cons, ih fun c' hc' => hcs c' (by simp [hc']),
      moveScreen_text (hcs c (by simp))]

end Moves

/-- After any arrows the text in view is shown just if what the count leaves out is blank. -/
theorem scrollback_complete_iff {s : Console} (h : Scrollable s.text) {cs : List UInt8} {c : UInt8}
    (hcs : ∀ c' ∈ cs, c' = arrowUp ∨ c' = arrowDown) (hc : c = arrowUp ∨ c = arrowDown) :
    ShowsText ((cs.foldl moveScreen s).moveScreen c) ↔
      BlankBeyond ((cs.foldl TextBuffer.arrow s.text).arrow c) := by
  have htext := moveScreens_text (s := s) hcs
  have hscroll : Scrollable (cs.foldl moveScreen s).text := htext ▸ h.arrows cs
  rw [← htext, ← (hscroll.arrow c).shown_iff, ShowsText, moveScreen_text hc]
  constructor
  · intro hall r j hr hj
    rw [← moveScreen_cell hscroll hc hr hj]
    exact hall r j hr hj
  · intro hall r j hr hj
    rw [moveScreen_cell hscroll hc hr hj]
    exact hall r j hr hj

/-- A text of 257 lines, seen from its first line. -/
def longConsole : Console :=
  { (default : Console) with
    text := ⟨257, fun _ => ⟨1, fun _ => 0x61, fun _ => 0x0F⟩, 0, 0, 0⟩ }

theorem longConsole_scrollable : Scrollable longConsole.text :=
  ⟨by decide, by decide, fun _ _ _ => ⟨Int.one_nonneg, Int.le_of_lt (by decide : (1 : Int) < 79)⟩⟩

/-- Two lines down the end is 255 lines away. -/
theorem scrollback_two_down :
    ShowsText (([arrowDown].foldl moveScreen longConsole).moveScreen arrowDown) :=
  (scrollback_complete_iff longConsole_scrollable
    (fun _ h => .inr (List.mem_singleton.mp h)) (.inr rfl)).mpr (blankBeyond_near (by decide))

/-- One line down there are 256 lines to the end, and none of them is shown. -/
theorem scrollback_hidden : Scrollable longConsole.text ∧
    ¬ ShowsText (longConsole.moveScreen arrowDown) := by
  refine ⟨longConsole_scrollable, fun hshow => ?_⟩
  have hcell := hshow 0 0 (by decide) (by decide)
  rw [moveScreen_cell longConsole_scrollable (.inr rfl) (by decide) (by decide),
    moveScreen_text (.inr rfl)] at hcell
  exact absurd hcell (by decide)

end Doors.Console
