import Mathlib.Data.List.Induction
import Mathlib.Tactic.TypeStar

/-! Text laid out in rows of a fixed width. A line break ends the row; a row that is
full is followed by a new one, empty if nothing comes after it. -/

namespace Doors.Layout

variable {α : Type*} {w : Nat} {isBreak : α → Bool}

/-- One line of text in rows of `w`. -/
def wrap (w : Nat) (line : List α) : List (List α) :=
  (List.range (line.length / w + 1)).map fun i => (line.drop (w * i)).take w

def layout (w : Nat) (isBreak : α → Bool) (text : List α) : List (List α) :=
  (text.splitOnP isBreak).flatMap (wrap w)

theorem wrap_nil : wrap w ([] : List α) = [[]] := by
  simp [wrap]

/-- All rows but the last are full. -/
theorem wrap_eq (hw : 0 < w) (line : List α) : wrap w line =
    (List.range (line.length / w)).map (fun i => (line.drop (w * i)).take w) ++
      [line.drop (w * (line.length / w))] := by
  have hlast : (line.drop (w * (line.length / w))).length < w := by
    have hdiv := Nat.div_add_mod line.length w
    have hmod := Nat.mod_lt line.length hw
    rw [List.length_drop]
    omega
  rw [wrap, List.range_succ, List.map_append, List.map_singleton,
    List.take_of_length_le (Nat.le_of_lt hlast)]

theorem wrap_full (line : List α) (a : α) {q : Nat} (hq : w * q ≤ line.length) :
    (List.range q).map (fun i => ((line ++ [a]).drop (w * i)).take w) =
      (List.range q).map fun i => (line.drop (w * i)).take w := by
  refine List.map_congr_left fun i hi => ?_
  have hle : w * (i + 1) ≤ w * q := Nat.mul_le_mul_left w (List.mem_range.mp hi)
  rw [Nat.mul_succ] at hle
  rw [List.drop_append_of_le_length (by omega), List.take_append_of_le_length]
  rw [List.length_drop]
  omega

/-- One more character goes into the last row and may open another. -/
theorem wrap_snoc (hw : 0 < w) (line : List α) (a : α) : ∃ rows row,
    wrap w line = rows ++ [row] ∧ row.length < w ∧
    wrap w (line ++ [a]) =
      if row.length + 1 < w then rows ++ [row ++ [a]] else rows ++ [row ++ [a], []] := by
  have hdiv := Nat.div_add_mod line.length w
  have hmod := Nat.mod_lt line.length hw
  have hle : w * (line.length / w) ≤ line.length := Nat.mul_div_le line.length w
  have hrow : (line.drop (w * (line.length / w))).length = line.length % w := by
    rw [List.length_drop]
    omega
  refine ⟨_, _, wrap_eq hw line, by omega, ?_⟩
  rw [wrap_eq hw, List.length_append, List.length_singleton, hrow]
  by_cases hlt : line.length % w + 1 < w
  · have hq : (line.length + 1) / w = line.length / w := by
      apply Nat.div_eq_of_lt_le
      · rw [Nat.mul_comm]
        omega
      · rw [Nat.mul_comm, Nat.mul_succ]
        omega
    rw [if_pos hlt, hq, wrap_full line a hle, List.drop_append_of_le_length hle]
  · have hfull : line.length + 1 = w * (line.length / w + 1) := by
      rw [Nat.mul_succ]
      omega
    have hq : (line.length + 1) / w = line.length / w + 1 := by
      rw [hfull, Nat.mul_div_cancel_left _ hw]
    have hrow' : ((line ++ [a]).drop (w * (line.length / w))).take w =
        line.drop (w * (line.length / w)) ++ [a] := by
      rw [List.drop_append_of_le_length hle, List.take_of_length_le]
      rw [List.length_append, List.length_singleton]
      omega
    have hempty : (line ++ [a]).drop (w * (line.length / w + 1)) = [] := by
      rw [← hfull]
      exact List.drop_of_length_le (by simp)
    rw [if_neg hlt, hq, hempty, List.range_succ, List.map_append, wrap_full line a hle,
      List.map_singleton, hrow', List.append_assoc]
    rfl

theorem splitOnP_snoc {a : α} (ha : isBreak a = false) (text : List α) : ∃ lines line,
    text.splitOnP isBreak = lines ++ [line] ∧
      (text ++ [a]).splitOnP isBreak = lines ++ [line ++ [a]] := by
  induction text with
  | nil => exact ⟨[], [], List.splitOnP_nil, by simp [List.splitOnP_cons_eq_if_modifyHead, ha]⟩
  | cons b text ih =>
    obtain ⟨lines, line, hold, hnew⟩ := ih
    rw [List.cons_append, List.splitOnP_cons_eq_if_modifyHead,
      List.splitOnP_cons_eq_if_modifyHead, hold, hnew]
    cases hb : isBreak b with
    | true => exact ⟨[] :: lines, line, rfl, rfl⟩
    | false =>
      cases lines with
      | nil => exact ⟨[], b :: line, rfl, rfl⟩
      | cons head lines => exact ⟨(b :: head) :: lines, line, rfl, rfl⟩

theorem layout_nil : layout w isBreak [] = [[]] := by
  rw [layout, List.splitOnP_nil, List.flatMap_singleton, wrap_nil]

theorem layout_break {a : α} (ha : isBreak a = true) (text : List α) :
    layout w isBreak (text ++ [a]) = layout w isBreak text ++ [[]] := by
  rw [layout, List.splitOnP_append_cons _ _ ha, List.flatMap_append, List.splitOnP_nil,
    List.flatMap_singleton, wrap_nil]
  rfl

theorem layout_snoc (hw : 0 < w) {a : α} (ha : isBreak a = false) (text : List α) :
    ∃ rows row, layout w isBreak text = rows ++ [row] ∧ row.length < w ∧
      layout w isBreak (text ++ [a]) =
        if row.length + 1 < w then rows ++ [row ++ [a]] else rows ++ [row ++ [a], []] := by
  obtain ⟨lines, line, hold, hnew⟩ := splitOnP_snoc ha text
  obtain ⟨rows, row, hwrap, hlt, hwrap'⟩ := wrap_snoc hw line a
  refine ⟨lines.flatMap (wrap w) ++ rows, row, ?_, hlt, ?_⟩
  · rw [layout, hold, List.flatMap_append, List.flatMap_singleton, hwrap, List.append_assoc]
  · rw [layout, hnew, List.flatMap_append, List.flatMap_singleton, hwrap']
    by_cases h : row.length + 1 < w
    · rw [if_pos h, if_pos h, List.append_assoc]
    · rw [if_neg h, if_neg h, List.append_assoc]

theorem layout_length_le (hw : 0 < w) (text : List α) (a : α) :
    (layout w isBreak text).length ≤ (layout w isBreak (text ++ [a])).length := by
  cases ha : isBreak a with
  | true => simp [layout_break ha]
  | false =>
    obtain ⟨rows, row, hold, -, hnew⟩ := layout_snoc hw ha text
    rw [hold, hnew]
    split_ifs <;> simp

end Doors.Layout
