import Mathlib.Data.List.Basic
import Mathlib.Data.List.ReduceOption

/-! A register that keeps the latest value it was given and is emptied by taking it. -/

namespace Doors.Mailbox

/-- Setting `none` empties the register without a take. -/
inductive Access (α : Type*)
  | set (a : Option α)
  | take

variable {α : Type*} {slot : Option α} {as : List (Access α)}

/-- What each take finds. -/
def taken : Option α → List (Access α) → List (Option α)
  | _, [] => []
  | _, .set a :: as => taken a as
  | slot, .take :: as => slot :: taken none as

/-- The values given, in order. -/
def given : List (Access α) → List α
  | [] => []
  | .set a :: as => a.toList ++ given as
  | .take :: as => given as

/-- Every value is taken, and before anything else is set. -/
def Served : Option α → List (Access α) → Prop
  | slot, [] => slot = none
  | slot, .set a :: as => slot = none ∧ Served a as
  | _, .take :: as => Served none as

instance decidableServed : (slot : Option α) → (as : List (Access α)) → Decidable (Served slot as)
  | slot, [] => inferInstanceAs (Decidable (slot = none))
  | slot, .set a :: as =>
    have := decidableServed a as
    inferInstanceAs (Decidable (slot = none ∧ Served a as))
  | _, .take :: as => decidableServed none as

/-- Nothing is taken twice or out of order. -/
theorem taken_sublist (slot : Option α) (as : List (Access α)) :
    (taken slot as).reduceOption.Sublist (slot.toList ++ given as) := by
  induction as generalizing slot with
  | nil => simp [taken]
  | cons access as ih =>
    cases access with
    | set a => exact (ih a).trans (List.sublist_append_right _ _)
    | take =>
      have htail := ih none
      cases slot with
      | none => simpa [taken, given] using htail
      | some a => simpa [taken, given] using htail

theorem taken_served (h : Served slot as) :
    (taken slot as).reduceOption = slot.toList ++ given as := by
  induction as generalizing slot with
  | nil =>
    obtain rfl : slot = none := h
    simp [taken, given]
  | cons access as ih =>
    cases access with
    | set a =>
      obtain ⟨rfl, ha⟩ := h
      simpa [taken, given] using ih ha
    | take =>
      have htail := ih h
      cases slot with
      | none => simpa [taken, given] using htail
      | some a => simpa [taken, given] using htail

theorem served_of_taken (h : (taken slot as).reduceOption = slot.toList ++ given as) :
    Served slot as := by
  induction as generalizing slot with
  | nil => cases slot with
    | none => rfl
    | some a => simp [taken, given] at h
  | cons access as ih =>
    cases access with
    | set a =>
      have hle := (taken_sublist a as).length_le
      have hlen := congrArg List.length h
      cases slot with
      | none => exact ⟨rfl, ih h⟩
      | some b => simp [taken, given] at hlen hle; omega
    | take =>
      cases slot with
      | none => exact ih (by simpa [taken, given] using h)
      | some b => exact ih (by simpa [taken, given] using h)

/-- All values arrive exactly when each is taken before the next is set. -/
theorem taken_eq_iff :
    (taken slot as).reduceOption = slot.toList ++ given as ↔ Served slot as :=
  ⟨served_of_taken, taken_served⟩

end Doors.Mailbox
