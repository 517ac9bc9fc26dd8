import Mathlib.Data.Finset.Card
import Mathlib.Data.Fintype.Basic
import Mathlib.Data.Fintype.Card
import Mathlib.Data.List.FinRange

/-! Allocation bitmaps: the first clear entry and the number of used ones. -/

namespace Doors

abbrev Bitmap (n : Nat) := Fin n → Bool

namespace Bitmap

variable {n : Nat} {m : Bitmap n} {i : Fin n}

def firstClear (m : Bitmap n) : Option (Fin n) := (List.finRange n).find? fun i => !m i

/-- A store at index `k`; outside the bitmap it changes no entry. -/
def clearAt (m : Bitmap n) (k : Nat) : Bitmap n := fun i => if i.val = k then false else m i

def usedCount (m : Bitmap n) : Nat := (Finset.univ.filter fun i => m i = true).card

theorem firstClear_some (h : m.firstClear = some i) : m i = false := by
  have hh := List.find?_some h
  simpa using hh

theorem firstClear_none (h : m.firstClear = none) (i : Fin n) : m i = true := by
  have hh := List.find?_eq_none.mp h i (List.mem_finRange i)
  simpa using hh

theorem usedCount_le (m : Bitmap n) : m.usedCount ≤ n := by
  have hh := Finset.card_filter_le Finset.univ fun i => m i = true
  simpa [usedCount] using hh

theorem usedCount_set (h : m i = false) :
    usedCount (Function.update m i true) = m.usedCount + 1 := by
  have hset : (Finset.univ.filter fun j => Function.update m i true j = true) =
      insert i (Finset.univ.filter fun j => m j = true) := by
    ext j
    by_cases hj : j = i
    · simp [hj]
    · simp [hj]
  rw [usedCount, hset, Finset.card_insert_of_notMem (by simp [h]), usedCount]

theorem usedCount_clear (h : m i = true) :
    usedCount (Function.update m i false) + 1 = m.usedCount := by
  have hset : (Finset.univ.filter fun j => Function.update m i false j = true) =
      (Finset.univ.filter fun j => m j = true).erase i := by
    ext j
    by_cases hj : j = i
    · simp [hj]
    · simp [hj]
  have hm : i ∈ Finset.univ.filter fun j => m j = true := by simp [h]
  rw [usedCount, hset, Finset.card_erase_add_one hm, usedCount]

theorem usedCount_lt (h : m i = false) : m.usedCount < n := by
  have hh := usedCount_le (Function.update m i true)
  rw [usedCount_set h] at hh
  exact hh

/-- A bitmap that is not full has a first clear entry. -/
theorem firstClear_of_lt (h : m.usedCount < n) : ∃ i, m.firstClear = some i := by
  cases hf : m.firstClear with
  | some i => exact ⟨i, rfl⟩
  | none =>
    have hall : (Finset.univ.filter fun j => m j = true) = Finset.univ := by
      ext j
      simp [firstClear_none hf j]
    rw [usedCount, hall, Finset.card_univ, Fintype.card_fin] at h
    exact absurd h (Nat.lt_irrefl n)

theorem clearAt_val (m : Bitmap n) (i : Fin n) : m.clearAt i.val = Function.update m i false := by
  funext j
  by_cases hj : j = i
  · simp [clearAt, hj]
  · have hv : j.val ≠ i.val := fun h => hj (Fin.ext h)
    simp [clearAt, hj, hv]

end Bitmap

end Doors
