import Mathlib.Tactic.IntervalCases
import Mathlib.Tactic.SplitIfs

/-! The Gregorian calendar, counted year by year and month by month from 1970. -/

namespace Doors.Calendar

def isLeap (year : Nat) : Bool := year % 4 = 0 && (year % 100 ≠ 0 || year % 400 = 0)

def yearDays (year : Nat) : Nat := if isLeap year then 366 else 365

def monthDays (year : Nat) : Nat → Nat
  | 2 => if isLeap year then 29 else 28
  | 4 => 30
  | 6 => 30
  | 9 => 30
  | 11 => 30
  | _ => 31

/-- The days of the first `n` years from 1970. -/
def daysOfYears : Nat → Nat
  | 0 => 0
  | n + 1 => daysOfYears n + yearDays (1970 + n)

/-- The days of the first `n` months of a year. -/
def daysOfMonths (year : Nat) : Nat → Nat
  | 0 => 0
  | n + 1 => daysOfMonths year n + monthDays year (n + 1)

structure DateTime where
  year : Nat
  month : Nat
  day : Nat
  hour : Nat
  minute : Nat
  second : Nat
  month_range : 1 ≤ month ∧ month ≤ 12
  day_range : 1 ≤ day ∧ day ≤ monthDays year month
  hour_lt : hour < 24
  minute_lt : minute < 60
  second_lt : second < 60

/-- Days since the first of January 1970. -/
def DateTime.dayNumber (t : DateTime) : Nat :=
  daysOfYears (t.year - 1970) + daysOfMonths t.year (t.month - 1) + (t.day - 1)

/-- Seconds since the start of 1970. -/
def DateTime.unixTime (t : DateTime) : Nat :=
  ((t.dayNumber * 24 + t.hour) * 60 + t.minute) * 60 + t.second

theorem isLeap_iff (year : Nat) :
    isLeap year = true ↔ year % 4 = 0 ∧ (year % 100 ≠ 0 ∨ year % 400 = 0) := by
  simp [isLeap]

theorem monthDays_le (year month : Nat) : monthDays year month ≤ 31 := by
  rw [monthDays.eq_def]
  split <;> (try split_ifs) <;> omega

/-- Until 2199 only the leap day of 2100 is missing from one every four years. -/
theorem daysOfYears_eq {n : Nat} (hn : n ≤ 230) :
    daysOfYears n + (if 130 < n then 1 else 0) = 365 * n + (n + 1) / 4 := by
  induction n with
  | zero => rfl
  | succ n ih =>
    have hprev := ih (by omega)
    have hleap := isLeap_iff (1970 + n)
    rw [daysOfYears, yearDays]
    by_cases h : isLeap (1970 + n) = true
    · have hmod := hleap.mp h
      rw [if_pos h]
      split_ifs at hprev ⊢ <;> omega
    · have hmod := mt hleap.mpr h
      rw [if_neg h]
      split_ifs at hprev ⊢ <;> omega

/-- The days of the first `n` months of a year that is not a leap year. -/
def plainMonths : List Nat := [0, 31, 59, 90, 120, 151, 181, 212, 243, 273, 304, 334]

theorem daysOfMonths_eq (year : Nat) {n : Nat} (hn : n < 12) :
    daysOfMonths year n =
      plainMonths.getD n 0 + if 2 ≤ n ∧ isLeap year = true then 1 else 0 := by
  interval_cases n <;> cases h : isLeap year <;> simp [daysOfMonths, monthDays, h, plainMonths]

end Doors.Calendar
