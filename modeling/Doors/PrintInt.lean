import Doors.Decimal

/-! `print_int`: the digits of a number are collected backwards in a 32-bit word and
put from there. -/

namespace Doors.Shell

open Decimal

/-- The first loop: the digits of `num`, the last one first, behind those of `temp`. -/
def reverseDigits (num temp : UInt32) : UInt32 :=
  if num > 0 then reverseDigits (num / 10) (temp * 10 + num % 10) else temp
termination_by num.toNat
decreasing_by
  have h : 0 < num.toNat := by assumption
  rw [UInt32.toNat_div]
  exact Nat.div_lt_self h (by decide)

/-- The second loop: the characters put for `temp`. -/
def putDigits (temp : UInt32) : List UInt8 :=
  if temp > 0 then (temp % 10 + 48).toUInt8 :: putDigits (temp / 10) else []
termination_by temp.toNat
decreasing_by
  have h : 0 < temp.toNat := by assumption
  rw [UInt32.toNat_div]
  exact Nat.div_lt_self h (by decide)

/-- The characters passed to `put_char`. -/
def printInt (num : UInt32) : List UInt8 :=
  (if num = 0 then ['0'.toUInt8] else []) ++ putDigits (reverseDigits num 0)

theorem digits_pos {n : UInt32} (h : n > 0) :
    Nat.digits 10 n.toNat = (n % 10).toNat :: Nat.digits 10 (n / 10).toNat := by
  rw [UInt32.toNat_div, UInt32.toNat_mod]
  exact Nat.digits_def' (by decide) h

theorem digits_not_pos {n : UInt32} (h : ¬ n > 0) : Nat.digits 10 n.toNat = [] := by
  have hz : n.toNat = 0 := Nat.eq_zero_of_not_pos h
  rw [hz, Nat.digits_zero]

theorem reverseDigits_toNat (num temp : UInt32) : (reverseDigits num temp).toNat =
    (temp.toNat * 10 ^ (Nat.digits 10 num.toNat).length + reversed num.toNat) % 2 ^ 32 := by
  fun_induction reverseDigits num temp with
  | case1 num temp h ih =>
    rw [ih, reversed, reversed, digits_pos h, List.reverse_cons, Nat.ofDigits_append,
      Nat.ofDigits_singleton, List.length_cons, List.length_reverse]
    have hstep : (temp * 10 + num % 10).toNat ≡ temp.toNat * 10 + (num % 10).toNat [MOD 2 ^ 32] := by
      rw [UInt32.toNat_add, UInt32.toNat_mul]
      exact (Nat.mod_modEq _ _).trans ((Nat.mod_modEq _ _).add_right _)
    have hrest := (hstep.mul_right (10 ^ (Nat.digits 10 (num / 10).toNat).length)).add_right
      (Nat.ofDigits 10 (Nat.digits 10 (num / 10).toNat).reverse)
    rw [hrest]
    congr 1
    ring
  | case2 num temp h =>
    rw [reversed, digits_not_pos h]
    simp [Nat.mod_eq_of_lt temp.toNat_lt]

theorem putDigits_eq (temp : UInt32) :
    putDigits temp = (Nat.digits 10 temp.toNat).map digit := by
  fun_induction putDigits temp with
  | case1 temp h ih =>
    rw [ih, digits_pos h, List.map_cons]
    have hd : (temp % 10).toNat < 10 := by
      rw [UInt32.toNat_mod]
      exact Nat.mod_lt _ (by decide)
    congr 1
    apply UInt8.toNat_inj.mp
    rw [digit_toNat hd, UInt32.toNat_toUInt8, UInt32.toNat_add]
    change ((temp % 10).toNat + 48) % 2 ^ 32 % 2 ^ 8 = _
    omega
  | case2 temp h => rw [digits_not_pos h, List.map_nil]

theorem printInt_zero : printInt 0 = ['0'.toUInt8] := by
  rw [printInt, if_pos rfl, putDigits_eq, reverseDigits_toNat]
  rfl

theorem printInt_pos {n : UInt32} (h : n ≠ 0) :
    printInt n = (Nat.digits 10 (reversed n.toNat % 2 ^ 32)).map digit := by
  rw [printInt, if_neg h, List.nil_append, putDigits_eq, reverseDigits_toNat]
  simp

/-- Trailing zeros are lost, and so is a reversal of more than 32 bits. -/
theorem print_int_iff (n : UInt32) :
    printInt n = numeral n.toNat ∧ parse (printInt n) = n.toNat ↔
      n = 0 ∨ n.toNat % 10 ≠ 0 ∧ reversed n.toNat < 2 ^ 32 := by
  by_cases hz : n = 0
  · rw [hz]
    refine iff_of_true ⟨?_, ?_⟩ (.inl rfl)
    all_goals
      rw [printInt_zero]
      decide
  · have hn : n.toNat ≠ 0 := fun h => hz (UInt32.toNat_inj.mp h)
    rw [printInt_pos hz]
    constructor
    · rintro ⟨h, -⟩
      rw [numeral, if_neg hn] at h
      have hdigits := map_digit_inj (fun _ => digits_lt)
        (fun _ hd => digits_lt (List.mem_reverse.mp hd)) h
      have hvalue : reversed n.toNat % 2 ^ 32 = reversed n.toNat := by
        rw [← Nat.ofDigits_digits 10 (reversed n.toNat % 2 ^ 32), hdigits, reversed]
      rw [hvalue] at hdigits
      exact .inr ⟨(digits_reversed hn).mp hdigits, hvalue ▸ Nat.mod_lt _ (by decide)⟩
    · rintro (h | ⟨hlast, hsmall⟩)
      · exact absurd h hz
      · have hnum : (Nat.digits 10 (reversed n.toNat % 2 ^ 32)).map digit = numeral n.toNat := by
          rw [Nat.mod_eq_of_lt hsmall, (digits_reversed hn).mpr hlast, numeral, if_neg hn]
        exact ⟨hnum, hnum ▸ parse_numeral _⟩

/-- Ten is printed as 1. -/
theorem print_int_ten :
    ¬ (printInt 10 = numeral (10 : UInt32).toNat ∧ parse (printInt 10) = (10 : UInt32).toNat) := by
  rw [printInt_pos (by decide)]
  decide

end Doors.Shell
