import Mathlib.Data.Nat.Digits.Lemmas

/-! Decimal numerals as byte strings, and numbers read backwards. -/

namespace Doors.Decimal

def digit (d : Nat) : UInt8 := UInt8.ofNat (48 + d)

/-- The numeral of `n`, without leading zeros. -/
def numeral (n : Nat) : List UInt8 :=
  if n = 0 then [digit 0] else (Nat.digits 10 n).reverse.map digit

/-- The number that a numeral stands for. -/
def parse (chars : List UInt8) : Nat := chars.foldl (fun n c => 10 * n + (c.toNat - 48)) 0

/-- The number that the numeral of `n` read backwards stands for. -/
def reversed (n : Nat) : Nat := Nat.ofDigits 10 (Nat.digits 10 n).reverse

def minus : UInt8 := '-'.toUInt8

def signedNumeral (n : Int) : List UInt8 :=
  if n < 0 then minus :: numeral n.natAbs else numeral n.natAbs

def parseSigned : List UInt8 → Int
  | [] => 0
  | c :: chars => if c = minus then -(parse chars : Int) else parse (c :: chars)

/-- Digits without a leading zero, 0 alone apart. -/
structure Plain (text : List UInt8) : Prop where
  digits : ∀ c ∈ text, ∃ d < 10, c = digit d
  nonempty : text ≠ []
  leading : text.head? = some (digit 0) → text = [digit 0]

/-- A plain numeral, of a positive number when it has a sign. -/
def Canonical (text : List UInt8) : Prop :=
  Plain text ∨ ∃ chars, text = minus :: chars ∧ Plain chars ∧ chars ≠ [digit 0]

theorem digit_toNat {d : Nat} (hd : d < 10) : (digit d).toNat = 48 + d := by
  rw [digit, UInt8.toNat_ofNat_of_lt']
  change 48 + d < 256
  omega

theorem digit_inj {a b : Nat} (ha : a < 10) (hb : b < 10) (h : digit a = digit b) : a = b := by
  have hn := congrArg UInt8.toNat h
  rw [digit_toNat ha, digit_toNat hb] at hn
  omega

theorem map_digit_inj {ds es : List Nat} (hd : ∀ d ∈ ds, d < 10) (he : ∀ e ∈ es, e < 10)
    (h : ds.map digit = es.map digit) : ds = es := by
  have hlen : ds.length = es.length := by simpa using congrArg List.length h
  apply List.ext_getElem hlen
  intro i hi hi'
  apply digit_inj (hd _ (List.getElem_mem hi)) (he _ (List.getElem_mem hi'))
  have hget := congrArg (·[i]?) h
  simpa [List.getElem?_eq_getElem, hi, hi'] using hget

theorem digits_lt {n d : Nat} (h : d ∈ Nat.digits 10 n) : d < 10 :=
  Nat.digits_lt_base (by decide) h

theorem parse_digits {ds : List Nat} (hd : ∀ d ∈ ds, d < 10) :
    parse (ds.reverse.map digit) = Nat.ofDigits 10 ds := by
  induction ds with
  | nil => rfl
  | cons d ds ih =>
    have hds := ih fun e he => hd e (List.mem_cons_of_mem _ he)
    rw [parse] at hds ⊢
    rw [List.reverse_cons, List.map_append, List.foldl_append, hds, Nat.ofDigits_cons]
    simp only [List.map_cons, List.map_nil, List.foldl_cons, List.foldl_nil]
    rw [digit_toNat (hd d List.mem_cons_self)]
    omega

theorem parse_numeral (n : Nat) : parse (numeral n) = n := by
  rw [numeral]
  by_cases h : n = 0
  · rw [if_pos h, h]
    decide
  · rw [if_neg h, parse_digits fun _ => digits_lt, Nat.ofDigits_digits]

theorem numeral_zero : numeral 0 = [digit 0] := if_pos rfl

theorem numeral_pos {n : Nat} (h : n ≠ 0) : numeral n = (Nat.digits 10 n).reverse.map digit :=
  if_neg h

/-- The last digit of a numeral, behind the numeral of the others if there are any. -/
theorem numeral_step (n : Nat) :
    numeral n = (if n / 10 = 0 then [] else numeral (n / 10)) ++ [digit (n % 10)] := by
  by_cases hn : n = 0
  · subst hn
    rfl
  · rw [numeral_pos hn, Nat.digits_def' (by decide) (Nat.pos_of_ne_zero hn), List.reverse_cons,
      List.map_append, List.map_singleton]
    congr 1
    by_cases hq : n / 10 = 0
    · simp [hq]
    · rw [if_neg hq, numeral_pos hq]

theorem reverse_numeral (n : Nat) : (numeral n).reverse =
    digit (n % 10) :: if n / 10 = 0 then [] else (numeral (n / 10)).reverse := by
  rw [numeral_step, List.reverse_append]
  split_ifs <;> rfl

theorem numeral_length_le {n k : Nat} (hk : 0 < k) (h : n < 10 ^ k) : (numeral n).length ≤ k := by
  by_cases hn : n = 0
  · rw [hn]
    exact hk
  · rw [numeral_pos hn, List.length_map, List.length_reverse]
    exact (Nat.digits_length_le_iff (by decide) n).mpr h

theorem numeral_plain (n : Nat) : Plain (numeral n) := by
  by_cases hn : n = 0
  · subst hn
    exact ⟨by simpa [numeral_zero] using ⟨0, by decide, rfl⟩, by simp [numeral_zero], fun _ => rfl⟩
  · have hne : Nat.digits 10 n ≠ [] := Nat.digits_ne_nil_iff_ne_zero.mpr hn
    rw [numeral_pos hn]
    refine ⟨fun c hc => ?_, by simpa using hne, fun hhead => ?_⟩
    · obtain ⟨d, hd, rfl⟩ := List.mem_map.mp hc
      exact ⟨d, digits_lt (List.mem_reverse.mp hd), rfl⟩
    · rw [List.head?_map, List.head?_reverse, List.getLast?_eq_some_getLast hne,
        Option.map_some, Option.some.injEq] at hhead
      have hlast := Nat.getLast_digit_ne_zero 10 hn
      exact absurd (digit_inj (digits_lt (List.getLast_mem _)) (by decide) hhead) hlast

theorem Plain.not_mem {chars : List UInt8} (h : Plain chars) {c : UInt8} (hc : c.toNat < 48) :
    c ∉ chars := by
  intro hmem
  obtain ⟨d, hd, rfl⟩ := h.digits c hmem
  rw [digit_toNat hd] at hc
  omega

theorem signedNumeral_canonical (n : Int) : Canonical (signedNumeral n) := by
  rw [signedNumeral]
  split_ifs with hn
  · refine .inr ⟨_, rfl, numeral_plain _, fun hzero => ?_⟩
    have hparse := parse_numeral n.natAbs
    rw [hzero] at hparse
    have hz : parse [digit 0] = 0 := by decide
    omega
  · exact .inl (numeral_plain _)

theorem parse_signedNumeral (n : Int) : parseSigned (signedNumeral n) = n := by
  rw [signedNumeral]
  split_ifs with hn
  · rw [parseSigned, if_pos rfl, parse_numeral]
    omega
  · obtain ⟨c, chars, h⟩ := List.exists_cons_of_ne_nil (numeral_plain n.natAbs).nonempty
    have hc : c ≠ minus := by
      rintro rfl
      exact (numeral_plain n.natAbs).not_mem (by decide) (h ▸ List.mem_cons_self)
    rw [h, parseSigned, if_neg hc, ← h, parse_numeral]
    omega

theorem signedNumeral_ne_nil (n : Int) : signedNumeral n ≠ [] := by
  rw [signedNumeral]
  split_ifs
  · exact List.cons_ne_nil _ _
  · exact (numeral_plain _).nonempty

theorem zero_not_mem_signedNumeral (n : Int) : 0 ∉ signedNumeral n := by
  have hplain := (numeral_plain n.natAbs).not_mem (c := 0) (by decide)
  rw [signedNumeral]
  split_ifs
  · exact List.not_mem_cons_of_ne_of_not_mem (by decide) hplain
  · exact hplain

/-- The digits in reverse are those of a number unless the last one was 0. -/
theorem digits_reversed {n : Nat} (hn : n ≠ 0) :
    Nat.digits 10 (reversed n) = (Nat.digits 10 n).reverse ↔ n % 10 ≠ 0 := by
  have hdef := Nat.digits_def' (by decide : 1 < 10) (Nat.pos_of_ne_zero hn)
  constructor
  · intro h
    have hne : reversed n ≠ 0 := by
      intro hz
      rw [hz, Nat.digits_zero, hdef] at h
      simp at h
    have hlast := Nat.getLast_digit_ne_zero 10 hne
    simpa only [h, List.getLast_reverse, hdef, List.head_cons] using hlast
  · intro hlast
    apply Nat.digits_ofDigits 10 (by decide)
    · intro d hd
      exact digits_lt (List.mem_reverse.mp hd)
    · intro hne
      simpa only [List.getLast_reverse, hdef, List.head_cons] using hlast

end Doors.Decimal
