import Doors.CString
import Doors.Decimal

/-! `itoa`: the digits of a signed number are stored from the last one on, and the characters
are then reversed in place. Arithmetic outside 32 bits and accesses outside the array are
errors. -/

namespace Doors.CString

open Decimal

inductive Undefined
  | overflow
  | outOfBounds
  deriving DecidableEq

/-- The result of an operation on `int`. -/
def int32 (n : Int) : Except Undefined Int32 :=
  if -2 ^ 31 ≤ n ∧ n < 2 ^ 31 then .ok (Int32.ofInt n) else .error .overflow

def load (size : Nat) (mem : Nat → UInt8) (i : Nat) : Except Undefined UInt8 :=
  if i < size then .ok (mem i) else .error .outOfBounds

def put (size : Nat) (mem : Nat → UInt8) (i : Nat) (c : UInt8) :
    Except Undefined (Nat → UInt8) :=
  (store size mem i c).mapError fun _ => .outOfBounds

/-- The characters by the remainder, -35 to 35; the middle one is that of 0. -/
def digitTable : List UInt8 :=
  "zyxwvutsrqponmlkjihgfedcba9876543210123456789abcdefghijklmnopqrstuvwxyz".toList.map
    Char.toUInt8

def digitAt (index : Int32) : Except Undefined UInt8 :=
  match if index < 0 then none else digitTable[index.toInt.toNat]? with
  | some c => .ok c
  | none => .error .outOfBounds

/-- One round of the first loop: the quotient, and the character of the remainder. -/
def takeDigit (tmpValue : Int32) : Except Undefined (Int32 × UInt8) := do
  let value ← int32 (tmpValue.toInt.tdiv 10)
  let product ← int32 (value.toInt * 10)
  let remainder ← int32 (tmpValue.toInt - product.toInt)
  let index ← int32 (35 + remainder.toInt)
  let c ← digitAt index
  .ok (value, c)

theorem tdiv_ten (n : Int) : (n.tdiv 10).natAbs = n.natAbs / 10 ∧
    (0 ≤ n → 0 ≤ n.tdiv 10) ∧ (n ≤ 0 → n.tdiv 10 ≤ 0) := by
  refine ⟨Int.natAbs_tdiv n 10, fun h => Int.tdiv_nonneg h (by decide), fun h => ?_⟩
  have hneg := Int.tdiv_nonneg (Int.neg_nonneg_of_nonpos h) (show (0 : Int) ≤ 10 by decide)
  rw [Int.neg_tdiv] at hneg
  omega

theorem int32_ok {n : Int} (hlo : -2 ^ 31 ≤ n) (hhi : n < 2 ^ 31) :
    ∃ x, int32 n = .ok x ∧ x.toInt = n :=
  ⟨_, if_pos ⟨hlo, hhi⟩, Int32.toInt_ofInt_of_le hlo hhi⟩

/-- The table has the digits of positive and of negative remainders. -/
theorem digitTable_digit : ∀ k : Nat, k < 19 →
    digitTable[26 + k]? = some (digit ((k : Int) - 9).natAbs) := by decide +kernel

theorem digitAt_digit {index : Int32} {r : Int} (h : index.toInt = 35 + r) (hlo : -10 < r)
    (hhi : r < 10) : digitAt index = .ok (digit r.natAbs) := by
  have hneg : ¬ index < 0 := by
    rw [Int32.lt_iff_toInt_lt, h, Int32.toInt_zero]
    omega
  obtain ⟨k, hk⟩ := Int.eq_ofNat_of_zero_le (show 0 ≤ r + 9 by omega)
  have hindex : (35 + r).toNat = 26 + k := by omega
  have hr : r = (k : Int) - 9 := by omega
  rw [digitAt, if_neg hneg, h, hindex, digitTable_digit k (by omega), hr]

/-- No operation overflows, and the remainder of a negative number is that of its opposite. -/
theorem takeDigit_eq (n : Int32) : ∃ q, takeDigit n = .ok (q, digit (n.toInt.natAbs % 10)) ∧
    q.toInt.natAbs = n.toInt.natAbs / 10 ∧ (q ≠ 0 → (q < 0 ↔ n < 0)) := by
  have hlo := n.le_toInt
  have hhi := n.toInt_lt
  obtain ⟨habs, hpos, hneg⟩ := tdiv_ten n.toInt
  obtain ⟨q, hq, hqv⟩ := @int32_ok (n.toInt.tdiv 10) (by omega) (by omega)
  rw [← hqv] at habs hpos hneg
  obtain ⟨product, hproduct, hpv⟩ := @int32_ok (q.toInt * 10) (by omega) (by omega)
  have hrem : (n.toInt - product.toInt).natAbs = n.toInt.natAbs % 10 := by omega
  have hten := Nat.mod_lt n.toInt.natAbs (by decide : 0 < 10)
  obtain ⟨remainder, hremainder, hrv⟩ := @int32_ok (n.toInt - product.toInt) (by omega) (by omega)
  obtain ⟨index, hindex, hiv⟩ := @int32_ok (35 + remainder.toInt) (by omega) (by omega)
  have hdigit := digitAt_digit hiv (by omega) (by omega)
  rw [hrv, hrem] at hdigit
  refine ⟨q, ?_, habs, fun hne => ?_⟩
  · simp only [takeDigit, bind, Except.bind, hq, hproduct, hremainder, hindex, hdigit]
  · have hzero : q.toInt ≠ 0 := fun h => hne (Int32.toInt_inj.mp h)
    rw [Int32.lt_iff_toInt_lt, Int32.lt_iff_toInt_lt, Int32.toInt_zero]
    omega

/-- A round for a number that has another digit before the last one, or none. -/
theorem takeDigit_ok {n q : Int32} {c : UInt8} (h : takeDigit n = .ok (q, c)) :
    c = digit (n.toInt.natAbs % 10) ∧ q.toInt.natAbs = n.toInt.natAbs / 10 ∧
      (q = 0 ↔ n.toInt.natAbs / 10 = 0) ∧ (q ≠ 0 → (q < 0 ↔ n < 0)) := by
  obtain ⟨q', hq, habs, hsign⟩ := takeDigit_eq n
  obtain ⟨rfl, rfl⟩ := Prod.mk.inj (Except.ok.inj (h.symm.trans hq))
  refine ⟨rfl, habs, ?_, hsign⟩
  rw [← habs, Int.natAbs_eq_zero, ← Int32.toInt_zero, Int32.toInt_inj]

/-- The loop that stores the digits; `tmp_value`, `result` and `ptr` behind it. -/
def divideLoop (size : Nat) (value : Int32) (result : Nat → UInt8) (ptr : Nat) :
    Except Undefined (Int32 × (Nat → UInt8) × Nat) :=
  match _hdigit : takeDigit value with
  | .error e => .error e
  | .ok (quotient, c) =>
    match put size result ptr c with
    | .error e => .error e
    | .ok result =>
      if quotient ≠ 0 then divideLoop size quotient result (ptr + 1)
      else .ok (value, result, ptr + 1)
termination_by value.toInt.natAbs
decreasing_by
  obtain ⟨-, habs, hzero, -⟩ := takeDigit_ok _hdigit
  have hten : value.toInt.natAbs / 10 ≠ 0 := fun h => absurd (hzero.mpr h) (by assumption)
  omega

/-- The loop that exchanges the characters at `ptr1` and `ptr` until they meet. -/
def swapLoop (size : Nat) (result : Nat → UInt8) (ptr ptr1 : Nat) :
    Except Undefined (Nat → UInt8) :=
  if ptr1 < ptr then do
    let tmpChar ← load size result ptr
    let first ← load size result ptr1
    let result ← put size result ptr first
    let result ← put size result ptr1 tmpChar
    swapLoop size result (ptr - 1) (ptr1 + 1)
  else .ok result
termination_by ptr - ptr1

/-- `size` is that of the array; there is a character before `ptr` when it is decremented. -/
def itoa (size : Nat) (value : Int32) (result : Nat → UInt8) :
    Except Undefined (Nat → UInt8) := do
  let (tmpValue, result, ptr) ← divideLoop size value result 0
  let (result, ptr) ←
    if tmpValue < 0 then do
      let result ← put size result ptr minus
      .ok (result, ptr + 1)
    else .ok (result, ptr)
  let result ← put size result ptr 0
  swapLoop size result (ptr - 1) 0

/-- The stores of a string, one after another. -/
def putAll (size : Nat) : List UInt8 → (Nat → UInt8) → Nat → Except Undefined (Nat → UInt8)
  | [], mem, _ => .ok mem
  | c :: cs, mem, i => (put size mem i c).bind fun mem => putAll size cs mem (i + 1)

/-- A memory with a string from `i` on. -/
def written (mem : Nat → UInt8) (i : Nat) (cs : List UInt8) : Nat → UInt8 :=
  fun k => if i ≤ k ∧ k < i + cs.length then cs.getD (k - i) 0 else mem k

section Stores

variable {size i : Nat} {mem : Nat → UInt8} {cs : List UInt8}

theorem put_inside (h : i < size) (c : UInt8) : put size mem i c = .ok (Function.update mem i c) := by
  rw [put, store, if_pos h]
  rfl

theorem put_outside (h : size ≤ i) (c : UInt8) : put size mem i c = .error .outOfBounds := by
  rw [put, store, if_neg (Nat.not_lt.mpr h)]
  rfl

theorem written_update (c : UInt8) :
    written (Function.update mem i c) (i + 1) cs = written mem i (c :: cs) := by
  funext k
  simp only [written, List.length_cons]
  rcases Nat.lt_trichotomy k i with hlt | rfl | hgt
  · rw [if_neg (by omega), if_neg (by omega), Function.update_of_ne hlt.ne]
  · rw [if_neg (by omega), if_pos (by omega), Function.update_self, Nat.sub_self]
    rfl
  · obtain ⟨j, rfl⟩ := Nat.exists_eq_add_of_lt hgt
    rw [Function.update_of_ne hgt.ne', show i + j + 1 - i = j + 1 by omega,
      show i + j + 1 - (i + 1) = j by omega, List.getD_cons_succ]
    exact if_congr (by omega) rfl rfl

theorem putAll_eq (hi : i ≤ size) : putAll size cs mem i =
    if i + cs.length ≤ size then .ok (written mem i cs) else .error .outOfBounds := by
  induction cs generalizing mem i with
  | nil =>
    rw [putAll, List.length_nil, Nat.add_zero, if_pos hi]
    congr 1
    funext k
    exact (if_neg fun h => Nat.not_lt.mpr h.1 h.2).symm
  | cons c cs ih =>
    rw [putAll, List.length_cons, ← Nat.add_assoc, Nat.add_right_comm]
    by_cases h : i < size
    · rw [put_inside h]
      exact (ih h).trans (by rw [written_update])
    · rw [put_outside (Nat.not_lt.mp h), if_neg (by omega)]
      rfl

/-- The stores of a string and of another behind it. -/
theorem putAll_append (ds : List UInt8) : putAll size (cs ++ ds) mem i =
    (putAll size cs mem i).bind fun mem => putAll size ds mem (i + cs.length) := by
  induction cs generalizing mem i with
  | nil => rfl
  | cons c cs ih =>
    rw [List.cons_append, putAll, putAll]
    cases put size mem i c with
    | error e => rfl
    | ok mem =>
      rw [List.length_cons, Nat.add_comm cs.length, ← Nat.add_assoc]
      exact ih

end Stores

section Loops

variable {size ptr ptr1 : Nat} {mem : Nat → UInt8}

/-- The digits are stored from the last one on, and `tmp_value` keeps the sign. -/
theorem divideLoop_eq (value : Int32) : ∃ last : Int32, (last < 0 ↔ value < 0) ∧
    divideLoop size value mem ptr = (putAll size (numeral value.toInt.natAbs).reverse mem ptr).map
      fun mem => (last, mem, ptr + (numeral value.toInt.natAbs).length) := by
  fun_induction divideLoop size value mem ptr with
  | case1 value mem ptr e herror =>
    obtain ⟨q, hq, -⟩ := takeDigit_eq value
    cases herror.symm.trans hq
  | case2 value mem ptr q c hdigit e hput =>
    obtain ⟨rfl, -⟩ := takeDigit_ok hdigit
    rw [reverse_numeral, putAll, hput]
    exact ⟨value, .rfl, rfl⟩
  | case3 value mem ptr q c hdigit mem' hput hne ih =>
    obtain ⟨rfl, habs, hzero, hsign⟩ := takeDigit_ok hdigit
    obtain ⟨last, hlast, hloop⟩ := ih
    have hten : value.toInt.natAbs / 10 ≠ 0 := mt hzero.mpr hne
    refine ⟨last, hlast.trans (hsign hne), ?_⟩
    rw [hloop, reverse_numeral value.toInt.natAbs, numeral_step value.toInt.natAbs, if_neg hten,
      if_neg hten, putAll, hput, habs, List.length_append, List.length_singleton, Nat.add_assoc,
      Nat.add_comm 1]
    rfl
  | case4 value mem ptr q c hdigit mem' hput hne =>
    obtain ⟨rfl, -, hzero, -⟩ := takeDigit_ok hdigit
    have hten : value.toInt.natAbs / 10 = 0 := hzero.mp (not_not.mp hne)
    refine ⟨value, .rfl, ?_⟩
    rw [reverse_numeral, numeral_step, if_pos hten, if_pos hten, putAll, hput]
    rfl

theorem swapLoop_eq (h : ptr < size) : swapLoop size mem ptr ptr1 =
    .ok fun k => if ptr1 ≤ k ∧ k ≤ ptr then mem (ptr1 + ptr - k) else mem k := by
  fun_induction swapLoop size mem ptr ptr1 with
  | case1 mem ptr ptr1 hlt ih =>
    have hfirst : ptr1 < size := by omega
    simp only [load, if_pos h, if_pos hfirst, put_inside h, put_inside hfirst, bind, Except.bind]
    rw [ih _ (by omega)]
    congr 1
    funext k
    by_cases hk : k = ptr
    · rw [if_neg (by omega), if_pos (by omega), hk, Function.update_of_ne hlt.ne',
        Function.update_self, Nat.add_sub_cancel]
    · by_cases hk1 : k = ptr1
      · rw [if_neg (by omega), if_pos (by omega), hk1, Function.update_self,
          Nat.add_sub_cancel_left]
      · have hsum : ptr1 + 1 + (ptr - 1) - k = ptr1 + ptr - k := by omega
        have hinside : ptr1 + 1 ≤ k ∧ k ≤ ptr - 1 ↔ ptr1 ≤ k ∧ k ≤ ptr := by omega
        rw [hsum, Function.update_of_ne hk1, Function.update_of_ne hk]
        simp only [hinside]
        split_ifs with hin
        · rw [Function.update_of_ne (by omega), Function.update_of_ne (by omega)]
        · rfl
  | case2 mem ptr ptr1 hlt =>
    congr 1
    funext k
    split_ifs with hk
    · rw [show ptr1 + ptr - k = k by omega]
    · rfl

/-- Everything that is stored before the characters are exchanged. -/
theorem itoa_stores (value : Int32) : itoa size value mem =
    (putAll size ((signedNumeral value.toInt).reverse ++ [0]) mem 0).bind fun mem =>
      swapLoop size mem ((signedNumeral value.toInt).length - 1) 0 := by
  obtain ⟨last, hlast, hloop⟩ := @divideLoop_eq size 0 mem value
  have hneg : value < 0 ↔ value.toInt < 0 := by
    rw [Int32.lt_iff_toInt_lt, Int32.toInt_zero]
  rw [hneg] at hlast
  rw [itoa, hloop, signedNumeral]
  by_cases hv : value.toInt < 0
  · simp only [if_pos hv, List.reverse_cons, List.append_assoc, putAll_append,
      List.length_reverse]
    cases putAll size (numeral value.toInt.natAbs).reverse mem 0 with
    | error e => rfl
    | ok mem =>
      simp only [Except.map, Except.bind, bind, if_pos (hlast.mpr hv), putAll, Nat.zero_add]
      cases put size mem (numeral value.toInt.natAbs).length minus with
      | error e => rfl
      | ok mem =>
        simp only [List.length_singleton]
        cases put size mem ((numeral value.toInt.natAbs).length + 1) 0 <;> rfl
  · simp only [if_neg hv, putAll_append, List.length_reverse]
    cases putAll size (numeral value.toInt.natAbs).reverse mem 0 with
    | error e => rfl
    | ok mem =>
      simp only [Except.map, Except.bind, bind, if_neg (mt hlast.mp hv), putAll, Nat.zero_add]
      cases put size mem (numeral value.toInt.natAbs).length 0 <;> rfl

/-- The string in the array, or a store outside it. -/
theorem itoa_eq (value : Int32) : itoa size value mem =
    if (signedNumeral value.toInt).length < size
    then .ok (written mem 0 (signedNumeral value.toInt ++ [0])) else .error .outOfBounds := by
  have hpos : 0 < (signedNumeral value.toInt).length := by
    rw [List.length_pos_iff]
    exact signedNumeral_ne_nil _
  rw [itoa_stores, putAll_eq (Nat.zero_le _)]
  generalize signedNumeral value.toInt = text at hpos
  simp only [List.length_append, List.length_reverse, List.length_singleton, Nat.zero_add,
    Nat.succ_le_iff]
  split_ifs with hfit
  · rw [Except.bind, swapLoop_eq (by omega)]
    congr 1
    funext k
    simp only [written, List.length_append, List.length_reverse, List.length_singleton,
      Nat.zero_le, Nat.zero_add, true_and, Nat.sub_zero]
    rcases Nat.lt_trichotomy k text.length with hk | rfl | hk
    · have hmirror : text.length - 1 - (text.length - 1 - k) = k := by omega
      have hback : text.length - 1 - k < text.length := by omega
      rw [if_pos (by omega), if_pos (by omega), if_pos (by omega), List.getD_eq_getElem?_getD,
        List.getD_eq_getElem?_getD, List.getElem?_append_left (by simpa using hback),
        List.getElem?_append_left hk, List.getElem?_reverse hback, hmirror]
    · rw [if_neg (by omega), if_pos (by omega), if_pos (by omega), List.getD_eq_getElem?_getD,
        List.getD_eq_getElem?_getD, List.getElem?_concat_length, ← text.length_reverse,
        List.getElem?_concat_length]
    · rw [if_neg (by omega), if_neg (by omega), if_neg (by omega)]
  · rfl

end Loops

/-- The array starts with the canonical numeral of the number, and is otherwise as before. -/
structure Encodes (value : Int32) (result result' : Nat → UInt8) (text : List UInt8) : Prop where
  holds : Holds result' text
  canonical : Canonical text
  decoded : parseSigned text = value.toInt
  rest : ∀ k, text.length < k → result' k = result k

section Results

variable {mem : Nat → UInt8}

theorem holds_written {text : List UInt8} (hz : 0 ∉ text) (hlen : text.length < 256) :
    Holds (written mem 0 (text ++ [0])) text := by
  have hstart : ∀ k, written mem 0 (text ++ [0]) k =
      if k < text.length + 1 then (text ++ [0]).getD k 0 else mem k := by
    simp [written]
  refine ⟨hlen, hz, fun k hk => ?_, ?_⟩
  · rw [hstart, if_pos (by omega), List.getD_eq_getElem?_getD, List.getD_eq_getElem?_getD,
      List.getElem?_append_left hk]
  · rw [hstart, if_pos (Nat.lt_succ_self _)]
    simp

theorem signedNumeral_length (value : Int32) : (signedNumeral value.toInt).length ≤ 11 := by
  have hlo := value.le_toInt
  have hhi := value.toInt_lt
  have hdigits : (numeral value.toInt.natAbs).length ≤ 10 :=
    numeral_length_le (by decide) (by omega)
  rw [signedNumeral]
  split_ifs
  · rw [List.length_cons]
    omega
  · omega

theorem encodes_written (value : Int32) (mem : Nat → UInt8) :
    Encodes value mem (written mem 0 (signedNumeral value.toInt ++ [0]))
      (signedNumeral value.toInt) := by
  have hlen := signedNumeral_length value
  constructor
  · exact holds_written (zero_not_mem_signedNumeral _) (by omega)
  · exact signedNumeral_canonical _
  · exact parse_signedNumeral _
  · intro k hk
    refine if_neg fun h => ?_
    rw [List.length_append, List.length_singleton] at h
    omega

/-- A store outside the array is the only error. -/
theorem itoa_ok {size : Nat} {value : Int32} {mem' : Nat → UInt8}
    (h : itoa size value mem = .ok mem') : Encodes value mem mem' (signedNumeral value.toInt) := by
  rw [itoa_eq] at h
  split_ifs at h
  exact Except.ok.inj h ▸ encodes_written value mem

/-- A field of the clock fits the ten bytes of its array. -/
theorem itoa_field (field : UInt16) : ∃ mem', itoa 10 (Int32.ofNat field.toNat) mem = .ok mem' ∧
    Holds mem' (numeral field.toNat) := by
  have hlt := field.toNat_lt
  have hvalue : (Int32.ofNat field.toNat).toInt = field.toNat :=
    Int32.toInt_ofNat_of_lt (by omega)
  have htext : signedNumeral (Int32.ofNat field.toNat).toInt = numeral field.toNat := by
    rw [hvalue, signedNumeral, if_neg (by omega), Int.natAbs_natCast]
  have hlen : (numeral field.toNat).length ≤ 5 := numeral_length_le (by decide) (by omega)
  have heq := @itoa_eq 10 mem (Int32.ofNat field.toNat)
  rw [htext, if_pos (by omega)] at heq
  exact ⟨_, heq, htext ▸ (itoa_ok heq).holds⟩

/-- Every number is written as its numeral, without an overflow, wherever that numeral has
room, and different numbers leave different strings. -/
theorem itoa_encodes (value : Int32) (size : Nat) (result : Nat → UInt8) :
    itoa size value result ≠ .error .overflow ∧
    ((signedNumeral value.toInt).length < size →
      ∃ result' text, itoa size value result = .ok result' ∧ Encodes value result result' text) ∧
    ∀ (value' : Int32) (size' : Nat) (other result' other' : Nat → UInt8) (text : List UInt8),
      itoa size value result = .ok result' → itoa size' value' other = .ok other' →
      Holds result' text → Holds other' text → value = value' := by
  refine ⟨fun h => ?_, fun hfit => ?_, fun value' size' other result' other' text h h' ht ht' => ?_⟩
  · rw [itoa_eq] at h
    split_ifs at h
    cases h
  · have heq : itoa size value result = .ok _ := (itoa_eq value).trans (if_pos hfit)
    exact ⟨_, _, heq, itoa_ok heq⟩
  · have hnumeral := (itoa_ok h).holds.unique ht
    have hnumeral' := (itoa_ok h').holds.unique ht'
    have hparse := congrArg parseSigned (hnumeral.trans hnumeral'.symm)
    rw [parse_signedNumeral, parse_signedNumeral] at hparse
    exact Int32.toInt_inj.mp hparse

/-- The smallest number has room in twelve bytes. -/
theorem itoa_encodes_min : ∃ result' text,
    itoa 12 Int32.minValue (fun _ => 0) = .ok result' ∧
      Encodes Int32.minValue (fun _ => 0) result' text :=
  (itoa_encodes Int32.minValue 12 fun _ => 0).2.1
    (Nat.lt_succ_of_le (signedNumeral_length Int32.minValue))

end Results

end Doors.CString
