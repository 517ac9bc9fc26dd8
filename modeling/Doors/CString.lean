import Doors.Shell

/-! `string.c` over arrays of bytes. A read or a store outside its array is a fault, and
`strsplit` and `strcat` have it exactly where the shell's model of them does. -/

namespace Doors.CString

open Fat32 (Fault)

/-- The comparison ends at the first difference. -/
def memcmp : List UInt8 → List UInt8 → Nat → Except Fault Int
  | _, _, 0 => .ok 0
  | a :: s1, b :: s2, n + 1 =>
    if a < b then .ok (-1) else if a > b then .ok 1 else memcmp s1 s2 n
  | _, _, _ + 1 => .error .outOfBounds

def store (size : Nat) (mem : Nat → UInt8) (i : Nat) (c : UInt8) : Except Fault (Nat → UInt8) :=
  if i < size then .ok (Function.update mem i c) else .error .outOfBounds

/-- `result[16][256]` by the offset of a byte. -/
abbrev Grid := Nat → UInt8

/-- The loop of `strsplit` from the rest of `str` on, with its indices `j` and `k`. -/
def strsplitLoop (delim : UInt8) : List UInt8 → Grid → Nat → Nat → Except Fault Grid
  | [], _, _, _ => .error .outOfBounds
  | c :: str, result, j, k =>
    if c = 0 then store 4096 result (j * 256 + k) 0
    else if c = delim then do
      let result ← store 4096 result (j * 256 + k) 0
      strsplitLoop delim str result (j + 1) 0
    else do
      let result ← store 4096 result (j * 256 + k) c
      strsplitLoop delim str result j (k + 1)

/-- `strsplit` of the string at the start of `str` into a cleared array. -/
def strsplit (str : List UInt8) (delim : UInt8) : Except Fault Grid :=
  strsplitLoop delim str (fun _ => 0) 0 0

/-- `strlen` of an array of 256 bytes; `none` when the scan leaves it. -/
def strlen (mem : Nat → UInt8) : Option Nat := (List.range 256).find? fun i => mem i = 0

/-- The copying loop of `strcat`, and the zero byte behind it. -/
def strcatLoop : List UInt8 → (Nat → UInt8) → Nat → Except Fault (Nat → UInt8)
  | [], dest, i => store 256 dest i 0
  | c :: src, dest, i => do
    let dest ← store 256 dest i c
    strcatLoop src dest (i + 1)

/-- `strcat` into an array of 256 bytes. -/
def strcat (dest : Nat → UInt8) (src : List UInt8) : Except Fault (Nat → UInt8) :=
  match strlen dest with
  | none => .error .outOfBounds
  | some i => strcatLoop src dest i

/-- The array starts with this string and its zero byte. -/
structure Holds (mem : Nat → UInt8) (text : List UInt8) : Prop where
  length : text.length < 256
  string : 0 ∉ text
  begins : ∀ k < text.length, mem k = text.getD k 0
  ended : mem text.length = 0

/-- An array of 16 rows that holds these strings. -/
def gridOf (rows : List (List UInt8)) : Grid := fun p => (rows.getD (p / 256) []).getD (p % 256) 0

/-- The string in a row of the array. -/
def rowText (grid : Grid) (j : Nat) : List UInt8 :=
  ((List.range 256).map fun k => grid (j * 256 + k)).takeWhile (· ≠ 0)

/-- The rows are the pieces of the string, with zeros behind them. -/
structure Splits (delim : UInt8) (str : List UInt8) (grid : Grid) : Prop where
  padded : ∀ j < 16, ∀ k < 256, grid (j * 256 + k) = ((str.splitOn delim).getD j []).getD k 0
  apart : ∀ j < 16, delim ∉ rowText grid j
  empty : ∀ j, str.count delim < j → j < 16 → ∀ k < 256, grid (j * 256 + k) = 0
  joined : [delim].intercalate ((List.range (str.count delim + 1)).map (rowText grid)) = str

section Memcmp

/-- A string is compared with a word over its own length: only its beginnings agree. -/
theorem memcmp_word {str word : List UInt8} (hz : 0 ∉ str) :
    ∃ r, memcmp (str ++ [0]) (word ++ [0]) str.length = .ok r ∧ (r = 0 ↔ str <+: word) := by
  induction str generalizing word with
  | nil => exact ⟨0, by cases word <;> rfl, iff_of_true rfl List.nil_prefix⟩
  | cons a str ih =>
    have ha : 0 < a := UInt8.pos_iff_ne_zero.mpr fun h => hz (h ▸ List.mem_cons_self)
    cases word with
    | nil =>
      refine ⟨1, ?_, iff_of_false (by decide) (by simp)⟩
      simp only [List.cons_append, List.nil_append, List.length_cons, memcmp,
        if_neg (UInt8.lt_asymm ha), gt_iff_lt, if_pos ha]
    | cons b word =>
      simp only [List.cons_append, List.length_cons, memcmp, List.cons_prefix_cons]
      by_cases hlt : a < b
      · exact ⟨-1, if_pos hlt, iff_of_false (by decide) fun h => UInt8.ne_of_lt hlt h.1⟩
      · by_cases hgt : b < a
        · exact ⟨1, (if_neg hlt).trans (if_pos hgt),
            iff_of_false (by decide) fun h => UInt8.ne_of_lt hgt h.1.symm⟩
        · obtain ⟨r, hr, hiff⟩ := ih fun h => hz (List.mem_cons_of_mem _ h)
          have hab : a = b := UInt8.le_antisymm (UInt8.not_lt.mp hgt) (UInt8.not_lt.mp hlt)
          refine ⟨r, (if_neg hlt).trans ((if_neg hgt).trans hr), ?_⟩
          rw [hiff, and_iff_right hab]

end Memcmp

section Split

variable {delim : UInt8} {str rest : List UInt8}

/-- The pieces of the string, the first of them behind what its row already holds. -/
def pieces (delim : UInt8) (cur str : List UInt8) : List (List UInt8) :=
  (str.splitOn delim).modifyHead (cur ++ ·)

theorem pieces_start : pieces delim [] str = str.splitOn delim := by
  cases h : str.splitOn delim <;> simp [pieces, h]

@[simp] theorem pieces_nil (cur : List UInt8) : pieces delim cur [] = [cur] := by
  simp [pieces, List.splitOn_nil]

@[simp] theorem pieces_delim (cur : List UInt8) :
    pieces delim cur (delim :: str) = cur :: pieces delim [] str := by
  rw [pieces, List.splitOn_cons_eq_if_modifyHead, if_pos (beq_self_eq_true _),
    List.modifyHead_cons, List.append_nil, pieces_start]

theorem pieces_cons {c : UInt8} (hc : c ≠ delim) (cur : List UInt8) :
    pieces delim cur (c :: str) = pieces delim (cur ++ [c]) str := by
  rw [pieces, List.splitOn_cons_eq_if_modifyHead, if_neg (by simpa using hc), pieces,
    List.modifyHead_modifyHead]
  congr 1
  funext row
  simp

theorem infix_of_mem_pieces {cur row : List UInt8} (h : row ∈ pieces delim cur str) :
    row <:+: cur ++ str := by
  induction str generalizing cur with
  | nil => simp_all
  | cons c str ih =>
    by_cases hc : c = delim
    · subst hc
      obtain rfl | h := List.mem_cons.mp (pieces_delim cur ▸ h)
      · exact List.infix_append' [] _ _
      · obtain ⟨before, behind, hstr⟩ := ih h
        rw [List.nil_append] at hstr
        exact ⟨cur ++ c :: before, behind, by simp [← hstr]⟩
    · have hrow := ih (pieces_cons hc cur ▸ h)
      rwa [List.append_assoc, List.singleton_append] at hrow

theorem infix_of_mem_splitOn {row : List UInt8} (h : row ∈ str.splitOn delim) : row <:+: str := by
  rw [← pieces_start] at h
  exact infix_of_mem_pieces h

theorem length_pieces (cur str : List UInt8) :
    (pieces delim cur str).length = str.count delim + 1 := by
  induction str generalizing cur with
  | nil => simp
  | cons c str ih =>
    by_cases hc : c = delim
    · subst hc
      rw [pieces_delim, List.length_cons, ih, List.count_cons_self]
    · rw [pieces_cons hc, ih, List.count_cons_of_ne hc]

theorem length_splitOn : (str.splitOn delim).length = str.count delim + 1 := by
  rw [← pieces_start, length_pieces]

theorem notMem_of_mem_pieces {cur row : List UInt8} (hcur : delim ∉ cur)
    (h : row ∈ pieces delim cur str) : delim ∉ row := by
  induction str generalizing cur with
  | nil => simp_all
  | cons c str ih =>
    by_cases hc : c = delim
    · subst hc
      obtain rfl | h := List.mem_cons.mp (pieces_delim cur ▸ h)
      · exact hcur
      · exact ih List.not_mem_nil h
    · have hnext : delim ∉ cur ++ [c] := by simpa [hcur] using Ne.symm hc
      exact ih hnext (pieces_cons hc cur ▸ h)

theorem notMem_of_mem_splitOn {row : List UInt8} (h : row ∈ str.splitOn delim) : delim ∉ row := by
  rw [← pieces_start] at h
  exact notMem_of_mem_pieces List.not_mem_nil h

theorem exists_mem_pieces (cur str : List UInt8) :
    ∃ row ∈ pieces delim cur str, cur.length ≤ row.length := by
  obtain ⟨row, rows, h⟩ := List.exists_cons_of_ne_nil (List.splitOn_ne_nil delim str)
  exact ⟨cur ++ row, by simp [pieces, h], by simp⟩

end Split

section Grid

variable {delim : UInt8} {str rest : List UInt8} {pre : List (List UInt8)} {cur : List UInt8}

theorem getD_concat_of_ne {row : List UInt8} {j : Nat} (hj : j ≠ pre.length) :
    (pre ++ [row]).getD j [] = pre.getD j [] := by
  simp only [List.getD_eq_getElem?_getD]
  congr 1
  rcases Nat.lt_or_gt_of_ne hj with hlt | hgt
  · exact List.getElem?_append_left hlt
  · rw [List.getElem?_eq_none hgt.le, List.getElem?_eq_none]
    rw [List.length_append, List.length_singleton]
    omega

theorem gridOf_current (k : Nat) (hk : k < 256) :
    gridOf (pre ++ [cur]) (pre.length * 256 + k) = cur.getD k 0 := by
  have hdiv : (pre.length * 256 + k) / 256 = pre.length := by omega
  have hmod : (pre.length * 256 + k) % 256 = k := by omega
  simp [gridOf, hdiv, hmod]

theorem store_char {c : UInt8} (hj : pre.length < 16) (hk : cur.length < 255) :
    store 4096 (gridOf (pre ++ [cur])) (pre.length * 256 + cur.length) c =
      .ok (gridOf (pre ++ [cur ++ [c]])) := by
  rw [store, if_pos (by omega)]
  congr 1
  funext p
  by_cases hp : p = pre.length * 256 + cur.length
  · subst hp
    rw [Function.update_self, gridOf_current _ (by omega)]
    simp
  · rw [Function.update_of_ne hp]
    by_cases hrow : p / 256 = pre.length
    · have hmod : p % 256 ≠ cur.length := by omega
      simp only [gridOf, hrow, List.getD_eq_getElem?_getD, List.getElem?_concat_length,
        Option.getD_some]
      rcases Nat.lt_or_gt_of_ne hmod with hlt | hgt
      · rw [List.getElem?_append_left hlt]
      · rw [List.getElem?_eq_none hgt.le, List.getElem?_eq_none (by simp; omega)]
    · simp only [gridOf, getD_concat_of_ne hrow]

theorem store_end (hj : pre.length < 16) (hk : cur.length < 256) :
    store 4096 (gridOf (pre ++ [cur])) (pre.length * 256 + cur.length) 0 =
      .ok (gridOf (pre ++ [cur])) := by
  rw [store, if_pos (by omega)]
  congr 1
  rw [Function.update_eq_self_iff, gridOf_current _ hk]
  simp

theorem store_outside {mem : Grid} {c : UInt8} (hj : 16 ≤ pre.length) :
    store 4096 mem (pre.length * 256 + cur.length) c = .error .outOfBounds :=
  if_neg (by omega)

theorem gridOf_empty_row : gridOf (pre ++ [[]]) = gridOf pre := by
  funext p
  by_cases hrow : p / 256 = pre.length
  · simp [gridOf, hrow]
  · simp only [gridOf, getD_concat_of_ne hrow]

/-- The loop with the rows before the current one filled, and part of the current one. -/
theorem strsplitLoop_spec (hz : 0 ∉ str)
    (hrows : ∀ row ∈ pieces delim cur str, row.length < 256) :
    strsplitLoop delim (str ++ 0 :: rest) (gridOf (pre ++ [cur])) pre.length cur.length =
      if (pre ++ pieces delim cur str).length ≤ 16 then .ok (gridOf (pre ++ pieces delim cur str))
      else .error .outOfBounds := by
  induction str generalizing pre cur with
  | nil =>
    rw [List.nil_append, strsplitLoop, if_pos rfl, pieces_nil, List.length_append,
      List.length_singleton]
    by_cases hj : pre.length < 16
    · rw [if_pos (by omega), store_end hj (hrows cur (by simp))]
    · rw [if_neg (by omega), store_outside (by omega)]
  | cons c str ih =>
    have hc : c ≠ 0 := fun h => hz (h ▸ List.mem_cons_self)
    have hz' : 0 ∉ str := fun h => hz (List.mem_cons_of_mem _ h)
    by_cases hd : c = delim
    · subst hd
      rw [pieces_delim] at hrows ⊢
      rw [List.cons_append, strsplitLoop, if_neg hc, if_pos rfl]
      by_cases hj : pre.length < 16
      · have hrest : ∀ row ∈ pieces c [] str, row.length < 256 :=
          fun row hr => hrows row (List.mem_cons_of_mem _ hr)
        have hloop := @ih (pre ++ [cur]) [] hz' hrest
        rw [gridOf_empty_row, List.length_append, List.length_singleton, List.length_nil] at hloop
        rw [store_end hj (hrows cur List.mem_cons_self)]
        exact hloop.trans (by simp only [List.append_assoc, List.singleton_append])
      · rw [store_outside (by omega), if_neg (by simp; omega)]
        rfl
    · rw [pieces_cons hd] at hrows ⊢
      rw [List.cons_append, strsplitLoop, if_neg hc, if_neg hd]
      by_cases hj : pre.length < 16
      · have hlen : cur.length < 255 := by
          obtain ⟨row, hr, hle⟩ := exists_mem_pieces (cur ++ [c]) str
          have := hrows row hr
          rw [List.length_append, List.length_singleton] at hle
          omega
        have hloop := @ih pre (cur ++ [c]) hz' hrows
        rw [List.length_append, List.length_singleton] at hloop
        rw [store_char hj hlen]
        exact hloop
      · have hcount := @length_pieces delim (cur ++ [c]) str
        rw [store_outside (by omega), if_neg (by rw [List.length_append]; omega)]
        rfl

theorem gridOf_nil : gridOf [] = fun _ => 0 := by
  funext p
  simp [gridOf]

theorem strsplit_grid (hz : 0 ∉ str) (hrows : ∀ row ∈ str.splitOn delim, row.length < 256) :
    strsplit (str ++ 0 :: rest) delim =
      if (str.splitOn delim).length ≤ 16 then .ok (gridOf (str.splitOn delim))
      else .error .outOfBounds := by
  have hloop := @strsplitLoop_spec delim str rest [] [] hz (pieces_start.symm ▸ hrows)
  rwa [gridOf_empty_row, gridOf_nil, pieces_start, List.nil_append] at hloop

/-- `Shell.strsplit` on lists is `strsplit` on the array. -/
theorem strsplit_spec (hz : 0 ∉ str) (hrows : ∀ row ∈ str.splitOn delim, row.length < 256) :
    strsplit (str ++ 0 :: rest) delim = (Shell.strsplit str delim).map gridOf := by
  rw [strsplit_grid hz hrows]
  by_cases hcount : (str.splitOn delim).length ≤ 16
  · rw [if_pos hcount, Shell.strsplit, if_pos ⟨hcount, hrows⟩]
    by_cases hlt : (str.splitOn delim).length < 16
    · rw [if_pos hlt, ← gridOf_empty_row]
      rfl
    · rw [if_neg hlt]
      rfl
  · rw [if_neg hcount, Shell.strsplit, if_neg fun h => hcount h.1]
    rfl

theorem strsplitLoop_unterminated (hz : 0 ∉ str) (mem : Grid) (j k : Nat) :
    strsplitLoop delim str mem j k = .error .outOfBounds := by
  induction str generalizing mem j k with
  | nil => rfl
  | cons c str ih =>
    have hz' : 0 ∉ str := fun h => hz (List.mem_cons_of_mem _ h)
    have hc : c ≠ 0 := fun h => hz (h ▸ List.mem_cons_self)
    rw [strsplitLoop, if_neg hc]
    by_cases hin : j * 256 + k < 4096
    · simp only [store, if_pos hin]
      split
      · exact ih hz' _ _ _
      · exact ih hz' _ _ _
    · simp only [store, if_neg hin]
      split <;> rfl

/-- Without a zero byte the scan leaves the string, if no store has failed before. -/
theorem strsplit_unterminated (hz : 0 ∉ str) : strsplit str delim = .error .outOfBounds :=
  strsplitLoop_unterminated hz _ _ _

theorem takeWhile_padded {row : List UInt8} (hz : 0 ∉ row) (n : Nat) :
    (row ++ List.replicate n 0).takeWhile (· ≠ 0) = row := by
  have hrow : ∀ c ∈ row, decide (c ≠ 0) = true := fun c hc =>
    decide_eq_true fun h : c = 0 => hz (h ▸ hc)
  rw [List.takeWhile_append_of_pos hrow]
  cases n <;> simp [List.replicate_succ]

theorem rowText_gridOf {rows : List (List UInt8)} {j : Nat} (hlen : (rows.getD j []).length < 256)
    (hz : 0 ∉ rows.getD j []) : rowText (gridOf rows) j = rows.getD j [] := by
  generalize hrow : rows.getD j [] = row at hlen hz
  have hbytes : (List.range 256).map (fun k => gridOf rows (j * 256 + k)) =
      row ++ List.replicate (256 - row.length) 0 := by
    refine List.ext_getElem (by simp; omega) fun k hk _ => ?_
    rw [List.length_map, List.length_range] at hk
    have hdiv : (j * 256 + k) / 256 = j := by omega
    have hmod : (j * 256 + k) % 256 = k := by omega
    rw [List.getElem_map, List.getElem_range, gridOf, hdiv, hmod, hrow]
    by_cases hin : k < row.length
    · simp [List.getElem_append_left hin, hin]
    · have hle : row.length ≤ k := Nat.le_of_not_lt hin
      simp [List.getElem_append_right hle, List.getElem?_eq_none hle]
  rw [rowText, hbytes, takeWhile_padded hz]

theorem rowText_rows {rows : List (List UInt8)} (h : ∀ row ∈ rows, row.length < 256 ∧ 0 ∉ row) :
    rowText (gridOf rows) = fun k => rows.getD k [] := by
  funext k
  have hrow : (rows.getD k []).length < 256 ∧ 0 ∉ rows.getD k [] := by
    by_cases hk : k < rows.length
    · have hmem := h _ (List.getElem_mem hk)
      simpa [hk] using hmem
    · simp [Nat.le_of_not_lt hk]
  exact rowText_gridOf hrow.1 hrow.2

theorem gridOf_splits (hz : 0 ∉ str) (hrows : ∀ row ∈ str.splitOn delim, row.length < 256) :
    Splits delim str (gridOf (str.splitOn delim)) := by
  have hplain : ∀ row ∈ str.splitOn delim, row.length < 256 ∧ 0 ∉ row :=
    fun row hr => ⟨hrows row hr, fun h => hz ((infix_of_mem_splitOn hr).subset h)⟩
  have hpadded : ∀ j, ∀ k < 256,
      gridOf (str.splitOn delim) (j * 256 + k) = ((str.splitOn delim).getD j []).getD k 0 := by
    intro j k hk
    have hdiv : (j * 256 + k) / 256 = j := by omega
    have hmod : (j * 256 + k) % 256 = k := by omega
    rw [gridOf, hdiv, hmod]
  constructor
  · exact fun j _ => hpadded j
  · intro j _
    rw [rowText_rows hplain]
    by_cases hj : j < (str.splitOn delim).length
    · simpa [hj] using notMem_of_mem_splitOn (List.getElem_mem hj)
    · simp [Nat.le_of_not_lt hj]
  · intro j hj _ k hk
    have hnone : (str.splitOn delim)[j]? = none := by
      rw [List.getElem?_eq_none_iff, length_splitOn]
      exact hj
    have hrow : (str.splitOn delim).getD j [] = [] := by
      rw [List.getD_eq_getElem?_getD, hnone, Option.getD_none]
    rw [hpadded j k hk, hrow]
    rfl
  · have hfirst : (List.range (str.count delim + 1)).map (rowText (gridOf (str.splitOn delim))) =
        str.splitOn delim := by
      rw [rowText_rows hplain, ← length_splitOn]
      exact List.ext_getElem (by simp) fun k hk _ => by simp_all
    rw [hfirst, List.intercalate_splitOn]

/-- `strsplit` leaves the pieces of a string in the rows, whatever follows the string. -/
theorem strsplit_splits (hz : 0 ∉ str) (hcount : str.count delim ≤ 15)
    (hpieces : ∀ piece ∈ str.splitOn delim, piece.length ≤ 255) (rest : List UInt8) :
    ∃ grid, strsplit (str ++ 0 :: rest) delim = .ok grid ∧ Splits delim str grid := by
  have hrows : ∀ row ∈ str.splitOn delim, row.length < 256 :=
    fun row hr => Nat.lt_succ_of_le (hpieces row hr)
  have hlen : (str.splitOn delim).length ≤ 16 := by
    rw [length_splitOn]
    omega
  exact ⟨_, (strsplit_grid hz hrows).trans (if_pos hlen), gridOf_splits hz hrows⟩

/-- The string `/a//b/` at its slashes. -/
theorem strsplit_splits_slashes : ∃ grid,
    strsplit ([47, 97, 47, 47, 98, 47] ++ [0]) 47 = .ok grid ∧
      Splits 47 [47, 97, 47, 47, 98, 47] grid :=
  strsplit_splits (by decide) (by decide) (by decide) []

end Grid

section Strcat

variable {mem : Nat → UInt8} {text src : List UInt8}

theorem Holds.strlen (h : Holds mem text) : strlen mem = some text.length := by
  rw [CString.strlen, List.find?_range_eq_some]
  refine ⟨by simp [h.ended], List.mem_range.mpr h.length, fun k hk => ?_⟩
  have hne : text[k] ≠ 0 := fun hz => h.string (hz ▸ List.getElem_mem hk)
  simpa [h.begins k hk, hk] using hne

theorem Holds.unique {text' : List UInt8} (h : Holds mem text) (h' : Holds mem text') :
    text = text' := by
  have hlen : text.length = text'.length := Option.some.inj (h.strlen.symm.trans h'.strlen)
  refine List.ext_getElem hlen fun k hk hk' => ?_
  have hbyte := (h.begins k hk).symm.trans (h'.begins k hk')
  simpa [hk, hk'] using hbyte

theorem holds_of_strlen {n : Nat} (h : strlen mem = some n) : Holds mem ((List.range n).map mem) := by
  rw [CString.strlen, List.find?_range_eq_some] at h
  obtain ⟨hend, hn, hbefore⟩ := h
  refine ⟨by simpa using List.mem_range.mp hn, fun hz => ?_, fun k hk => ?_, by simpa using hend⟩
  · obtain ⟨k, hk, hzero⟩ := List.mem_map.mp hz
    have := hbefore k (List.mem_range.mp hk)
    simp [hzero] at this
  · simp only [List.length_map, List.length_range] at hk
    simp [hk]

theorem strcatLoop_spec (h : ∀ k < text.length, mem k = text.getD k 0) :
    (text.length + src.length < 256 → ∃ mem', strcatLoop src mem text.length = .ok mem' ∧
      (∀ k < (text ++ src).length, mem' k = (text ++ src).getD k 0) ∧
      mem' (text ++ src).length = 0) ∧
    (256 ≤ text.length + src.length → strcatLoop src mem text.length = .error .outOfBounds) := by
  induction src generalizing text mem with
  | nil =>
    rw [List.append_nil, strcatLoop, store, List.length_nil, Nat.add_zero]
    refine ⟨fun hlen => ⟨_, if_pos hlen, fun k hk => ?_, Function.update_self ..⟩,
      fun hlen => if_neg (Nat.not_lt.mpr hlen)⟩
    rw [Function.update_of_ne hk.ne, h k hk]
  | cons c src ih =>
    have hone : (text ++ [c]).length = text.length + 1 := by simp
    have hsum : (text ++ [c]).length + src.length = text.length + (c :: src).length := by
      rw [hone, List.length_cons]
      omega
    have hnext : ∀ k < (text ++ [c]).length,
        Function.update mem text.length c k = (text ++ [c]).getD k 0 := fun k hk => by
      rw [hone] at hk
      by_cases hlast : k = text.length
      · simp [hlast]
      · have hlt : k < text.length := by omega
        rw [Function.update_of_ne hlast, h k hlt, List.getD_eq_getElem?_getD,
          List.getD_eq_getElem?_getD, List.getElem?_append_left hlt]
    obtain ⟨hfit, hover⟩ := ih hnext
    rw [List.append_assoc, List.singleton_append, hsum, hone] at hfit
    rw [hsum, hone] at hover
    rw [strcatLoop, store]
    by_cases hlen : text.length < 256
    · rw [if_pos hlen]
      exact ⟨hfit, hover⟩
    · rw [if_neg hlen]
      exact ⟨fun hlt => by omega, fun _ => rfl⟩

/-- A string that is put behind another fits with its zero byte, or is stored outside. -/
theorem Holds.strcat (h : Holds mem text) (hz : 0 ∉ src) :
    (text.length + src.length < 256 →
      ∃ mem', strcat mem src = .ok mem' ∧ Holds mem' (text ++ src)) ∧
    (256 ≤ text.length + src.length → strcat mem src = .error .outOfBounds) := by
  obtain ⟨hfit, hover⟩ := strcatLoop_spec h.begins
  rw [CString.strcat, h.strlen]
  refine ⟨fun hlen => ?_, hover⟩
  obtain ⟨mem', hcat, hbegins, hended⟩ := hfit hlen
  refine ⟨mem', hcat, by rwa [List.length_append], fun hmem => ?_, hbegins, hended⟩
  exact (List.mem_append.mp hmem).elim h.string hz

/-- `Shell.strcat` on lists is `strcat` on the arrays that hold them. -/
theorem Holds.strcat_eq (h : Holds mem text) (hz : 0 ∉ src) :
    match Shell.strcat text src with
    | .ok text' => ∃ mem', CString.strcat mem src = .ok mem' ∧ Holds mem' text'
    | .error f => CString.strcat mem src = .error f := by
  obtain ⟨hfit, hover⟩ := h.strcat hz
  rw [Shell.strcat]
  by_cases hlen : text.length + src.length < 256
  · rw [if_pos hlen]
    exact hfit hlen
  · rw [if_neg hlen]
    exact hover (Nat.le_of_not_lt hlen)

end Strcat

end Doors.CString
