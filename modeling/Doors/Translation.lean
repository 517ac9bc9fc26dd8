import Mathlib.Logic.Function.Basic
import Mathlib.Data.List.Basic

/-! Memory behind a partial translation of addresses: stores through one translation, what
they leave to another one, and the latest of a series of stores. -/

namespace Doors.Translation

variable {V W P B : Type*} {t : V → Option P} {u : W → Option P} {mem : P → B} {v w : V}
  {a : P} {b : B}

/-- Two addresses are not translated to one. -/
def Faithful (t : V → Option P) : Prop := ∀ v w a, t v = some a → t w = some a → v = w

/-- The translations have no address in common. -/
def Separate (t : V → Option P) (u : W → Option P) : Prop := ∀ v w a, t v = some a → u w ≠ some a

variable [DecidableEq P]

/-- An address that is not mapped stores nothing. -/
def store (t : V → Option P) (mem : P → B) (v : V) (b : B) : P → B :=
  (t v).elim mem fun a => Function.update mem a b

theorem store_self (hv : t v = some a) : store t mem v b a = b := by
  simp [store, hv]

theorem store_of_ne (ht : Faithful t) (hv : t v = some a) (hw : w ≠ v) :
    store t mem w b a = mem a := by
  cases htw : t w with
  | none => simp [store, htw]
  | some c =>
    have hne : a ≠ c := by
      rintro rfl
      exact hw (ht w v a htw hv)
    simp [store, htw, hne]

/-- A store through a separate translation is not seen. -/
theorem store_separate (h : Separate t u) (hv : t v = some a) (x : W) :
    store u mem x b a = mem a := by
  cases hx : u x with
  | none => simp [store, hx]
  | some c =>
    have hne : a ≠ c := by
      rintro rfl
      exact h v x a hv hx
    simp [store, hx, hne]

variable [DecidableEq V] {log : List (V × B)}

/-- The value of the last store at an address. -/
def latest (log : List (V × B)) (v : V) : Option B :=
  ((log.filter fun x => x.1 = v).map Prod.snd).getLast?

theorem latest_cons_self : latest ((v, b) :: log) v = some ((latest log v).getD b) := by
  simp [latest, List.getLast?_cons]

theorem latest_cons_of_ne (h : w ≠ v) : latest ((w, b) :: log) v = latest log v := by
  simp [latest, h]

/-- A store followed by others, read at an address of the same translation. -/
theorem latest_store (ht : Faithful t) (hv : t v = some a) :
    (latest log v).getD (store t mem w b a) = (latest ((w, b) :: log) v).getD (mem a) := by
  by_cases h : w = v
  · subst h
    rw [latest_cons_self, store_self hv]
    rfl
  · rw [latest_cons_of_ne h, store_of_ne ht hv h]

end Doors.Translation
