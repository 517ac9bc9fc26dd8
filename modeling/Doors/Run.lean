import Mathlib.Data.List.Basic
import Mathlib.Tactic.TypeStar

/-! Finite runs of a labelled step relation. The list of labels is the run's
history, so an invariant may speak about the state and about what led to it. -/

namespace Doors

variable {σ τ ε : Type*}

inductive Run (step : σ → ε → σ → Prop) : σ → List ε → σ → Prop
  | nil (s : σ) : Run step s [] s
  | cons {s t u : σ} {e : ε} {es : List ε} :
    step s e t → Run step t es u → Run step s (e :: es) u

theorem Run.append {step : σ → ε → σ → Prop} {s t u : σ} {es fs : List ε}
    (h : Run step s es t) (h' : Run step t fs u) : Run step s (es ++ fs) u := by
  induction h with
  | nil => exact h'
  | cons he _ ih => exact .cons he (ih h')

theorem Run.snoc {step : σ → ε → σ → Prop} {s t u : σ} {e : ε} {es : List ε}
    (h : Run step s es t) (he : step t e u) : Run step s (es ++ [e]) u :=
  h.append (.cons he (.nil u))

theorem Run.split {step : σ → ε → σ → Prop} {s u : σ} {es fs : List ε}
    (h : Run step s (es ++ fs) u) : ∃ t, Run step s es t ∧ Run step t fs u := by
  induction es generalizing s with
  | nil => exact ⟨s, .nil s, h⟩
  | cons e es ih =>
    cases h with
    | cons he hr =>
      obtain ⟨t, ht, hu⟩ := ih hr
      exact ⟨t, .cons he ht, hu⟩

theorem Run.invariant {step : σ → ε → σ → Prop} {P : σ → Prop}
    (hstep : ∀ s e t, P s → step s e t → P t) {s t : σ} {es : List ε}
    (h : Run step s es t) (hs : P s) : P t := by
  induction h with
  | nil => exact hs
  | cons he _ ih => exact ih (hstep _ _ _ hs he)

theorem Run.history {step : σ → ε → σ → Prop} {P : List ε → σ → Prop}
    (hstep : ∀ es s e t, P es s → step s e t → P (es ++ [e]) t) {s t : σ} {es : List ε}
    (h : Run step s es t) {pre : List ε} (hs : P pre s) : P (pre ++ es) t := by
  induction h generalizing pre with
  | nil => simpa using hs
  | cons he _ ih => simpa using ih (hstep _ _ _ _ hs he)

theorem Run.mono {step step' : σ → ε → σ → Prop} (hstep : ∀ s e t, step s e t → step' s e t)
    {s t : σ} {es : List ε} (h : Run step s es t) : Run step' s es t := by
  induction h with
  | nil => exact .nil _
  | cons he _ ih => exact .cons (hstep _ _ _ he) ih

end Doors
