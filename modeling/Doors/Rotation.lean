import Doors.Run
import Mathlib.Data.List.Iterate

/-! Slots taken in turn. When a successor comes round after `n` steps, those that wait
form a queue: the one served goes to its end. -/

namespace Doors.Rotation

variable {α σ ε : Type*} {next : α → α} {n : Nat}

/-- The slots behind the first `b` come first after it, then those before it. -/
theorem iterate_next (hround : ∀ a, next^[n] a = a) {a b : α} {pre post : List α}
    (h : List.iterate next a n = pre ++ b :: post) :
    List.iterate next (next b) n = post ++ (pre ++ [b]) := by
  have hlen : n = pre.length + (post.length + 1) := by
    simpa using congrArg List.length h
  have hsplit := h
  rw [hlen, List.iterate_add] at hsplit
  obtain ⟨hpre, hrest⟩ := List.append_inj hsplit (by simp)
  rw [List.iterate, List.cons.injEq] at hrest
  obtain ⟨hb, hpost⟩ := hrest
  rw [hb] at hpost
  have hback : next^[post.length] (next b) = a := by
    rw [← hb, ← Function.iterate_succ_apply' next, ← Function.iterate_add_apply,
      show post.length + pre.length.succ = n by omega]
    exact hround a
  have hlen' : n = post.length + (pre.length + 1) := by omega
  rw [hlen', List.iterate_add, hpost, hback, List.iterate_add, hpre, hb]
  rfl

/-- The first slot that waits is served and waits behind the others. -/
theorem queue_next (hround : ∀ a, next^[n] a = a) {p : α → Bool} {a b : α} {rest : List α}
    (h : (List.iterate next a n).filter p = b :: rest) :
    (List.iterate next (next b) n).filter p = rest ++ [b] := by
  obtain ⟨pre, post, hsplit, hpre, hb, rfl⟩ := List.filter_eq_cons_iff.mp h
  have hnone : pre.filter p = [] := List.filter_eq_nil_iff.mpr hpre
  rw [iterate_next hround hsplit, List.filter_append, List.filter_append, hnone, List.filter_cons,
    if_pos hb]
  rfl

/-- Steps that serve the head of a queue and put it last serve the queue in order. -/
theorem served {step : σ → ε → σ → Prop} {P : σ → Prop} {queue : σ → List α}
    {serves : ε → Option α}
    (hstep : ∀ s e t, P s → step s e t → P t ∧ ∃ b rest, queue s = b :: rest ∧
      serves e = some b ∧ queue t = rest ++ [b])
    {s t : σ} {es : List ε} (h : Run step s es t) (hs : P s) {front back : List α}
    (hqueue : queue s = front ++ back) (hlen : es.length = front.length) :
    es.filterMap serves = front ∧ queue t = back ++ front := by
  induction h generalizing front back with
  | nil =>
    obtain rfl := List.length_eq_zero_iff.mp hlen.symm
    simpa using hqueue
  | cons he _ ih =>
    obtain ⟨ht, b, rest, hb, hserves, hrest⟩ := hstep _ _ _ hs he
    cases front with
    | nil => simp at hlen
    | cons c front =>
      rw [hb, List.cons_append, List.cons.injEq] at hqueue
      obtain ⟨rfl, rfl⟩ := hqueue
      rw [List.append_assoc] at hrest
      obtain ⟨hserved, hend⟩ := ih ht hrest (by simpa using hlen)
      rw [List.filterMap_cons, hserves, hserved, hend]
      simp

end Doors.Rotation
