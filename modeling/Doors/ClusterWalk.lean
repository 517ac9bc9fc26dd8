import Mathlib.Data.List.Nodup
import Mathlib.Data.List.Basic

/-! Walks along a successor map up to a stop mark, as a linked allocation table
stores them: the nodes visited, in order, and what the walk depends on. -/

namespace Doors

/-- Following `next` from `c` visits exactly the nodes of the list before `stop`. -/
inductive Walk (next : Nat → Nat) (stop : Nat) : Nat → List Nat → Prop
  | stop : Walk next stop stop []
  | step {c : Nat} {l : List Nat} : c ≠ stop → Walk next stop (next c) l → Walk next stop c (c :: l)

namespace Walk

variable {next next' : Nat → Nat} {stop c : Nat} {l l' : List Nat}

theorem unique (h : Walk next stop c l) (h' : Walk next stop c l') : l = l' := by
  induction h generalizing l' with
  | stop =>
    cases h' with
    | stop => rfl
    | step hc _ => exact absurd rfl hc
  | step hc _ ih =>
    cases h' with
    | stop => exact absurd rfl hc
    | step _ h' => rw [ih h']

theorem congr (h : Walk next stop c l) (he : ∀ x ∈ l, next' x = next x) :
    Walk next' stop c l := by
  induction h with
  | stop => exact .stop
  | step hc _ ih =>
    refine .step hc ?_
    rw [he _ (by simp)]
    exact ih fun x hx => he x (by simp [hx])

theorem start_mem (h : Walk next stop c l) (hl : 1 ≤ l.length) : c ∈ l := by
  cases h with
  | stop => simp at hl
  | step _ _ => simp

theorem next_mem (h : Walk next stop c l) {x : Nat} (hx : x ∈ l) : next x = stop ∨ next x ∈ l := by
  induction h with
  | stop => simp at hx
  | step hc hw ih =>
    rcases List.mem_cons.mp hx with rfl | hx
    · cases hw with
      | stop => exact .inl rfl
      | step _ _ => exact .inr (by simp)
    · exact (ih hx).imp_right (List.mem_cons_of_mem _)

theorem getLast_next (h : Walk next stop c l) {x : Nat} (hx : x ∈ l.getLast?) : next x = stop := by
  induction h with
  | stop => simp at hx
  | step _ hw ih =>
    cases hw with
    | stop => simp_all
    | step _ _ => exact ih (by simpa using hx)

theorem getLast_of_next (h : Walk next stop c l) {x : Nat} (hx : x ∈ l) (he : next x = stop) :
    x ∈ l.getLast? := by
  induction h with
  | stop => simp at hx
  | step hc hw ih =>
    rcases List.mem_cons.mp hx with rfl | hx
    · rw [he] at hw
      cases hw with
      | stop => simp
      | step hn _ => exact absurd rfl hn
    · cases hw with
      | stop => simp at hx
      | step _ _ => simpa using ih hx

theorem singleton {x : Nat} (h : Walk next stop c [x]) : c = x ∧ next x = stop := by
  cases h with
  | step _ h =>
    refine ⟨rfl, ?_⟩
    generalize next c = d at h
    cases h with
    | stop => rfl

end Walk

end Doors
