import Doors.TreePath
import Mathlib.Data.List.Lex
import Mathlib.Order.Lattice

/-! Listing the positions of a pointer tree in depth-first order. A place is a node with the
labels that lead to it and one of its positions; the places come in the order of their
addresses, each of them once. -/

namespace Doors.PointerTree

structure Place (ν ι κ : Type*) where
  path : List κ
  node : ν
  pos : ι

variable {ν ι κ : Type*} {child : ν → ι → Option ν} {label : ν → ι → κ} {p : ν → ι → Bool}
  {positions : List ι}

/-- The place seen from the node above, which leads to it by `k`. -/
def Place.below (k : κ) (v : Place ν ι κ) : Place ν ι κ := { v with path := k :: v.path }

/-- The positions on the way to a place and its own, if `f` tells them from the labels. -/
def Place.address (f : κ → ι) (v : Place ν ι κ) : List ι := v.path.map f ++ [v.pos]

/-- The places of at most `fuel` labels below `d` that satisfy `p`. -/
def preorder (child : ν → ι → Option ν) (label : ν → ι → κ) (p : ν → ι → Bool)
    (positions : List ι) : Nat → ν → List (Place ν ι κ)
  | 0, _ => []
  | fuel + 1, d => positions.flatMap fun i =>
    (if p d i then [⟨[], d, i⟩] else []) ++
      match child d i with
      | none => []
      | some c => (preorder child label p positions fuel c).map (Place.below (label d i))

/-- The places below `d` that satisfy `p`. -/
structure Place.Selected (child : ν → ι → Option ν) (label : ν → ι → κ) (p : ν → ι → Bool) (d : ν)
    (v : Place ν ι κ) : Prop where
  descends : Descends child label d v.path v.node
  holds : p v.node v.pos = true

theorem mem_preorder (hchild : ∀ d i c, child d i = some c → i ∈ positions)
    (hp : ∀ d i, p d i = true → i ∈ positions) {fuel : Nat} {d : ν} {v : Place ν ι κ} :
    v ∈ preorder child label p positions fuel d ↔
      v.path.length < fuel ∧ v.Selected child label p d := by
  induction fuel generalizing d v with
  | zero => simp [preorder]
  | succ fuel ih =>
    simp only [preorder, List.mem_flatMap, List.mem_append]
    constructor
    · rintro ⟨i, -, hv | hv⟩
      · by_cases hi : p d i = true
        · rw [if_pos hi, List.mem_singleton] at hv
          subst hv
          exact ⟨Nat.succ_pos _, .here d, hi⟩
        · simp [hi] at hv
      · cases hc : child d i with
        | none => simp [hc] at hv
        | some c =>
          simp only [hc, List.mem_map] at hv
          obtain ⟨w, hw, rfl⟩ := hv
          obtain ⟨hlen, hdown, hhold⟩ := ih.mp hw
          exact ⟨Nat.succ_lt_succ hlen, .step hc hdown, hhold⟩
    · rintro ⟨hlen, hdown, hhold⟩
      obtain ⟨path, x, j⟩ := v
      cases hdown with
      | here => exact ⟨j, hp _ _ hhold, .inl (by simp_all)⟩
      | @step _ b _ i path hb hdown =>
        refine ⟨i, hchild d i b hb, .inr ?_⟩
        have hw := (ih (v := ⟨path, x, j⟩)).mpr ⟨Nat.lt_of_succ_lt_succ hlen, hdown, hhold⟩
        simp only [hb, List.mem_map]
        exact ⟨_, hw, rfl⟩

theorem address_below {f : κ → ι} (k : κ) (v : Place ν ι κ) :
    (v.below k).address f = f k :: v.address f := rfl

theorem address_head {f : κ → ι} (hf : ∀ d i, f (label d i) = i) {d : ν} {i : ι} {c : Option ν}
    {b : Bool} {vs : ν → List (Place ν ι κ)} {v : Place ν ι κ}
    (hv : v ∈ (if b then [⟨[], d, i⟩] else []) ++
      match c with
      | none => []
      | some c => (vs c).map (Place.below (label d i))) :
    ∃ rest, v.address f = i :: rest := by
  obtain hv | hv := List.mem_append.mp hv
  · cases b with
    | false => simp at hv
    | true =>
      rw [if_pos rfl, List.mem_singleton] at hv
      subst hv
      exact ⟨[], rfl⟩
  · cases c with
    | none => simp at hv
    | some c =>
      obtain ⟨w, -, rfl⟩ := List.mem_map.mp hv
      exact ⟨w.address f, by rw [address_below, hf]⟩

/-- The places are listed in the order of their addresses. -/
theorem preorder_sorted [LinearOrder ι] {f : κ → ι} (hf : ∀ d i, f (label d i) = i)
    (hpos : positions.Pairwise (· < ·)) (fuel : Nat) (d : ν) :
    (preorder child label p positions fuel d).Pairwise fun v w => v.address f < w.address f := by
  induction fuel generalizing d with
  | zero => exact .nil
  | succ fuel ih =>
    rw [preorder, List.pairwise_flatMap]
    refine ⟨fun i _ => ?_, hpos.imp fun {i j} hij v hv w hw => ?_⟩
    · rw [List.pairwise_append]
      refine ⟨by split <;> simp, ?_, fun v hv w hw => ?_⟩
      · cases child d i with
        | none => exact .nil
        | some c =>
          rw [List.pairwise_map]
          refine (ih c).imp fun {v w} hvw => ?_
          rw [address_below, address_below]
          exact List.cons_lt_cons_iff.mpr (.inr ⟨rfl, hvw⟩)
      · cases hc : child d i with
        | none => simp [hc] at hw
        | some c =>
          simp only [hc, List.mem_map] at hw
          obtain ⟨w, -, rfl⟩ := hw
          split at hv
          · obtain rfl := List.mem_singleton.mp hv
            rw [address_below, hf]
            refine List.cons_lt_cons_iff.mpr (.inr ⟨rfl, ?_⟩)
            cases hpath : w.address f with
            | nil => simp [Place.address] at hpath
            | cons => exact List.nil_lt_cons _ _
          · simp at hv
    · obtain ⟨r, hr⟩ := address_head hf hv
      obtain ⟨r', hr'⟩ := address_head hf hw
      rw [hr, hr']
      exact List.cons_lt_cons_iff.mpr (.inl hij)

/-- The order of the addresses leaves one way to list the same places. -/
theorem listing_unique [LinearOrder ι] {f : κ → ι} {vs ws : List (Place ν ι κ)}
    (hvs : vs.Pairwise fun v w => v.address f < w.address f)
    (hws : ws.Pairwise fun v w => v.address f < w.address f) (hmem : ∀ v, v ∈ vs ↔ v ∈ ws) :
    vs = ws := by
  have hnodup : ∀ {us : List (Place ν ι κ)},
      (us.Pairwise fun v w => v.address f < w.address f) → us.Nodup :=
    fun h => h.imp fun {v w} hlt (heq : v = w) => lt_irrefl _ (heq ▸ hlt)
  have hperm := (List.perm_ext_iff_of_nodup (hnodup hvs) (hnodup hws)).mpr hmem
  exact hperm.eq_of_pairwise (fun v w _ _ hvw hwv => absurd hwv (lt_asymm hvw)) hvs hws

end Doors.PointerTree
