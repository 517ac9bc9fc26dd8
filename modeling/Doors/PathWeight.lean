import Doors.PathStore
import Mathlib.Algebra.BigOperators.Finprod
import Mathlib.Algebra.Order.BigOperators.Group.Finset

/-! What a tree of named entries weighs: every node has a weight, the tree weighs what its nodes
weigh together. Things that have one owner each are counted over their owners. -/

namespace Doors.PathStore

open Function

section Sums

variable {ι κ : Type*} {f : κ → ℕ}

open Classical in
theorem finsum_owned {s : Finset ι} [Nonempty κ] {owns : κ → ι → Prop}
    (hone : ∀ i ∈ s, ∃! k, owns k i) (hf : ∀ k, (s.filter (owns k)).card = f k) :
    HasFiniteSupport f ∧ ∑ᶠ k, f k = s.card := by
  choose! owner howner hunique using hone
  have hfiber (k : κ) : f k = (s.filter fun i => owner i = k).card := by
    rw [← hf]
    refine congrArg Finset.card (Finset.filter_congr fun i hi =>
      ⟨fun h => (hunique i hi k h).symm, ?_⟩)
    rintro rfl
    exact howner i hi
  have hsub : support f ⊆ (s.image owner : Finset κ) := by
    intro k hk
    rw [mem_support, hfiber, Finset.card_ne_zero] at hk
    obtain ⟨i, hi⟩ := hk
    rw [Finset.mem_filter] at hi
    exact Finset.mem_coe.mpr (Finset.mem_image.mpr ⟨i, hi⟩)
  refine ⟨(Finset.finite_toSet _).subset hsub, ?_⟩
  rw [finsum_eq_sum_of_support_subset f hsub, Finset.card_eq_sum_card_image owner]
  exact Finset.sum_congr rfl fun k _ => hfiber k

theorem finsum_update [DecidableEq κ] (hf : HasFiniteSupport f) (k : κ) (n : ℕ) :
    ∑ᶠ x, update f k n x + f k = ∑ᶠ x, f x + n := by
  let s := insert k hf.toFinset
  have hk : k ∈ s := Finset.mem_insert_self ..
  have hsub : support f ⊆ s := fun x hx =>
    Finset.mem_coe.mpr (Finset.mem_insert_of_mem (hf.mem_toFinset.mpr hx))
  have hsub' : support (update f k n) ⊆ s := by
    intro x hx
    by_cases hxk : x = k
    · exact hxk ▸ hk
    · rw [mem_support, update_of_ne hxk] at hx
      exact hsub hx
  rw [finsum_eq_sum_of_support_subset _ hsub, finsum_eq_sum_of_support_subset _ hsub',
    Finset.sum_update_of_mem hk, ← Finset.add_sum_erase s f hk, Finset.sdiff_singleton_eq_erase]
  omega

end Sums

namespace Store

variable {κ β : Type*} {m : Store κ β} {w : Node β → ℕ}

def weightAt (w : Node β → ℕ) (m : Store κ β) (path : List κ) : ℕ := (m path).elim 0 w

noncomputable def weight (w : Node β → ℕ) (m : Store κ β) : ℕ := ∑ᶠ path, m.weightAt w path

theorem weight_put (hm : HasFiniteSupport (m.weightAt w)) (path : List κ) (n : Node β) :
    (m.put path n).weight w + m.weightAt w path = m.weight w + w n := by
  classical
  have hput : (m.put path n).weightAt w = update (m.weightAt w) path (w n) := by
    funext q
    by_cases hq : q = path
    · simp [weightAt, hq]
    · rw [update_of_ne hq, weightAt, put_of_ne hq, weightAt]
  rw [weight, hput]
  exact finsum_update hm path (w n)

theorem weight_prune (hm : HasFiniteSupport (m.weightAt w)) (path : List κ) :
    (m.prune path).weight w ≤ m.weight w := by
  have hle : (m.prune path).weightAt w ≤ m.weightAt w := by
    intro q
    by_cases hq : path <+: q
    · simp [weightAt, prune_below hq]
    · rw [weightAt, prune_of_not_below hq, weightAt]
  refine finsum_le_finsum' (hm.subset fun q hq => ?_) hm hle
  rw [mem_support] at hq ⊢
  exact fun h => hq (Nat.le_zero.mp (h ▸ hle q))

end Store

end Doors.PathStore
