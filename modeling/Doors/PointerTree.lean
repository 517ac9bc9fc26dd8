import Mathlib.Data.List.Perm.Subperm
import Mathlib.Logic.Relation
import Mathlib.Tactic.TypeStar

/-! Trees stored as nodes with slots that point to their children. The tree shape
is a property of the reachable part; grafting a leaf and pruning a subtree keep it. -/

namespace Doors.PointerTree

variable {ν ι : Type*} {child child' : ν → ι → Option ν} {root : ν}

/-- The nodes at a given depth. -/
inductive ReachIn (child : ν → ι → Option ν) (root : ν) : Nat → ν → Prop
  | root : ReachIn child root 0 root
  | child {n : Nat} {d c : ν} {i : ι} :
    ReachIn child root n d → child d i = some c → ReachIn child root (n + 1) c

def Reach (child : ν → ι → Option ν) (root c : ν) : Prop := ∃ n, ReachIn child root n c

def Edge (child : ν → ι → Option ν) (d c : ν) : Prop := ∃ i, child d i = some c

/-- `Below child a c`: the node `c` is in the subtree of `a`. -/
abbrev Below (child : ν → ι → Option ν) := Relation.ReflTransGen (Edge child)

structure IsTree (child : ν → ι → Option ν) (root : ν) : Prop where
  parent_unique : ∀ {d d' c : ν} {i i' : ι}, Reach child root d → Reach child root d' →
    child d i = some c → child d' i' = some c → d = d' ∧ i = i'
  root_orphan : ∀ {d : ν} {i : ι}, Reach child root d → child d i ≠ some root

theorem reach_root : Reach child root root := ⟨0, .root⟩

theorem Reach.step {d c : ν} {i : ι} (h : Reach child root d) (hc : child d i = some c) :
    Reach child root c :=
  h.imp' (· + 1) fun _ hn => .child hn hc

theorem ReachIn.depth_unique (ht : IsTree child root) {n m : Nat} {c : ν}
    (h : ReachIn child root n c) (h' : ReachIn child root m c) : n = m := by
  induction h generalizing m with
  | root =>
    cases h' with
    | root => rfl
    | child hd hc => exact absurd hc (ht.root_orphan ⟨_, hd⟩)
  | child hd hc ih =>
    cases h' with
    | root => exact absurd hc (ht.root_orphan ⟨_, hd⟩)
    | child hd' hc' =>
      obtain ⟨rfl, -⟩ := ht.parent_unique ⟨_, hd⟩ ⟨_, hd'⟩ hc hc'
      rw [ih hd']

theorem below_reachIn {n : Nat} {a c : ν} (h : Below child a c) (ha : ReachIn child root n a) :
    ∃ k, ReachIn child root (n + k) c := by
  induction h with
  | refl => exact ⟨0, ha⟩
  | tail _ he ih =>
    obtain ⟨k, hk⟩ := ih
    obtain ⟨i, hi⟩ := he
    exact ⟨k + 1, hk.child hi⟩

theorem below_reach {a c : ν} (h : Below child a c) (ha : Reach child root a) :
    Reach child root c := by
  obtain ⟨n, hn⟩ := ha
  obtain ⟨k, hk⟩ := below_reachIn h hn
  exact ⟨n + k, hk⟩

theorem below_eq_of_depth (ht : IsTree child root) {n : Nat} {a c : ν} (h : Below child a c)
    (ha : ReachIn child root n a) (hc : ReachIn child root n c) : a = c := by
  cases h with
  | refl => rfl
  | tail hd he =>
    obtain ⟨k, hk⟩ := below_reachIn hd ha
    obtain ⟨i, hi⟩ := he
    have := (hk.child hi).depth_unique ht hc
    omega

theorem not_below_child (ht : IsTree child root) {d a : ν} {i : ι} (hd : Reach child root d)
    (ha : child d i = some a) : ¬ Below child a d := by
  intro h
  obtain ⟨n, hn⟩ := hd
  obtain ⟨k, hk⟩ := below_reachIn h (hn.child ha)
  have := hk.depth_unique ht hn
  omega

theorem below_eq_of_common (ht : IsTree child root) {n : Nat} {a b c : ν}
    (ha : ReachIn child root n a) (hb : ReachIn child root n b) (h : Below child a c)
    (h' : Below child b c) : a = b := by
  induction h with
  | refl => exact (below_eq_of_depth ht h' hb ha).symm
  | tail hd he ih =>
    rename_i d c
    cases h' with
    | refl => exact below_eq_of_depth ht (hd.tail he) ha hb
    | tail hd' he' =>
      obtain ⟨i, hi⟩ := he
      obtain ⟨j, hj⟩ := he'
      obtain ⟨rfl, -⟩ := ht.parent_unique (below_reach hd ⟨n, ha⟩) (below_reach hd' ⟨n, hb⟩) hi hj
      exact ih hd'

theorem below_comparable (ht : IsTree child root) {a b c : ν} (ha : Reach child root a)
    (hb : Reach child root b) (h : Below child a c) (h' : Below child b c) :
    Below child a b ∨ Below child b a := by
  induction h with
  | refl => exact .inr h'
  | tail hd he ih =>
    cases h' with
    | refl => exact .inl (hd.tail he)
    | tail hd' he' =>
      obtain ⟨i, hi⟩ := he
      obtain ⟨j, hj⟩ := he'
      obtain ⟨rfl, -⟩ := ht.parent_unique (below_reach hd ha) (below_reach hd' hb) hi hj
      exact ih hd'

/-- Every node but the root hangs in a slot. -/
theorem Reach.parent {c : ν} (h : Reach child root c) :
    c = root ∨ ∃ d i, Reach child root d ∧ child d i = some c := by
  obtain ⟨n, hn⟩ := h
  cases hn with
  | root => exact .inl rfl
  | child hd hc => exact .inr ⟨_, _, ⟨_, hd⟩, hc⟩

theorem siblings_disjoint (ht : IsTree child root) {d a b c : ν} {i j : ι}
    (hd : Reach child root d) (ha : child d i = some a) (hb : child d j = some b)
    (h : Below child a c) (h' : Below child b c) : i = j := by
  obtain ⟨n, hn⟩ := hd
  obtain rfl := below_eq_of_common ht (hn.child ha) (hn.child hb) h h'
  exact (ht.parent_unique ⟨n, hn⟩ ⟨n, hn⟩ ha hb).2

/-- Along a path the depths differ, so the nodes of a finite tree bound its height. -/
theorem ReachIn.depth_lt (ht : IsTree child root) {L : List ν}
    (hL : ∀ c, Reach child root c → c ∈ L) {n : Nat} {c : ν} (h : ReachIn child root n c) :
    n < L.length := by
  have hpath : ∃ l : List ν, l.length = n + 1 ∧ l.Nodup ∧
      ∀ x ∈ l, ∃ k ≤ n, ReachIn child root k x := by
    induction h with
    | root => exact ⟨[root], rfl, by simp, fun x hx => ⟨0, Nat.le_refl _, by simp_all [ReachIn.root]⟩⟩
    | child hd hc ih =>
      rename_i n d c i
      obtain ⟨l, hl, hnd, hx⟩ := ih
      have hnew : c ∉ l := by
        intro hm
        obtain ⟨k, hk, hr⟩ := hx c hm
        have := hr.depth_unique ht (hd.child hc)
        omega
      refine ⟨c :: l, by simp [hl], List.nodup_cons.mpr ⟨hnew, hnd⟩, ?_⟩
      intro x hm
      rcases List.mem_cons.mp hm with rfl | hm
      · exact ⟨n + 1, Nat.le_refl _, hd.child hc⟩
      · obtain ⟨k, hk, hr⟩ := hx x hm
        exact ⟨k, by omega, hr⟩
  obtain ⟨l, hl, hnd, hx⟩ := hpath
  have hsub : l ⊆ L := fun x hm => by
    obtain ⟨k, _, hr⟩ := hx x hm
    exact hL x ⟨k, hr⟩
  have := (hnd.subperm hsub).length_le
  omega

theorem Reach.congr {c : ν} (h : Reach child root c)
    (he : ∀ d, Reach child root d → child' d = child d) : Reach child' root c := by
  obtain ⟨n, hn⟩ := h
  induction hn with
  | root => exact reach_root
  | child hd hc ih => exact ih.step (by rw [he _ ⟨_, hd⟩, hc])

theorem reach_congr_iff {c : ν} (he : ∀ d, Reach child root d → child' d = child d) :
    Reach child' root c ↔ Reach child root c := by
  refine ⟨?_, fun h => h.congr he⟩
  rintro ⟨n, hn⟩
  induction hn with
  | root => exact reach_root
  | child hd hc ih => exact ih.step (by rw [← he _ ih, hc])

/-- A fresh leaf hung into a free slot is the only new node. -/
theorem reach_graft_iff {p new c : ν} {k : ι} (hp : Reach child root p) (hfree : child p k = none)
    (hk : child' p k = some new) (hleaf : ∀ i, child' new i = none)
    (hsame : ∀ d i, Reach child root d → (d = p → i ≠ k) → child' d i = child d i) :
    Reach child' root c ↔ Reach child root c ∨ c = new := by
  have hold : ∀ x, Reach child root x → Reach child' root x := by
    rintro x ⟨n, hn⟩
    induction hn with
    | root => exact reach_root
    | child hd hc ih =>
      rename_i n d c i
      have hne : d = p → i ≠ k := by
        rintro rfl rfl
        simp [hfree] at hc
      exact ih.step ((hsame d i ⟨n, hd⟩ hne).trans hc)
  constructor
  · rintro ⟨n, hn⟩
    induction hn with
    | root => exact .inl reach_root
    | child hd hc ih =>
      rename_i n d c i
      rcases ih with ih | rfl
      · by_cases he : d = p ∧ i = k
        · rw [he.1, he.2, hk] at hc
          exact .inr (Option.some.inj hc).symm
        · rw [hsame d i ih fun h h' => he ⟨h, h'⟩] at hc
          exact .inl (ih.step hc)
      · simp [hleaf] at hc
  · rintro (h | rfl)
    · exact hold c h
    · exact (hold p hp).step hk

/-- Emptying the slot of `a` removes the nodes below `a` and no other. -/
theorem reach_prune_iff (ht : IsTree child root) {p a c : ν} {k : ι} (hp : Reach child root p)
    (ha : child p k = some a) (hk : child' p k = none)
    (hsame : ∀ d i, Reach child root d → ¬ Below child a d → (d = p → i ≠ k) →
      child' d i = child d i) :
    Reach child' root c ↔ Reach child root c ∧ ¬ Below child a c := by
  constructor
  · rintro ⟨n, hn⟩
    induction hn with
    | root =>
      refine ⟨reach_root, fun h => ?_⟩
      cases h with
      | refl => exact ht.root_orphan hp ha
      | tail hd he =>
        obtain ⟨i, hi⟩ := he
        exact ht.root_orphan (below_reach hd (hp.step ha)) hi
    | child hd hc ih =>
      rename_i n d c i
      have hne : d = p → i ≠ k := by
        rintro rfl rfl
        simp [hk] at hc
      rw [hsame d i ih.1 ih.2 hne] at hc
      refine ⟨ih.1.step hc, fun h => ?_⟩
      cases h with
      | refl =>
        obtain ⟨he, hi⟩ := ht.parent_unique ih.1 hp hc ha
        exact hne he hi
      | tail hd' he =>
        obtain ⟨j, hj⟩ := he
        obtain ⟨rfl, -⟩ := ht.parent_unique ih.1 (below_reach hd' (hp.step ha)) hc hj
        exact ih.2 hd'
  · rintro ⟨⟨n, hn⟩, hb⟩
    induction hn with
    | root => exact reach_root
    | child hd hc ih =>
      rename_i n d c i
      have hbd : ¬ Below child a d := fun h => hb (h.tail ⟨i, hc⟩)
      have hne : d = p → i ≠ k := by
        rintro rfl rfl
        rw [ha] at hc
        exact hb ((Option.some.inj hc) ▸ .refl)
      exact (ih hbd).step ((hsame d i ⟨n, hd⟩ hbd hne).trans hc)

end Doors.PointerTree
