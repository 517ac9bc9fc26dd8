import Doors.PointerTree
import Mathlib.Data.List.Induction

/-! Paths of labels in a pointer tree. Where the labels of a node differ a path leads to
one node at most, and in a tree one path at most leads to a node. -/

namespace Doors.PointerTree

variable {ν ι κ : Type*} {child child' : ν → ι → Option ν} {label label' : ν → ι → κ}

/-- The labels `path` lead from `d` to `x`. -/
inductive Descends (child : ν → ι → Option ν) (label : ν → ι → κ) : ν → List κ → ν → Prop
  | here (d : ν) : Descends child label d [] d
  | step {d b x : ν} {i : ι} {path : List κ} : child d i = some b →
    Descends child label b path x → Descends child label d (label d i :: path) x

/-- The labels of the children of every node of the tree differ. -/
def LabelsDiffer (child : ν → ι → Option ν) (label : ν → ι → κ) (root : ν) : Prop :=
  ∀ d i j b c, Reach child root d → child d i = some b → child d j = some c →
    label d i = label d j → i = j

variable {root d x y : ν} {path rest : List κ}

theorem Descends.toBelow (h : Descends child label d path x) : Below child d x := by
  induction h with
  | here d => exact .refl
  | step hb _ ih => exact ih.head ⟨_, hb⟩

theorem Descends.reach (h : Descends child label d path x) (hd : Reach child root d) :
    Reach child root x := below_reach h.toBelow hd

theorem Descends.reachIn {n : Nat} (h : Descends child label d path x)
    (hd : ReachIn child root n d) : ReachIn child root (n + path.length) x := by
  induction h generalizing n with
  | here d => exact hd
  | @step d b x i path hb _ ih =>
    have hx := ih (hd.child hb)
    rwa [Nat.add_assoc, Nat.add_comm 1] at hx

theorem Descends.single {b : ν} {i : ι} (h : child d i = some b) :
    Descends child label d [label d i] b := .step h (.here b)

theorem Descends.append (h : Descends child label d path x)
    (h' : Descends child label x rest y) : Descends child label d (path ++ rest) y := by
  induction h with
  | here d => exact h'
  | step hb _ ih => exact .step hb (ih h')

theorem Descends.split (h : Descends child label d (path ++ rest) y) :
    ∃ x, Descends child label d path x ∧ Descends child label x rest y := by
  induction path generalizing d with
  | nil => exact ⟨d, .here d, h⟩
  | cons k path ih =>
    cases h with
    | step hb h =>
      obtain ⟨x, hx, hrest⟩ := ih h
      exact ⟨x, .step hb hx, hrest⟩

theorem Descends.of_below (h : Below child d x) : ∃ path, Descends child label d path x := by
  induction h with
  | refl => exact ⟨[], .here d⟩
  | tail _ he ih =>
    obtain ⟨path, hp⟩ := ih
    obtain ⟨i, hi⟩ := he
    exact ⟨_, hp.append (.single hi)⟩

theorem Descends.of_reach (h : Reach child root x) : ∃ path, Descends child label root path x := by
  obtain ⟨n, hn⟩ := h
  induction hn with
  | root => exact ⟨[], .here root⟩
  | child _ hb ih =>
    obtain ⟨path, hp⟩ := ih
    exact ⟨_, hp.append (.single hb)⟩

theorem Descends.kept {P : ν → Prop}
    (hkeep : ∀ d i b, P d → child d i = some b → P b →
      child' d i = some b ∧ label' d i = label d i)
    (hP : ∀ z, Below child d z → Below child z x → P z)
    (h : Descends child label d path x) : Descends child' label' d path x := by
  induction h with
  | here d => exact .here d
  | @step d b x i path hb h ih =>
    obtain ⟨hc, hl⟩ := hkeep d i b (hP d .refl (h.toBelow.head ⟨i, hb⟩)) hb
      (hP b (.single ⟨i, hb⟩) h.toBelow)
    rw [← hl]
    exact .step hc (ih fun z hz hzx => hP z (hz.head ⟨i, hb⟩) hzx)

theorem Descends.unique (hl : LabelsDiffer child label root) (hd : Reach child root d)
    (h : Descends child label d path x) (h' : Descends child label d path y) : x = y := by
  induction h with
  | here d =>
    cases h'
    rfl
  | @step d b x i path hb _ ih =>
    generalize hpath : label d i :: path = path' at h'
    cases h' with
    | here => cases hpath
    | @step _ c _ j _ hc h' =>
      obtain ⟨hij, rfl⟩ := List.cons.inj hpath
      obtain rfl := hl d i j b c hd hb hc hij
      obtain rfl := Option.some.inj (hb.symm.trans hc)
      exact ih (hd.step hb) h'

theorem Descends.last {k : κ} (h : Descends child label d (path ++ [k]) y) :
    ∃ x i, Descends child label d path x ∧ child x i = some y ∧ label x i = k := by
  obtain ⟨x, hx, hrest⟩ := h.split
  cases hrest with
  | @step _ b _ i _ hb hrest =>
    cases hrest
    exact ⟨x, i, hx, hb, rfl⟩

theorem Descends.path_unique (ht : IsTree child root) (h : Descends child label root path x)
    (h' : Descends child label root rest x) : path = rest := by
  induction path using List.reverseRecOn generalizing x rest with
  | nil =>
    cases h
    rcases rest.eq_nil_or_concat' with rfl | ⟨rest, k, rfl⟩
    · rfl
    · obtain ⟨z, i, hz, hroot, -⟩ := h'.last
      exact absurd hroot (ht.root_orphan (hz.reach reach_root))
  | append_singleton path k ih =>
    obtain ⟨y, i, hy, hyx, rfl⟩ := h.last
    rcases rest.eq_nil_or_concat' with rfl | ⟨rest, k', rfl⟩
    · cases h'
      exact absurd hyx (ht.root_orphan (hy.reach reach_root))
    · obtain ⟨z, j, hz, hzx, rfl⟩ := h'.last
      obtain ⟨rfl, rfl⟩ := ht.parent_unique (hy.reach reach_root) (hz.reach reach_root) hyx hzx
      rw [ih hy hz]

end Doors.PointerTree
