import Mathlib.Data.Set.Card
import Mathlib.Logic.Function.Basic
import Mathlib.Tactic.TypeStar

/-! Trees of named entries as maps from paths to nodes. A node is put at a path; a
removal takes a path with all that lies below it. -/

namespace Doors.PathStore

inductive Node (β : Type*)
  | folder
  | file (bytes : β)

abbrev Store (κ β : Type*) := List κ → Option (Node β)

namespace Store

variable {κ β : Type*} {m : Store κ β} {path rest : List κ} {n : Node β} {b : β}

/-- A root with no entries. -/
def empty : Store κ β
  | [] => some .folder
  | _ :: _ => none

open Classical in
noncomputable def put (m : Store κ β) (path : List κ) (n : Node β) : Store κ β :=
  Function.update m path (some n)

open Classical in
noncomputable def prune (m : Store κ β) (path : List κ) : Store κ β :=
  fun q => if path <+: q then none else m q

def entries (m : Store κ β) (dir : List κ) : Set κ := {k | m (dir ++ [k]) ≠ none}

/-- Entries hang in folders. -/
structure Sound (m : Store κ β) : Prop where
  root : m [] = some .folder
  parent : ∀ dir k, m (dir ++ [k]) ≠ none → m dir = some .folder

@[simp] theorem put_self : m.put path n path = some n := by simp [put]

theorem put_of_ne (h : rest ≠ path) : m.put path n rest = m rest := by simp [put, h]

theorem prune_below (h : path <+: rest) : m.prune path rest = none := by simp [prune, h]

theorem prune_of_not_below (h : ¬ path <+: rest) : m.prune path rest = m rest := by
  simp [prune, h]

theorem empty_snoc (dir : List κ) (k : κ) : (empty : Store κ β) (dir ++ [k]) = none := by
  cases dir <;> rfl

theorem empty_entries (dir : List κ) : (empty : Store κ β).entries dir = ∅ :=
  Set.eq_empty_iff_forall_notMem.mpr fun k hk => hk (empty_snoc dir k)

theorem snoc_inj {dir dir' : List κ} {k k' : κ} :
    dir ++ [k] = dir' ++ [k'] ↔ dir = dir' ∧ k = k' := by simp

theorem prefix_snoc {dir : List κ} {k : κ} (h : path <+: dir ++ [k]) :
    path = dir ++ [k] ∨ path <+: dir := by
  rwa [List.prefix_concat_iff] at h

namespace Sound

/-- What has something below it is a folder. -/
theorem folder_above (h : Sound m) (hrest : rest ≠ []) (hm : m (path ++ rest) ≠ none) :
    m path = some .folder := by
  induction rest using List.reverseRecOn with
  | nil => exact absurd rfl hrest
  | append_singleton rest k ih =>
    rw [← List.append_assoc] at hm
    have hf := h.parent _ _ hm
    cases rest with
    | nil => simpa using hf
    | cons a rest => exact ih (List.cons_ne_nil a rest) (by rw [hf]; exact Option.some_ne_none _)

/-- A file has nothing below it. -/
theorem below_file (h : Sound m) (hf : m path = some (.file b)) (hp : path <+: rest) :
    rest = path ∨ m rest = none := by
  obtain ⟨tail, rfl⟩ := hp
  by_cases ht : tail = []
  · simp [ht]
  · refine .inr (by_contra fun hm => ?_)
    simp [h.folder_above ht hm] at hf

theorem put_prune_file (h : Sound m) (hf : m path = some (.file b)) :
    (m.prune path).put path n = m.put path n := by
  funext rest
  by_cases hr : rest = path
  · simp [hr]
  · rw [put_of_ne hr, put_of_ne hr]
    by_cases hp : path <+: rest
    · rw [prune_below hp, (h.below_file hf hp).resolve_left hr]
    · rw [prune_of_not_below hp]

end Sound

end Store

end Doors.PathStore
