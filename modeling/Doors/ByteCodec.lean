import Mathlib.Algebra.Group.Nat.Defs
import Mathlib.Data.Fin.Basic
import Mathlib.Logic.Equiv.Basic
import Mathlib.Tactic.TypeStar

/-! Packed little-endian layouts. A codec places a value at the start of a byte
memory; reading a memory that agrees with the placed bytes gives the value back. -/

namespace Doors

structure Codec (α : Type*) where
  size : Nat
  put : α → Nat → UInt8
  get : (Nat → UInt8) → α
  get_eq : ∀ (a : α) (m : Nat → UInt8), (∀ k < size, m k = put a k) → get m = a

namespace Codec

variable {α β : Type*}

def u8 : Codec UInt8 where
  size := 1
  put v _ := v
  get m := m 0
  get_eq v m h := h 0 (by omega)

def u16 : Codec UInt16 where
  size := 2
  put v k := UInt8.ofNat (v.toNat / 256 ^ k)
  get m := UInt16.ofNat ((m 0).toNat + 256 * (m 1).toNat)
  get_eq v m h := by
    have h0 := h 0 (by omega)
    have h1 := h 1 (by omega)
    have hv := v.toNat_lt
    apply UInt16.toNat_inj.mp
    simp only [h0, h1, UInt8.toNat_ofNat', UInt16.toNat_ofNat']
    omega

def u32 : Codec UInt32 where
  size := 4
  put v k := UInt8.ofNat (v.toNat / 256 ^ k)
  get m := UInt32.ofNat ((m 0).toNat + 256 * (m 1).toNat + 65536 * (m 2).toNat +
    16777216 * (m 3).toNat)
  get_eq v m h := by
    have h0 := h 0 (by omega)
    have h1 := h 1 (by omega)
    have h2 := h 2 (by omega)
    have h3 := h 3 (by omega)
    have hv := v.toNat_lt
    apply UInt32.toNat_inj.mp
    simp only [h0, h1, h2, h3, UInt8.toNat_ofNat', UInt32.toNat_ofNat']
    omega

/-- One field after another, without padding. -/
def seq (c : Codec α) (d : Codec β) : Codec (α × β) where
  size := c.size + d.size
  put v k := if k < c.size then c.put v.1 k else d.put v.2 (k - c.size)
  get m := (c.get m, d.get fun k => m (c.size + k))
  get_eq v m h := by
    refine Prod.ext (c.get_eq v.1 m ?_) (d.get_eq v.2 _ ?_)
    · intro k hk
      simpa [hk] using h k (by omega)
    · intro k hk
      simpa [show ¬ c.size + k < c.size by omega] using h (c.size + k) (by omega)

def array (n : Nat) (c : Codec α) : Codec (Fin n → α) where
  size := n * c.size
  put v k := if h : k / c.size < n then c.put (v ⟨k / c.size, h⟩) (k % c.size) else 0
  get m i := c.get fun k => m (i * c.size + k)
  get_eq v m h := by
    funext i
    apply c.get_eq
    intro k hk
    have hlt : i.val * c.size + k < n * c.size := by
      have hi : (i.val + 1) * c.size ≤ n * c.size := Nat.mul_le_mul_right _ i.isLt
      rw [Nat.succ_mul] at hi
      omega
    have hdiv : (i.val * c.size + k) / c.size = i.val := by
      rw [Nat.mul_comm, Nat.mul_add_div (by omega), Nat.div_eq_of_lt hk, Nat.add_zero]
    have hmod : (i.val * c.size + k) % c.size = k := by
      rw [Nat.mul_comm, Nat.mul_add_mod, Nat.mod_eq_of_lt hk]
    simp [h _ hlt, hdiv, hmod]

/-- A record is laid out as the tuple of its fields. -/
def map (c : Codec α) (e : α ≃ β) : Codec β where
  size := c.size
  put v := c.put (e.symm v)
  get m := e (c.get m)
  get_eq v m h := by rw [c.get_eq _ m h, e.apply_symm_apply]

end Codec

end Doors
