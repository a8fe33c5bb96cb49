import Mathlib.Data.Int.Notation
import Mathlib.Algebra.Order.Ring.Int

/-!
# 32-bit integers

`toInt32` is what a conversion to a signed 32-bit integer leaves of a number. Sums may wrap on the
way (`toInt32_add`): a counter holds what is left of the exact count.
-/

namespace Bi100

/-- `static_cast<int>` -/
def toInt32 (n : Int) : Int := n.bmod (2 ^ 32)

theorem toInt32_natCast {n : Nat} (h : n < 2 ^ 31) : toInt32 n = n :=
  Int.bmod_eq_of_le (by omega) (by omega)

theorem toInt32_lt (n : Int) : toInt32 n < 2 ^ 31 := by
  have h := Int.bmod_lt (x := n) (m := 2 ^ 32) (by decide)
  unfold toInt32
  omega

theorem lt_of_toInt32_eq {n : Nat} (h : toInt32 n = n) : n < 2 ^ 31 := by
  have hlt := toInt32_lt n
  rw [h] at hlt
  omega

@[simp] theorem toInt32_zero : toInt32 0 = 0 := rfl

theorem toInt32_add (a b : Int) : toInt32 (toInt32 a + b) = toInt32 (a + b) :=
  Int.bmod_add_bmod

theorem toInt32_add_toInt32 (a b : Int) : toInt32 (toInt32 a + toInt32 b) = toInt32 (a + b) := by
  rw [toInt32_add, Int.add_comm, toInt32_add, Int.add_comm]

attribute [irreducible] toInt32

/-- An index into a buffer of `size` elements. -/
def offset? (size : Nat) (i : Int) : Option Nat :=
  if 0 ≤ i ∧ i < size then some i.toNat else none

theorem offset?_natCast {size n : Nat} (h : n < size) : offset? size (n : Int) = some n :=
  if_pos ⟨Int.natCast_nonneg n, Int.ofNat_lt.mpr h⟩

theorem offset?_eq_some {size n : Nat} {i : Int} (h : offset? size i = some n) : i = n := by
  unfold offset? at h
  split at h
  · next hi =>
    obtain rfl := Option.some.inj h
    omega
  · exact absurd h.symm (Option.some_ne_none n)

end Bi100
