import Mathlib.Algebra.Field.Basic
import Mathlib.Algebra.BigOperators.Group.Finset.Basic
import Mathlib.Analysis.SpecialFunctions.Exp

/-!
# Exact arithmetic with an exponential

A field with a function that turns sums into products; `ExpOrderedField`: an ordered one, where the
function is strictly increasing.
-/

namespace Bi100

class ExpField (K : Type) extends Field K where
  exp : K → K
  exp_zero : exp 0 = 1
  exp_add : ∀ a b, exp (a + b) = exp a * exp b

namespace ExpField

variable {K : Type} [ExpField K]

theorem exp_sub_mul_exp (a b : K) : exp (a - b) * exp b = exp a := by
  rw [← exp_add, sub_add_cancel]

theorem exp_sub_add (a b c : K) : exp (c + a - b) = exp c * exp (a - b) := by
  rw [← exp_add]
  congr 1
  ring

end ExpField

class ExpOrderedField (K : Type) extends ExpField K, LinearOrder K, IsStrictOrderedRing K where
  exp_strictMono : StrictMono exp

namespace ExpOrderedField

variable {K : Type} [ExpOrderedField K]

theorem exp_pos (a : K) : 0 < ExpField.exp a := by
  have hprod : ExpField.exp a * ExpField.exp (-a) = 1 := by
    rw [← ExpField.exp_add, add_neg_cancel, ExpField.exp_zero]
  have hsquare : ExpField.exp a = ExpField.exp (a / 2) * ExpField.exp (a / 2) := by
    rw [← ExpField.exp_add, add_halves]
  have hne : ExpField.exp a ≠ 0 := left_ne_zero_of_mul (hprod.trans_ne one_ne_zero)
  rw [hsquare] at hne ⊢
  exact mul_self_pos.mpr (left_ne_zero_of_mul hne)

theorem exp_lt_exp {a b : K} : ExpField.exp a < ExpField.exp b ↔ a < b :=
  exp_strictMono.lt_iff_lt

end ExpOrderedField

noncomputable instance : ExpField ℝ where
  exp := Real.exp
  exp_zero := Real.exp_zero
  exp_add := Real.exp_add

noncomputable instance : ExpOrderedField ℝ where
  exp_strictMono := Real.exp_strictMono

end Bi100
