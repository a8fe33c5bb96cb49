import Mathlib.Algebra.BigOperators.Ring.Finset
import Mathlib.Algebra.BigOperators.Group.Finset.Sigma
import Mathlib.Tactic.Ring

/-!
# Unit lower triangular systems

For a strictly lower triangular `A`, the rows of the inverse of `1 - A` satisfy a recurrence on the
rows above them (`Inverts`). `solve`: the inverse gives the solution of `u = w + A u`.
-/

namespace Bi100.Triangular

variable {R : Type} [CommRing R] {n : Nat}

def StrictlyLower (A : Nat → Nat → R) : Prop := ∀ i j, i ≤ j → A i j = 0

/-- The first `n` rows of `t` are those of the inverse of `1 - A`. -/
def Inverts (A : Nat → Nat → R) (n : Nat) (t : Nat → Nat → R) : Prop :=
  ∀ i < n, ∀ j, t i j = (if i = j then 1 else 0) + ∑ m ∈ Finset.range i, A i m * t m j

/-- Forward substitution. -/
theorem solve {A t : Nat → Nat → R} {u w : Nat → R} (ht : Inverts A n t)
    (hu : ∀ i < n, u i = w i + ∑ m ∈ Finset.range i, A i m * u m) :
    ∀ i < n, u i = ∑ j ∈ Finset.range n, t i j * w j := by
  intro i
  induction i using Nat.strong_induction_on with
  | _ i ih =>
    intro hi
    have hrow : ∀ j, t i j * w j =
        (if i = j then w j else 0) + ∑ m ∈ Finset.range i, A i m * (t m j * w j) := by
      intro j
      rw [ht i hi j, add_mul, Finset.sum_mul]
      congr 1
      · split
        · rw [one_mul]
        · rw [zero_mul]
      · exact Finset.sum_congr rfl fun m _ => mul_assoc _ _ _
    rw [hu i hi, Finset.sum_congr rfl fun j _ => hrow j, Finset.sum_add_distrib, Finset.sum_comm,
      Finset.sum_ite_eq, if_pos (Finset.mem_range.mpr hi)]
    congr 1
    refine Finset.sum_congr rfl fun m hm => ?_
    have hlt := Finset.mem_range.mp hm
    rw [ih m hlt (hlt.trans hi), Finset.mul_sum]

/-! ## Inversion in place -/

/-- The rows up to `n` have been inverted, without the diagonal. -/
structure InvertedTo (A : Nat → Nat → R) (n : Nat) (b : Nat → Nat → R) : Prop where
  lower : StrictlyLower b
  done : ∀ i ≤ n, ∀ j, b i j = A i j + ∑ m ∈ Finset.range i, A i m * b m j
  rest : ∀ i, n < i → ∀ j, b i j = A i j

theorem InvertedTo.zero {A : Nat → Nat → R} (h : StrictlyLower A) : InvertedTo A 0 A where
  lower := h
  done i hi j := by
    obtain rfl := Nat.le_zero.mp hi
    rw [Finset.sum_range_zero, add_zero]
  rest _ _ _ := rfl

/-- The next row is replaced by itself plus its product with the rows above it. -/
theorem InvertedTo.step {A b b' : Nat → Nat → R} (h : InvertedTo A n b)
    (hrow : ∀ j < n + 1, b' (n + 1) j = b (n + 1) j + ∑ m ∈ Finset.range (n + 1), b (n + 1) m * b m j)
    (hright : ∀ j, n + 1 ≤ j → b' (n + 1) j = b (n + 1) j)
    (hother : ∀ i, i ≠ n + 1 → ∀ j, b' i j = b i j) : InvertedTo A (n + 1) b' := by
  have hlower : StrictlyLower b' := by
    intro i j hij
    by_cases hi : i = n + 1
    · subst hi
      rw [hright j hij, h.lower _ _ hij]
    · rw [hother i hi, h.lower i j hij]
  have habove : ∀ i ≤ n + 1, ∀ j, ∑ m ∈ Finset.range i, A i m * b' m j =
      ∑ m ∈ Finset.range i, A i m * b m j := fun i hi j =>
    Finset.sum_congr rfl fun m hm => by
      have := Finset.mem_range.mp hm
      rw [hother m (by omega)]
  refine ⟨hlower, fun i hi j => ?_, fun i hi j => ?_⟩
  · rw [habove i hi]
    rcases Nat.lt_or_eq_of_le hi with hlt | rfl
    · rw [hother i (by omega), h.done i (by omega)]
    · have hA' := h.rest (n + 1) (Nat.lt_succ_self n)
      by_cases hj : j < n + 1
      · rw [hrow j hj, hA']
        congr 1
        exact Finset.sum_congr rfl fun m _ => by rw [hA']
      · have hj := Nat.le_of_not_lt hj
        rw [hright j hj, hA', Finset.sum_eq_zero, add_zero]
        intro m hm
        have := Finset.mem_range.mp hm
        rw [h.lower m j (by omega), mul_zero]
  · rw [hother i (by omega), h.rest i (by omega)]

/-- With the diagonal. -/
theorem InvertedTo.inverts {A b : Nat → Nat → R} (h : InvertedTo A n b) (hA : StrictlyLower A) :
    Inverts A (n + 1) fun i j => b i j + if i = j then 1 else 0 := by
  intro i hi j
  have hsum : ∑ m ∈ Finset.range i, A i m * (b m j + if m = j then 1 else 0) =
      ∑ m ∈ Finset.range i, A i m * b m j + A i j := by
    have hsplit : ∀ m, A i m * (b m j + if m = j then 1 else 0) =
        A i m * b m j + if m = j then A i m else 0 := fun m => by
      rw [mul_add]
      split <;> simp
    rw [Finset.sum_congr rfl fun m _ => hsplit m, Finset.sum_add_distrib]
    congr 1
    rw [Finset.sum_ite_eq']
    split
    · rfl
    · next hj =>
      rw [Finset.mem_range, not_lt] at hj
      exact (hA i j hj).symm
  dsimp only
  rw [hsum, h.done i (by omega)]
  ring

end Bi100.Triangular
