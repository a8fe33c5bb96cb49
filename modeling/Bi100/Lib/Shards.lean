import Mathlib.Algebra.BigOperators.Group.Finset.Basic
import Mathlib.Algebra.BigOperators.Group.List.Basic
import Mathlib.Algebra.Order.Ring.Int

/-!
# Slices of the ranks

A tensor is a function of the index of its first axis, and zero from its end on.

- `cat`, `narrow`: `torch.cat` of pieces, and `torch.narrow`.
- `shards`: what a rank has of each piece, if each is cut into equal parts.
- `sum_ranks`: the products of the ranks with their slices add up to the whole product.
-/

namespace Bi100

section Pieces

variable {α : Type} [Zero α]

/-- The pieces, one after the other. -/
def cat : List (Nat × (Nat → α)) → Nat → α
  | [], _ => 0
  | (n, f) :: pieces, i => if i < n then f i else cat pieces (i - n)

/-- `len` elements from `start` on. -/
def narrow (start len : Nat) (x : Nat → α) : Nat → α := fun i =>
  if i < len then x (start + i) else 0

/-- The part of a rank of each piece. -/
def shards (size rank : Nat) (pieces : List (Nat × (Nat → α))) : List (Nat × (Nat → α)) :=
  pieces.map fun p => (p.1 / size, fun i => p.2 (rank * (p.1 / size) + i))

theorem cat_append (pieces : List (Nat × (Nat → α))) {n : Nat} (f : Nat → α)
    (rest : List (Nat × (Nat → α))) {i : Nat} (hi : i < n) :
    cat (pieces ++ (n, f) :: rest) ((pieces.map Prod.fst).sum + i) = f i := by
  induction pieces with
  | nil =>
    rw [List.nil_append, List.map_nil, List.sum_nil, Nat.zero_add, cat, if_pos hi]
  | cons p pieces ih =>
    rw [List.cons_append, List.map_cons, List.sum_cons, cat, if_neg (by omega)]
    rw [Nat.add_assoc, Nat.add_sub_cancel_left, ih]

theorem narrow_apply {start len : Nat} (x : Nat → α) {i : Nat} (hi : i < len) :
    narrow start len x i = x (start + i) := if_pos hi

end Pieces

/-- The parts of a sum. -/
theorem sum_ranks {M : Type} [AddCommMonoid M] (f : Nat → M) (size n : Nat) :
    ∑ rank ∈ Finset.range size, ∑ i ∈ Finset.range n, f (rank * n + i) =
      ∑ i ∈ Finset.range (size * n), f i := by
  induction size with
  | zero => rw [Nat.zero_mul, Finset.range_zero, Finset.sum_empty, Finset.sum_empty]
  | succ size ih => rw [Finset.sum_range_succ, ih, Nat.succ_mul, Finset.sum_range_add]

end Bi100
