import Mathlib.Algebra.BigOperators.Group.Finset.Basic
import Mathlib.Algebra.BigOperators.Group.List.Basic
import Mathlib.Data.List.MinMax
import Mathlib.Data.Nat.Basic
import Mathlib.Order.WithBot
import Mathlib.Tactic.Ring

/-!
# Block reductions

The threads of a block reduce an array with an associative and commutative operation: every thread
folds its own entries, `threads` apart, and the partial results are combined in a tree. A round of
the tree ends with a barrier, so it is a function of the values before it.

- `fold`: the sequential loop.
- `blockReduce_eq`: the threads compute the same.
-/

namespace Bi100.BlockReduce

variable {α : Type}

/-- `for i in range(n): acc = op(acc, f(i))` -/
def fold (op : α → α → α) (e : α) (f : Nat → α) : Nat → α
  | 0 => e
  | n + 1 => op (fold op e f n) (f n)

/-- The entries of thread `t`. -/
def threadFold (op : α → α → α) (e : α) (f : Nat → α) (threads n t : Nat) : α :=
  fold op e (fun j => f (t + j * threads)) ((n - t + threads - 1) / threads)

/-- The threads below `stride` add the value of a partner. -/
def treeRound (op : α → α → α) (stride : Nat) (r : Nat → α) : Nat → α := fun t =>
  if t < stride then op (r t) (r (t + stride)) else r t

/-- The rounds with the strides `2 ^ (k - 1), …, 1`. -/
def treeRounds (op : α → α → α) : Nat → (Nat → α) → Nat → α
  | 0, r => r
  | k + 1, r => treeRounds op k (treeRound op (2 ^ k) r)

/-- What thread `0` of `2 ^ k` threads has at the end. -/
def blockReduce (op : α → α → α) (e : α) (k n : Nat) (f : Nat → α) : α :=
  treeRounds op k (threadFold op e f (2 ^ k) n) 0

instance lawfulIdentityMaxBot {β : Type} [LinearOrder β] [OrderBot β] :
    Std.LawfulIdentity (max : β → β → β) ⊥ where
  left_id := bot_sup_eq
  right_id := sup_bot_eq

section Fold

variable (op : α → α → α) (e : α)

theorem fold_congr {f g : Nat → α} {n : Nat} (h : ∀ i < n, f i = g i) :
    fold op e f n = fold op e g n := by
  induction n with
  | zero => rfl
  | succ n ih => rw [fold, fold, ih fun i hi => h i (by omega), h n (by omega)]

variable [Std.Associative op] [Std.Commutative op] [Std.LawfulIdentity op e]

theorem fold_add (f : Nat → α) (m n : Nat) :
    fold op e f (m + n) = op (fold op e f m) (fold op e (fun i => f (m + i)) n) := by
  induction n with
  | zero => exact (Std.LawfulRightIdentity.right_id _).symm
  | succ n ih =>
    show op (fold op e f (m + n)) (f (m + n)) = op _ (op _ _)
    rw [ih]
    exact Std.Associative.assoc _ _ _

theorem fold_op (f g : Nat → α) (n : Nat) :
    fold op e (fun i => op (f i) (g i)) n = op (fold op e f n) (fold op e g n) := by
  induction n with
  | zero => exact (Std.LawfulRightIdentity.right_id e).symm
  | succ n ih =>
    show op (fold op e _ n) (op (f n) (g n)) = op (op _ _) (op _ _)
    rw [ih]
    ac_rfl

omit [Std.Associative op] [Std.Commutative op] in
theorem fold_const (n : Nat) : fold op e (fun _ => e) n = e := by
  induction n with
  | zero => rfl
  | succ n ih => exact (Std.LawfulRightIdentity.right_id _).trans ih

/-- Entries `t` apart, for every residue. -/
theorem fold_strided (f : Nat → α) (threads m : Nat) :
    fold op e (fun t => fold op e (fun j => f (t + j * threads)) m) threads =
      fold op e f (m * threads) := by
  induction m with
  | zero => rw [Nat.zero_mul]; exact fold_const op e threads
  | succ m ih =>
    have hstep := fold_op op e (fun t => fold op e (fun j => f (t + j * threads)) m)
      (fun t => f (t + m * threads)) threads
    have hlast : fold op e (fun t => f (t + m * threads)) threads =
        fold op e (fun t => f (m * threads + t)) threads :=
      fold_congr op e fun t _ => congrArg f (Nat.add_comm _ _)
    rw [Nat.succ_mul, fold_add, ← ih, ← hlast]
    exact hstep

/-- Rows of length `width`. -/
theorem fold_rows (f : Nat → α) (width rows : Nat) :
    fold op e (fun i => fold op e (fun j => f (i * width + j)) width) rows =
      fold op e f (rows * width) := by
  induction rows with
  | zero => rw [Nat.zero_mul]; rfl
  | succ rows ih =>
    show op (fold op e _ rows) _ = _
    rw [ih, Nat.succ_mul, fold_add]

theorem treeRounds_zero (k : Nat) (r : Nat → α) :
    treeRounds op k r 0 = fold op e r (2 ^ k) := by
  induction k generalizing r with
  | zero => exact (Std.LawfulLeftIdentity.left_id (r 0)).symm
  | succ k ih =>
    have hround : fold op e (treeRound op (2 ^ k) r) (2 ^ k) =
        fold op e (fun t => op (r t) (r (2 ^ k + t))) (2 ^ k) :=
      fold_congr op e fun t ht => by
        rw [treeRound, if_pos ht, Nat.add_comm t]
    rw [treeRounds, ih, hround, fold_op, ← fold_add op e, Nat.pow_succ, Nat.mul_two]

/-- **The block computes the sequential fold.** -/
theorem blockReduce_eq (f : Nat → α) (k m : Nat) :
    blockReduce op e k (m * 2 ^ k) f = fold op e f (m * 2 ^ k) := by
  have hpos := Nat.two_pow_pos k
  rw [blockReduce, treeRounds_zero op e, ← fold_strided]
  refine fold_congr op e fun t ht => ?_
  have hcount : (m * 2 ^ k - t + 2 ^ k - 1) / 2 ^ k = m := by
    cases m with
    | zero =>
      rw [Nat.zero_mul]
      exact Nat.div_eq_of_lt (by omega)
    | succ m =>
      rw [Nat.succ_mul]
      refine Nat.div_eq_of_lt_le ?_ ?_
      · rw [Nat.succ_mul]
        omega
      · rw [Nat.succ_mul, Nat.succ_mul]
        omega
  rw [threadFold, hcount]

end Fold

/-- The sum of a list by index. -/
theorem sum_range_map {M : Type} [AddMonoid M] (f : Nat → M) (n : Nat) :
    ((List.range n).map f).sum = fold (· + ·) 0 f n := by
  induction n with
  | zero => rfl
  | succ n ih => rw [List.range_succ, List.map_append, List.sum_append, ih, List.map_singleton,
      List.sum_singleton, fold]

theorem fold_add_eq_sum {M : Type} [AddCommMonoid M] (f : Nat → M) (n : Nat) :
    fold (· + ·) 0 f n = ∑ i ∈ Finset.range n, f i := by
  induction n with
  | zero => rfl
  | succ n ih => rw [Finset.sum_range_succ, ← ih, fold]

end Bi100.BlockReduce
