import Mathlib.Algebra.BigOperators.Group.List.Lemmas
import Mathlib.Data.List.OfFn
import Mathlib.Algebra.Order.Ring.Int

/-!
# Collective calls

Each rank runs a program that stops, or calls a collective with some rows and goes on with the rows
of all ranks, in the order of the ranks. A collective returns only if every rank makes the same
call, and its rows have the shape that the call tells the others to expect.

- `Runs`: all ranks finish.
- `Runs.unique`: with one result.
- `slice_gathered`: where the rows of a rank are.
-/

namespace Bi100.Collective

variable {n : Nat} {C α β γ ε : Type}

/-- A rank's program, with calls `C`. -/
inductive Prog (ε C α β : Type) where
  | fail (e : ε)
  | done (result : β)
  | gather (call : C) (rows : List α) (next : List α → Prog ε C α β)

/-- Go on with the result. -/
def Prog.bind : Prog ε C α β → (β → Prog ε C α γ) → Prog ε C α γ
  | .fail e, _ => .fail e
  | .done b, f => f b
  | .gather call rows next, f => .gather call rows fun gathered => (next gathered).bind f

/-- The rows of all ranks. -/
def gathered (rows : Fin n → List α) : List α := (List.ofFn rows).flatten

/-- How many rows the others expect of a rank. -/
class Shape (C : Type) where
  rows : C → Nat → Nat

/-- All ranks finish with these results. -/
inductive Runs [Shape C] : (Fin n → Prog ε C α β) → (Fin n → β) → Prop where
  | done (result : Fin n → β) : Runs (fun r => .done (result r)) result
  | gather (call : C) {rows : Fin n → List α} {next : Fin n → List α → Prog ε C α β}
      {result : Fin n → β} (hshape : ∀ r, (rows r).length = Shape.rows call r)
      (hrest : Runs (fun r => next r (gathered rows)) result) :
      Runs (fun r => .gather call (rows r) (next r)) result

/-- The results do not depend on anything else. -/
theorem Runs.unique [Shape C] (h0 : 0 < n) {ps : Fin n → Prog ε C α β} {result result' : Fin n → β}
    (h : Runs ps result) (h' : Runs ps result') : result = result' := by
  induction h with
  | done result =>
    generalize hps : (fun r => Prog.done (result r)) = ps at h'
    cases h' with
    | done result' => exact funext fun r => Prog.done.inj (congrFun hps r)
    | gather call hshape hrest => exact nomatch congrFun hps ⟨0, h0⟩
  | @gather call rows next result hshape hrest ih =>
    generalize hps : (fun r => Prog.gather call (rows r) (next r)) = ps at h'
    cases h' with
    | done result' => exact nomatch congrFun hps ⟨0, h0⟩
    | @gather call' rows' next' result' hshape' hrest' =>
      have hrows : rows = rows' := funext fun r => (Prog.gather.inj (congrFun hps r)).2.1
      have hnext : next = next' := funext fun r => (Prog.gather.inj (congrFun hps r)).2.2
      subst hrows hnext
      exact ih hrest'

/-- The rows of a rank, by the number of the rows before them. -/
theorem slice_gathered (rows : Fin n → List α) (r : Fin n) :
    ((gathered rows).drop ((List.ofFn fun i => (rows i).length).take r).sum).take (rows r).length =
      rows r := by
  have hr : r.val < (List.ofFn rows).length := List.length_ofFn.symm ▸ r.isLt
  have hlengths : (List.ofFn fun i => (rows i).length) = (List.ofFn rows).map List.length := by
    rw [List.map_ofFn]
    rfl
  have hlast : (((List.ofFn rows).map List.length).take (r + 1)).sum =
      (((List.ofFn rows).map List.length).take r).sum + (rows r).length := by
    rw [List.take_add_one, List.sum_append, List.getElem?_map, List.getElem?_eq_getElem hr,
      List.getElem_ofFn]
    simp
  have h := List.drop_take_succ_flatten_eq_getElem (List.ofFn rows) r hr
  rw [hlast, List.drop_take, Nat.add_sub_cancel_left, List.getElem_ofFn] at h
  rw [hlengths]
  exact h

/-- The rows of a rank are among the rows of all ranks. -/
theorem offset_add_le (rows : Fin n → List α) (r : Fin n) :
    ((List.ofFn fun i => (rows i).length).take r).sum + (rows r).length ≤ (gathered rows).length := by
  have hslice := congrArg List.length (slice_gathered rows r)
  rw [List.length_take, List.length_drop] at hslice
  have hall : (gathered rows).length = (List.ofFn fun i => (rows i).length).sum := by
    rw [gathered, List.length_flatten, List.map_ofFn]
    rfl
  have hle : ((List.ofFn fun i => (rows i).length).take r).sum ≤
      (List.ofFn fun i => (rows i).length).sum := by
    conv_rhs => rw [← List.take_append_drop r.val (List.ofFn fun i => (rows i).length),
      List.sum_append]
    exact Nat.le_add_right _ _
  omega

/-- The rows of a rank that is given `p` rows as the others. -/
theorem slice_padded (rows : Fin n → List α) {p : Nat} (h : ∀ r, (rows r).length = p) (r : Fin n) :
    ((gathered rows).drop (r * p)).take p = rows r ∧ r * p + p ≤ (gathered rows).length := by
  have hslice := slice_gathered rows r
  have hle := offset_add_le rows r
  have hlengths : (List.ofFn fun i => (rows i).length) = List.replicate n p := by
    rw [← List.ofFn_const]
    exact congrArg List.ofFn (funext h)
  have hoffset : ((List.ofFn fun i => (rows i).length).take r).sum = r * p := by
    rw [hlengths, List.take_replicate, List.sum_replicate_nat, Nat.min_eq_left r.isLt.le]
  rw [hoffset, h r] at hslice hle
  exact ⟨hslice, hle⟩

end Bi100.Collective
