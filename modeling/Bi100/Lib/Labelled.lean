import Mathlib.Tactic.Common

/-!
# Systems whose steps are calls

- `Lts.Run`: runs from a state to another, with their calls in order.
- `Lts.Run.foldl`: the rule for an abstraction that every call changes by a function. After a run it
  is that function folded over the calls.
-/

namespace Py

/-- A transition system whose steps have labels. -/
structure Lts (σ α : Type) where
  init : σ → Prop
  step : σ → α → σ → Prop

namespace Lts

variable {σ α τ : Type} {S : Lts σ α} {s s' s'' : σ} {a : α} {l l' : List α}

/-- A run with the labels of its steps. -/
inductive Run (S : Lts σ α) : σ → List α → σ → Prop where
  | nil (s : σ) : Run S s [] s
  | cons {s s' s'' : σ} {a : α} {l : List α} (hs : S.step s a s') (h : Run S s' l s'') :
    Run S s (a :: l) s''

theorem Run.append (h : S.Run s l s') (h' : S.Run s' l' s'') : S.Run s (l ++ l') s'' := by
  induction h with
  | nil => exact h'
  | cons hs _ ih => exact .cons hs (ih h')

theorem Run.snoc (h : S.Run s l s') (hs : S.step s' a s'') : S.Run s (l ++ [a]) s'' :=
  h.append (.cons hs (.nil _))

/-- What every call keeps, a run keeps. -/
theorem Run.invariant {I : σ → Prop} (hstep : ∀ s a s', I s → S.step s a s' → I s')
    (h : S.Run s l s') (hi : I s) : I s' := by
  induction h with
  | nil => exact hi
  | cons hs _ ih => exact ih (hstep _ _ _ hi hs)

/-- The abstraction rule. While `I` holds a call `a` changes the abstraction by `f · a`. -/
theorem Run.foldl {I : σ → Prop} {abs : σ → τ} {f : τ → α → τ}
    (hstep : ∀ s a s', I s → S.step s a s' → I s' ∧ abs s' = f (abs s) a)
    (h : S.Run s l s') (hi : I s) : abs s' = l.foldl f (abs s) := by
  induction h with
  | nil => rfl
  | cons hs _ ih =>
    obtain ⟨hi', habs⟩ := hstep _ _ _ hi hs
    rw [List.foldl_cons, ← habs]
    exact ih hi'

end Lts

end Py
