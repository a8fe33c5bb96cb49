import Bi100.Lib.Labelled

/-!
# Machines with outputs

- `Mealy.run`: a machine reads its inputs one by one; it may stop anywhere and go on from its state
  (`Mealy.run_append`).
- `Mealy.Computes`: a system whose calls take several inputs at once, each as the machine would.
  However a stream is cut into calls, the outputs are those of the machine (`Computes.run`).
-/

namespace Py

/-- A machine with an output for each input. -/
structure Mealy (σ α β : Type) where
  step : σ → α → β × σ

namespace Mealy

variable {σ α β : Type} (M : Mealy σ α β)

/-- The outputs for a list of inputs, and the last state. -/
def run : σ → List α → List β × σ
  | s, [] => ([], s)
  | s, x :: xs =>
    let (y, s') := M.step s x
    let (ys, last) := run s' xs
    (y :: ys, last)

@[simp] theorem run_nil (s : σ) : M.run s [] = ([], s) := rfl

theorem run_cons (s : σ) (x : α) (xs : List α) : M.run s (x :: xs) =
    ((M.step s x).1 :: (M.run (M.step s x).2 xs).1, (M.run (M.step s x).2 xs).2) := rfl

theorem run_append (s : σ) (xs ys : List α) : M.run s (xs ++ ys) =
    ((M.run s xs).1 ++ (M.run (M.run s xs).2 ys).1, (M.run (M.run s xs).2 ys).2) := by
  induction xs generalizing s with
  | nil => rfl
  | cons x xs ih => rw [List.cons_append, run_cons, ih, run_cons]; rfl

/-- The calls of `S` give the outputs of the machine for their inputs. -/
def Computes (S : Lts σ (List α × List β)) : Prop :=
  ∀ s call s', S.step s call s' → M.run s call.1 = (call.2, s')

variable {M} {S : Lts σ (List α × List β)} {s s' : σ} {calls : List (List α × List β)}

/-- The inputs of some calls, one after the other. -/
def inputs (calls : List (List α × List β)) : List α := calls.flatMap Prod.fst

def outputs (calls : List (List α × List β)) : List β := calls.flatMap Prod.snd

/-- **Calls.** However the inputs are cut, a run of calls is a run of the machine. -/
theorem Computes.run (h : M.Computes S) (hrun : S.Run s calls s') :
    M.run s (inputs calls) = (outputs calls, s') := by
  induction hrun with
  | nil => rfl
  | cons hs _ ih =>
    unfold inputs outputs at ih ⊢
    rw [List.flatMap_cons, List.flatMap_cons, run_append, h _ _ _ hs, ih]

end Mealy

end Py
