import Mathlib.Tactic.Common

/-!
# Runs of a transition system

- **Reachable states** (`Sys.Reachable`) and the invariant rule (`Sys.Reachable.invariant`): what
  holds initially and is kept by every step holds in every reachable state.
- **Runs with their steps** (`Sys.Trace`) and the rule for a property that some steps break
  (`Sys.Trace.all_iff`): it holds all along a run exactly when every step meets its condition.
- **Runs that end** (`Sys.Ends`): no run goes on for ever, and one that cannot go on has a property;
  by a measure that every step makes smaller (`Sys.Ends.of_measure`).
- **Simulation** (`Sys.Sim`): a relation that every step of the concrete system preserves for some
  steps of the abstract one; reachable states are related (`Sys.Sim.reachable`).
-/

namespace Py

/-- A transition system: its initial states and its steps. -/
structure Sys (σ : Type) where
  init : σ → Prop
  step : σ → σ → Prop

namespace Sys

variable {σ τ : Type}

/-- The states that a run of any length reaches. -/
inductive Reachable (S : Sys σ) : σ → Prop where
  | init {s : σ} (h : S.init s) : Reachable S s
  | step {s s' : σ} (h : Reachable S s) (hs : S.step s s') : Reachable S s'

/-- The invariant rule. A step may use that its source is reachable. -/
theorem Reachable.invariant {S : Sys σ} {I : σ → Prop} (hinit : ∀ s, S.init s → I s)
    (hstep : ∀ s s', S.Reachable s → I s → S.step s s' → I s') {s : σ} (h : S.Reachable s) :
    I s := by
  induction h with
  | init h => exact hinit _ h
  | step h hs ih => exact hstep _ _ h ih hs

/-- Any number of steps. -/
inductive Steps (S : Sys σ) : σ → σ → Prop where
  | refl (s : σ) : Steps S s s
  | tail {s s₁ s₂ : σ} (h : Steps S s s₁) (hs : S.step s₁ s₂) : Steps S s s₂

theorem Reachable.steps {S : Sys σ} {s s' : σ} (h : S.Reachable s) (hs : S.Steps s s') :
    S.Reachable s' := by
  induction hs with
  | refl => exact h
  | tail _ hs ih => exact ih.step hs

/-- A run to `s`, with its steps, the last one first. -/
inductive Trace (S : Sys σ) : σ → List (σ × σ) → Prop where
  | init {s : σ} (h : S.init s) : Trace S s []
  | step {s s' : σ} {l : List (σ × σ)} (h : Trace S s l) (hs : S.step s s') :
    Trace S s' ((s, s') :: l)

theorem Trace.reachable {S : Sys σ} {s : σ} {l : List (σ × σ)} (h : S.Trace s l) :
    S.Reachable s := by
  induction h with
  | init h => exact .init h
  | step _ hs ih => exact ih.step hs

/-- The rule for a property that some steps break. A step that meets `C` keeps `I`, and one after
which `I` holds met `C`. -/
theorem Trace.all_iff {S : Sys σ} {I : σ → Prop} {C : σ → σ → Prop}
    (hinit : ∀ s, S.init s → I s)
    (hkeep : ∀ s s', S.Reachable s → I s → S.step s s' → C s s' → I s')
    (hneed : ∀ s s', S.Reachable s → S.step s s' → I s' → C s s')
    {s : σ} {l : List (σ × σ)} (h : S.Trace s l) :
    (∀ p ∈ l, I p.2) ↔ ∀ p ∈ l, C p.1 p.2 := by
  suffices hs : ((∀ p ∈ l, C p.1 p.2) → I s ∧ ∀ p ∈ l, I p.2) ∧
      ((∀ p ∈ l, I p.2) → ∀ p ∈ l, C p.1 p.2) from ⟨hs.2, fun hc => (hs.1 hc).2⟩
  induction h with
  | init h => exact ⟨fun _ => ⟨hinit _ h, fun _ hp => absurd hp List.not_mem_nil⟩,
      fun _ _ hp => absurd hp List.not_mem_nil⟩
  | step h hs ih =>
    simp only [List.forall_mem_cons]
    refine ⟨fun hc => ?_, fun hi => ⟨hneed _ _ h.reachable hs hi.1, ih.2 hi.2⟩⟩
    obtain ⟨hI, hrest⟩ := ih.1 hc.2
    have hlast := hkeep _ _ h.reachable hI hs hc.1
    exact ⟨hlast, hlast, hrest⟩

/-- Every run ends, in a state with `P`. -/
def Ends (S : Sys σ) (P : σ → Prop) : Prop :=
  (∃ bound, ∀ s l, S.Trace s l → l.length ≤ bound) ∧
    ∀ s, S.Reachable s → (∃ s', S.step s s') ∨ P s

theorem Ends.of_measure {S : Sys σ} {P : σ → Prop} (work : σ → Nat)
    (hstep : ∀ s s', S.step s s' → work s' < work s)
    (hinit : ∃ bound, ∀ s, S.init s → work s ≤ bound)
    (hend : ∀ s, S.Reachable s → (∃ s', S.step s s') ∨ P s) : S.Ends P := by
  obtain ⟨bound, hbound⟩ := hinit
  refine ⟨⟨bound, fun s l h => ?_⟩, hend⟩
  suffices hs : l.length + work s ≤ bound by omega
  induction h with
  | init h => exact (Nat.zero_add (work _)).symm ▸ hbound _ h
  | step h hs ih =>
    have hless := hstep _ _ hs
    rw [List.length_cons]
    omega

theorem Ends.imp {S : Sys σ} {P Q : σ → Prop} (h : S.Ends P) (hPQ : ∀ s, P s → Q s) :
    S.Ends Q :=
  ⟨h.1, fun s hs => (h.2 s hs).imp id (hPQ s)⟩

/-- `R` simulates `S` by `T`: initial states are related to initial states, and every step of
`S` is matched by some steps of `T`. -/
structure Sim (S : Sys σ) (T : Sys τ) (R : σ → τ → Prop) : Prop where
  init : ∀ s, S.init s → ∃ t, T.init t ∧ R s t
  step : ∀ s s' t, R s t → S.step s s' → ∃ t', T.Steps t t' ∧ R s' t'

theorem Sim.reachable {S : Sys σ} {T : Sys τ} {R : σ → τ → Prop} (h : Sim S T R) {s : σ}
    (hs : S.Reachable s) : ∃ t, T.Reachable t ∧ R s t := by
  induction hs with
  | init hi =>
    obtain ⟨t, ht, hR⟩ := h.init _ hi
    exact ⟨t, .init ht, hR⟩
  | step _ hstep ih =>
    obtain ⟨t, ht, hR⟩ := ih
    obtain ⟨t', hts, hR'⟩ := h.step _ _ t hR hstep
    exact ⟨t', ht.steps hts, hR'⟩

end Sys

end Py
