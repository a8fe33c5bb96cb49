import Mathlib.Algebra.Notation.Defs
import Mathlib.Data.List.Basic
import Mathlib.Tactic.Common

/-!
# What a recurrent state cache is for

A map from (request, sequence) to the state last written for the sequence, without slots. A new
request starts from the zero state; a new sequence of a known request starts from the state of
the request's first sequence.
-/

namespace Bi100

variable {R Q S : Type} [DecidableEq R] [DecidableEq Q] [Zero S]

@[ext] structure SeqStates (R Q S : Type) where
  /-- The first sequence of a live request. -/
  first : R → Option Q
  state : R → Q → Option S

namespace SeqStates

/-- No live sequence. -/
def empty : SeqStates R Q S := ⟨fun _ => none, fun _ _ => none⟩

omit [DecidableEq R] [DecidableEq Q] in
/-- The state that a new sequence of `r` starts from. -/
def start (σ : SeqStates R Q S) (r : R) : S := ((σ.first r).bind (σ.state r)).getD 0

/-- `(r, q)` is live; if it is new, it starts. -/
def assign (σ : SeqStates R Q S) (r : R) (q : Q) : SeqStates R Q S where
  first r' := if r' = r then (σ.first r).or (some q) else σ.first r'
  state r' q' :=
    if r' = r ∧ q' = q then some ((σ.state r q).getD (σ.start r)) else σ.state r' q'

/-- All sequences of a batch are live. -/
def prepare (σ : SeqStates R Q S) (batch : List (R × Q)) : SeqStates R Q S :=
  batch.foldl (fun σ p => σ.assign p.1 p.2) σ

/-- The model writes the states of a batch. -/
def write (σ : SeqStates R Q S) (batch : List (R × Q)) (w : Nat → S) : SeqStates R Q S where
  first := σ.first
  state r q := if (r, q) ∈ batch then some (w (batch.idxOf (r, q))) else σ.state r q

/-- The requests of `rs` are forgotten. -/
def release (σ : SeqStates R Q S) (rs : List R) : SeqStates R Q S where
  first r := if r ∈ rs then none else σ.first r
  state r q := if r ∈ rs then none else σ.state r q

/-- A live sequence keeps its state when a batch is prepared. -/
theorem prepare_of_live {σ : SeqStates R Q S} (batch : List (R × Q)) {r : R} {q : Q} {s : S}
    (h : σ.state r q = some s) : (σ.prepare batch).state r q = some s := by
  induction batch generalizing σ with
  | nil => exact h
  | cons p batch ih =>
    refine ih ?_
    simp only [assign]
    split
    · next he =>
      obtain ⟨rfl, rfl⟩ := he
      rw [h, Option.getD_some]
    · exact h

/-- A new request of the batch starts from the zero state. -/
theorem prepare_of_new {σ : SeqStates R Q S} {batch : List (R × Q)} {r : R} {q : Q}
    (hm : (r, q) ∈ batch) (hf : σ.first r = none) (hs : ∀ q, σ.state r q = none) :
    (σ.prepare batch).state r q = some 0 := by
  -- after the first sequence of `r` the others copy a zero state
  suffices h : ∀ (batch : List (R × Q)) (σ : SeqStates R Q S), (r, q) ∈ batch →
      (∀ q', σ.state r q' = none ∨ σ.state r q' = some 0) →
      (σ.prepare batch).state r q = some 0 by
    exact h batch σ hm fun q' => .inl (hs q')
  intro batch
  induction batch with
  | nil => intro σ hm; simp at hm
  | cons p batch ih =>
    intro σ hm hz
    have hstart : σ.start r = 0 := by
      rw [start]
      cases hfr : σ.first r with
      | none => rfl
      | some q₀ =>
        rcases hz q₀ with h | h
        · simp [h]
        · simp [h]
    have hz' : ∀ q', (σ.assign p.1 p.2).state r q' = none ∨
        (σ.assign p.1 p.2).state r q' = some 0 := by
      intro q'
      simp only [assign]
      split
      · next he =>
        obtain ⟨rfl, rfl⟩ := he
        rcases hz p.2 with h | h
        · right; rw [h, Option.getD_none, hstart]
        · right; rw [h, Option.getD_some]
      · exact hz q'
    rcases List.mem_cons.mp hm with rfl | hm
    · have hlive : (σ.assign r q).state r q = some 0 := by
        simp only [assign, and_self, ↓reduceIte]
        rcases hz q with h | h
        · rw [h, Option.getD_none, hstart]
        · rw [h, Option.getD_some]
      exact prepare_of_live (σ := σ.assign r q) batch hlive
    · exact ih _ hm hz'

/-- A new sequence of a known request starts from the state of its first sequence. -/
theorem prepare_of_sibling {σ : SeqStates R Q S} {batch : List (R × Q)} {r : R} {q q₀ : Q} {s : S}
    (hm : (r, q) ∈ batch) (hf : σ.first r = some q₀) (hs : σ.state r q₀ = some s)
    (hn : σ.state r q = none) : (σ.prepare batch).state r q = some s := by
  induction batch generalizing σ with
  | nil => simp at hm
  | cons p batch ih =>
    by_cases hp : p = (r, q)
    · subst hp
      refine prepare_of_live (σ := σ.assign r q) batch ?_
      simp [assign, start, hn, hf, hs]
    · have hm' : (r, q) ∈ batch := (List.mem_cons.mp hm).resolve_left fun h => hp h.symm
      refine ih (σ := σ.assign p.1 p.2) hm' ?_ ?_ ?_
      · simp only [assign]
        split
        · next he => rw [← he, hf]; rfl
        · exact hf
      · simp only [assign]
        split
        · next he =>
          obtain ⟨rfl, rfl⟩ := he
          rw [hs, Option.getD_some]
        · exact hs
      · simp only [assign]
        rw [if_neg]
        · exact hn
        · rintro ⟨h₁, h₂⟩
          exact hp (Prod.ext h₁.symm h₂.symm)

end SeqStates

end Bi100
