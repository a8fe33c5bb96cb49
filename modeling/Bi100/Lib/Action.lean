import Mathlib.Tactic.Common

/-!
# Stateful calls that may raise

A method of a mutable object is an `EStateM ε σ α`: it reads and writes the object's state `σ`
and returns a value or raises an `ε`. The state after a raise is the state at the raise, so a
partial mutation stays visible.

- **Inversion** (`run_bind_ok` and the `*_ok` lemmas): a successful run of a composed call,
  taken apart into the successful runs of its parts.
- **Rules** (`Triple`): partial correctness on success, with the consequence rule, sequencing
  and the rule for a loop over a list. `Keeps I x`: the call `x` preserves `I`.
-/

namespace Py

variable {ε σ α β : Type}

/-- Raise `e` if `p` holds. -/
def raiseIf (p : Prop) [Decidable p] (e : ε) : EStateM ε σ Unit :=
  if p then throw e else pure ()

/-- Raise `e` unless `p` holds (`assert p`). -/
def raiseUnless (p : Prop) [Decidable p] (e : ε) : EStateM ε σ Unit :=
  if p then pure () else throw e

/-- The value of an option, or raise `e`. -/
def getOrRaise (o : Option α) (e : ε) : EStateM ε σ α :=
  match o with
  | some a => pure a
  | none => throw e

/-! ## Runs of composed calls -/

theorem run_get_bind {f : σ → EStateM ε σ β} {s : σ} : (get >>= f).run s = (f s).run s := rfl

theorem run_set_bind {t s : σ} {f : PUnit → EStateM ε σ β} :
    (set t >>= f).run s = (f ⟨⟩).run t := rfl

theorem run_modify_bind {g : σ → σ} {s : σ} {f : PUnit → EStateM ε σ β} :
    (modify g >>= f).run s = (f ⟨⟩).run (g s) := rfl

theorem run_raiseIf_bind {p : Prop} [Decidable p] {e : ε} {s : σ} {f : Unit → EStateM ε σ β} :
    (raiseIf p e >>= f).run s = if p then .error e s else (f ()).run s := by
  unfold raiseIf
  split <;> rfl

theorem run_raiseUnless_bind {p : Prop} [Decidable p] {e : ε} {s : σ}
    {f : Unit → EStateM ε σ β} :
    (raiseUnless p e >>= f).run s = if p then (f ()).run s else .error e s := by
  unfold raiseUnless
  split <;> rfl

theorem run_modify {g : σ → σ} {s : σ} :
    (modify g : EStateM ε σ PUnit).run s = .ok ⟨⟩ (g s) := rfl

theorem run_set {t s : σ} : (set t : EStateM ε σ PUnit).run s = .ok ⟨⟩ t := rfl

/-! ## Inversion of successful runs -/

theorem run_bind_ok {x : EStateM ε σ α} {f : α → EStateM ε σ β} {s s' : σ} {b : β} :
    (x >>= f).run s = .ok b s' ↔ ∃ a s₁, x.run s = .ok a s₁ ∧ (f a).run s₁ = .ok b s' := by
  simp only [bind, EStateM.bind, EStateM.run]
  cases hx : x s with
  | ok a s₁ => simp
  | error e s₁ => simp

theorem run_bind_of_ok {x : EStateM ε σ α} {f : α → EStateM ε σ β} {s s₁ : σ} {a : α}
    (h : x.run s = .ok a s₁) : (x >>= f).run s = (f a).run s₁ := by
  simp only [EStateM.run, bind, EStateM.bind] at h ⊢
  rw [h]

theorem run_pure_ok {a b : α} {s s' : σ} :
    (pure a : EStateM ε σ α).run s = .ok b s' ↔ b = a ∧ s' = s := by
  simp only [pure, EStateM.pure, EStateM.run, EStateM.Result.ok.injEq]
  exact ⟨fun ⟨h₁, h₂⟩ => ⟨h₁.symm, h₂.symm⟩, fun ⟨h₁, h₂⟩ => ⟨h₁.symm, h₂.symm⟩⟩

theorem run_map_ok {x : EStateM ε σ α} {f : α → β} {s s' : σ} {b : β} :
    (f <$> x).run s = .ok b s' ↔ ∃ a, x.run s = .ok a s' ∧ f a = b := by
  rw [map_eq_pure_bind, run_bind_ok]
  constructor
  · rintro ⟨a, s₁, hx, hf⟩
    obtain ⟨rfl, rfl⟩ := run_pure_ok.mp hf
    exact ⟨a, hx, rfl⟩
  · rintro ⟨a, hx, rfl⟩
    exact ⟨a, s', hx, run_pure_ok.mpr ⟨rfl, rfl⟩⟩

theorem run_throw_ok {e : ε} {a : α} {s s' : σ} :
    (throw e : EStateM ε σ α).run s = .ok a s' ↔ False := by
  exact ⟨fun h => (nomatch h), False.elim⟩

theorem run_get_ok {t s s' : σ} :
    (get : EStateM ε σ σ).run s = .ok t s' ↔ t = s ∧ s' = s :=
  run_pure_ok (a := s)

theorem run_modify_ok {f : σ → σ} {s s' : σ} {u : PUnit} :
    (modify f : EStateM ε σ PUnit).run s = .ok u s' ↔ s' = f s := by
  rw [run_modify, EStateM.Result.ok.injEq]
  exact ⟨fun h => h.2.symm, fun h => ⟨rfl, h.symm⟩⟩

theorem run_set_ok {t s s' : σ} {u : PUnit} :
    (set t : EStateM ε σ PUnit).run s = .ok u s' ↔ s' = t :=
  run_modify_ok (f := fun _ => t)

theorem run_raiseIf_ok {p : Prop} [Decidable p] {e : ε} {s s' : σ} {u : Unit} :
    (raiseIf p e).run s = .ok u s' ↔ ¬ p ∧ s' = s := by
  unfold raiseIf
  split
  · simp only [run_throw_ok, not_true_eq_false, false_and, *]
  · simp only [run_pure_ok, not_false_eq_true, true_and, *]

theorem run_raiseUnless_ok {p : Prop} [Decidable p] {e : ε} {s s' : σ} {u : Unit} :
    (raiseUnless p e).run s = .ok u s' ↔ p ∧ s' = s := by
  unfold raiseUnless
  split
  · simp only [run_pure_ok, true_and, *]
  · simp only [run_throw_ok, false_and, *]

theorem run_getOrRaise_ok {o : Option α} {e : ε} {s s' : σ} {a : α} :
    (getOrRaise o e).run s = .ok a s' ↔ o = some a ∧ s' = s := by
  cases o with
  | none => simp only [getOrRaise, run_throw_ok, reduceCtorEq, false_and]
  | some b => simp only [getOrRaise, run_pure_ok, Option.some.injEq, eq_comm (a := a)]

/-- A guard at the head of a successful run did not fire. -/
theorem run_raiseIf_bind_ok {p : Prop} [Decidable p] {e : ε} {s s' : σ} {b : β}
    {f : Unit → EStateM ε σ β} :
    (raiseIf p e >>= f).run s = .ok b s' ↔ ¬ p ∧ (f ()).run s = .ok b s' := by
  rw [run_raiseIf_bind]
  split
  · simp [*]
  · simp [*]

theorem run_raiseUnless_bind_ok {p : Prop} [Decidable p] {e : ε} {s s' : σ} {b : β}
    {f : Unit → EStateM ε σ β} :
    (raiseUnless p e >>= f).run s = .ok b s' ↔ p ∧ (f ()).run s = .ok b s' := by
  rw [run_raiseUnless_bind]
  split
  · simp [*]
  · simp [*]

theorem run_getOrRaise_bind_ok {o : Option α} {e : ε} {s s' : σ} {b : β}
    {f : α → EStateM ε σ β} :
    (getOrRaise o e >>= f).run s = .ok b s' ↔ ∃ a, o = some a ∧ (f a).run s = .ok b s' := by
  rw [run_bind_ok]
  simp only [run_getOrRaise_ok]
  exact ⟨fun ⟨a, _, ⟨h₁, h₂⟩, h⟩ => ⟨a, h₁, h₂ ▸ h⟩, fun ⟨a, h₁, h⟩ => ⟨a, s, ⟨h₁, rfl⟩, h⟩⟩

theorem run_ite_ok {p : Prop} [Decidable p] {x y : EStateM ε σ α} {s s' : σ} {a : α} :
    (if p then x else y).run s = .ok a s' ↔
      (p ∧ x.run s = .ok a s') ∨ (¬ p ∧ y.run s = .ok a s') := by
  split <;> simp [*]

/-- A handler that always raises does not make a run succeed. -/
theorem run_tryCatch_ok {x : EStateM ε σ α} {handle : ε → EStateM ε σ α} {s s' : σ} {a : α}
    (hraise : ∀ e s₁ b s₂, (handle e).run s₁ ≠ .ok b s₂) :
    (tryCatch x handle).run s = .ok a s' ↔ x.run s = .ok a s' := by
  have hrun : (tryCatch x handle).run s =
      match x.run s with
      | .ok b s₁ => .ok b s₁
      | .error e s₁ => (handle e).run s₁ := by
    simp only [tryCatch, tryCatchThe, MonadExceptOf.tryCatch, EStateM.tryCatch, EStateM.run]
    cases x s <;> rfl
  rw [hrun]
  cases x.run s with
  | ok b s₁ => rfl
  | error e s₁ => exact ⟨fun h => absurd h (hraise e s₁ a s'), fun h => (nomatch h)⟩

/-- What the handler raises. -/
theorem run_tryCatch_error {x : EStateM ε σ α} {handle : ε → EStateM ε σ α} {s s' : σ} {e : ε} :
    (tryCatch x handle).run s = .error e s' ↔
      ∃ e₁ s₁, x.run s = .error e₁ s₁ ∧ (handle e₁).run s₁ = .error e s' := by
  simp only [tryCatch, tryCatchThe, MonadExceptOf.tryCatch, EStateM.tryCatch, EStateM.run]
  cases x s with
  | ok a s₁ => simp
  | error e₁ s₁ => simp [EStateM.dummyRestore, EStateM.Backtrackable.restore]

/-! ## Evaluation -/

/-- `x` succeeds from `s` and its result satisfies `p`. -/
def check (x : EStateM ε σ α) (s : σ) (p : α → σ → Bool) : Bool :=
  match x.run s with
  | .ok a s' => p a s'
  | .error _ _ => false

theorem check_eq_true {x : EStateM ε σ α} {s : σ} {p : α → σ → Bool} :
    check x s p = true ↔ ∃ a s', x.run s = .ok a s' ∧ p a s' = true := by
  unfold check
  cases x.run s with
  | ok a s' => simp
  | error e s' => simp

/-- The call raises `e`. -/
def raises [DecidableEq ε] (x : EStateM ε σ α) (s : σ) (e : ε) : Bool :=
  match x.run s with
  | .ok _ _ => false
  | .error e' _ => e' = e

theorem raises_eq_true [DecidableEq ε] {x : EStateM ε σ α} {s : σ} {e : ε} :
    raises x s e = true ↔ ∃ s', x.run s = .error e s' := by
  unfold raises
  cases x.run s with
  | ok a s' => simp
  | error e' s' => simp

/-- The call raises `e`, and leaves a state that satisfies `p`. -/
def raisesWith [DecidableEq ε] (x : EStateM ε σ α) (s : σ) (e : ε) (p : σ → Bool) : Bool :=
  match x.run s with
  | .ok _ _ => false
  | .error e' s' => e' = e && p s'

theorem raisesWith_eq_true [DecidableEq ε] {x : EStateM ε σ α} {s : σ} {e : ε} {p : σ → Bool} :
    raisesWith x s e p = true ↔ ∃ s', x.run s = .error e s' ∧ p s' = true := by
  unfold raisesWith
  cases x.run s with
  | ok a s' => simp
  | error e' s' => simp

/-! ## Rules -/

/-- Partial correctness: from `P`, a successful run of `x` ends in `Q` at its result. -/
def Triple (P : σ → Prop) (x : EStateM ε σ α) (Q : α → σ → Prop) : Prop :=
  ∀ s a s', P s → x.run s = .ok a s' → Q a s'

/-- A successful run of `x` preserves `I`. -/
def Keeps (I : σ → Prop) (x : EStateM ε σ α) : Prop := Triple I x fun _ => I

theorem Triple.conseq {P P' : σ → Prop} {Q Q' : α → σ → Prop} {x : EStateM ε σ α}
    (h : Triple P x Q) (hP : ∀ s, P' s → P s) (hQ : ∀ a s, Q a s → Q' a s) : Triple P' x Q' :=
  fun s a s' hs hr => hQ a s' (h s a s' (hP s hs) hr)

theorem Triple.bind {P : σ → Prop} {Q : α → σ → Prop} {R : β → σ → Prop} {x : EStateM ε σ α}
    {f : α → EStateM ε σ β} (hx : Triple P x Q) (hf : ∀ a, Triple (Q a) (f a) R) :
    Triple P (x >>= f) R := by
  intro s b s' hs hr
  obtain ⟨a, s₁, hx', hf'⟩ := run_bind_ok.mp hr
  exact hf a s₁ b s' (hx s a s₁ hs hx') hf'

theorem Triple.ret {Q : α → σ → Prop} (a : α) :
    Triple (Q a) (pure a : EStateM ε σ α) Q := by
  intro s b s' hs hr
  obtain ⟨rfl, rfl⟩ := run_pure_ok.mp hr
  exact hs

namespace Keeps

variable {I : σ → Prop}

theorem ret (a : α) : Keeps I (pure a : EStateM ε σ α) := Triple.ret (Q := fun _ => I) a

theorem throw (e : ε) : Keeps I (throw e : EStateM ε σ α) :=
  fun _ _ _ _ hr => (run_throw_ok.mp hr).elim

theorem bind {x : EStateM ε σ α} {f : α → EStateM ε σ β} (hx : Keeps I x)
    (hf : ∀ a, Keeps I (f a)) : Keeps I (x >>= f) := Triple.bind hx hf

theorem get_bind {f : σ → EStateM ε σ β} (hf : ∀ s, Keeps I (f s)) : Keeps I (get >>= f) :=
  fun s b s' hs hr => hf s s b s' hs hr

theorem modify {g : σ → σ} (h : ∀ s, I s → I (g s)) :
    Keeps I (modify g : EStateM ε σ PUnit) :=
  fun s _ _ hs hr => run_modify_ok.mp hr ▸ h s hs

/-- A call that returns does not change the state. -/
theorem of_same {x : EStateM ε σ α} (h : ∀ s a s', x.run s = .ok a s' → s' = s) : Keeps I x :=
  fun s a s' hs hr => h s a s' hr ▸ hs

theorem raiseIf (p : Prop) [Decidable p] (e : ε) : Keeps I (raiseIf p e : EStateM ε σ Unit) :=
  of_same fun _ _ _ hr => (run_raiseIf_ok.mp hr).2

theorem raiseUnless (p : Prop) [Decidable p] (e : ε) :
    Keeps I (raiseUnless p e : EStateM ε σ Unit) :=
  of_same fun _ _ _ hr => (run_raiseUnless_ok.mp hr).2

theorem getOrRaise (o : Option α) (e : ε) : Keeps I (getOrRaise o e : EStateM ε σ α) :=
  of_same fun _ _ _ hr => (run_getOrRaise_ok.mp hr).2

theorem ite {p : Prop} [Decidable p] {x y : EStateM ε σ α} (hx : Keeps I x) (hy : Keeps I y) :
    Keeps I (if p then x else y) := by
  split
  · exact hx
  · exact hy

/-- The rule for `for a in as: f(a)`: every iteration preserves `I`. -/
theorem forM {f : α → EStateM ε σ PUnit} (as : List α)
    (h : ∀ a ∈ as, Keeps I (f a)) : Keeps I (forM as f) := by
  induction as with
  | nil =>
    intro s u s' hs hr
    rw [List.forM_nil] at hr
    obtain ⟨-, rfl⟩ := run_pure_ok.mp hr
    exact hs
  | cons a as ih =>
    intro s u s' hs hr
    rw [List.forM_cons] at hr
    obtain ⟨_, s₁, h₁, h₂⟩ := run_bind_ok.mp hr
    exact ih (fun b hb => h b (List.mem_cons_of_mem a hb)) s₁ u s'
      (h a List.mem_cons_self s _ s₁ hs h₁) h₂

end Keeps

end Py
