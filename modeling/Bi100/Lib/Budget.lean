import Bi100.Lib.Except

/-!
# Budgets

A call may use up a resource. The measure `m` says how much of it a state has left, and the
exception `e` is raised for want of it.

- `Spends m e n x s`: from the state `s` the call `x` uses at most `n`, whether it returns or raises,
  and it raises `e` only if less than `n` was left.
- **Sequencing**: what the second call may use is fixed when the first has returned
  (`Spends.bind_of`), so that a release in between can be counted. `Spends.bind` adds two bounds.
- `Never e x`: the call never raises `e`.
- `Draws m e n Q x s`: the call returns and has used exactly `n`, or raises `e` for want of it.
- `Unspent m e x s`: the call neither uses nor gives back anything.
- `Leaves m e w x s`: `w` is left when the call ends.
- `Uses m e n x s`: `w` is left when the call ends, if and only if there was `n` more.
-/

namespace Py

variable {ε σ τ α β : Type} {m : σ → Nat} {e e' : ε} {s t : σ} {k l n : Nat}

/-- From `s`, `x` uses at most `n`, and raises `e` only if less than `n` was left. -/
structure Spends (m : σ → Nat) (e : ε) (n : Nat) (x : EStateM ε σ α) (s : σ) : Prop where
  ok : ∀ a s', x.run s = .ok a s' → m s ≤ m s' + n
  error : ∀ e' s', x.run s = .error e' s' → m s ≤ m s' + n
  raises : ∀ s', x.run s = .error e s' → m s < n

/-- `x` does not raise `e`. -/
def Never (e : ε) (x : EStateM ε σ α) : Prop := ∀ s, Spends (fun _ => 0) e 0 x s

theorem run_bind_error {x : EStateM ε σ α} {f : α → EStateM ε σ β} {s s' : σ} {e : ε} :
    (x >>= f).run s = .error e s' ↔
      x.run s = .error e s' ∨ ∃ a s₁, x.run s = .ok a s₁ ∧ (f a).run s₁ = .error e s' := by
  simp only [bind, EStateM.bind, EStateM.run]
  cases x s with
  | ok a s₁ => simp
  | error e s₁ => simp

theorem run_raiseIf_bind_error {p : Prop} [Decidable p] {f : Unit → EStateM ε σ β} {s s' : σ} :
    (raiseIf p e' >>= f).run s = .error e s' ↔
      (p ∧ e = e' ∧ s' = s) ∨ (¬ p ∧ (f ()).run s = .error e s') := by
  rw [run_raiseIf_bind]
  split
  · next hp => simp [hp, eq_comm]
  · next hp => simp [hp]

theorem run_raiseUnless_bind_error {p : Prop} [Decidable p] {f : Unit → EStateM ε σ β}
    {s s' : σ} : (raiseUnless p e' >>= f).run s = .error e s' ↔
      (¬ p ∧ e = e' ∧ s' = s) ∨ (p ∧ (f ()).run s = .error e s') := by
  rw [run_raiseUnless_bind]
  split
  · next hp => simp [hp]
  · next hp => simp [hp, eq_comm]

theorem Never.not_error {x : EStateM ε σ α} (h : Never e x) (s s' : σ) :
    x.run s ≠ .error e s' := fun hr => absurd ((h s).raises s' hr) (Nat.lt_irrefl 0)

namespace Spends

theorem mono {x : EStateM ε σ α} (h : Spends m e k x s) (hk : k ≤ n) : Spends m e n x s := by
  refine ⟨fun a s' hr => ?_, fun e' s' hr => ?_, fun s' hr => ?_⟩
  · have := h.ok a s' hr
    omega
  · have := h.error e' s' hr
    omega
  · have := h.raises s' hr
    omega

/-- With enough left, `e` is not raised. -/
theorem not_error {x : EStateM ε σ α} (h : Spends m e n x s) (hn : n ≤ m s) (s' : σ) :
    x.run s ≠ .error e s' := by
  intro hr
  have := h.raises s' hr
  omega

/-- A call that runs as another one does. -/
theorem of_run {x y : EStateM ε σ α} (hr : x.run s = y.run t) (h : Spends m e l y t)
    (hl : m s + l ≤ m t + n) : Spends m e n x s := by
  refine ⟨fun a s' hx => ?_, fun e' s' hx => ?_, fun s' hx => ?_⟩
  · have := h.ok a s' (hr ▸ hx)
    omega
  · have := h.error e' s' (hr ▸ hx)
    omega
  · have := h.raises s' (hr ▸ hx)
    omega

theorem ret {a : α} : Spends m e n (pure a) s := by
  refine ⟨fun b s' hr => ?_, fun e' s' hr => (nomatch hr), fun s' hr => (nomatch hr)⟩
  obtain ⟨-, rfl⟩ := run_pure_ok.mp hr
  exact Nat.le_add_right _ _

theorem throw_ne (h : e' ≠ e) : Spends m e n (throw e' : EStateM ε σ α) s := by
  have hrun : (throw e' : EStateM ε σ α).run s = .error e' s := rfl
  refine ⟨fun b s' hr => (nomatch hr), fun e₁ s' hr => ?_, fun s' hr => ?_⟩
  · rw [hrun] at hr
    cases hr
    exact Nat.le_add_right _ _
  · rw [hrun] at hr
    cases hr
    exact absurd rfl h

/-- Nothing is left. -/
theorem throw_empty (h : m s < n) : Spends m e n (throw e : EStateM ε σ α) s := by
  have hrun : (throw e : EStateM ε σ α).run s = .error e s := rfl
  refine ⟨fun b s' hr => (nomatch hr), fun e₁ s' hr => ?_, fun s' _ => h⟩
  rw [hrun] at hr
  cases hr
  exact Nat.le_add_right _ _

/-! ## Sequencing -/

/-- The second call may use what the first one left of `n`. -/
theorem bind_of {x : EStateM ε σ α} {f : α → EStateM ε σ β} (hx : Spends m e k x s) (hk : k ≤ n)
    (hf : ∀ a s', x.run s = .ok a s' → ∃ l, Spends m e l (f a) s' ∧ m s + l ≤ m s' + n) :
    Spends m e n (x >>= f) s := by
  refine ⟨fun b s' hr => ?_, fun e' s' hr => ?_, fun s' hr => ?_⟩
  · obtain ⟨a, s₁, h₁, h₂⟩ := run_bind_ok.mp hr
    obtain ⟨l, hl, hn⟩ := hf a s₁ h₁
    have := hl.ok b s' h₂
    omega
  · rcases run_bind_error.mp hr with h₁ | ⟨a, s₁, h₁, h₂⟩
    · exact (hx.mono hk).error e' s' h₁
    · obtain ⟨l, hl, hn⟩ := hf a s₁ h₁
      have := hl.error e' s' h₂
      omega
  · rcases run_bind_error.mp hr with h₁ | ⟨a, s₁, h₁, h₂⟩
    · exact (hx.mono hk).raises s' h₁
    · obtain ⟨l, hl, hn⟩ := hf a s₁ h₁
      have := hl.raises s' h₂
      omega

theorem bind {x : EStateM ε σ α} {f : α → EStateM ε σ β} (hx : Spends m e k x s)
    (hf : ∀ a s', x.run s = .ok a s' → Spends m e l (f a) s') :
    Spends m e (k + l) (x >>= f) s := by
  refine hx.bind_of (Nat.le_add_right k l) fun a s' hr => ⟨l, hf a s' hr, ?_⟩
  have := hx.ok a s' hr
  omega

/-- The first call uses nothing. -/
theorem then_of_zero {x : EStateM ε σ α} {f : α → EStateM ε σ β} (hx : Spends m e 0 x s)
    (hf : ∀ a s', x.run s = .ok a s' → Spends m e n (f a) s') : Spends m e n (x >>= f) s :=
  Nat.zero_add n ▸ hx.bind hf

/-- The second call uses nothing. -/
theorem bind_zero {x : EStateM ε σ α} {f : α → EStateM ε σ β} (hx : Spends m e n x s)
    (hf : ∀ a s', x.run s = .ok a s' → Spends m e 0 (f a) s') : Spends m e n (x >>= f) s :=
  hx.bind hf

theorem get_bind {f : σ → EStateM ε σ β} (h : Spends m e n (f s) s) :
    Spends m e n (get >>= f) s := of_run run_get_bind h (Nat.le_refl _)

theorem set_bind {f : PUnit → EStateM ε σ β} (h : Spends m e l (f ⟨⟩) t)
    (hl : m s + l ≤ m t + n) : Spends m e n (set t >>= f) s := of_run run_set_bind h hl

theorem modify_bind {g : σ → σ} {f : PUnit → EStateM ε σ β} (h : Spends m e l (f ⟨⟩) (g s))
    (hl : m s + l ≤ m (g s) + n) : Spends m e n (modify g >>= f) s := of_run run_modify_bind h hl

theorem modify {g : σ → σ} (h : m s ≤ m (g s) + n) :
    Spends m e n (modify g : EStateM ε σ PUnit) s := by
  refine ⟨fun b s' hr => ?_, fun e' s' hr => (nomatch hr), fun s' hr => (nomatch hr)⟩
  obtain rfl := run_modify_ok.mp hr
  exact h

theorem set (h : m s ≤ m t + n) : Spends m e n (set t : EStateM ε σ PUnit) s :=
  modify (g := fun _ => t) h

theorem map {x : EStateM ε σ α} {f : α → β} (h : Spends m e n x s) :
    Spends m e n (f <$> x) s := by
  rw [map_eq_pure_bind]
  exact h.bind_zero fun _ _ _ => ret

/-- The first call uses nothing, so `e` comes from the second one. -/
theorem error_of_bind {x : EStateM ε σ α} {f : α → EStateM ε σ β} (hx : Spends m e 0 x s)
    (h : (x >>= f).run s = .error e t) :
    ∃ a s', x.run s = .ok a s' ∧ (f a).run s' = .error e t :=
  (run_bind_error.mp h).resolve_left (hx.not_error (Nat.zero_le _) t)

/-! ## Guards -/

theorem raiseIf (p : Prop) [Decidable p] (h : e' ≠ e) :
    Spends m e n (raiseIf p e' : EStateM ε σ Unit) s := by
  unfold Py.raiseIf
  split
  · exact throw_ne h
  · exact ret

theorem raiseUnless (p : Prop) [Decidable p] (h : e' ≠ e) :
    Spends m e n (raiseUnless p e' : EStateM ε σ Unit) s := by
  unfold Py.raiseUnless
  split
  · exact ret
  · exact throw_ne h

theorem getOrRaise (o : Option α) (h : e' ≠ e) :
    Spends m e n (getOrRaise o e' : EStateM ε σ α) s := by
  cases o with
  | none => exact throw_ne h
  | some a => exact ret

theorem lift {x : Except ε α} (h : x ≠ .error e) : Spends m e n (lift x : EStateM ε σ α) s := by
  cases x with
  | ok a => exact ret
  | error e' => exact throw_ne fun he => h (he ▸ rfl)

theorem raiseIf_bind {p : Prop} [Decidable p] {f : Unit → EStateM ε σ β} (h : e' ≠ e)
    (hf : ¬ p → Spends m e n (f ()) s) : Spends m e n (Py.raiseIf p e' >>= f) s := by
  refine (raiseIf p h).then_of_zero fun a s' hr => ?_
  obtain ⟨hp, rfl⟩ := run_raiseIf_ok.mp hr
  exact hf hp

theorem raiseUnless_bind {p : Prop} [Decidable p] {f : Unit → EStateM ε σ β} (h : e' ≠ e)
    (hf : p → Spends m e n (f ()) s) : Spends m e n (Py.raiseUnless p e' >>= f) s := by
  refine (raiseUnless p h).then_of_zero fun a s' hr => ?_
  obtain ⟨hp, rfl⟩ := run_raiseUnless_ok.mp hr
  exact hf hp

theorem getOrRaise_bind {o : Option α} {f : α → EStateM ε σ β} (h : e' ≠ e)
    (hf : ∀ a, o = some a → Spends m e n (f a) s) :
    Spends m e n (Py.getOrRaise o e' >>= f) s := by
  refine (getOrRaise o h).then_of_zero fun a s' hr => ?_
  obtain ⟨ho, rfl⟩ := run_getOrRaise_ok.mp hr
  exact hf a ho

theorem lift_bind {x : Except ε α} {f : α → EStateM ε σ β} (h : x ≠ .error e)
    (hf : ∀ a, x = .ok a → Spends m e n (f a) s) : Spends m e n (Py.lift x >>= f) s := by
  refine (lift h).then_of_zero fun a s' hr => ?_
  obtain ⟨hx, rfl⟩ := run_lift_ok.mp hr
  exact hf a hx

/-! ## Handlers and loops -/

/-- The handler may use what the call left of `n`. -/
theorem tryCatch_of {x : EStateM ε σ α} {handle : ε → EStateM ε σ α} (hx : Spends m e k x s)
    (hk : k ≤ n) (hh : ∀ e' s', x.run s = .error e' s' →
      ∃ l, Spends m e l (handle e') s' ∧ m s + l ≤ m s' + n) :
    Spends m e n (tryCatch x handle) s := by
  have hx := hx.mono hk
  cases hxs : x.run s with
  | ok b s₁ =>
    have hrun : (tryCatch x handle).run s = .ok b s₁ := by
      simp only [tryCatch, tryCatchThe, MonadExceptOf.tryCatch, EStateM.tryCatch, EStateM.run]
      rw [show x s = _ from hxs]
    refine ⟨fun a s' hr => ?_, fun e₂ s' hr => (by cases hrun.symm.trans hr),
      fun s' hr => by cases hrun.symm.trans hr⟩
    have hr := hrun.symm.trans hr
    cases hr
    exact hx.ok b s₁ hxs
  | error e₁ s₁ =>
    have hrun : (tryCatch x handle).run s = (handle e₁).run s₁ := by
      simp only [tryCatch, tryCatchThe, MonadExceptOf.tryCatch, EStateM.tryCatch, EStateM.run]
      rw [show x s = _ from hxs]
      rfl
    obtain ⟨l, hl, hn⟩ := hh e₁ s₁ hxs
    exact of_run hrun hl hn

/-- A handler that uses nothing and raises the exception again. -/
theorem tryCatch_rethrow {x : EStateM ε σ α} {y : ε → EStateM ε σ β} (hx : Spends m e n x s)
    (hy : ∀ e' s', Spends m e 0 (y e') s') :
    Spends m e n (tryCatch x fun e' => do let _ ← y e'; throw e') s := by
  refine hx.tryCatch_of (Nat.le_refl n) fun e₁ s₁ hr => ?_
  have herr := hx.error e₁ s₁ hr
  refine ⟨m s₁ + n - m s, (hy e₁ s₁).bind_of (Nat.zero_le _) fun a s₂ h₂ => ?_, by omega⟩
  have hgain := (hy e₁ s₁).ok a s₂ h₂
  by_cases he : e₁ = e
  · subst he
    have := hx.raises s₁ hr
    exact ⟨m s₂ + (m s₁ + n - m s) - m s₁, throw_empty (by omega), by omega⟩
  · exact ⟨0, throw_ne he, by omega⟩

/-- A loop each of whose iterations uses nothing. -/
theorem forM_zero {f : α → EStateM ε σ PUnit} (as : List α)
    (h : ∀ a ∈ as, ∀ s, Spends m e 0 (f a) s) : Spends m e 0 (forM as f) s := by
  induction as generalizing s with
  | nil =>
    rw [List.forM_nil]
    exact ret
  | cons a as ih =>
    rw [List.forM_cons]
    exact (h a List.mem_cons_self s).then_of_zero fun _ _ _ =>
      ih fun b hb => h b (List.mem_cons_of_mem a hb)

end Spends

/-! ## What is left -/

/-- `x` neither uses nor gives back anything, and does not raise `e`. -/
def Unspent (m : σ → Nat) (e : ε) (x : EStateM ε σ α) (s : σ) : Prop :=
  ∀ f : Nat → Nat, Spends (fun s => f (m s)) e 0 x s

/-- From `s`, `x` raises `e` if less than `n` is left. Otherwise it returns, has used `n`, and `Q`
holds. -/
def Draws (m : σ → Nat) (e : ε) (n : Nat) (Q : α → σ → Prop) (x : EStateM ε σ α) (s : σ) : Prop :=
  (m s < n ∧ ∃ s', x.run s = .error e s') ∨ ∃ a s', x.run s = .ok a s' ∧ m s = m s' + n ∧ Q a s'

/-- From `s`, `x` does not raise `e`, and at least `w` is left when it ends. -/
structure Leaves (m : σ → Nat) (e : ε) (w : Nat) (x : EStateM ε σ α) (s : σ) : Prop where
  ok : ∀ a s', x.run s = .ok a s' → w ≤ m s'
  error : ∀ e' s', x.run s = .error e' s' → e' ≠ e ∧ w ≤ m s'

theorem leaves_of_run {x : EStateM ε σ α} {y : EStateM ε σ α} {w : Nat}
    (hr : x.run s = y.run t) : Leaves m e w x s ↔ Leaves m e w y t :=
  ⟨fun h => ⟨fun a s' hy => h.ok a s' (hr.trans hy), fun e' s' hy => h.error e' s' (hr.trans hy)⟩,
    fun h => ⟨fun a s' hx => h.ok a s' (hr.symm.trans hx),
      fun e' s' hx => h.error e' s' (hr.symm.trans hx)⟩⟩

theorem leaves_ok_iff {x : EStateM ε σ α} {w : Nat} {a : α} (hr : x.run s = .ok a t) :
    Leaves m e w x s ↔ w ≤ m t := by
  refine ⟨fun h => h.ok a t hr, fun h => ⟨fun b s' hb => ?_, fun e' s' he => ?_⟩⟩
  · cases hr.symm.trans hb
    exact h
  · cases hr.symm.trans he

theorem leaves_error_iff {x : EStateM ε σ α} {w : Nat} (hr : x.run s = .error e' t) :
    Leaves m e w x s ↔ e' ≠ e ∧ w ≤ m t := by
  refine ⟨fun h => h.error e' t hr, fun h => ⟨fun b s' hb => ?_, fun e₁ s' he => ?_⟩⟩
  · cases hr.symm.trans hb
  · cases hr.symm.trans he
    exact h

/-- From `s`, `x` uses `n`: at the end `w` is left if and only if there was `n` more. -/
def Uses (m : σ → Nat) (e : ε) (n : Nat) (x : EStateM ε σ α) (s : σ) : Prop :=
  ∀ w, Leaves m e w x s ↔ w + n ≤ m s

theorem Spends.leaves {x : EStateM ε σ α} {w : Nat} (h : Spends m e n x s) (hw : w + n ≤ m s) :
    Leaves m e w x s := by
  refine ⟨fun a s' hr => ?_, fun e' s' hr => ?_⟩
  · have := h.ok a s' hr
    omega
  · have := h.error e' s' hr
    refine ⟨fun he => ?_, by omega⟩
    have := h.raises s' (he ▸ hr)
    omega

namespace Unspent

theorem ok {x : EStateM ε σ α} {a : α} (h : Unspent m e x s) (hr : x.run s = .ok a t) :
    m t = m s := by
  refine Nat.le_antisymm ?_ ((h id).ok a t hr)
  have := (h fun k => m t - k).ok a t hr
  omega

theorem error {x : EStateM ε σ α} (h : Unspent m e x s) (hr : x.run s = .error e' t) :
    m t = m s ∧ e' ≠ e := by
  refine ⟨Nat.le_antisymm ?_ ((h id).error e' t hr), fun he => ?_⟩
  · have := (h fun k => m t - k).error e' t hr
    omega
  · have := (h fun _ => 0).raises t (he ▸ hr)
    omega

theorem of_same {x : EStateM ε σ α} (hok : ∀ a s', x.run s = .ok a s' → m s' = m s)
    (herror : ∀ e' s', x.run s = .error e' s' → m s' = m s ∧ e' ≠ e) : Unspent m e x s :=
  fun f => ⟨fun a s' hr => Nat.le_of_eq (congrArg f (hok a s' hr).symm),
    fun e' s' hr => Nat.le_of_eq (congrArg f (herror e' s' hr).1.symm),
    fun s' hr => absurd rfl (herror e s' hr).2⟩

theorem leaves_iff {x : EStateM ε σ α} {w : Nat} (h : Unspent m e x s) :
    Leaves m e w x s ↔ w ≤ m s := by
  cases hr : x.run s with
  | ok a s' => rw [leaves_ok_iff hr, h.ok hr]
  | error e' s' =>
    rw [leaves_error_iff hr, (h.error hr).1]
    exact and_iff_right (h.error hr).2

theorem bind {x : EStateM ε σ α} {f : α → EStateM ε σ β} (hx : Unspent m e x s)
    (hf : ∀ a s', x.run s = .ok a s' → Unspent m e (f a) s') : Unspent m e (x >>= f) s :=
  fun g => (hx g).then_of_zero fun a s' hr => hf a s' hr g

end Unspent

namespace Draws

variable {Q : α → σ → Prop} {R : β → σ → Prop}

theorem ret {a : α} (h : Q a s) : Draws m e 0 Q (pure a) s := .inr ⟨a, s, rfl, rfl, h⟩

theorem of_run {x y : EStateM ε σ α} (hr : x.run s = y.run t) (hm : m s = m t)
    (h : Draws m e n Q y t) : Draws m e n Q x s := by
  rw [Draws, hr, hm]
  exact h

theorem bind {x : EStateM ε σ α} {f : α → EStateM ε σ β} (hx : Draws m e k Q x s)
    (hf : ∀ a s', Q a s' → Draws m e l R (f a) s') : Draws m e (k + l) R (x >>= f) s := by
  rcases hx with ⟨hlt, s', h⟩ | ⟨a, s₁, h, hk, hQ⟩
  · exact .inl ⟨by omega, s', run_bind_error.mpr (.inl h)⟩
  · rcases hf a s₁ hQ with ⟨hlt, s', h'⟩ | ⟨b, s', h', hl, hR⟩
    · exact .inl ⟨by omega, s', run_bind_error.mpr (.inr ⟨a, s₁, h, h'⟩)⟩
    · exact .inr ⟨b, s', run_bind_ok.mpr ⟨a, s₁, h, h'⟩, by omega, hR⟩

theorem imp {Q' : α → σ → Prop} {x : EStateM ε σ α} (hx : Draws m e n Q x s)
    (h : ∀ a s', Q a s' → Q' a s') : Draws m e n Q' x s :=
  hx.imp_right fun ⟨a, s', hr, hn, hQ⟩ => ⟨a, s', hr, hn, h a s' hQ⟩

theorem bind_zero {x : EStateM ε σ α} {f : α → EStateM ε σ β} (hx : Draws m e n Q x s)
    (hf : ∀ a s', Q a s' → Draws m e 0 R (f a) s') : Draws m e n R (x >>= f) s := hx.bind hf

/-- A call that goes on to use nothing. -/
theorem uses {x : EStateM ε σ α} {f : α → EStateM ε σ β} (hx : Draws m e n Q x s)
    (hf : ∀ a s', Q a s' → Unspent m e (f a) s') : Uses m e n (x >>= f) s := by
  intro w
  rcases hx with ⟨hlt, s', h⟩ | ⟨a, s₁, h, hn, hQ⟩
  · rw [leaves_error_iff (run_bind_error.mpr (.inl h))]
    exact ⟨fun hl => absurd rfl hl.1, fun hle => absurd hle (by omega)⟩
  · rw [leaves_of_run (run_bind_of_ok h), (hf a s₁ hQ).leaves_iff]
    omega

end Draws

namespace Uses

theorem of_run {x y : EStateM ε σ α} (hr : x.run s = y.run t) (hm : m s = m t)
    (h : Uses m e n y t) : Uses m e n x s := by
  intro w
  rw [leaves_of_run hr, hm]
  exact h w

/-- What is left does not change any more. -/
theorem bind {x : EStateM ε σ α} {f : α → EStateM ε σ β} (hx : Uses m e n x s)
    (hf : ∀ a s', x.run s = .ok a s' → Unspent m e (f a) s') : Uses m e n (x >>= f) s := by
  intro w
  rw [← hx w]
  cases hr : x.run s with
  | ok a s' =>
    rw [leaves_of_run (run_bind_of_ok hr), (hf a s' hr).leaves_iff, leaves_ok_iff hr]
  | error e' s' => rw [leaves_error_iff (run_bind_error.mpr (.inl hr)), leaves_error_iff hr]

end Uses

end Py
