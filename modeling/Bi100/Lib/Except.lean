import Bi100.Lib.Action
import Mathlib.Data.List.Induction

/-!
# Pure functions that may raise

A function without state is an `Except ε α`. The lemmas invert a successful evaluation, as those
of `Lib/Action.lean` do for a call.
-/

namespace Py

variable {ε σ α β : Type}

/-- Call a pure function from a stateful one. -/
def lift (x : Except ε α) : EStateM ε σ α :=
  match x with
  | .ok a => pure a
  | .error e => throw e

theorem run_lift_ok {x : Except ε α} {s s' : σ} {a : α} :
    (lift x).run s = .ok a s' ↔ x = .ok a ∧ s' = s := by
  cases x with
  | ok b =>
    simp only [lift, EStateM.run, pure, EStateM.pure, EStateM.Result.ok.injEq, Except.ok.injEq,
      eq_comm (a := s)]
  | error e =>
    constructor
    · intro h
      cases h
    · rintro ⟨h, -⟩
      cases h

theorem run_lift_bind_ok {x : Except ε α} {f : α → EStateM ε σ β} {s s' : σ} {b : β} :
    (lift x >>= f).run s = .ok b s' ↔ ∃ a, x = .ok a ∧ (f a).run s = .ok b s' := by
  rw [run_bind_ok]
  constructor
  · rintro ⟨a, s₁, hx, hf⟩
    obtain ⟨hx', rfl⟩ := run_lift_ok.mp hx
    exact ⟨a, hx', hf⟩
  · rintro ⟨a, hx, hf⟩
    exact ⟨a, s, run_lift_ok.mpr ⟨hx, rfl⟩, hf⟩

theorem bind_eq_ok {x : Except ε α} {f : α → Except ε β} {b : β} :
    (x >>= f) = .ok b ↔ ∃ a, x = .ok a ∧ f a = .ok b := by
  cases x with
  | ok a => exact ⟨fun h => ⟨a, rfl, h⟩, fun ⟨_, h, h'⟩ => Except.ok.inj h ▸ h'⟩
  | error e => exact ⟨fun h => (nomatch h), fun ⟨_, h, _⟩ => (nomatch h)⟩

theorem map_eq_ok {x : Except ε α} {f : α → β} {b : β} :
    f <$> x = .ok b ↔ ∃ a, x = .ok a ∧ f a = b := by
  cases x with
  | ok a => exact ⟨fun h => ⟨a, rfl, Except.ok.inj h⟩, fun ⟨_, h, h'⟩ => Except.ok.inj h ▸ h' ▸ rfl⟩
  | error e => exact ⟨fun h => (nomatch h), fun ⟨_, h, _⟩ => (nomatch h)⟩

theorem pure_eq_ok {a b : α} : (pure a : Except ε α) = .ok b ↔ b = a := by
  rw [pure, Except.instMonad]
  exact ⟨fun h => (Except.ok.inj h).symm, fun h => h ▸ rfl⟩

theorem throw_eq_ok {e : ε} {b : α} : (throw e : Except ε α) = .ok b ↔ False :=
  ⟨fun h => (nomatch h), False.elim⟩

theorem mapM_eq_ok_map {f : α → Except ε β} {g : α → β} {as : List α}
    (h : ∀ a ∈ as, f a = .ok (g a)) : as.mapM f = .ok (as.map g) := by
  induction as with
  | nil => rfl
  | cons a as ih =>
    rw [List.mapM_cons, h a List.mem_cons_self, ih fun b hb => h b (List.mem_cons_of_mem a hb)]
    rfl

theorem forM_eq_ok {f : α → Except ε Unit} {as : List α} (h : ∀ a ∈ as, f a = .ok ()) :
    as.forM f = .ok () := by
  induction as with
  | nil => rfl
  | cons a as ih =>
    show (f a >>= fun _ => as.forM f) = .ok ()
    rw [h a List.mem_cons_self]
    exact ih fun b hb => h b (List.mem_cons_of_mem a hb)

theorem mapM_eq_ok_of_mem {f : α → Except ε β} {as : List α} {bs : List β} {a : α}
    (h : as.mapM f = .ok bs) (ha : a ∈ as) : ∃ b, f a = .ok b := by
  induction as generalizing bs with
  | nil => exact absurd ha List.not_mem_nil
  | cons x as ih =>
    rw [List.mapM_cons] at h
    obtain ⟨y, hx, h⟩ := bind_eq_ok.mp h
    obtain ⟨ys, hrest, -⟩ := bind_eq_ok.mp h
    rcases List.mem_cons.mp ha with rfl | ha
    · exact ⟨y, hx⟩
    · exact ih hrest ha

theorem filterM_eq_ok {f : α → Except ε Bool} {p : α → Bool} {as : List α}
    (h : ∀ a ∈ as, f a = .ok (p a)) : as.filterM f = .ok (as.filter p) := by
  have haux : ∀ (as acc : List α), (∀ a ∈ as, f a = .ok (p a)) →
      as.filterAuxM f acc = .ok ((as.filter p).reverse ++ acc) := by
    intro as
    induction as with
    | nil => exact fun acc _ => rfl
    | cons a as ih =>
      intro acc h
      rw [List.filterAuxM, h a List.mem_cons_self]
      show as.filterAuxM f (cond (p a) (a :: acc) acc) = _
      rw [ih _ fun b hb => h b (List.mem_cons_of_mem a hb), List.filter_cons]
      cases p a with
      | true => simp
      | false => simp
  rw [List.filterM, haux as [] h]
  show Except.ok _ = _
  rw [List.append_nil, List.reverse_reverse]

/-- Evaluate at every index of the result. -/
theorem mapM_range_eq_ok {f : Nat → Except ε β} (bs : List β)
    (h : ∀ i b, bs[i]? = some b → f i = .ok b) : (List.range bs.length).mapM f = .ok bs := by
  induction bs using List.reverseRecOn with
  | nil => rfl
  | append_singleton bs b ih =>
    have hinit : (List.range bs.length).mapM f = .ok bs := ih fun i x hx => by
      have hlt := (List.getElem?_eq_some_iff.mp hx).1
      exact h i x ((List.getElem?_append_left hlt).trans hx)
    rw [List.length_append, List.length_singleton, List.range_succ, List.mapM_append, hinit,
      List.mapM_cons, h bs.length b List.getElem?_concat_length]
    rfl

/-- Nothing but `e` is raised, and it is raised for some element. -/
theorem mapM_eq_error {f : α → Except ε β} {e : ε} {as : List α}
    (hf : ∀ a ∈ as, f a = .error e ∨ ∃ b, f a = .ok b) (h : ∃ a ∈ as, f a = .error e) :
    as.mapM f = .error e := by
  induction as with
  | nil =>
    obtain ⟨a, ha, -⟩ := h
    exact absurd ha List.not_mem_nil
  | cons a as ih =>
    rw [List.mapM_cons]
    rcases hf a List.mem_cons_self with ha | ⟨b, ha⟩
    · rw [ha]
      rfl
    · obtain ⟨x, hx, hxe⟩ := h
      rcases List.mem_cons.mp hx with rfl | hx
      · cases ha.symm.trans hxe
      · rw [ha, ih (fun y hy => hf y (List.mem_cons_of_mem a hy)) ⟨x, hx, hxe⟩]
        rfl

/-- A loop over `range(n)` that keeps an invariant. -/
theorem foldlM_range_ok (f : σ → Nat → Except ε σ) (inv : Nat → σ → Prop) (n : Nat) {s : σ}
    (h : inv 0 s) (hstep : ∀ i < n, ∀ s, inv i s → ∃ s', f s i = .ok s' ∧ inv (i + 1) s') :
    ∃ s', (List.range n).foldlM f s = .ok s' ∧ inv n s' := by
  induction n with
  | zero => exact ⟨s, rfl, h⟩
  | succ n ih =>
    obtain ⟨s₁, hrun, h₁⟩ := ih fun i hi => hstep i (by omega)
    obtain ⟨s₂, hlast, h₂⟩ := hstep n (by omega) s₁ h₁
    refine ⟨s₂, ?_, h₂⟩
    rw [List.range_succ, List.foldlM_append, hrun]
    show (List.foldlM f s₁ [n] : Except ε σ) = _
    rw [List.foldlM_cons, hlast]
    rfl

/-- Evaluate, and look at the value. -/
theorem exists_of_any {P : α → Prop} [DecidablePred P] {x : Except ε α}
    (h : x.toOption.any (fun a => decide (P a)) = true) : ∃ a, x = .ok a ∧ P a := by
  cases x with
  | ok a => exact ⟨a, rfl, of_decide_eq_true h⟩
  | error e => cases h

/-- A loop that ends: its invariant holds at the end, and every element passed. -/
theorem foldlM_eq_ok {f : σ → α → Except ε σ} (inv : σ → Prop) (P : α → Prop)
    (hstep : ∀ s a s', inv s → f s a = .ok s' → inv s' ∧ P a) {as : List α} {s s' : σ}
    (hs : inv s) (h : as.foldlM f s = .ok s') : inv s' ∧ ∀ a ∈ as, P a := by
  induction as generalizing s with
  | nil =>
    obtain rfl := pure_eq_ok.mp h
    exact ⟨hs, fun a ha => absurd ha List.not_mem_nil⟩
  | cons a as ih =>
    rw [List.foldlM_cons] at h
    obtain ⟨s₁, h₁, h⟩ := bind_eq_ok.mp h
    obtain ⟨hs₁, ha⟩ := hstep s a s₁ hs h₁
    obtain ⟨hs', has⟩ := ih hs₁ h
    exact ⟨hs', List.forall_mem_cons.mpr ⟨ha, has⟩⟩

/-- A loop of which no step raises. -/
theorem foldlM_ok {f : σ → α → Except ε σ} (inv : σ → Prop) {as : List α}
    (hstep : ∀ s, ∀ a ∈ as, inv s → ∃ s', f s a = .ok s' ∧ inv s') {s : σ} (hs : inv s) :
    ∃ s', as.foldlM f s = .ok s' ∧ inv s' := by
  induction as generalizing s with
  | nil => exact ⟨s, rfl, hs⟩
  | cons a as ih =>
    obtain ⟨s₁, h₁, hs₁⟩ := hstep s a List.mem_cons_self hs
    obtain ⟨s', h', hs'⟩ := ih (fun s b hb => hstep s b (List.mem_cons_of_mem _ hb)) hs₁
    exact ⟨s', by rw [List.foldlM_cons]; exact bind_eq_ok.mpr ⟨s₁, h₁, h'⟩, hs'⟩

/-- A guard: raise `e` if `p` holds. -/
def guardNot (p : Prop) [Decidable p] (e : ε) : Except ε Unit :=
  if p then throw e else pure ()

theorem guardNot_bind {p : Prop} [Decidable p] {e : ε} {f : Unit → Except ε β} :
    (guardNot p e >>= f) = if p then .error e else f () := by
  unfold guardNot
  split <;> rfl

theorem guardNot_bind_eq_ok {p : Prop} [Decidable p] {e : ε} {f : Unit → Except ε β} {b : β} :
    (guardNot p e >>= f) = .ok b ↔ ¬ p ∧ f () = .ok b := by
  rw [guardNot_bind]
  split <;> simp [*]

end Py
