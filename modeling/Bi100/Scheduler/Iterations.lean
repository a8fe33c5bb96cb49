import Bi100.Scheduler.Boundary

/-!
# What an iteration of a pass does

One lemma for each iteration says where its group goes (`runningStep_cases`, `swappedStep_cases`,
`prefillStep_cases`); `Removed` is what happens to a victim, and `makeRoom_rule` the rule for the
loop that takes victims.
-/

namespace Bi100.Scheduler

open Py

variable {M D : Type} {cfg : Config} {ops : BlockManagerOps M D} {mode : Option PreemptionMode}
  {g : SeqGroup} {n : Int} {p p' : Pass M D}

/-! ## Victims -/

/-- A victim when its pending output, if any, has been processed. -/
def AfterCallback (cfg : Config) (ops : BlockManagerOps M D) (m : M) (victim g : SeqGroup) : Prop :=
  if cfg.useAsyncOutputProc then ∃ m', ops.outputProcCallback m victim = .ok (m', g)
  else g = victim

/-- A group after `_preempt_by_recompute`. -/
def SeqGroup.recomputed (g : SeqGroup) : SeqGroup :=
  { g with
    seqs := g.seqs.map fun s =>
      if s.status = .running then { s.resetStateForRecompute with status := .waiting } else s }

/-- A victim is put off, or freed if its output finished it. -/
inductive Removed (cfg : Config) (ops : BlockManagerOps M D) (mode : Option PreemptionMode)
    (victim : SeqGroup) (p : Pass M D) : Pass M D → Prop where
  | finished {g : SeqGroup} {m : M} (hg : AfterCallback cfg ops p.blockManager victim g)
    (hfin : g.isFinished = true) :
    Removed cfg ops mode victim p { p with
      blockManager := m
      gdnRequestRestoreKeys := p.gdnRequestRestoreKeys.erase g.requestId
      gdnRequestCaptureTargets := p.gdnRequestCaptureTargets.erase g.requestId }
  | recompute {g : SeqGroup} {m : M} (hg : AfterCallback cfg ops p.blockManager victim g)
    (hlive : g = victim ∨ g.isFinished = false) (hmode : preemptionMode mode g = .recompute) :
    Removed cfg ops mode victim p { p with
      blockManager := m, preempted := p.preempted ++ [g.recomputed] }
  | swap {g : SeqGroup} {m : M} (hg : AfterCallback cfg ops p.blockManager victim g)
    (hlive : g = victim ∨ g.isFinished = false) (hmode : preemptionMode mode g = .swap) :
    Removed cfg ops mode victim p { p with
      blockManager := m, swappedOut := p.swappedOut ++ [g.setStatus .running .swapped] }

theorem preempt_removed {victim : SeqGroup} {m : M}
    (hg : AfterCallback cfg ops p.blockManager victim g)
    (hlive : g = victim ∨ g.isFinished = false)
    (h : preempt ops mode g { p with blockManager := m } = .ok p') :
    Removed cfg ops mode victim p p' := by
  unfold preempt at h
  cases hmode : preemptionMode mode g with
  | recompute =>
    rw [hmode] at h
    unfold preemptByRecompute at h
    obtain ⟨-, h⟩ := guardNot_bind_eq_ok.mp h
    obtain ⟨m', -, h⟩ := bind_eq_ok.mp h
    obtain rfl := pure_eq_ok.mp h
    exact .recompute hg hlive hmode
  | swap =>
    rw [hmode] at h
    unfold preemptBySwap at h
    obtain ⟨-, h⟩ := guardNot_bind_eq_ok.mp h
    obtain ⟨m', -, h⟩ := bind_eq_ok.mp h
    obtain rfl := pure_eq_ok.mp h
    exact .swap hg hlive hmode

theorem preemptVictim_removed (h : preemptVictim cfg ops mode g p = .ok p') :
    Removed cfg ops mode g p p' := by
  unfold preemptVictim at h
  split at h
  · next hasync =>
    obtain ⟨⟨m, g'⟩, hcb, h⟩ := bind_eq_ok.mp h
    have hafter : AfterCallback cfg ops p.blockManager g g' := by
      unfold AfterCallback
      rw [if_pos hasync]
      exact ⟨m, hcb⟩
    dsimp only at h
    split at h
    · next hfin =>
      obtain ⟨m', -, h⟩ := bind_eq_ok.mp h
      obtain rfl := pure_eq_ok.mp h
      exact .finished hafter hfin
    · next hfin => exact preempt_removed hafter (.inr (Bool.not_eq_true _ ▸ hfin)) h
  · next hsync =>
    have hafter : AfterCallback cfg ops p.blockManager g g := by
      unfold AfterCallback
      rw [if_neg hsync]
    exact preempt_removed (m := p.blockManager) hafter (.inl rfl) h

/-- The rule for `makeRoom`: `J` is about the groups that are left, with `g` last, and every victim
keeps it. -/
theorem makeRoom_rule {J : List SeqGroup → Pass M D → Prop}
    (hvictim : ∀ v rest p p', J (v :: rest) p →
      ops.canAppendSlots p.blockManager g (getNumLookaheadSlots cfg g.isPrefill true) = false →
      preemptVictim cfg ops mode v (uncount g n p) = .ok p' → J rest p')
    {queue : List SeqGroup} {hasRoom : Bool} (h : J (queue ++ [g]) p)
    (hroom : makeRoom cfg ops mode g n queue p = .ok (p', hasRoom)) :
    (hasRoom = true ∧ ∃ rest p₁, J (rest ++ [g]) p₁ ∧ p' = { p₁ with running := rest.reverse }) ∨
      (hasRoom = false ∧ ∃ p₁, J [] p₁ ∧ p' = { p₁ with running := [] }) := by
  induction queue generalizing p with
  | nil =>
    unfold makeRoom at hroom
    split at hroom
    · obtain ⟨rfl, rfl⟩ := Prod.mk.inj (pure_eq_ok.mp hroom)
      exact .inl ⟨rfl, [], p, h, rfl⟩
    · next hno =>
      obtain ⟨p₁, h₁, hroom⟩ := bind_eq_ok.mp hroom
      obtain ⟨rfl, rfl⟩ := Prod.mk.inj (pure_eq_ok.mp hroom)
      exact .inr ⟨rfl, p₁, hvictim g [] p p₁ h (Bool.not_eq_true _ ▸ hno) h₁, rfl⟩
  | cons victim queue ih =>
    unfold makeRoom at hroom
    split at hroom
    · obtain ⟨rfl, rfl⟩ := Prod.mk.inj (pure_eq_ok.mp hroom)
      exact .inl ⟨rfl, victim :: queue, p, h, rfl⟩
    · next hno =>
      obtain ⟨p₁, h₁, hroom⟩ := bind_eq_ok.mp hroom
      exact ih (hvictim victim (queue ++ [g]) p p₁ h (Bool.not_eq_true _ ▸ hno) h₁) hroom

/-! ## The running queue -/

theorem scheduleRunning_ok (h : scheduleRunning cfg ops g n p = .ok p') :
    ∃ m, (g.isPrefill = true ∧ p' = { p with
        blockManager := m
        budget := (p.budget.addNumBatchedTokens g.requestId n n).addNumSeqs g.requestId
          g.getMaxNumRunningSeqs
        currLoras := addLora g p.currLoras
        runningPrefills := p.runningPrefills ++ [⟨g, n⟩] }) ∨
      (g.isPrefill = false ∧ p' = { p with
        blockManager := m
        budget := (p.budget.addNumBatchedTokens g.requestId n n).addNumSeqs g.requestId
          g.getMaxNumRunningSeqs
        currLoras := addLora g p.currLoras
        runningDecodes := p.runningDecodes ++ [⟨g, 1⟩] }) := by
  unfold scheduleRunning at h
  obtain ⟨m, -, h⟩ := bind_eq_ok.mp h
  obtain rfl := pure_eq_ok.mp h
  refine ⟨m, ?_⟩
  cases hpre : g.isPrefill with
  | true => exact .inl ⟨rfl, rfl⟩
  | false => exact .inr ⟨rfl, rfl⟩

/-- The group is stopped, or scheduled, or preempted itself. -/
theorem runningStep_cases (h : runningStep cfg ops mode p = .ok (some p')) :
    ∃ g queue n chunk, p.running = g :: queue ∧
      getNumNewTokens cfg g .running true p.budget = .ok n ∧ n ≠ 0 ∧
      runningChunk cfg g p n = .ok chunk ∧
      (((cfg.useAsyncOutputProc ∧ ∃ seq ∈ g.seqs.head?, cfg.maxModelLen < seq.len) ∧
          p' = { p with running := queue, asyncStopped := p.asyncStopped ++ [g] }) ∨
        makeRoom cfg ops mode g chunk queue.reverse p = .ok (p', false) ∨
        ∃ p₁, makeRoom cfg ops mode g chunk queue.reverse p = .ok (p₁, true) ∧
          scheduleRunning cfg ops g chunk p₁ = .ok p') := by
  unfold runningStep at h
  cases hrun : p.running with
  | nil =>
    rw [hrun] at h
    cases pure_eq_ok.mp h
  | cons g queue =>
    rw [hrun] at h
    obtain ⟨n, hn, h⟩ := bind_eq_ok.mp h
    split at h
    · cases pure_eq_ok.mp h
    next hne =>
    obtain ⟨chunk, hchunk, h⟩ := bind_eq_ok.mp h
    refine ⟨g, queue, n, chunk, rfl, hn, hne, hchunk, ?_⟩
    split at h
    · next hstop => exact .inl ⟨hstop, (Option.some.inj (pure_eq_ok.mp h)).symm ▸ rfl⟩
    obtain ⟨⟨p₁, hasRoom⟩, hroom, h⟩ := bind_eq_ok.mp h
    dsimp only at h
    split at h
    · next hyes =>
      obtain ⟨p₂, hsched, h⟩ := map_eq_ok.mp h
      obtain rfl := Option.some.inj h
      subst hyes
      exact .inr (.inr ⟨p₁, hroom, hsched⟩)
    · next hno =>
      obtain rfl := Option.some.inj (pure_eq_ok.mp h)
      rw [Bool.not_eq_true] at hno
      subst hno
      exact .inr (.inl hroom)

/-! ## The swapped queue -/

theorem scheduleSwapped_ok {queue : List SeqGroup}
    (h : scheduleSwapped cfg ops g queue n p = .ok p') :
    ∃ m, (g.isPrefill = true ∧ p' = { p with
        swapped := queue
        blockManager := m
        budget := (p.budget.addNumBatchedTokens g.requestId n n).addNumSeqs g.requestId
          g.getMaxNumRunningSeqs
        currLoras := addLora (g.setStatus .swapped .running) p.currLoras
        swappedInPrefills := p.swappedInPrefills ++ [⟨g.setStatus .swapped .running, n⟩] }) ∨
      (g.isPrefill = false ∧ p' = { p with
        swapped := queue
        blockManager := m
        budget := (p.budget.addNumBatchedTokens g.requestId n n).addNumSeqs g.requestId
          g.getMaxNumRunningSeqs
        currLoras := addLora (g.setStatus .swapped .running) p.currLoras
        swappedInDecodes := p.swappedInDecodes ++ [⟨g.setStatus .swapped .running, 1⟩] }) := by
  unfold scheduleSwapped at h
  obtain ⟨m, -, h⟩ := bind_eq_ok.mp h
  obtain ⟨m', -, h⟩ := bind_eq_ok.mp h
  obtain rfl := pure_eq_ok.mp h
  rw [isPrefill_setStatus]
  refine ⟨m', ?_⟩
  cases hpre : g.isPrefill with
  | true => exact .inl ⟨rfl, rfl⟩
  | false => exact .inr ⟨rfl, rfl⟩

/-- The group is ignored, put back, or scheduled. -/
theorem swappedStep_cases (h : swappedStep cfg ops p = .ok (some p')) :
    ∃ g queue, p.swapped = g :: queue ∧
      ((ops.canSwapIn p.blockManager g (getNumLookaheadSlots cfg g.isPrefill false) = .never ∧
          ∃ ignored, p' = { p with swapped := queue, ignored := ignored }) ∨
        p' = { p with swapped := queue, leftoverSwapped := g :: p.leftoverSwapped } ∨
        ∃ n, getNumNewTokens cfg g .swapped false p.budget = .ok n ∧ n ≠ 0 ∧
          scheduleSwapped cfg ops g queue n p = .ok p') := by
  unfold swappedStep at h
  cases hsw : p.swapped with
  | nil =>
    rw [hsw] at h
    cases pure_eq_ok.mp h
  | cons g queue =>
    rw [hsw] at h
    dsimp only at h
    refine ⟨g, queue, rfl, ?_⟩
    cases hcan : ops.canSwapIn p.blockManager g (getNumLookaheadSlots cfg g.isPrefill false) with
    | later =>
      rw [hcan] at h
      cases pure_eq_ok.mp h
    | never =>
      rw [hcan] at h
      exact .inl ⟨rfl, _, Option.some.inj (pure_eq_ok.mp h)⟩
    | ok =>
      rw [hcan] at h
      dsimp only at h
      split at h
      · exact .inr (.inl (Option.some.inj (pure_eq_ok.mp h)))
      · obtain ⟨n, hn, h⟩ := bind_eq_ok.mp h
        split at h
        · cases pure_eq_ok.mp h
        · next hgo =>
          obtain ⟨p₂, hsched, h⟩ := map_eq_ok.mp h
          obtain rfl := Option.some.inj h
          exact .inr (.inr ⟨n, hn, (not_or.mp hgo).1, hsched⟩)

/-! ## The waiting queue -/

variable [DecidableEq D]

/-- The chunk of an admitted group, and the tokens it counts for. -/
theorem prefillChunk_ok {seq : Seq} {chunk query : Int}
    (h : prefillChunk cfg ops g seq n p = .ok (p', chunk, query)) :
    (p' = p ∧ cfg.enablePrefixCaching = false ∧ chunk = n ∧ query = n) ∨
      (cfg.enablePrefixCaching = true ∧ ∃ c : GdnChoice D,
        gdnChunk cfg c g seq n p.budget.remainingTokenBudget = .ok (chunk, query) ∧
        p' = { p with
          gdnPrefixPolicy := c.policy
          gdnRequestRestoreKeys := p.gdnRequestRestoreKeys.set g.requestId c.restoreKey
          gdnRequestCaptureTargets :=
            p.gdnRequestCaptureTargets.set g.requestId c.captureTargets }) := by
  unfold prefillChunk at h
  split at h
  · next hc =>
    obtain ⟨c, -, h⟩ := bind_eq_ok.mp h
    obtain ⟨⟨chunk', query'⟩, hchunk, h⟩ := bind_eq_ok.mp h
    cases pure_eq_ok.mp h
    exact .inr ⟨hc, c, hchunk, rfl⟩
  · next hc =>
    cases pure_eq_ok.mp h
    exact .inl ⟨rfl, by simpa using hc, rfl, rfl⟩

/-- What admission changes, with any block manager and LoRA adapters. -/
inductive Admission (cfg : Config) (g : SeqGroup) (seq : Seq) (queue : List SeqGroup) (n : Int)
    (p : Pass M D) : Pass M D → Prop where
  | plain {m : M} {loras : Finset Nat} (hc : cfg.enablePrefixCaching = false) :
    Admission cfg g seq queue n p { p with
      waiting := queue, blockManager := m, currLoras := loras
      prefills := p.prefills ++ [⟨g.setStatus .waiting .running, n⟩]
      budget := (p.budget.addNumBatchedTokens g.requestId n n).addNumSeqs g.requestId
        g.getMaxNumRunningSeqs }
  | gdn {m : M} {loras : Finset Nat} {c : GdnChoice D} {chunk query : Int}
    (hc : cfg.enablePrefixCaching = true)
    (hplan : gdnChunk cfg c (g.setStatus .waiting .running) seq n p.budget.remainingTokenBudget =
      .ok (chunk, query)) :
    Admission cfg g seq queue n p { p with
      waiting := queue, blockManager := m, currLoras := loras
      gdnPrefixPolicy := c.policy
      gdnRequestRestoreKeys := p.gdnRequestRestoreKeys.set g.requestId c.restoreKey
      gdnRequestCaptureTargets := p.gdnRequestCaptureTargets.set g.requestId c.captureTargets
      prefills := p.prefills ++ [⟨g.setStatus .waiting .running, chunk⟩]
      budget := (p.budget.addNumBatchedTokens g.requestId query chunk).addNumSeqs g.requestId
        g.getMaxNumRunningSeqs }

omit [DecidableEq D] in
theorem appendMultiStepSlots_ok (h : appendMultiStepSlots cfg ops g p = .ok p') :
    ∃ m, p' = { p with blockManager := m } := by
  unfold appendMultiStepSlots at h
  split at h
  · obtain ⟨m, -, h⟩ := bind_eq_ok.mp h
    exact ⟨m, pure_eq_ok.mp h⟩
  · exact ⟨p.blockManager, pure_eq_ok.mp h⟩

theorem schedulePrefill_ok {seq : Seq} {queue : List SeqGroup}
    (h : schedulePrefill cfg ops g seq queue n p = .ok p') : Admission cfg g seq queue n p p' := by
  unfold schedulePrefill at h
  obtain ⟨m, -, h⟩ := bind_eq_ok.mp h
  obtain ⟨⟨p₁, chunk, query⟩, hchunk, h⟩ := bind_eq_ok.mp h
  obtain ⟨p₂, hslots, h⟩ := bind_eq_ok.mp h
  obtain ⟨m', rfl⟩ := appendMultiStepSlots_ok hslots
  obtain rfl := pure_eq_ok.mp h
  rcases prefillChunk_ok hchunk with ⟨rfl, hc, rfl, rfl⟩ | ⟨hc, c, hplan, rfl⟩
  · exact .plain hc
  · exact .gdn hc hplan

/-- The group is ignored, put back, or admitted. -/
theorem prefillStep_cases (h : prefillStep cfg ops p = .ok (some p')) :
    ∃ g queue seq, p.waiting = g :: queue ∧ g.getSeqs .waiting = [seq] ∧
      (p' = ignoreWaiting g queue p ∨
        p' = { p with waiting := queue, leftoverWaiting := g :: p.leftoverWaiting } ∨
        ∃ n, getNumNewTokens cfg g .waiting true p.budget = .ok n ∧ n ≠ 0 ∧
          p.budget.canSchedule n g.getMaxNumRunningSeqs = true ∧
          Admission cfg g seq queue n p p') := by
  unfold prefillStep at h
  cases hw : p.waiting with
  | nil =>
    rw [hw] at h
    cases pure_eq_ok.mp h
  | cons g queue =>
    rw [hw] at h
    dsimp only at h
    cases hseqs : g.getSeqs .waiting with
    | nil =>
      rw [hseqs] at h
      exact (throw_eq_ok.mp h).elim
    | cons seq rest =>
      rw [hseqs] at h
      cases rest with
      | cons => exact (throw_eq_ok.mp h).elim
      | nil =>
        dsimp only at h
        refine ⟨g, queue, seq, rfl, hseqs, ?_⟩
        obtain ⟨n, hn, h⟩ := bind_eq_ok.mp h
        obtain ⟨limit, -, h⟩ := bind_eq_ok.mp h
        split at h
        · exact .inl (Option.some.inj (pure_eq_ok.mp h))
        generalize ops.canAllocate p.blockManager g _ = can at h
        cases can with
        | later => cases pure_eq_ok.mp h
        | never => exact .inl (Option.some.inj (pure_eq_ok.mp h))
        | ok =>
          dsimp only at h
          split at h
          · exact .inr (.inl (Option.some.inj (pure_eq_ok.mp h)))
          split at h
          · cases pure_eq_ok.mp h
          · next hgo =>
            obtain ⟨p₂, hsched, h⟩ := map_eq_ok.mp h
            obtain rfl := Option.some.inj h
            obtain ⟨hne, hcan⟩ := not_or.mp hgo
            exact .inr (.inr ⟨n, hn, hne, by simpa using hcan, schedulePrefill_ok hsched⟩)

end Bi100.Scheduler
