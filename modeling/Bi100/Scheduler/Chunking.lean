import Bi100.Gdn.Actions
import Bi100.Sequence
import Mathlib.Algebra.Order.Group.Int
import Mathlib.Tactic.Ring

/-!
# How many tokens of a group a step computes (`scheduler.py`)

With chunked prefill a step computes as much of a prompt as its token budget allows.
`_get_num_new_tokens` rounds a part of a prompt down to complete blocks, since the attention kernel
wants a chunk to start at a block. Two functions then change the number: a prefill that restores a
GDN state may advance further than it computes (`_plan_gdn_prefix_fast_forward`), and with
`admission64` it ends where a state is captured (`_cap_gdn_capture_boundary`).

- `getNumNewTokens_cases`, `capGdnCaptureBoundary_cases`: the whole prompt, or complete blocks.
- `planGdnPrefixFastForward_cases`: or as far as the budget goes.

Token counts are `Int` where the source subtracts.
-/

namespace Bi100.Scheduler

open Py

/-- What the scheduler reads of a sequence. -/
structure Seq where
  /-- `get_len` -/
  len : Nat
  numComputedTokens : Int
  stage : SequenceStage
  status : SequenceStatus
deriving DecidableEq, Repr

namespace Seq

/-- `get_num_new_tokens` -/
def getNumNewTokens (s : Seq) : Int :=
  if s.stage = .decode then 1 else s.len - s.numComputedTokens

/-- `update_num_computed_tokens` -/
def updateNumComputedTokens (s : Seq) (n : Int) : Except Err Seq :=
  let c := s.numComputedTokens + n
  if s.len < c then
    throw (.assertionError s!"({c}, {s.len})")
  else
    pure { s with numComputedTokens := c, stage := if c = s.len then .decode else s.stage }

/-- `reset_state_for_recompute` -/
def resetStateForRecompute (s : Seq) : Seq := { s with numComputedTokens := 0, stage := .prefill }

end Seq

structure SeqGroup where
  requestId : String
  seqs : List Seq
  /-- `sampling_params.n`, if there are sampling parameters -/
  n : Option Nat
  loraIntId : Nat
  /-- `long_lora_max_len`, if there is a LoRA adapter that sets it -/
  longLoraMaxLen : Option Nat
deriving DecidableEq, Repr

namespace SeqGroup

def getSeqs (g : SeqGroup) (status : SequenceStatus) : List Seq := g.seqs.filter (·.status = status)

/-- `is_prefill`: the stage of the first sequence. -/
def isPrefill (g : SeqGroup) : Bool := g.seqs.head?.any (·.stage = .prefill)

def isFinished (g : SeqGroup) : Bool := g.seqs.all (·.status.isFinished)

/-- At the prompt the group has one sequence, later `n`. -/
def getMaxNumRunningSeqs (g : SeqGroup) : Nat :=
  let numUnfinished := (g.seqs.filter fun s => s.status.isFinished = false).length
  match g.n with
  | some n => if g.seqs.length < n then n else numUnfinished
  | none => numUnfinished

/-- The sequences with one status get another. -/
def setStatus (g : SeqGroup) (old new : SequenceStatus) : SeqGroup :=
  { g with seqs := g.seqs.map fun s => if s.status = old then { s with status := new } else s }

/-- `update_num_computed_tokens` -/
def updateNumComputedTokens (g : SeqGroup) (n : Int) : Except Err SeqGroup := do
  let seqs ← g.seqs.mapM fun s =>
    if s.status.isFinished then pure s else s.updateNumComputedTokens n
  return { g with seqs }

/-- What the engine may do to a group besides: tokens are appended to, and sequences are added to
or removed from, groups that decode, and such a group does not start a prefill by it. -/
def Kept (g g' : SeqGroup) : Prop :=
  ∀ seq' ∈ g'.seqs.head?, seq'.stage = .prefill → ∃ seq ∈ g.seqs.head?,
    seq.stage = .prefill ∧ seq'.len = seq.len ∧ seq'.numComputedTokens = seq.numComputedTokens

theorem Kept.refl (g : SeqGroup) : g.Kept g :=
  fun seq hseq hstage => ⟨seq, hseq, hstage, rfl, rfl⟩

end SeqGroup

/-- The parts of the configuration that scheduling depends on. -/
structure Config where
  gdn : GdnConfig
  enablePrefixCaching : Bool
  maxNumSeqs : Nat
  maxModelLen : Nat
  isMultiStep : Bool
  numLookaheadSlots : Nat
  loraEnabled : Bool
  maxLoras : Nat
  useAsyncOutputProc : Bool

/-- `_get_prompt_limit`, with chunked prefill -/
def getPromptLimit (cfg : Config) (g : SeqGroup) : Except Err Nat :=
  let promptLimit :=
    if cfg.isMultiStep then min cfg.maxModelLen cfg.gdn.maxNumBatchedTokens else cfg.maxModelLen
  match g.longLoraMaxLen with
  | none => pure promptLimit
  | some 0 => pure promptLimit
  | some longLoraMaxLen => do
    guardNot (longLoraMaxLen < promptLimit) (.assertionError "")
    return longLoraMaxLen

/-- `SchedulingBudget` -/
structure SchedulingBudget where
  tokenBudget : Nat
  maxNumSeqs : Nat
  requestIdsNumBatchedTokens : Finset String
  numBatchedTokens : Int
  numScheduledTokens : Int
  requestNumScheduledTokens : Dict String Int
  requestIdsNumCurrSeqs : Finset String
  numCurrSeqs : Int

namespace SchedulingBudget

/-- The budget of a step. -/
def fresh (tokenBudget maxNumSeqs : Nat) : SchedulingBudget :=
  ⟨tokenBudget, maxNumSeqs, ∅, 0, 0, ∅, ∅, 0⟩

def remainingTokenBudget (b : SchedulingBudget) : Int := b.tokenBudget - b.numBatchedTokens

def canSchedule (b : SchedulingBudget) (numNewTokens : Int) (numNewSeqs : Nat) : Bool :=
  b.numBatchedTokens + numNewTokens ≤ b.tokenBudget ∧ b.numCurrSeqs + numNewSeqs ≤ b.maxNumSeqs

/-- `scheduled` is `n` unless the caller says otherwise. -/
def addNumBatchedTokens (b : SchedulingBudget) (reqId : String) (n scheduled : Int) :
    SchedulingBudget :=
  if reqId ∈ b.requestIdsNumBatchedTokens then b else
    { b with
      requestIdsNumBatchedTokens := insert reqId b.requestIdsNumBatchedTokens
      numBatchedTokens := b.numBatchedTokens + n
      numScheduledTokens := b.numScheduledTokens + scheduled
      requestNumScheduledTokens := b.requestNumScheduledTokens.set reqId scheduled }

def subtractNumBatchedTokens (b : SchedulingBudget) (reqId : String) (n : Int) :
    SchedulingBudget :=
  if reqId ∈ b.requestIdsNumBatchedTokens then
    { b with
      requestIdsNumBatchedTokens := b.requestIdsNumBatchedTokens.erase reqId
      numBatchedTokens := b.numBatchedTokens - n
      -- the request was counted, so it has an entry
      numScheduledTokens :=
        b.numScheduledTokens - (b.requestNumScheduledTokens.get? reqId).getD 0
      requestNumScheduledTokens := b.requestNumScheduledTokens.erase reqId }
  else b

def addNumSeqs (b : SchedulingBudget) (reqId : String) (n : Nat) : SchedulingBudget :=
  if reqId ∈ b.requestIdsNumCurrSeqs then b else
    { b with
      requestIdsNumCurrSeqs := insert reqId b.requestIdsNumCurrSeqs
      numCurrSeqs := b.numCurrSeqs + n }

def subtractNumSeqs (b : SchedulingBudget) (reqId : String) (n : Nat) : SchedulingBudget :=
  if reqId ∈ b.requestIdsNumCurrSeqs then
    { b with
      requestIdsNumCurrSeqs := b.requestIdsNumCurrSeqs.erase reqId
      numCurrSeqs := b.numCurrSeqs - n }
  else b

end SchedulingBudget

/-- `_get_num_new_tokens` -/
def getNumNewTokens (cfg : Config) (g : SeqGroup) (status : SequenceStatus) (enableChunking : Bool)
    (budget : SchedulingBudget) : Except Err Int := do
  let seqs := g.getSeqs status
  let numNewTokens := (seqs.map Seq.getNumNewTokens).sum
  guardNot (numNewTokens ≤ 0) (.assertionError "")
  let remaining := budget.remainingTokenBudget
  if enableChunking = false ∨ seqs.length ≠ 1 then
    return numNewTokens
  if cfg.isMultiStep then
    let promptLimit ← getPromptLimit cfg g
    -- a prompt is not chunked: too long a one is passed on, to be refused
    return if numNewTokens ≤ promptLimit ∧ remaining < numNewTokens then 0 else numNewTokens
  if cfg.enablePrefixCaching then
    let blockSize := cfg.gdn.blockSize
    guardNot (blockSize = 0) .zeroDivisionError
    guardNot (budget.tokenBudget % blockSize ≠ 0) (.valueError
      s!"When enabling chunked prefill and prefix caching, max_num_batched_tokens (chunk size) must be dividable by block size, but got chunk_size ({budget.tokenBudget}) % block_size ({blockSize}) = {budget.tokenBudget % blockSize}")
    return if remaining < numNewTokens then remaining / blockSize * blockSize else numNewTokens
  return min numNewTokens remaining

variable {D : Type}

/-- How far a fast-forwarded prefill gets: to the end of the prompt, as far as the budget goes, or
to the next aligned boundary. -/
def fastForwardEnd (checkpointTokens promptLen : Nat) (remainingTokenBudget : Int)
    (logicalChunkAlignment : Option Nat) : Int :=
  let logicalLimit := checkpointTokens + remainingTokenBudget
  min promptLen <|
    match logicalChunkAlignment with
    | none => logicalLimit
    | some alignment =>
      min logicalLimit (((checkpointTokens / alignment + 1) * alignment : Nat) : Int)

/-- `_plan_gdn_prefix_fast_forward`: the logical progress and the query tokens. -/
def planGdnPrefixFastForward (restoreKey : Option (GdnPrefixKey D)) (numComputedTokens : Int)
    (promptLen : Nat) (nominalChunkSize remainingTokenBudget : Int) (blockSize : Nat)
    (logicalChunkAlignment : Option Nat) : Except Err (Int × Int) :=
  let fallback := (nominalChunkSize, nominalChunkSize)
  match restoreKey with
  | none => pure fallback
  | some key =>
    if numComputedTokens ≠ 0 ∨ promptLen = 0 ∨ nominalChunkSize ≤ 0 ∨ remainingTokenBudget ≤ 0 ∨
      blockSize = 0 then pure fallback
    else do
      guardNot (∃ alignment ∈ logicalChunkAlignment, alignment = 0 ∨ alignment % blockSize ≠ 0)
        (.valueError "logical_chunk_alignment must be a positive multiple of block_size")
      let checkpointTokens := key.1 * blockSize
      let logicalChunkSize :=
        fastForwardEnd checkpointTokens promptLen remainingTokenBudget logicalChunkAlignment
      let physicalQueryTokens := logicalChunkSize - checkpointTokens
      if physicalQueryTokens ≤ 0 ∨ remainingTokenBudget < physicalQueryTokens then
        return fallback
      if logicalChunkSize ≤ nominalChunkSize ∧
          (logicalChunkAlignment = none ∨ nominalChunkSize ≤ physicalQueryTokens) then
        return fallback
      return (logicalChunkSize, physicalQueryTokens)

/-- `_cap_gdn_capture_boundary`; the capture targets are those of the request. -/
def capGdnCaptureBoundary (blockSize : Nat) (policy : GdnCachePolicy)
    (targets : List (GdnPrefixKey D)) (g : SeqGroup) (tokenChunkSize physicalQueryTokens : Int) :
    Except Err (Int × Int) := do
  if policy ≠ .admission64 ∨ targets = [] then
    return (tokenChunkSize, physicalQueryTokens)
  guardNot (tokenChunkSize ≤ 0 ∨ physicalQueryTokens ≤ 0)
    (.runtimeError "GDN prefill token counts must be positive")
  match g.seqs with
  | [seq] =>
    guardNot (g.isPrefill = false)
      (.runtimeError "GDN capture boundary requires one prefill sequence")
    let logicalEndTokens := seq.numComputedTokens + tokenChunkSize
    let logicalStartTokens := logicalEndTokens - physicalQueryTokens
    guardNot (logicalStartTokens < seq.numComputedTokens)
      (.runtimeError "GDN physical query starts before scheduler progress")
    guardNot (logicalStartTokens < 0 ∨ logicalEndTokens < 0)
      (.valueError "token positions must be non-negative")
    let cappedEndTokens ← capPrefillEndAtCaptureBoundary logicalStartTokens.toNat
      logicalEndTokens.toNat targets blockSize
    if (cappedEndTokens : Int) = logicalEndTokens then
      return (tokenChunkSize, physicalQueryTokens)
    let cappedChunkSize := cappedEndTokens - seq.numComputedTokens
    let cappedQueryTokens := cappedEndTokens - logicalStartTokens
    guardNot (cappedChunkSize ≤ 0 ∨ cappedQueryTokens ≤ 0)
      (.runtimeError "GDN capture boundary produced an empty step")
    return (cappedChunkSize, cappedQueryTokens)
  | _ => throw (.runtimeError "GDN capture boundary requires one prefill sequence")

/-! ## What the functions return -/

variable {cfg : Config} {g : SeqGroup} {status : SequenceStatus} {budget : SchedulingBudget} {n : Int}

/-- All the tokens, or complete blocks. -/
theorem getNumNewTokens_cases {enableChunking : Bool} (hc : cfg.enablePrefixCaching = true)
    (h : getNumNewTokens cfg g status enableChunking budget = .ok n) :
    0 < ((g.getSeqs status).map Seq.getNumNewTokens).sum ∧
    (n = ((g.getSeqs status).map Seq.getNumNewTokens).sum ∨ (cfg.gdn.blockSize : Int) ∣ n) := by
  unfold getNumNewTokens at h
  dsimp only at h
  obtain ⟨hpos, h⟩ := guardNot_bind_eq_ok.mp h
  refine ⟨by omega, ?_⟩
  by_cases hone : enableChunking = false ∨ (g.getSeqs status).length ≠ 1
  · rw [if_pos hone] at h
    exact .inl (pure_eq_ok.mp h)
  rw [if_neg hone] at h
  by_cases hms : cfg.isMultiStep = true
  · rw [if_pos hms] at h
    obtain ⟨limit, -, h⟩ := bind_eq_ok.mp h
    obtain rfl := pure_eq_ok.mp h
    split
    · exact .inr (dvd_zero _)
    · exact .inl rfl
  · rw [if_neg hms, if_pos hc] at h
    obtain ⟨-, h⟩ := guardNot_bind_eq_ok.mp h
    obtain ⟨-, h⟩ := guardNot_bind_eq_ok.mp h
    obtain rfl := pure_eq_ok.mp h
    split
    · exact .inr (dvd_mul_left _ _)
    · exact .inl rfl

/-- The end is capped at the first target after the start. -/
theorem foldlM_capAtKey_ok {start blockSize e c : Nat} {targets : List (GdnPrefixKey D)}
    (h : targets.foldlM (capAtKey start blockSize) e = .ok c) :
    c ≤ e ∧ (∀ t ∈ targets, start < t.1 * blockSize → c ≤ t.1 * blockSize) ∧
      (c = e ∨ ∃ t ∈ targets, c = t.1 * blockSize ∧ start < c ∧ c < e) := by
  induction targets generalizing e with
  | nil =>
    obtain rfl := pure_eq_ok.mp h
    exact ⟨le_rfl, fun t ht => absurd ht List.not_mem_nil, .inl rfl⟩
  | cons key rest ih =>
    rw [List.foldlM_cons] at h
    obtain ⟨e₁, h₁, h⟩ := bind_eq_ok.mp h
    obtain ⟨_, -, h₁⟩ := bind_eq_ok.mp h₁
    obtain ⟨hle, hmin, hcase⟩ := ih h
    have h₁ := pure_eq_ok.mp h₁
    split at h₁
    · next hin =>
      subst h₁
      refine ⟨hle.trans hin.2.le, fun t ht hs => ?_, .inr ?_⟩
      · rcases List.mem_cons.mp ht with rfl | ht
        · exact hle
        · exact hmin t ht hs
      · rcases hcase with rfl | ⟨t, ht, rfl, hstart, hend⟩
        · exact ⟨key, List.mem_cons_self, rfl, hin⟩
        · exact ⟨t, List.mem_cons_of_mem key ht, rfl, hstart, hend.trans hin.2⟩
    · next hout =>
      subst h₁
      refine ⟨hle, fun t ht hs => ?_, hcase.imp_right fun ⟨t, ht, he⟩ =>
        ⟨t, List.mem_cons_of_mem key ht, he⟩⟩
      rcases List.mem_cons.mp ht with rfl | ht
      · exact hle.trans (Nat.not_lt.mp fun hlt => hout ⟨hs, hlt⟩)
      · exact hmin t ht hs

theorem capPrefillEnd_ok {start e blockSize c : Nat} {targets : List (GdnPrefixKey D)}
    (h : capPrefillEndAtCaptureBoundary start e targets blockSize = .ok c) :
    c ≤ e ∧ (∀ t ∈ targets, start < t.1 * blockSize → c ≤ t.1 * blockSize) ∧
      (c = e ∨ ∃ t ∈ targets, c = t.1 * blockSize ∧ start < c ∧ c < e) := by
  rw [capPrefillEndAtCaptureBoundary] at h
  obtain ⟨-, h⟩ := guardNot_bind_eq_ok.mp h
  obtain ⟨-, h⟩ := guardNot_bind_eq_ok.mp h
  exact foldlM_capAtKey_ok h

/-- The chunk stays, and then no target is inside the query; or it ends at a target. -/
theorem capGdnCaptureBoundary_cases {blockSize : Nat} {policy : GdnCachePolicy}
    {targets : List (GdnPrefixKey D)} {tokenChunkSize physicalQueryTokens c q : Int}
    (h : capGdnCaptureBoundary blockSize policy targets g tokenChunkSize physicalQueryTokens =
      .ok (c, q)) :
    (c = tokenChunkSize ∧ (policy = .admission64 → ∀ seq ∈ g.seqs, ∀ t ∈ targets,
      ¬ (seq.numComputedTokens + tokenChunkSize - physicalQueryTokens < (t.1 * blockSize : Nat) ∧
        ((t.1 * blockSize : Nat) : Int) < seq.numComputedTokens + tokenChunkSize))) ∨
    (policy = .admission64 ∧ ∃ seq, g.seqs = [seq] ∧ ∃ t ∈ targets,
      seq.numComputedTokens + c = (t.1 * blockSize : Nat) ∧
      seq.numComputedTokens + tokenChunkSize - physicalQueryTokens < (t.1 * blockSize : Nat) ∧
      ((t.1 * blockSize : Nat) : Int) < seq.numComputedTokens + tokenChunkSize) := by
  unfold capGdnCaptureBoundary at h
  by_cases hoff : policy ≠ .admission64 ∨ targets = []
  · rw [if_pos hoff] at h
    obtain ⟨rfl, -⟩ := Prod.mk.inj (pure_eq_ok.mp h)
    refine .inl ⟨rfl, fun hp seq _ t ht => ?_⟩
    rcases hoff with hoff | hoff
    · exact absurd hp hoff
    · exact absurd (hoff ▸ ht) List.not_mem_nil
  rw [if_neg hoff] at h
  obtain ⟨hpolicy, -⟩ := not_or.mp hoff
  obtain ⟨-, h⟩ := guardNot_bind_eq_ok.mp h
  cases hseqs : g.seqs with
  | nil =>
    rw [hseqs] at h
    exact (throw_eq_ok.mp h).elim
  | cons seq rest =>
    rw [hseqs] at h
    cases rest with
    | cons => exact (throw_eq_ok.mp h).elim
    | nil =>
      dsimp only at h
      obtain ⟨-, h⟩ := guardNot_bind_eq_ok.mp h
      obtain ⟨-, h⟩ := guardNot_bind_eq_ok.mp h
      obtain ⟨hneg, h⟩ := guardNot_bind_eq_ok.mp h
      obtain ⟨e, he, h⟩ := bind_eq_ok.mp h
      obtain ⟨-, hmin, hcase⟩ := capPrefillEnd_ok he
      by_cases heq : (e : Int) = seq.numComputedTokens + tokenChunkSize
      · rw [if_pos heq] at h
        obtain ⟨rfl, -⟩ := Prod.mk.inj (pure_eq_ok.mp h)
        refine .inl ⟨rfl, fun _ seq' hseq' t ht hin => ?_⟩
        obtain rfl := List.mem_singleton.mp hseq'
        have hle := hmin t ht (by omega)
        omega
      · rw [if_neg heq] at h
        obtain ⟨-, h⟩ := guardNot_bind_eq_ok.mp h
        obtain ⟨rfl, -⟩ := Prod.mk.inj (pure_eq_ok.mp h)
        rcases hcase with rfl | ⟨t, ht, rfl, hstart, hend⟩
        · omega
        · exact .inr ⟨not_not.mp hpolicy, seq, rfl, t, ht, by omega, by omega, by omega⟩

/-- A fast-forwarded prefill ends where its restored part and the budget end. -/
theorem planGdnPrefixFastForward_cases {restoreKey : Option (GdnPrefixKey D)}
    {computed nominal remaining c q : Int} {promptLen blockSize : Nat} {alignment : Option Nat}
    (h : planGdnPrefixFastForward restoreKey computed promptLen nominal remaining blockSize
      alignment = .ok (c, q)) :
    c = nominal ∨ ∃ key, restoreKey = some key ∧ computed = 0 ∧ 0 < nominal ∧
      (∀ a ∈ alignment, a % blockSize = 0) ∧
      c = fastForwardEnd (key.1 * blockSize) promptLen remaining alignment ∧
      q = c - (key.1 * blockSize : Nat) := by
  unfold planGdnPrefixFastForward at h
  cases restoreKey with
  | none => exact .inl (Prod.mk.inj (pure_eq_ok.mp h)).1
  | some key =>
    dsimp only at h
    split at h
    · exact .inl (Prod.mk.inj (pure_eq_ok.mp h)).1
    · next hgo =>
      obtain ⟨halign, h⟩ := guardNot_bind_eq_ok.mp h
      split at h
      · exact .inl (Prod.mk.inj (pure_eq_ok.mp h)).1
      · split at h
        · exact .inl (Prod.mk.inj (pure_eq_ok.mp h)).1
        · obtain ⟨rfl, rfl⟩ := Prod.mk.inj (pure_eq_ok.mp h)
          refine .inr ⟨key, rfl, by omega, by omega, fun a ha => ?_, rfl, rfl⟩
          by_contra hne
          exact halign ⟨a, ha, .inr hne⟩

end Bi100.Scheduler
