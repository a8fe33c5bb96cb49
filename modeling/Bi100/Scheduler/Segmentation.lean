import Bi100.Gdn.DeltaRule
import Bi100.Scheduler.ChunkedPrefill

/-!
# Where a prefill is cut (`canonical_direct_segment_offsets`, `_gdn_segment_ends`)

One request is prefilled alone, with the whole budget of every step. The worker cuts the tokens of
a step at multiples of its own chunk size, counted from the start of the step, and at the offsets
that the scheduler sends: the capture points and the canonical boundaries.

- `prefillCuts`: the positions at which a run is cut, over all its steps. `coldCuts` starts with an
  empty cache; for `resumedCuts` the cache holds the state and the blocks of one key.
-/

namespace Bi100.Scheduler

open Py

variable {D : Type} [DecidableEq D]

/-- The tokens of a prompt, in blocks: one digest for each complete block. -/
structure Prompt (D : Type) (blockSize : Nat) where
  len : Nat
  blockHashes : List D
  length_blockHashes : blockHashes.length = len / blockSize

/-- The group of a request whose sequence is computed so far. -/
def aloneGroup (len computed : Nat) (status : SequenceStatus) : SeqGroup :=
  ⟨"", [⟨len, computed, .prefill, status⟩], some 1, 0, none⟩

section

variable (cfg : Config) (chunkSize : Nat) (prompt : Prompt D cfg.gdn.blockSize)
  (choice : GdnChoice D)

/-- The budget of a step with one request. -/
def stepBudget : SchedulingBudget := .fresh cfg.gdn.maxNumBatchedTokens cfg.maxNumSeqs

/-- The chunk of the first step: `_schedule_prefills`. -/
def firstChunk : Except Err Int := do
  let numNewTokens ← getNumNewTokens cfg (aloneGroup prompt.len 0 .waiting) .waiting true
    (stepBudget cfg)
  Prod.fst <$> gdnChunk cfg choice (aloneGroup prompt.len 0 .running)
    ⟨prompt.len, 0, .prefill, .running⟩ numNewTokens (stepBudget cfg).remainingTokenBudget

/-- The chunk of a later step: `_schedule_running`. -/
def laterChunk (computed : Nat) : Except Err Int := do
  let g := aloneGroup prompt.len computed .running
  let numNewTokens ← getNumNewTokens cfg g .running true (stepBudget cfg)
  Prod.fst <$> capGdnCaptureBoundary cfg.gdn.blockSize choice.policy.policy choice.captureTargets g
    numNewTokens numNewTokens

def aloneChunk (computed : Nat) : Except Err Int :=
  if computed = 0 then firstChunk cfg prompt choice else laterChunk cfg prompt choice computed

/-- The positions at which a step is cut. -/
def stepCuts (r : GdnPrefill D) : Except Err (List Nat) := do
  let context := r.physicalContextTokens cfg.gdn.blockSize
  let segments ← segmentOffsets choice.policy.policy cfg.gdn r
  let points ← capturePointsForStep r.captureTargets context r.logicalEndTokens cfg.gdn.blockSize
  return (Gdn.gdnSegmentEnds (r.logicalEndTokens - context) chunkSize
    (points.map Prod.fst ++ segments)).map (context + ·)

/-- The positions at which the rest of the prompt is cut. A step computes at least one token, so
the length of the prompt is enough fuel. -/
def prefillCuts : Nat → Nat → Except Err (List Nat)
  | 0, _ => throw .recursionError
  | fuel + 1, computed =>
    if prompt.len ≤ computed then pure [] else do
      let chunk ← aloneChunk cfg prompt choice computed
      let cuts ← stepCuts cfg chunkSize choice
        ⟨prompt.blockHashes, prompt.len, computed, chunk.toNat, choice.restoreKey,
          choice.captureTargets⟩
      let rest ← prefillCuts fuel (computed + chunk.toNat)
      return cuts ++ rest

/-- A run whose cache holds the state and the blocks of `cached`, if anything. -/
def cutsFromCache (cached : Option (GdnPrefixKey D)) : Except Err (List Nat) := do
  let policy : GdnPrefixStatePolicy D :=
    match cached with
    | none => .init .admission64
    | some key => { policy := .admission64, resident := Dict.set ∅ key () }
  let choice ← chooseKeys cfg prompt.blockHashes ((cached.map Prod.fst).getD 0) policy prompt.len
  prefillCuts cfg chunkSize prompt choice (prompt.len + 1) 0

def coldCuts : Except Err (List Nat) := cutsFromCache cfg chunkSize prompt none

def resumedCuts (key : GdnPrefixKey D) : Except Err (List Nat) :=
  cutsFromCache cfg chunkSize prompt (some key)

end

end Bi100.Scheduler
