import Bi100.Gdn.Policy

/-!
# The GDN actions of a scheduled prefill (`scheduler.py`, `schedule`)

For every scheduled prefill `schedule()` chooses what the worker restores, captures and evicts
and where it cuts the prefill, and updates the index of resident keys.
-/

namespace Bi100

open Py

variable {D : Type} [DecidableEq D]

/-- The `gdn_*` fields of a prefill's metadata. -/
structure GdnActions (D : Type) where
  restoreKey : Option (GdnPrefixKey D)
  capturePoints : List (GdnCapturePoint D)
  evictKeys : List (GdnPrefixKey D)
  segmentOffsets : List Nat
deriving DecidableEq

/-- The scheduler's settings that the actions depend on. -/
structure GdnConfig where
  restoreMode : GdnRestoreMode
  replayAlignment : Nat
  blockSize : Nat
  maxNumBatchedTokens : Nat

/-- A scheduled prefill: the content hashes of its blocks, its length, how far it is computed, the
tokens of the step, and what was chosen for the request when it was admitted. -/
structure GdnPrefill (D : Type) where
  blockHashes : List D
  seqLen : Nat
  numComputedTokens : Nat
  tokenChunkSize : Nat
  restoreKey : Option (GdnPrefixKey D)
  captureTargets : List (GdnPrefixKey D)

namespace GdnPrefill

def isFirstPrefill (r : GdnPrefill D) : Bool := r.numComputedTokens = 0

def logicalEndTokens (r : GdnPrefill D) : Nat :=
  min r.seqLen (r.numComputedTokens + r.tokenChunkSize)

/-- The restore key that is sent: only the first prefill of a request restores. -/
def sentRestoreKey (r : GdnPrefill D) : Option (GdnPrefixKey D) :=
  if r.isFirstPrefill then r.restoreKey else none

/-- `restore_tokens`. -/
def restoreTokens (r : GdnPrefill D) (blockSize : Nat) : Nat :=
  match r.sentRestoreKey with
  | some key => key.1 * blockSize
  | none => 0

/-- `physical_context_tokens`. -/
def physicalContextTokens (r : GdnPrefill D) (blockSize : Nat) : Nat :=
  if r.isFirstPrefill then r.restoreTokens blockSize else r.numComputedTokens

end GdnPrefill

/-- The capture targets of a step: the policy `fine32` captures at the end of every step. -/
def captureTargets (policy : GdnCachePolicy) (cfg : GdnConfig) (r : GdnPrefill D) :
    Except Err (List (GdnPrefixKey D)) :=
  if policy = .fine32 then
    Option.toList <$> finalCaptureKey r.blockHashes r.logicalEndTokens cfg.blockSize
      cfg.restoreMode cfg.replayAlignment
  else
    pure r.captureTargets

/-- The segment offsets of a step. -/
def segmentOffsets (policy : GdnCachePolicy) (cfg : GdnConfig) (r : GdnPrefill D) :
    Except Err (List Nat) :=
  if cfg.restoreMode = .hybrid64 ∧ policy = .admission64 then
    canonicalDirectSegmentOffsets r.blockHashes (r.physicalContextTokens cfg.blockSize)
      r.logicalEndTokens cfg.blockSize cfg.maxNumBatchedTokens
  else
    pure []

/-- The GDN part of `schedule()` for one prefill. -/
def prefillActions (cfg : GdnConfig) (r : GdnPrefill D) :
    EStateM Err (GdnPrefixStatePolicy D) (GdnActions D) := do
  let p ← get
  let targets ← lift (captureTargets p.policy cfg r)
  if p.policy = .off then
    return { restoreKey := r.sentRestoreKey, capturePoints := [], evictKeys := [],
             segmentOffsets := [] }
  let segments ← lift (segmentOffsets p.policy cfg r)
  let points ← lift (capturePointsForStep targets (r.physicalContextTokens cfg.blockSize)
    r.logicalEndTokens cfg.blockSize)
  let evicted ← GdnPrefixStatePolicy.admitCaptures (points.map Prod.snd)
  return { restoreKey := r.sentRestoreKey, capturePoints := points, evictKeys := evicted,
           segmentOffsets := segments }

omit [DecidableEq D] in
theorem capturePointsForStep_length {targets : List (GdnPrefixKey D)} {c e bs : Nat}
    {points : List (GdnCapturePoint D)} (h : capturePointsForStep targets c e bs = .ok points) :
    points.length ≤ 2 := by
  rw [capturePointsForStep] at h
  split at h
  · obtain rfl := pure_eq_ok.mp h
    exact Nat.zero_le 2
  · obtain ⟨selected, -, h⟩ := bind_eq_ok.mp h
    obtain ⟨hn, h⟩ := guardNot_bind_eq_ok.mp h
    obtain rfl := pure_eq_ok.mp h
    exact Nat.not_lt.mp hn

/-- What the actions of a prefill are made of. -/
theorem prefillActions_ok {cfg : GdnConfig} {r : GdnPrefill D} {p p' : GdnPrefixStatePolicy D}
    {a : GdnActions D} (h : (prefillActions cfg r).run p = .ok a p') :
    a.restoreKey = r.sentRestoreKey ∧
    ((p.policy = .off ∧ p' = p ∧ a.capturePoints = [] ∧ a.evictKeys = [] ∧
        a.segmentOffsets = []) ∨
     (p.policy ≠ .off ∧ segmentOffsets p.policy cfg r = .ok a.segmentOffsets ∧
      (∃ targets, captureTargets p.policy cfg r = .ok targets ∧
        capturePointsForStep targets (r.physicalContextTokens cfg.blockSize) r.logicalEndTokens
          cfg.blockSize = .ok a.capturePoints) ∧
      (GdnPrefixStatePolicy.admitCaptures (a.capturePoints.map Prod.snd)).run p =
        .ok a.evictKeys p')) := by
  rw [prefillActions, run_get_bind, run_lift_bind_ok] at h
  obtain ⟨targets, ht, h⟩ := h
  split at h
  · next hoff =>
    obtain ⟨rfl, rfl⟩ := run_pure_ok.mp h
    exact ⟨rfl, .inl ⟨hoff, rfl, rfl, rfl, rfl⟩⟩
  · next hoff =>
    simp only [run_lift_bind_ok] at h
    obtain ⟨segments, hseg, points, hpts, h⟩ := h
    rw [run_bind_ok] at h
    obtain ⟨evicted, p₁, hadmit, h⟩ := h
    obtain ⟨rfl, rfl⟩ := run_pure_ok.mp h
    exact ⟨rfl, .inr ⟨hoff, hseg, ⟨targets, ht, hpts⟩, hadmit⟩⟩

end Bi100
