import Bi100.Base
import Bi100.Lib.Dict
import Bi100.Lib.Except
import Mathlib.Data.Finset.Sort
import Mathlib.Data.List.Sort

/-!
# The arithmetic of GDN prefix states (`gdn_prefix.py`)

A saved recurrent state is named by a key: a number of complete blocks and the content digest of
the last of them. These functions say which key a prompt may restore, which keys it captures at
the end of a prefill step and where the step is cut.

Digests are a type `D` (32 bytes in the source); token positions are `Nat`, so the source's
checks for negative positions have no case here.
-/

namespace Bi100

open Py

/-- `(block_count, digest)`. -/
abbrev GdnPrefixKey (D : Type) := Nat × D

/-- `(offset in the step, key)`. -/
abbrev GdnCapturePoint (D : Type) := Nat × GdnPrefixKey D

def gdnKernelChunkTokens : Nat := 64

def gdnDirectMinReplayTokens : Nat := 2

/-- `BI100_GDN_CACHE_POLICY`. -/
inductive GdnCachePolicy where
  | fine32
  | admission64
  | off
deriving DecidableEq, Repr

/-- `BI100_GDN_RESTORE_MODE`. -/
inductive GdnRestoreMode where
  | direct
  | hybrid64
  | chunk64
  | aligned
deriving DecidableEq, Repr

/-- The source's name of a mode, as its messages print it. -/
def GdnRestoreMode.name : GdnRestoreMode → String
  | .direct => "direct"
  | .hybrid64 => "hybrid64"
  | .chunk64 => "chunk64"
  | .aligned => "aligned"

variable {D : Type}

/-- `gdn_restore_alignment`. -/
def gdnRestoreAlignment (restoreMode : GdnRestoreMode) (blockSize schedulerChunkTokens : Nat) :
    Except Err Nat := do
  guardNot (blockSize = 0) (.valueError "block_size must be positive")
  if restoreMode = .direct then
    return blockSize
  let alignment :=
    if restoreMode = .aligned then schedulerChunkTokens else gdnKernelChunkTokens
  guardNot (alignment = 0 ∨ alignment % blockSize ≠ 0) (.valueError
    s!"{restoreMode.name} GDN restore requires a positive alignment divisible by block_size={blockSize}; got {alignment}")
  return alignment

/-- `make_prefix_key`. -/
def makePrefixKey (blockCount : Nat) (digest : D) : Except Err (GdnPrefixKey D) := do
  guardNot (blockCount = 0)
    (.valueError "GDN prefix key requires at least one complete block")
  return (blockCount, digest)

/-- `keys_from_block_hashes`. The block counts start at 1, so no key is refused. -/
def keysFromBlockHashes (blockHashes : List D) : List (GdnPrefixKey D) :=
  blockHashes.mapIdx fun i digest => (i + 1, digest)

/-- `strict_prefix_block_count`: the complete blocks before the last token. -/
def strictPrefixBlockCount (tokenCount blockSize : Nat) : Except Err Nat := do
  guardNot (blockSize = 0) (.valueError "block_size must be positive")
  return if tokenCount ≤ 1 then 0 else (tokenCount - 1) / blockSize

/-- The key of the first `blockCount` blocks, if there is one. -/
def keyOfBlockCount (blockHashes : List D) (blockCount : Nat) :
    Except Err (Option (GdnPrefixKey D)) :=
  if blockCount = 0 then
    pure none
  else
    match blockHashes[blockCount - 1]? with
    | some digest => some <$> makePrefixKey blockCount digest
    | none => throw (.indexError "list index out of range")

/-- `final_capture_key`. -/
def finalCaptureKey (blockHashes : List D) (promptTokens blockSize : Nat)
    (restoreMode : GdnRestoreMode) (replayAlignment : Nat) :
    Except Err (Option (GdnPrefixKey D)) := do
  if restoreMode = .direct ∨ restoreMode = .hybrid64 then
    let strict ← strictPrefixBlockCount promptTokens blockSize
    let blockCount := min blockHashes.length strict
    -- at least two tokens are left to replay
    let blockCount :=
      if 0 < blockCount ∧ promptTokens - blockCount * blockSize < gdnDirectMinReplayTokens
      then blockCount - 1 else blockCount
    keyOfBlockCount blockHashes blockCount
  else if replayAlignment = 0 then
    return none
  else do
    guardNot (blockSize = 0) .zeroDivisionError
    if replayAlignment % blockSize ≠ 0 ∨ promptTokens ≤ 1 then
      return none
    else
      let boundaryTokens := (promptTokens - 1) / replayAlignment * replayAlignment
      keyOfBlockCount blockHashes (min blockHashes.length (boundaryTokens / blockSize))

/-- `restore_key_is_eligible`. -/
def restoreKeyIsEligible [DecidableEq D] (key : GdnPrefixKey D) (promptTokens blockSize : Nat)
    (restoreMode : GdnRestoreMode) (replayAlignment : Nat)
    (directFinalKey : Option (GdnPrefixKey D)) : Except Err Bool := do
  let _ ← makePrefixKey key.1 key.2
  guardNot (blockSize = 0) (.valueError "block_size must be positive")
  let boundaryTokens := key.1 * blockSize
  let remainingTokens := promptTokens - boundaryTokens
  if remainingTokens = 0 then
    return false
  match restoreMode with
  | .direct => return decide (gdnDirectMinReplayTokens ≤ remainingTokens)
  | .hybrid64 =>
    if let some final := directFinalKey then
      let _ ← makePrefixKey final.1 final.2
    return decide (gdnDirectMinReplayTokens ≤ remainingTokens ∧ 0 < replayAlignment ∧
      (boundaryTokens % replayAlignment = 0 ∨ some key = directFinalKey))
  | .chunk64 | .aligned =>
    return decide (0 < replayAlignment ∧ boundaryTokens % replayAlignment = 0)

/-- One iteration of the loop in `capture_points_for_step`. -/
def selectCapture (physicalContextTokens logicalEndTokens blockSize : Nat)
    (selected : Dict Nat (GdnPrefixKey D)) (key : GdnPrefixKey D) :
    Except Err (Dict Nat (GdnPrefixKey D)) := do
  let _ ← makePrefixKey key.1 key.2
  let boundaryTokens := key.1 * blockSize
  return if physicalContextTokens < boundaryTokens ∧ boundaryTokens ≤ logicalEndTokens
    then selected.set (boundaryTokens - physicalContextTokens) key else selected

/-- `capture_points_for_step`. -/
def capturePointsForStep (targets : List (GdnPrefixKey D))
    (physicalContextTokens logicalEndTokens blockSize : Nat) :
    Except Err (List (GdnCapturePoint D)) := do
  if logicalEndTokens ≤ physicalContextTokens then
    return []
  let selected ← targets.foldlM
    (selectCapture physicalContextTokens logicalEndTokens blockSize) ∅
  -- the offsets are distinct, so the order of the items is that of the offsets
  let points := selected.entries.insertionSort fun p q => p.1 ≤ q.1
  guardNot (2 < points.length)
    (.valueError "at most two GDN capture points are allowed per step")
  return points

/-- One iteration of the loop in `cap_prefill_end_at_capture_boundary`. -/
def capAtKey (logicalStartTokens blockSize cappedEnd : Nat) (key : GdnPrefixKey D) :
    Except Err Nat := do
  let _ ← makePrefixKey key.1 key.2
  let boundaryTokens := key.1 * blockSize
  return if logicalStartTokens < boundaryTokens ∧ boundaryTokens < cappedEnd
    then boundaryTokens else cappedEnd

/-- `cap_prefill_end_at_capture_boundary`. -/
def capPrefillEndAtCaptureBoundary (logicalStartTokens logicalEndTokens : Nat)
    (targets : List (GdnPrefixKey D)) (blockSize : Nat) : Except Err Nat := do
  guardNot (logicalEndTokens < logicalStartTokens)
    (.valueError "logical end must not precede logical start")
  guardNot (blockSize = 0) (.valueError "block_size must be positive")
  targets.foldlM (capAtKey logicalStartTokens blockSize) logicalEndTokens

/-- `list(range(start, stop, step))` for a positive step. -/
def pyRange (start stop step : Nat) : List Nat :=
  (List.range ((stop - start + step - 1) / step)).map fun i => start + i * step

/-- The boundary that `canonical_direct_segment_offsets` adds for one step end. -/
def segmentBoundary (blockHashes : List D) (blockSize stepEnd : Nat) : Except Err (Finset Nat) := do
  match ← finalCaptureKey blockHashes stepEnd blockSize .direct blockSize with
  | some key => return {key.1 * blockSize}
  | none => return ∅

/-- `canonical_direct_segment_offsets`. -/
def canonicalDirectSegmentOffsets (blockHashes : List D)
    (physicalContextTokens logicalEndTokens blockSize schedulerChunkTokens : Nat) :
    Except Err (List Nat) := do
  guardNot (blockSize = 0 ∨ schedulerChunkTokens = 0)
    (.valueError "block and scheduler chunk sizes must be positive")
  guardNot (schedulerChunkTokens % blockSize ≠ 0)
    (.valueError "scheduler chunk size must be divisible by block size")
  if logicalEndTokens ≤ physicalContextTokens then
    return []
  let stepEnds := pyRange schedulerChunkTokens logicalEndTokens schedulerChunkTokens
  let keyed ← (stepEnds ++ [logicalEndTokens]).foldlM
    (fun acc stepEnd => (acc ∪ ·) <$> segmentBoundary blockHashes blockSize stepEnd) ∅
  let boundaries := (keyed ∪ stepEnds.toFinset).sort (· ≤ ·)
  return (boundaries.filter fun b =>
    physicalContextTokens < b ∧ b < logicalEndTokens).map (· - physicalContextTokens)

end Bi100
