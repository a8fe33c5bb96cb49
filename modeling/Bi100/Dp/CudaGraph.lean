import Bi100.Base
import Bi100.Lib.Dict
import Bi100.Lib.Except

/-!
# The CUDA graph runner for data parallel decode (`decode_cuda_graph.py`)

A graph is captured for each bucket of the batch size, under the key of the rounded size. A tensor
is the list of its entries, and `input_ids` is only its number of rows. The model, the device and
the slots of an entry that `warmup` does not set are left out.
-/

namespace Bi100.Dp

open Py

/-- `range(start, stop, step)`, for a positive step. -/
def pyRange (start stop step : Int) : List Int :=
  (List.range ((stop - start + step - 1) / step).toNat).map fun (i : Nat) => start + step * (i : Int)

/-- `repr` of a tuple. -/
def tupleRepr : List Int → String
  | [x] => s!"({x},)"
  | xs => "(" ++ ", ".intercalate (xs.map toString) ++ ")"

/-- `_decode_bucket` -/
def decodeBucket (batchSize : Int) : Int :=
  if batchSize ≤ 0 then 1
  else if batchSize ≤ 8 then 8
  else (batchSize + 15) / 16 * 16

/-- `_decode_graph_buckets` -/
def decodeGraphBuckets (maxBatch : Int) (dpSize : Nat) : List Int :=
  let maxLocalBatch := (maxBatch + dpSize - 1) / dpSize
  let maxGraphBatch := min (decodeBucket maxLocalBatch) maxBatch
  ([1, 2, 4, 8].filter fun size => size ≤ maxGraphBatch) ++ pyRange 16 (maxGraphBatch + 1) 16

structure StaticAttentionMetadata where
  slotMapping : List Int
  pagedKvIndptr : List Int
  pagedKvIndices : List Int
  pagedKvLastPageLen : List Int
  isPrefill : Bool
  isChunkedPrefill : Bool
  dpTokenCounts : List Int
  dpIsDecode : List Int
deriving DecidableEq, Repr

/-- `_DecodeGraphEntry` -/
structure DecodeGraphEntry where
  batchSize : Int
  staticMetadata : StaticAttentionMetadata
deriving DecidableEq, Repr

structure DecodeCudaGraphRunner where
  maxBatch : Int
  dpSize : Nat
  dpRank : Nat
  dpSize_pos : 0 < dpSize
  dpRank_lt : dpRank < dpSize
  graphs : Dict (Int × List Int) DecodeGraphEntry
  warmedUp : Bool

/-- The checks of the constructors. -/
def checkRank (dpSize dpRank : Int) : Except Err (PLift (0 ≤ dpRank ∧ dpRank < dpSize)) :=
  if dpSize ≤ 0 then throw (.valueError "dp_size must be positive")
  else if h : 0 ≤ dpRank ∧ dpRank < dpSize then pure ⟨h⟩
  else throw (.valueError "dp_rank must be in [0, dp_size)")

theorem toNat_rank_lt {dpSize dpRank : Int} (h : PLift (0 ≤ dpRank ∧ dpRank < dpSize)) :
    dpRank.toNat < dpSize.toNat := by
  have h := h.down
  omega

namespace DecodeCudaGraphRunner

/-- A new runner. -/
def new (maxBatch : Int) (dpSize dpRank : Nat) (h : dpRank < dpSize) : DecodeCudaGraphRunner :=
  ⟨maxBatch, dpSize, dpRank, Nat.zero_lt_of_lt h, h, ∅, false⟩

/-- `__init__` -/
def mk? (maxBatch dpSize dpRank : Int) : Except Err DecodeCudaGraphRunner := do
  let h ← checkRank dpSize dpRank
  pure (new maxBatch dpSize.toNat dpRank.toNat (toNat_rank_lt h))

variable (r : DecodeCudaGraphRunner)

def buckets : List Int := decodeGraphBuckets r.maxBatch r.dpSize

/-- The errors of `graph_key`. -/
def lengthErr (counts : List Int) : Err := .runtimeError
  (s!"DP decode step requires valid dp_token_counts (got length {counts.length}, expected " ++
    s!"{r.dpSize}). All DP ranks must use the same graph shape.")

def negativeErr (counts : List Int) : Err :=
  .runtimeError ("dp_token_counts contains negative value: " ++ tupleRepr counts)

def localErr (count : Int) (rows : Nat) : Err := .runtimeError
  (s!"dp_token_counts[{r.dpRank}]={count} exceeds local input_ids size {rows}")

/-- `graph_key`, for `input_ids` with `rows` rows. -/
def graphKey (rows : Nat) (dpTokenCounts dpIsDecode : Option (List Int)) :
    Except Err (Option (Int × List Int)) :=
  let maxGraphBatch := r.buckets.getLast?.getD 0
  if r.dpSize = 1 then
    let padded := decodeBucket rows
    if maxGraphBatch < padded then pure none else pure (some (padded, [padded]))
  else
    match dpTokenCounts with
    | none => pure none
    | some counts =>
      if h : counts.length ≠ r.dpSize then throw (r.lengthErr counts)
      else if dpIsDecode.any fun flags => ¬ flags.all (· ≠ 0) then pure none
      else if counts.any (· < 0) then throw (negativeErr counts)
      else
        let own := counts.get ⟨r.dpRank, by have := r.dpRank_lt; omega⟩
        if rows < own then throw (r.localErr own rows)
        else
          let globalBatch := max (counts.max?.getD 0) rows
          let padded := decodeBucket globalBatch
          if maxGraphBatch < padded then pure none
          else pure (some (padded, List.replicate r.dpSize padded))

/-- The metadata of `warmup` for a bucket. -/
def staticMetadata (batchSize : Int) : StaticAttentionMetadata where
  slotMapping := List.replicate batchSize.toNat 0
  pagedKvIndptr := (List.range (batchSize + 1).toNat).map fun (i : Nat) => (i : Int)
  pagedKvIndices := List.replicate batchSize.toNat 0
  pagedKvLastPageLen := List.replicate batchSize.toNat 1
  isPrefill := false
  isChunkedPrefill := false
  dpTokenCounts := List.replicate r.dpSize batchSize
  dpIsDecode := List.replicate r.dpSize 1

/-- `warmup` for one bucket. -/
def capture (graphs : Dict (Int × List Int) DecodeGraphEntry) (batchSize : Int) :
    Except Err (Dict (Int × List Int) DecodeGraphEntry) := do
  let metadata := r.staticMetadata batchSize
  let key ← r.graphKey batchSize.toNat (some metadata.dpTokenCounts) (some metadata.dpIsDecode)
  match key with
  | none => pure graphs
  | some key => pure (graphs.set key ⟨batchSize, metadata⟩)

/-- `warmup` -/
def warmup : Except Err DecodeCudaGraphRunner :=
  if r.warmedUp then pure r
  else do
    let graphs ← r.buckets.reverse.foldlM r.capture r.graphs
    pure { r with graphs := graphs, warmedUp := true }

/-- `can_execute` -/
def canExecute (rows : Nat) (dpTokenCounts dpIsDecode : Option (List Int)) : Except Err Bool := do
  let key ← r.graphKey rows dpTokenCounts dpIsDecode
  pure key.isSome

end DecodeCudaGraphRunner

end Bi100.Dp
