import Bi100.Attention.Causal

/-!
# Decode attention (`paged_attn.py`, `paged_attention_v2_pytorch.py`)

One query token for each sequence, in exact arithmetic, over the tokens of the cache.

- `forwardDecodePytorch`: `_forward_decode_pytorch`, tile by tile.
- `pagedAttentionV2Pytorch`: `paged_attention_v2_pytorch`, in partitions that are combined at the
  end. The buffers for the partitions are as wide as there are partitions. The block-sparse
  arguments, `tp_rank` and `kv_cache_dtype` are not used by the source either.
-/

namespace Bi100.Attention

open Py OnlineSoftmax ExpField

variable {K : Type} [OrderedExpField K] {d : Nat}

structure DecodeBatch (K : Type) (d : Nat) where
  query : List (Row K d)
  cache : PagedCache K
  blockTables : List (List Nat)
  seqLens : List Nat
  gqaRatio : Nat
  scale : K

/-! ## `_forward_decode_pytorch` -/

namespace DecodeBatch

def seqLen (b : DecodeBatch K d) (i : Nat) : Nat := b.seqLens.getD i 0

/-- `num_blocks_i` -/
def numBlocks (b : DecodeBatch K d) (i : Nat) : Nat :=
  (b.seqLen i + b.cache.blockSize - 1) / b.cache.blockSize

/-- `blk_ids` -/
def blkIds (b : DecodeBatch K d) (i : Nat) : List Nat :=
  (b.blockTables.getD i []).take (b.numBlocks i)

/-- `tile_blocks`: two tiles, of at least 128 and at most 8192 blocks. -/
def tileBlocks (b : DecodeBatch K d) (i : Nat) : Nat :=
  max 128 (min 8192 ((b.numBlocks i + 2 - 1) / 2))

/-- The keys and the values of the tile that starts at block `tileStart`. -/
def tile (b : DecodeBatch K d) (i tileStart : Nat) : List (Row K d) × List (Row K d) :=
  let tileEnd := min (tileStart + b.tileBlocks i) (b.numBlocks i)
  let tileBlkIds := slice (b.blkIds i) tileStart tileEnd
  let tileTokenStart := tileStart * b.cache.blockSize
  let tileTokenEnd := min (tileEnd * b.cache.blockSize) (b.seqLen i)
  let validTokens := tileTokenEnd - tileTokenStart
  ((b.cache.kBlocks d tileBlkIds).take validTokens, (b.cache.vBlocks d tileBlkIds).take validTokens)

/-- `torch.matmul(q_grouped, k_t)`, for a head. -/
def scores (b : DecodeBatch K d) (head : Nat) (q : Row K d) (keys : List (Row K d)) : List K :=
  keys.map fun k => ∑ c, q head c * b.scale * k (head / b.gqaRatio) c

end DecodeBatch

/-- `_PARTITION_SIZE` -/
def partitionSize : Nat := 1024

structure DecodeBatchV2 (K : Type) (d : Nat) extends DecodeBatch K d where
  alibiSlopes : Option (Nat → K)
  kScale : K
  vScale : K

/-- What is written for a head of a sequence: its row of the output, and `max_logits`, `exp_sums`
and `tmp_output` of its partitions. -/
structure HeadV2 (K : Type) (d : Nat) where
  output : Fin d → K
  maxLogits : List (WithBot K)
  expSums : List K
  tmpOutput : List (Fin d → K)

/-- `scores_parts.max`, the sum of `scores_exp`, and its product with the values. -/
def partition (scores : List (WithBot K)) (values : List (Fin d → K)) :
    Option (Running K (Fin d)) :=
  match scores.foldr max ⊥ with
  -- The scores of a partition without a token are not numbers.
  | ⊥ => none
  | (partMax : K) =>
    let scoresExp := scores.map (weight partMax)
    some {
      max := partMax
      sum := scoresExp.sum
      out := fun c => (List.zipWith (fun p v => p * v c) scoresExp values).sum }

/-- Phase 2: `torch.bmm(rescale, po) / total`. -/
def combine (parts : List (Running K (Fin d))) : Option (Fin d → K) :=
  match (parts.map Running.max).foldr max ⊥ with
  | ⊥ => none
  | (globalMax : K) =>
    let rescale := parts.map fun p => weight globalMax p.max * p.sum
    some fun c => (List.zipWith (fun w p => w * p.out c) rescale parts).sum / rescale.sum

namespace DecodeBatchV2

/-- `k_flat` -/
def kFlat (b : DecodeBatchV2 K d) (i : Nat) : List (Row K d) :=
  let k := (b.cache.kBlocks d (b.blkIds i)).take (b.seqLen i)
  if b.kScale = 1 then k else k.map fun row head c => row head c * b.kScale

/-- `v_flat` -/
def vFlat (b : DecodeBatchV2 K d) (i : Nat) : List (Row K d) :=
  let v := (b.cache.vBlocks d (b.blkIds i)).take (b.seqLen i)
  if b.vScale = 1 then v else v.map fun row head c => row head c * b.vScale

/-- The scores of a head, with the bias. -/
def scoresAll (b : DecodeBatchV2 K d) (i head : Nat) (q : Row K d) : List K :=
  let scores := (b.kFlat i).map fun k => (∑ c, q head c * k (head / b.gqaRatio) c) * b.scale
  match b.alibiSlopes with
  | none => scores
  | some slopes => scores.mapIdx fun p s => s + slopes head * p

def values (b : DecodeBatchV2 K d) (i head : Nat) : List (Fin d → K) :=
  (b.vFlat i).map fun v => v (head / b.gqaRatio)

def numPartitions (b : DecodeBatchV2 K d) (i : Nat) : Nat :=
  (b.seqLen i + partitionSize - 1) / partitionSize

/-- The fast path: `torch.softmax`, and the weighted values. -/
def singleTile (scores : List K) (values : List (Fin d → K)) : Option (HeadV2 K d) :=
  match (scores.map fun (s : K) => (s : WithBot K)).foldr max ⊥ with
  | ⊥ => none
  | (M : K) =>
    let total := (scores.map fun s => exp (s - M)).sum
    let weights := scores.map fun s => exp (s - M) / total
    let output := fun c => (List.zipWith (fun p v => p * v c) weights values).sum
    some ⟨output, [M], [weights.sum], [output]⟩

/-- The partitions of the padded scores and values, and phase 2. -/
def partitions (numPartitions : Nat) (scores : List K) (values : List (Fin d → K)) :
    Option (HeadV2 K d) := do
  let paddedLen := numPartitions * partitionSize
  let scoresPadded := scores.map (fun (s : K) => (s : WithBot K)) ++
    List.replicate (paddedLen - scores.length) ⊥
  let vPadded := values ++ List.replicate (paddedLen - values.length) fun _ => 0
  let parts ← (List.range numPartitions).mapM fun p =>
    partition (slice scoresPadded (p * partitionSize) (p * partitionSize + partitionSize))
      (slice vPadded (p * partitionSize) (p * partitionSize + partitionSize))
  let output ← combine parts
  pure ⟨output, parts.map Running.max, parts.map Running.sum, parts.map Running.out⟩

/-- What is written for a head of sequence `i`. -/
def row (b : DecodeBatchV2 K d) (i : Nat) (q : Row K d) (head : Nat) : Option (HeadV2 K d) :=
  if b.seqLen i = 0 then some ⟨fun _ => 0, [], [], []⟩
  else if b.numPartitions i = 1 then singleTile (b.scoresAll i head q) (b.values i head)
  else partitions (b.numPartitions i) (b.scoresAll i head q) (b.values i head)

end DecodeBatchV2

def pagedAttentionV2Pytorch (b : DecodeBatchV2 K d) : List (Nat → Option (HeadV2 K d)) :=
  b.query.mapIdx b.row

end Bi100.Attention
