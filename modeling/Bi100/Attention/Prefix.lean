import Bi100.Lib.Except
import Bi100.Lib.OnlineSoftmax
import Bi100.Lib.Slices

/-!
# Prefix attention (`paged_attn.py`)

`_forward_prefix_pytorch` in exact arithmetic, with the fused path and the activation capture
switched off. A tensor over tokens is a list of tokens; a token gives a vector to every head. The
rows and the heads of a segment are computed in the same way and never meet, so the running values
are those of one row of one head. `none` is not a number.
-/

namespace Bi100.Attention

open Py OnlineSoftmax

variable {K : Type} [OrderedExpField K] {d : Nat}

inductive PrefixError where
  | valueError (msg : String)
  | runtimeError (msg : String)
deriving DecidableEq, Repr

/-- What a token gives to the heads. -/
abbrev Row (K : Type) (d : Nat) := Nat → Fin d → K

/-- What is computed for a token. -/
abbrev OutRow (K : Type) (d : Nat) := Nat → Fin d → Option K

/-- `key_cache` of shape `[num_blocks, num_kv_heads, head_dim // x, block_size, x]` and
`value_cache` of shape `[num_blocks, num_kv_heads, head_dim, block_size]`. -/
structure PagedCache (K : Type) where
  blockSize : Nat
  x : Nat
  keyCache : Nat → Nat → Nat → Nat → Nat → K
  valueCache : Nat → Nat → Nat → Nat → K

/-- `key_cache[blk_ids]`, permuted and viewed as tokens. -/
def PagedCache.kBlocks (cache : PagedCache K) (d : Nat) (blkIds : List Nat) : List (Row K d) :=
  blkIds.flatMap fun b => (List.range cache.blockSize).map fun s head c =>
    cache.keyCache b head (c / cache.x) s (c % cache.x)

/-- `value_cache[blk_ids]`, permuted and viewed as tokens. -/
def PagedCache.vBlocks (cache : PagedCache K) (d : Nat) (blkIds : List Nat) : List (Row K d) :=
  blkIds.flatMap fun b => (List.range cache.blockSize).map fun s head c =>
    cache.valueCache b head c s

/-! ## Segments and tiles -/

/-- `_strict_prefix_query_segments` -/
def strictPrefixQuerySegments (contextLen queryLen blockSize : Nat) : List (Nat × Nat × Nat) :=
  if queryLen = 0 then []
  else
    let totalLen := contextLen + queryLen
    let strictPrefixLen := (totalLen - 1) / blockSize * blockSize
    -- `split` is positive when the strict prefix is longer than the context.
    let split := strictPrefixLen - contextLen
    if 0 < split ∧ split < queryLen then
      [(0, split, contextLen), (split, queryLen, strictPrefixLen)]
    else [(0, queryLen, contextLen)]

/-- `_prefix_context_tile_spans` -/
def prefixContextTileSpans (blockContextLen prefixQueryLen tileSize : Nat) :
    Except PrefixError (List (Nat × Nat × Nat × Nat)) := do
  guardNot (tileSize = 0)
    (.valueError "context lengths must be non-negative and tile_size > 0")
  let total := blockContextLen + prefixQueryLen
  pure ((List.range ((total + tileSize - 1) / tileSize)).map fun (i : Nat) =>
    let tileStart := i * tileSize
    let tileEnd := min (tileStart + tileSize) total
    (min tileStart blockContextLen, min tileEnd blockContextLen,
      tileStart - blockContextLen, tileEnd - blockContextLen))

/-- `_validate_prefix_block_table`; `allowCap` is `BI100_ALLOW_PREFIX_GUARD_CAP`. -/
def validatePrefixBlockTable (allowCap : Bool) (seqIndex numCtxBlocks blockTableWidth ctxLen : Nat) :
    Except PrefixError Nat :=
  if numCtxBlocks ≤ blockTableWidth then pure numCtxBlocks
  else if allowCap then pure blockTableWidth
  else throw (.runtimeError ("seq " ++ toString seqIndex ++ ": num_ctx_blocks=" ++
    toString numCtxBlocks ++ " > block_tables.shape[1]=" ++ toString blockTableWidth ++ ", ctx_len=" ++
    toString ctxLen ++ ". Block table is undersized; " ++
    "refusing to truncate context because attention would be incorrect."))

/-- The inputs of `_forward_prefix_segment_pytorch`, without the fused path. -/
structure Segment (K : Type) (d : Nat) where
  query : List (Row K d)
  key : List (Row K d)
  value : List (Row K d)
  prefixKey : List (Row K d)
  prefixValue : List (Row K d)
  cache : PagedCache K
  /-- The row `seq_index` of `block_tables`. -/
  blockTable : List Nat
  seqIndex : Nat
  blockContextLen : Nat
  gqaRatio : Nat
  tileSz : Nat
  scale : K
  allowCap : Bool

namespace Segment

/-- The keys and the values of a context tile. -/
def contextTile (s : Segment K d) (span : Nat × Nat × Nat × Nat) : List (Row K d) × List (Row K d) :=
  let (blockStart, blockEnd, prefixStart, prefixEnd) := span
  let firstBlock := blockStart / s.cache.blockSize
  let lastBlock := (blockEnd + s.cache.blockSize - 1) / s.cache.blockSize
  let blkIds := slice s.blockTable firstBlock lastBlock
  let offset := blockStart - firstBlock * s.cache.blockSize
  let length := blockEnd - blockStart
  let ofBlocks (blocks : List (Row K d)) : List (Row K d) :=
    if blockStart < blockEnd then slice blocks offset (offset + length) else []
  let ofPrefix (tokens : List (Row K d)) : List (Row K d) :=
    if prefixStart < prefixEnd then slice tokens prefixStart prefixEnd else []
  (ofBlocks (s.cache.kBlocks d blkIds) ++ ofPrefix s.prefixKey,
    ofBlocks (s.cache.vBlocks d blkIds) ++ ofPrefix s.prefixValue)

/-- `q_seq @ k_t`, for one row of one head. -/
def scores (s : Segment K d) (head : Nat) (q : Row K d) (keys : List (Row K d)) : List K :=
  keys.map fun k => ∑ c, q head c * s.scale * k (head / s.gqaRatio) c

/-- The values of the head. -/
def headValues (s : Segment K d) (head : Nat) (values : List (Row K d)) : List (Fin d → K) :=
  values.map fun v => v (head / s.gqaRatio)

end Segment

/-- `_update_online_softmax_from_scores` -/
def updateOnlineSoftmaxFromScores (scores : List (WithBot K)) (values : List (Fin d → K))
    (running : Option (Running K (Fin d))) : Option (Running K (Fin d)) := do
  let r ← running
  let blockMax := scores.foldr max ⊥
  match max r.max blockMax with
  -- The differences of two infinite scores are not numbers.
  | ⊥ => none
  | (newMax : K) =>
    let expScores := scores.map (weight newMax)
    let correction := weight newMax r.max
    some {
      max := newMax
      sum := r.sum * correction + expScores.sum
      out := fun c => r.out c * correction + (List.zipWith (fun p v => p * v c) expScores values).sum }

/-- `_update_online_softmax` -/
def updateOnlineSoftmax (scores : List K) (values : List (Fin d → K))
    (running : Option (Running K (Fin d))) : Option (Running K (Fin d)) :=
  updateOnlineSoftmaxFromScores (scores.map fun (s : K) => (s : WithBot K)) values running

namespace Segment

/-- The loop over the context tiles. -/
def runContext (s : Segment K d) (head : Nat) (q : Row K d)
    (tiles : List (List (Row K d) × List (Row K d))) (running : Option (Running K (Fin d))) :
    Option (Running K (Fin d)) :=
  tiles.foldl (fun running (kContext, vContext) =>
    updateOnlineSoftmax (s.scores head q kContext) (s.headValues head vContext) running) running

/-- The loop over the tiles of the segment's own tokens, for row `row`. -/
def runCurrent (s : Segment K d) (head row : Nat) (q : Row K d)
    (running : Option (Running K (Fin d))) : Option (Running K (Fin d)) :=
  let qLen := s.query.length
  (List.range ((qLen + s.tileSz - 1) / s.tileSz)).foldl (fun running i =>
    let keyStart := i * s.tileSz
    let keyEnd := min (keyStart + s.tileSz) qLen
    let scores := (s.scores head q (slice s.key keyStart keyEnd)).mapIdx fun j (score : K) =>
      if row < keyStart + j then ⊥ else (score : WithBot K)
    updateOnlineSoftmaxFromScores scores (s.headValues head (slice s.value keyStart keyEnd)) running)
    running

end Segment

/-- `o.div_(l)` -/
def divide (running : Option (Running K (Fin d))) : Fin d → Option K := fun c => do
  let r ← running
  if r.sum = 0 then none else some (r.out c / r.sum)

/-- `_forward_prefix_segment_pytorch` -/
def forwardPrefixSegmentPytorch (s : Segment K d) : Except PrefixError (List (OutRow K d)) := do
  let blockSize := s.cache.blockSize
  if 0 < s.blockContextLen then
    let numCtxBlocks := (s.blockContextLen + blockSize - 1) / blockSize
    let _ ← validatePrefixBlockTable s.allowCap s.seqIndex numCtxBlocks s.blockTable.length
      s.blockContextLen
  let spans ← prefixContextTileSpans s.blockContextLen s.prefixKey.length s.tileSz
  pure (s.query.mapIdx fun row q head =>
    divide (s.runCurrent head row q (s.runContext head q (spans.map s.contextTile)
      (some Running.init))))

/-! ## The batch -/

/-- The inputs of `_forward_prefix_pytorch`. -/
structure Batch (K : Type) (d : Nat) where
  query : List (Row K d)
  key : List (Row K d)
  value : List (Row K d)
  cache : PagedCache K
  blockTables : List (List Nat)
  queryStartLoc : List Nat
  contextLens : List Int
  gqaRatio : Nat
  blocksPerTile : Nat
  scale : K
  allowCap : Bool

/-- Rows of the output that have been assigned. -/
abbrev Output (K : Type) (d : Nat) := Nat → Option (OutRow K d)

/-- `output[start:...] = rows` -/
def Output.write (output : Output K d) (start : Nat) (rows : List (OutRow K d)) : Output K d :=
  fun t => if start ≤ t ∧ t < start + rows.length then rows[t - start]? else output t

namespace Batch

/-- The context length of a sequence, where a length beyond its block table counts as none. -/
def ctxLen (b : Batch K d) (i : Nat) : Nat :=
  let maxPhysicalCtx := ((b.blockTables.getD i []).length * b.cache.blockSize : Nat)
  let ctxLen := b.contextLens.getD i 0
  if ctxLen < 0 ∨ maxPhysicalCtx < ctxLen then 0 else ctxLen.toNat

/-- `q_start` -/
def qStart (b : Batch K d) (i : Nat) : Nat := b.queryStartLoc.getD i 0

/-- The inputs of a segment of sequence `i`. -/
def segment (b : Batch K d) (i segStart segEnd : Nat) : Segment K d where
  query := slice b.query (b.qStart i + segStart) (b.qStart i + segEnd)
  key := slice b.key (b.qStart i + segStart) (b.qStart i + segEnd)
  value := slice b.value (b.qStart i + segStart) (b.qStart i + segEnd)
  prefixKey := slice b.key (b.qStart i) (b.qStart i + segStart)
  prefixValue := slice b.value (b.qStart i) (b.qStart i + segStart)
  cache := b.cache
  blockTable := b.blockTables.getD i []
  seqIndex := i
  blockContextLen := b.ctxLen i
  gqaRatio := b.gqaRatio
  tileSz := b.blocksPerTile * b.cache.blockSize
  scale := b.scale
  allowCap := b.allowCap

/-- The loop over the segments of a sequence. -/
def runSegments (b : Batch K d) (i : Nat) :
    List (Nat × Nat × Nat) → Output K d → Except PrefixError (Output K d)
  | [], output => pure output
  | (segStart, segEnd, _) :: rest, output => do
    let rows ← forwardPrefixSegmentPytorch (b.segment i segStart segEnd)
    b.runSegments i rest (output.write (b.qStart i + segStart) rows)

/-- The loop over the batch. -/
def runBatch (b : Batch K d) : List Nat → Output K d → Except PrefixError (Output K d)
  | [], output => pure output
  | i :: rest, output => do
    let qLen := b.qStart (i + 1) - b.qStart i
    let output ← b.runSegments i (strictPrefixQuerySegments (b.ctxLen i) qLen b.cache.blockSize) output
    b.runBatch rest output

end Batch

/-- `_forward_prefix_pytorch` -/
def forwardPrefixPytorch (b : Batch K d) : Except PrefixError (Output K d) :=
  b.runBatch (List.range b.contextLens.length) fun _ => none

end Bi100.Attention
