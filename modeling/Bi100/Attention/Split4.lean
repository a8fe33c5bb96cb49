import Bi100.Attention.Fused
import Bi100.Lib.BlockReduce

/-!
# The split4 extension (`corex_fused_paged_prefill_split4.cu`)

A kernel gives the value of every element it is launched for; the elements of a buffer that no
kernel has written are never read. The products of cuBLAS are exact. `scores` is read with `-inf`
before `normalize_split_scores_kernel` and holds probabilities after it.
-/

namespace Bi100.Attention

open Py OnlineSoftmax BlockReduce

variable {K : Type} [OrderedExpField K]

def kTileTokens : Nat := 512
def kSplitCount : Nat := 4
def kGroupTokens : Nat := kSplitCount * kTileTokens
/-- `kThreads` is `2 ^ kThreadBits`. -/
def kThreadBits : Nat := 8

namespace Split4

/-- `convert_query_kernel` -/
def convertQueryKernel (query : Nat → K) (queryLen : Nat) (scale : K) : Nat → K := fun index =>
  let dim := index % kHeadDim
  let queryIndex := index / kHeadDim % queryLen
  let head := index / (kHeadDim * queryLen)
  let source := (queryIndex * kNumQueryHeads + head) * kHeadDim + dim
  query source * scale

/-- The offset of an element of the key cache. -/
def keyIndex (physicalBlock blockOffset dim : Nat) : Nat :=
  ((physicalBlock * kNumKvHeads * (kHeadDim / kKeyPack) + dim / kKeyPack) * kBlockSize +
    blockOffset) * kKeyPack + dim % kKeyPack

/-- The offset of an element of the value cache. -/
def valueIndex (physicalBlock blockOffset dim : Nat) : Nat :=
  (physicalBlock * kNumKvHeads * kHeadDim + dim) * kBlockSize + blockOffset

/-- `split_tokens` -/
def splitTokens (groupTokens split : Nat) : Nat := min (groupTokens - split * kTileTokens) kTileTokens

/-- `gather_kv_group_kernel`, for the keys and for the values. -/
def gatherKvGroupKernel (new cache : Nat → K) (cacheIndex : Nat → Nat → Nat → Nat)
    (blockTable : Nat → Int) (contextLen queryLen groupStart groupTokens : Nat) : Nat → K := fun index =>
  let kElements := kTileTokens * kHeadDim
  let split := index / kElements
  let element := index - split * kElements
  let tokenOffset := element / kHeadDim
  let dim := element - tokenOffset * kHeadDim
  let logicalToken := groupStart + split * kTileTokens + tokenOffset
  if tokenOffset ≥ splitTokens groupTokens split then 0
  else if logicalToken < contextLen then
    let logicalBlock := logicalToken / kBlockSize
    let blockOffset := logicalToken % kBlockSize
    let physicalBlock := (blockTable logicalBlock).toNat
    cache (cacheIndex physicalBlock blockOffset dim)
  else if logicalToken < contextLen + queryLen then
    let queryIndex := logicalToken - contextLen
    new (queryIndex * kHeadDim + dim)
  else 0

/-- `cublasSgemmStridedBatched` with `alpha = 1`, `beta = 0` and a dense result; matrices are
column-major. -/
def gemmStridedBatched (transA : Bool) (k : Nat) (A : Nat → K) (lda strideA : Nat) (B : Nat → K)
    (ldb strideB ldc strideC : Nat) : Nat → K := fun index =>
  let batch := index / strideC
  let col := index % strideC / ldc
  let row := index % strideC % ldc
  ∑ l ∈ Finset.range k,
    A (batch * strideA + if transA then row * lda + l else l * lda + row) *
      B (batch * strideB + col * ldb + l)

/-- `qk_batched` -/
def qkBatched (keyTile query : Nat → K) (queryLen : Nat) : Nat → K :=
  gemmStridedBatched true kHeadDim keyTile kHeadDim 0 query kHeadDim (queryLen * kHeadDim)
    kTileTokens (queryLen * kTileTokens)

/-- `pv_batched` -/
def pvBatched (valueTile scores : Nat → K) (queryLen : Nat) : Nat → K :=
  gemmStridedBatched false kTileTokens valueTile kHeadDim 0 scores kTileTokens
    (queryLen * kTileTokens) kHeadDim (queryLen * kHeadDim)

/-- A call for every split, on buffers with `strideIn` and `strideOut` elements a split. -/
def forSplits (strideOut : Nat) (f : Nat → Nat → K) : Nat → K := fun index =>
  f (index / strideOut) (index % strideOut)

/-- `mask_group_scores_kernel` -/
def maskGroupScoresKernel (scores : Nat → WithBot K)
    (queryLen contextLen groupStart groupTokens rows : Nat) (causal : Bool) : Nat → WithBot K :=
  fun index =>
    let splitElements := rows * kTileTokens
    let split := index / splitElements
    let splitIndex := index - split * splitElements
    let column := splitIndex % kTileTokens
    let row := splitIndex / kTileTokens
    let queryIndex := row % queryLen
    let logicalToken := groupStart + split * kTileTokens + column
    if column ≥ splitTokens groupTokens split ∨ (causal ∧ logicalToken > contextLen + queryIndex) then ⊥
    else scores index

/-- What `normalize_split_scores_kernel` keeps of a row. -/
structure RowState (K : Type) where
  stateMax : WithBot K
  stateSum : K

/-- `next_max` -/
def nextMax (rowScores : Nat → WithBot K) (s : RowState K) : WithBot K :=
  max s.stateMax (blockReduce max ⊥ kThreadBits kTileTokens rowScores)

/-- `correction`; `weightAt M s` is `expf(s - M)`. -/
def correction (rowScores : Nat → WithBot K) (s : RowState K) : K :=
  if s.stateMax = ⊥ ∧ nextMax rowScores s = ⊥ then 1 else weightAt (nextMax rowScores s) s.stateMax

/-- `probability` -/
def probability (rowScores : Nat → WithBot K) (s : RowState K) (column : Nat) : K :=
  if rowScores column = ⊥ ∧ nextMax rowScores s = ⊥ then 0
  else weightAt (nextMax rowScores s) (rowScores column)

/-- The body of the loop over the splits, for a row. -/
def normalizeSplit (rowScores : Nat → WithBot K) (s : RowState K) : RowState K where
  stateMax := nextMax rowScores s
  stateSum := s.stateSum * correction rowScores s +
    blockReduce (· + ·) 0 kThreadBits kTileTokens (probability rowScores s)

/-- `row_scores` -/
def rowScores (scores : Nat → WithBot K) (rows row split : Nat) : Nat → WithBot K := fun column =>
  scores ((split * rows + row) * kTileTokens + column)

/-- `normalize_split_scores_kernel`: a row after `n` splits. -/
def normalizeSplits (scores : Nat → WithBot K) (rows row : Nat) (s : RowState K) : Nat → RowState K
  | 0 => s
  | n + 1 => normalizeSplit (rowScores scores rows row n) (normalizeSplits scores rows row s n)

/-- `merge_split_output_kernel`: an element after `n` splits. -/
def mergeSplits (value : K) (splitOutput corrections : Nat → K) : Nat → K
  | 0 => value
  | n + 1 => mergeSplits value splitOutput corrections n * corrections n + splitOutput n

/-! ## The entry point -/

structure State (K : Type) where
  runningMax : Nat → WithBot K
  runningSum : Nat → K
  runningOutput : Nat → K

/-- A row of the state. -/
def State.row (st : State K) (row : Nat) : RowState K := ⟨st.runningMax row, st.runningSum row⟩

/-- `context_len` -/
def contextLen (a : EntryArgs K) : Nat := a.contextLenArg.toNat

/-- `query_len` -/
def queryLen (a : EntryArgs K) : Nat := a.query.size 0

/-- `rows` -/
def rows (a : EntryArgs K) : Nat := kNumQueryHeads * queryLen a

/-- `scores` after `qk_batched` and `mask_group_scores_kernel`. -/
def groupScores (a : EntryArgs K) (groupStart groupTokens : Nat) (causal : Bool) : Nat → WithBot K :=
  let activeSplits := (groupTokens + kTileTokens - 1) / kTileTokens
  let convertedQuery := convertQueryKernel a.query.data (queryLen a) a.scaleArg
  let keyTiles := gatherKvGroupKernel a.keyNew.data a.keyCache.data keyIndex a.blockTable.data
    (contextLen a) (queryLen a) groupStart groupTokens
  let keySplitStride := kTileTokens * kHeadDim
  let products : Nat → WithBot K := fun index =>
    (forSplits (rows a * kTileTokens) (fun split =>
      qkBatched (fun i => keyTiles (split * keySplitStride + i)) convertedQuery (queryLen a)) index : K)
  let needsMask := causal ∨ groupTokens ≠ activeSplits * kTileTokens
  if needsMask then
    maskGroupScoresKernel products (queryLen a) (contextLen a) groupStart groupTokens (rows a) causal
  else products

/-- `corrections` -/
def corrections (scores : Nat → WithBot K) (rows : Nat) (st : State K) : Nat → K := fun index =>
  let split := index / rows
  let row := index % rows
  correction (rowScores scores rows row split) (normalizeSplits scores rows row (st.row row) split)

/-- `scores` after `normalize_split_scores_kernel`. -/
def probabilities (scores : Nat → WithBot K) (rows : Nat) (st : State K) : Nat → K := fun index =>
  let column := index % kTileTokens
  let row := index / kTileTokens % rows
  let split := index / kTileTokens / rows
  probability (rowScores scores rows row split) (normalizeSplits scores rows row (st.row row) split)
    column

/-- `value_tiles` -/
def valueTiles (a : EntryArgs K) (groupStart groupTokens : Nat) : Nat → K :=
  gatherKvGroupKernel a.valueNew.data a.valueCache.data valueIndex a.blockTable.data (contextLen a)
    (queryLen a) groupStart groupTokens

/-- `split_output` -/
def splitOutput (a : EntryArgs K) (valueTiles probabilities : Nat → K) : Nat → K :=
  let keySplitStride := kTileTokens * kHeadDim
  let scoreSplitStride := rows a * kTileTokens
  forSplits (rows a * kHeadDim) fun split =>
    pvBatched (fun i => valueTiles (split * keySplitStride + i))
      (fun i => probabilities (split * scoreSplitStride + i)) (queryLen a)

/-- `run_group` -/
def runGroup (a : EntryArgs K) (groupStart groupTokens : Nat) (causal : Bool) (st : State K) :
    Except String (State K) := do
  let activeSplits := (groupTokens + kTileTokens - 1) / kTileTokens
  torchCheck (activeSplits > 0 ∧ activeSplits ≤ kSplitCount)
    "invalid split count for paged-prefill group"
  let scores := groupScores a groupStart groupTokens causal
  let output := splitOutput a (valueTiles a groupStart groupTokens) (probabilities scores (rows a) st)
  let outputElements := rows a * kHeadDim
  pure {
    runningMax := fun row => (normalizeSplits scores (rows a) row (st.row row) activeSplits).stateMax
    runningSum := fun row => (normalizeSplits scores (rows a) row (st.row row) activeSplits).stateSum
    runningOutput := fun index =>
      let row := index / kHeadDim
      mergeSplits (st.runningOutput index) (fun split => output (split * outputElements + index))
        (fun split => corrections scores (rows a) st (split * rows a + row)) activeSplits }

/-- The loops over the groups of the context and of the query. -/
def runGroups (a : EntryArgs K) (start tokens : Nat) (causal : Bool) (st : State K) :
    Except String (State K) :=
  (List.range ((tokens + kGroupTokens - 1) / kGroupTokens)).foldlM (fun st i =>
    runGroup a (start + i * kGroupTokens) (min kGroupTokens (tokens - i * kGroupTokens)) causal st) st

/-- `running_output.div_(running_sum)`, permuted. -/
def output (a : EntryArgs K) (st : State K) (query head dim : Nat) : Option K :=
  let row := head * queryLen a + query
  if st.runningSum row = 0 then none
  else some (st.runningOutput (row * kHeadDim + dim) / st.runningSum row)

end Split4

/-- `fused_paged_prefill_forward`, without the second result. -/
def fusedPagedPrefillForward (a : EntryArgs K) : Except String (Nat → Nat → Nat → Option K) := do
  a.checks ((a.contextLenArg + kBlockSize - 1) / kBlockSize)
  torchCheck (a.query.size 0 ≤ 2147483647 / kNumQueryHeads) "query length overflows row count"
  let st : Split4.State K := ⟨fun _ => ⊥, fun _ => 0, fun _ => 0⟩
  let st ← Split4.runGroups a 0 (Split4.contextLen a) false st
  let st ← Split4.runGroups a (Split4.contextLen a) (Split4.queryLen a) true st
  pure (Split4.output a st)

end Bi100.Attention
