import Bi100.Attention.Split4

/-!
# The query-tiled extension (`corex_query_tiled_paged_prefill.cu`)

A block computes sixteen rows of one head. The tile products of the tensor cores are exact, and a
matrix in shared memory is read by row and column.
-/

namespace Bi100.Attention

open Py OnlineSoftmax BlockReduce

variable {K : Type} [OrderedExpField K]

namespace QueryTiled

def kQueryTile : Nat := 16
def kKeyTile : Nat := 16
def kReductionTokens : Nat := 512
def kKeyTilesPerReduction : Nat := kReductionTokens / kKeyTile
def kPvReductionSplits : Nat := 4
def kKeyTilesPerPvSplit : Nat := kKeyTilesPerReduction / kPvReductionSplits
def kMmaK : Nat := 16
def kDimTiles : Nat := kHeadDim / kMmaK

/-- `wmma::mma_sync` -/
def mmaSync (a b acc : Nat → Nat → K) : Nat → Nat → K := fun row column =>
  acc row column + fold (· + ·) 0 (fun k => a row k * b k column) kMmaK

/-- `load_key` and `load_value` -/
def loadKv (new cache : Nat → K) (cacheIndex : Nat → Nat → Nat → Nat) (blockTable : Nat → Int)
    (logicalToken contextLen dim : Nat) : K :=
  if logicalToken < contextLen then
    let logicalBlock := logicalToken / kBlockSize
    let blockOffset := logicalToken % kBlockSize
    let physicalBlock := (blockTable logicalBlock).toNat
    cache (cacheIndex physicalBlock blockOffset dim)
  else
    let queryIndex := logicalToken - contextLen
    new (queryIndex * kHeadDim + dim)

/-- The state of a block in shared memory. -/
structure State (K : Type) where
  runningMax : Nat → WithBot K
  runningSum : Nat → K
  runningOutput : Nat → Nat → K

/-- `context_len` -/
def contextLen (a : EntryArgs K) : Nat := a.contextLenArg.toNat

/-- `query_len` -/
def queryLen (a : EntryArgs K) : Nat := a.query.size 0

/-- A group of keys: `phase_base`, `phase_tokens` and `group_start`. -/
structure Group where
  phaseBase : Nat
  phaseTokens : Nat
  groupStart : Nat

namespace Group

def groupTokens (g : Group) : Nat := min kReductionTokens (g.phaseTokens - g.groupStart)

def groupKeyTiles (g : Group) : Nat := (g.groupTokens + kKeyTile - 1) / kKeyTile

end Group

/-- The rows of the block that exist. -/
def activeRows (a : EntryArgs K) (queryStart : Nat) : Nat := min kQueryTile (queryLen a - queryStart)

/-- `query_fragments[dim_tile]` -/
def queryFragment (a : EntryArgs K) (queryStart queryHead dimTile : Nat) : Nat → Nat → K :=
  fun row column =>
    if row < activeRows a queryStart then
      let queryIndex := queryStart + row
      let dim := dimTile * kMmaK + column
      let source := (queryIndex * kNumQueryHeads + queryHead) * kHeadDim + dim
      a.query.data source * a.scaleArg
    else 0

/-- `key_fragment` -/
def keyFragment (a : EntryArgs K) (g : Group) (keyTile dimTile : Nat) : Nat → Nat → K :=
  fun row column =>
    let localKeyStart := g.groupStart + keyTile * kKeyTile
    let logicalToken := g.phaseBase + localKeyStart + column
    let dim := dimTile * kMmaK + row
    if localKeyStart + column < g.phaseTokens then
      loadKv a.keyNew.data a.keyCache.data Split4.keyIndex a.blockTable.data logicalToken (contextLen a)
        dim
    else 0

/-- `value_fragment` -/
def valueFragment (a : EntryArgs K) (g : Group) (keyTile dimTile : Nat) : Nat → Nat → K :=
  fun row column =>
    let localKeyStart := g.groupStart + keyTile * kKeyTile
    let logicalToken := g.phaseBase + localKeyStart + row
    let dim := dimTile * kMmaK + column
    if localKeyStart + row < g.phaseTokens then
      loadKv a.valueNew.data a.valueCache.data Split4.valueIndex a.blockTable.data logicalToken
        (contextLen a) dim
    else 0

/-- `score_tile` of a key tile. -/
def scoreTile (a : EntryArgs K) (queryStart queryHead : Nat) (g : Group) (keyTile : Nat) :
    Nat → Nat → K :=
  (List.range kDimTiles).foldl (fun acc dimTile =>
    mmaSync (queryFragment a queryStart queryHead dimTile) (keyFragment a g keyTile dimTile) acc)
    fun _ _ => 0

/-- A score of a row that exists, after the causal mask. -/
def rowScore (a : EntryArgs K) (queryStart queryHead : Nat) (g : Group) (row keyOffset : Nat) :
    WithBot K :=
  let absoluteQuery := contextLen a + queryStart + row
  let logicalKey := g.phaseBase + g.groupStart + keyOffset
  if logicalKey ≤ absoluteQuery then
    (scoreTile a queryStart queryHead g (keyOffset / kKeyTile) row (keyOffset % kKeyTile) : K)
  else ⊥

/-- `new_max` -/
def newMax (a : EntryArgs K) (queryStart queryHead : Nat) (g : Group) (row : Nat) (oldMax : WithBot K) :
    WithBot K :=
  max oldMax (fold max ⊥ (rowScore a queryStart queryHead g row) g.groupTokens)

/-- `correction`; `weightAt M s` is `expf(s - M)`. -/
def correction (a : EntryArgs K) (queryStart queryHead : Nat) (g : Group) (row : Nat)
    (oldMax : WithBot K) : K :=
  if row < activeRows a queryStart then
    if oldMax = ⊥ then 0 else weightAt (newMax a queryStart queryHead g row oldMax) oldMax
  else 1

/-- `probability` -/
def probability (a : EntryArgs K) (queryStart queryHead : Nat) (g : Group) (row : Nat)
    (oldMax : WithBot K) (keyOffset : Nat) : K :=
  let score := rowScore a queryStart queryHead g row keyOffset
  if score = ⊥ then 0 else weightAt (newMax a queryStart queryHead g row oldMax) score

/-- The probabilities in `scores`: those of the rows that do not exist and those after the group
are zero. -/
def scoreOf (a : EntryArgs K) (queryStart queryHead : Nat) (g : Group) (oldMax : Nat → WithBot K)
    (row keyOffset : Nat) : K :=
  if row < activeRows a queryStart ∧ keyOffset < g.groupTokens then
    probability a queryStart queryHead g row (oldMax row) keyOffset
  else 0

/-- `partial_output` of a split. -/
def partialOutput (a : EntryArgs K) (queryStart queryHead : Nat) (g : Group)
    (oldMax : Nat → WithBot K) (dimTile split : Nat) : Nat → Nat → K :=
  let splitStart := split * kKeyTilesPerPvSplit
  let splitEnd := min g.groupKeyTiles (splitStart + kKeyTilesPerPvSplit)
  (List.range' splitStart (splitEnd - splitStart)).foldl (fun acc keyTile =>
    mmaSync (fun row k => scoreOf a queryStart queryHead g oldMax row (keyTile * kKeyTile + k))
      (valueFragment a g keyTile dimTile) acc)
    fun _ _ => 0

/-- The body of the loop over the groups. -/
def runGroup (a : EntryArgs K) (queryStart queryHead : Nat) (g : Group) (st : State K) : State K where
  runningMax row :=
    if row < activeRows a queryStart then newMax a queryStart queryHead g row (st.runningMax row)
    else st.runningMax row
  runningSum row :=
    if row < activeRows a queryStart then
      st.runningSum row * correction a queryStart queryHead g row (st.runningMax row) +
        fold (· + ·) 0 (probability a queryStart queryHead g row (st.runningMax row)) g.groupTokens
    else st.runningSum row
  runningOutput row dim :=
    let scaled := st.runningOutput row dim *
      correction a queryStart queryHead g row (st.runningMax row)
    let part := fun split => partialOutput a queryStart queryHead g st.runningMax (dim / kMmaK) split
      row (dim % kMmaK)
    let left := part 0 + part 1
    let right := part 2 + part 3
    scaled + (left + right)

/-- The loop over the groups of a phase. -/
def runPhase (a : EntryArgs K) (queryStart queryHead phaseBase phaseTokens : Nat) (st : State K) :
    State K :=
  (List.range ((phaseTokens + kReductionTokens - 1) / kReductionTokens)).foldl (fun st i =>
    runGroup a queryStart queryHead ⟨phaseBase, phaseTokens, i * kReductionTokens⟩ st) st

/-- `query_tiled_paged_prefill_kernel`: the block of a query tile and a head. -/
def kernel (a : EntryArgs K) (queryTileIndex queryHead : Nat) : State K :=
  let queryStart := queryTileIndex * kQueryTile
  let lastQuery := min (queryStart + kQueryTile) (queryLen a)
  let st : State K := ⟨fun _ => ⊥, fun _ => 0, fun _ _ => 0⟩
  let st := runPhase a queryStart queryHead 0 (contextLen a) st
  runPhase a queryStart queryHead (contextLen a) lastQuery st

/-- `output` -/
def output (a : EntryArgs K) (query head dim : Nat) : Option K :=
  let st := kernel a (query / kQueryTile) head
  let row := query % kQueryTile
  if st.runningSum row = 0 then none else some (st.runningOutput row dim / st.runningSum row)

end QueryTiled

/-- `query_tiled_paged_prefill_forward`, without the second result. -/
def queryTiledPagedPrefillForward (a : EntryArgs K) :
    Except String (Nat → Nat → Nat → Option K) := do
  a.checks (a.contextLenArg / kBlockSize)
  pure (QueryTiled.output a)

end Bi100.Attention
