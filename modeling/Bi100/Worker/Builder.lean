import Bi100.Sequence

/-!
# Preparing the model input (`model_runner.py`, with the replacements of `patch_model_runner.py`)

What the worker feeds to the model for one sequence of a scheduled group. The runner is neither
multi-step nor an encoder-decoder. A slice `xs[a:b]` is `(xs.take b).drop a`.

- Every query is a run of consecutive positions, with the tokens of the sequence at them
  (`InterData.Aligned`, `interData_aligned`).
-/

namespace Bi100

structure RunnerConfig where
  blockSize : Nat
  slidingWindow : Option Nat := none
  chunkedPrefillEnabled : Bool := true

/-- `InterDataForSeqGroup`, for one sequence. -/
structure InterData where
  isPrompt : Bool
  computedBlockNums : Option (List Nat)
  seqLen : Nat
  contextLen : Nat
  queryLen : Nat
  inputTokens : List Nat
  inputPositions : List Nat
  prefixCacheHit : Bool
deriving DecidableEq, Repr

/-- The scheduler's metadata for one sequence of a group. -/
structure SeqMetadata where
  isPrompt : Bool
  seqData : SequenceData
  tokenChunkSize : Nat
  computedBlockNums : Option (List Nat)

/-- `_compute_lens` -/
def computeLens (g : SeqMetadata) : InterData :=
  let contextLen := g.seqData.numComputedTokens
  let seqLen :=
    if g.isPrompt then min g.seqData.getLen (contextLen + g.tokenChunkSize) else g.seqData.getLen
  { isPrompt := g.isPrompt
    computedBlockNums := g.computedBlockNums
    seqLen := seqLen
    contextLen := contextLen
    queryLen := seqLen - contextLen
    inputTokens := (g.seqData.getTokenIds.take seqLen).drop contextLen
    inputPositions := List.range' contextLen (seqLen - contextLen)
    prefixCacheHit := false }

/-- `prefix_cache_hit` -/
def isPrefixCacheHit (cfg : RunnerConfig) (d : InterData) : Bool :=
  match d.computedBlockNums with
  | some blocks => !blocks.isEmpty && cfg.slidingWindow.isNone && d.isPrompt
  | none => false

/-- `len(computed_block_nums) * self.block_size` -/
def prefixCacheLen (cfg : RunnerConfig) (d : InterData) : Nat :=
  (d.computedBlockNums.getD []).length * cfg.blockSize

/-- `_compute_for_prefix_cache_hit` -/
def computeForPrefixCacheHit (cfg : RunnerConfig) (d : InterData) : InterData :=
  let prefixLen := prefixCacheLen cfg d
  if isPrefixCacheHit cfg d = false then
    { d with prefixCacheHit := false }
  else if prefixLen ≤ d.contextLen then
    -- the hit region is passed: the full block table is used from here on
    { d with prefixCacheHit := false }
  else if prefixLen < d.seqLen then
    let uncomputedStart := prefixLen - d.contextLen
    { d with
      prefixCacheHit := true
      inputTokens := d.inputTokens.drop uncomputedStart
      inputPositions := d.inputPositions.drop uncomputedStart
      contextLen := prefixLen
      queryLen := d.seqLen - prefixLen }
  else
    -- full hit: only the last token
    { d with
      prefixCacheHit := true
      inputTokens := d.inputTokens.drop (d.inputTokens.length - 1)
      inputPositions := d.inputPositions.drop (d.inputPositions.length - 1)
      queryLen := 1
      contextLen := d.seqLen - 1 }

/-- The per-sequence functions of `add_seq_group`, in order. -/
def interData (cfg : RunnerConfig) (g : SeqMetadata) : InterData :=
  computeForPrefixCacheHit cfg (computeLens g)

/-! ## The fed tokens are a run of the sequence's tokens -/

/-- The fed positions are consecutive and the fed tokens are those of `ids` at them. -/
structure InterData.Aligned (d : InterData) (ids : List Nat) : Prop where
  positions : ∃ start, d.inputPositions = List.range' start d.inputTokens.length
  tokens : ∀ j : Nat, ∀ p, d.inputPositions[j]? = some p → d.inputTokens[j]? = ids[p]?

theorem computeLens_seqLen_le (g : SeqMetadata) : (computeLens g).seqLen ≤ g.seqData.getLen := by
  simp only [computeLens]
  split
  · exact Nat.min_le_left _ _
  · exact Nat.le_refl _

theorem computeLens_aligned (g : SeqMetadata) :
    (computeLens g).Aligned g.seqData.getTokenIds := by
  have hle := computeLens_seqLen_le g
  have ht : (computeLens g).inputTokens =
      (g.seqData.getTokenIds.take (computeLens g).seqLen).drop g.seqData.numComputedTokens := rfl
  have hp : (computeLens g).inputPositions = List.range' g.seqData.numComputedTokens
      ((computeLens g).seqLen - g.seqData.numComputedTokens) := rfl
  constructor
  · refine ⟨g.seqData.numComputedTokens, ?_⟩
    rw [hp, ht, List.length_drop, List.length_take, SequenceData.length_getTokenIds,
      Nat.min_eq_left hle]
  · intro j p hj
    obtain ⟨hlt, rfl⟩ := List.getElem?_eq_some_iff.mp (hp ▸ hj)
    rw [List.length_range'] at hlt
    rw [List.getElem_range', Nat.one_mul, ht, List.getElem?_drop,
      List.getElem?_take_of_lt (by omega)]

/-- Dropping the same number of tokens and positions keeps them aligned. -/
theorem InterData.Aligned.drop {d d' : InterData} {ids : List Nat} (h : d.Aligned ids) (n : Nat)
    (ht : d'.inputTokens = d.inputTokens.drop n)
    (hp : d'.inputPositions = d.inputPositions.drop n) : d'.Aligned ids := by
  obtain ⟨start, hs⟩ := h.positions
  constructor
  · refine ⟨start + n, ?_⟩
    rw [ht, hp, hs, List.drop_range', Nat.mul_one, List.length_drop]
  · intro j p hj
    rw [hp, List.getElem?_drop] at hj
    rw [ht, List.getElem?_drop, h.tokens _ p hj]

theorem InterData.Aligned.length_eq {d : InterData} {ids : List Nat} (h : d.Aligned ids) :
    d.inputPositions.length = d.inputTokens.length := by
  obtain ⟨start, hs⟩ := h.positions
  rw [hs, List.length_range']

theorem computeForPrefixCacheHit_aligned (cfg : RunnerConfig) {d : InterData} {ids : List Nat}
    (h : d.Aligned ids) : (computeForPrefixCacheHit cfg d).Aligned ids := by
  simp only [computeForPrefixCacheHit]
  split_ifs
  · exact h.drop 0 rfl rfl
  · exact h.drop 0 rfl rfl
  · exact h.drop _ rfl rfl
  · refine h.drop (d.inputTokens.length - 1) rfl ?_
    rw [← h.length_eq]

theorem interData_aligned (cfg : RunnerConfig) (g : SeqMetadata) :
    (interData cfg g).Aligned g.seqData.getTokenIds :=
  computeForPrefixCacheHit_aligned cfg (computeLens_aligned g)

end Bi100
