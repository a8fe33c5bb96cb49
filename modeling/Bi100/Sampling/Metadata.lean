import Bi100.Lib.Dict
import Bi100.Lib.Except
import Bi100.Sequence
import Mathlib.Algebra.Order.Ring.Unbundled.Rat

/-!
# Sampling metadata (`sampling_metadata.py`)

Which rows of the hidden states are kept as logits rows for a batch (`selected_token_indices`), and
which logits rows each group of the batch has: those of its prompt logprobs, then those it samples
from.

- `prepareSeqGroups`: the loop over the batch, without the object cache.
- `Prepared`: what it does for one group.
- `RowsInv`: the rows of the groups follow each other without gaps.

A generator is known by the request whose generator it is, and its state is what it has drawn so
far. The parameters of type `float` are rational numbers.
-/

namespace Bi100.Sampling

open Py

def assertion : Err := .assertionError ""

/-- `_SAMPLING_EPS` -/
def samplingEps : ℚ := 1 / 100000

inductive SamplingType where
  | greedy
  | random
  | randomSeed
deriving DecidableEq, Repr

structure SamplingParams where
  n : Nat
  presencePenalty : ℚ
  frequencyPenalty : ℚ
  repetitionPenalty : ℚ
  temperature : ℚ
  topP : ℚ
  topK : Int
  minP : ℚ
  seed : Option Int
  minTokens : Nat
  allStopTokenIds : List Nat
  logprobs : Option Nat
  promptLogprobs : Option Nat
  promptLogprobPositions : Option (List Nat)
deriving DecidableEq, Repr

/-- `sampling_type` -/
def SamplingParams.samplingType (params : SamplingParams) : SamplingType :=
  if params.temperature < samplingEps then .greedy
  else if params.seed.isSome then .randomSeed
  else .random

/-- A `torch.Generator`: a stream that its seed determines, and how much of it is drawn. -/
structure Generator where
  seed : Int
  drawn : Nat
deriving DecidableEq, Repr

/-- What the sampler reads of a scheduled group. -/
structure SequenceGroupMetadata where
  requestId : String
  isPrompt : Bool
  seqData : Dict Nat SequenceData
  samplingParams : SamplingParams
  doSample : Bool

structure SequenceGroupToSample where
  seqIds : List Nat
  samplingParams : SamplingParams
  seqData : Dict Nat SequenceData
  seqLen : Option Nat
  queryLen : Option Nat
  /-- The request whose generator it is. -/
  generator : Option String
  isPrompt : Bool
  promptLogprobIndices : List Nat
  promptLogprobOutputIndices : List Nat
  sampleIndices : List Nat

namespace SequenceGroupToSample

/-- `do_sample` -/
def doSample (g : SequenceGroupToSample) : Bool := decide (0 < g.sampleIndices.length)

/-- The logits rows of the group. -/
def rows (g : SequenceGroupToSample) : List Nat := g.promptLogprobIndices ++ g.sampleIndices

/-- `__post_init__`; a list equals its sorted set when it is strictly increasing. -/
def postInit (g : SequenceGroupToSample) : Except Err Unit := do
  guardNot (g.promptLogprobIndices ≠ [] ∧ g.samplingParams.promptLogprobs = none) assertion
  guardNot (g.promptLogprobIndices.length ≠ g.promptLogprobOutputIndices.length) assertion
  guardNot (¬ g.promptLogprobOutputIndices.Pairwise (· < ·)) assertion
  if g.isPrompt then do
    guardNot (g.seqLen = none) assertion
    match g.queryLen with
    | none => throw assertion
    | some queryLen => guardNot (∃ index ∈ g.promptLogprobOutputIndices, queryLen ≤ index) assertion
  else pure ()

end SequenceGroupToSample

/-- `_get_prompt_logprob_output_indices` -/
def getPromptLogprobOutputIndices (params : SamplingParams) (seqData : SequenceData)
    (promptLogprobLen : Int) : Except Err (List Nat) :=
  if params.promptLogprobs = none ∨ promptLogprobLen ≤ 0 then pure [] else
    let computedLen := seqData.numComputedTokens
    let availableNextTokens := seqData.promptTokenIds.length - computedLen - 1
    let materializedLen := min promptLogprobLen.toNat availableNextTokens
    match params.promptLogprobPositions with
    | none => pure (List.range materializedLen)
    | some positions => do
      let outputIndices := (positions.filter fun position =>
        computedLen < position ∧ position ≤ computedLen + materializedLen).map fun position =>
          position - computedLen - 1
      guardNot (¬ outputIndices.Pairwise (· < ·)) assertion
      guardNot (∃ index ∈ outputIndices, materializedLen ≤ index) assertion
      return outputIndices

/-- The lengths of a group in the batch, and its generator. -/
structure GroupLens where
  seqLen : Option Nat
  queryLen : Option Nat
  promptLogprobLen : Int
  sampleLen : Nat
  generator : Option String
  generators : Dict String Generator

def listIndex : Err := .indexError "list index out of range"

/-- `query_lens[i]` -/
def lenAt (len : Option Nat) : Except Err Nat :=
  match len with
  | some n => pure n
  | none => throw listIndex

/-- The part of `_prepare_seq_groups` that tells prompts and decodes apart. -/
def groupLens (seqLen queryLen : Option Nat) (md : SequenceGroupMetadata)
    (generators : Dict String Generator) : Except Err GroupLens :=
  if md.isPrompt then do
    guardNot (md.seqData.size ≠ 1) assertion
    let queryLen ← lenAt queryLen
    let seqLen ← lenAt seqLen
    return {
      seqLen := some seqLen
      queryLen := some queryLen
      promptLogprobLen := if md.doSample then queryLen - 1 else queryLen
      sampleLen := if md.doSample then 1 else 0
      generator := md.samplingParams.seed.map fun _ => md.requestId
      generators :=
        match md.samplingParams.seed with
        | some seed => generators.set md.requestId ⟨seed, 0⟩
        | none => generators }
  else do
    let queryLen ← lenAt queryLen
    return {
      seqLen := none
      queryLen := some queryLen
      promptLogprobLen := 0
      sampleLen := if md.doSample then md.seqData.size * queryLen else 0
      generator :=
        if md.samplingParams.seed.isSome ∧ md.requestId ∈ generators then some md.requestId else none
      generators := generators }

structure PrepareState where
  seqGroups : List SequenceGroupToSample
  selectedTokenIndices : List Int
  modelOutputIdx : Int
  categorizedSampleIndices : SamplingType → List Nat
  logitIdx : Nat
  numPrompts : Nat
  generators : Dict String Generator

/-- The body of the loop of `_prepare_seq_groups`. -/
def prepareGroup (seqLen queryLen : Option Nat) (md : SequenceGroupMetadata) (st : PrepareState) :
    Except Err PrepareState := do
  let lens ← groupLens seqLen queryLen md st.generators
  match md.seqData.values with
  | [] => throw (.exception "StopIteration")
  | seqData :: _ =>
    let outputIndices ← getPromptLogprobOutputIndices md.samplingParams seqData lens.promptLogprobLen
    let numPromptRows :=
      if md.samplingParams.promptLogprobs.isSome then outputIndices.length else 0
    let numSampleRows := if md.doSample then lens.sampleLen else 0
    let sampleOutputIdx := st.modelOutputIdx + lens.promptLogprobLen
    let sampleIndices := List.range' (st.logitIdx + numPromptRows) numSampleRows
    let samplingType := md.samplingParams.samplingType
    let g : SequenceGroupToSample := {
      seqIds := md.seqData.keys
      samplingParams := md.samplingParams
      seqData := md.seqData
      seqLen := lens.seqLen
      queryLen := lens.queryLen
      generator := lens.generator
      isPrompt := md.isPrompt
      promptLogprobIndices := List.range' st.logitIdx numPromptRows
      promptLogprobOutputIndices := outputIndices
      sampleIndices := sampleIndices }
    g.postInit
    guardNot (g.promptLogprobIndices.length ≠ g.promptLogprobOutputIndices.length) assertion
    return {
      seqGroups := st.seqGroups ++ [g]
      selectedTokenIndices := st.selectedTokenIndices ++
        (if md.samplingParams.promptLogprobs.isSome then
          outputIndices.map fun index : Nat => st.modelOutputIdx + (index : Int) else []) ++
        (List.range numSampleRows).map fun index : Nat => sampleOutputIdx + (index : Int)
      modelOutputIdx := sampleOutputIdx + lens.sampleLen
      categorizedSampleIndices := fun t =>
        if t = samplingType then st.categorizedSampleIndices t ++ sampleIndices
        else st.categorizedSampleIndices t
      logitIdx := st.logitIdx + numPromptRows + numSampleRows
      numPrompts := if md.isPrompt then st.numPrompts + 1 else st.numPrompts
      generators := lens.generators }

/-- The loop of `_prepare_seq_groups`, from group `i` on. -/
def prepareLoop (seqLens queryLens : List Nat) :
    Nat → List SequenceGroupMetadata → PrepareState → Except Err PrepareState
  | _, [], st => pure st
  | i, md :: rest, st => do
    let st ← prepareGroup seqLens[i]? queryLens[i]? md st
    prepareLoop seqLens queryLens (i + 1) rest st

/-- `_prepare_seq_groups` -/
def prepareSeqGroups (seqGroupMetadataList : List SequenceGroupMetadata)
    (seqLens queryLens : List Nat) (generators : Dict String Generator) : Except Err PrepareState :=
  prepareLoop seqLens queryLens 0 seqGroupMetadataList {
    seqGroups := []
    selectedTokenIndices := []
    modelOutputIdx := 0
    categorizedSampleIndices := fun _ => []
    logitIdx := 0
    numPrompts := 0
    generators := generators }

/-! ## What a group adds -/

variable {seqLen queryLen : Option Nat} {md : SequenceGroupMetadata} {st st' : PrepareState}

/-- The prompt-logprob rows of a group come first. -/
structure Prepared (queryLen : Option Nat) (md : SequenceGroupMetadata) (st : PrepareState)
    (g : SequenceGroupToSample) (st' : PrepareState) : Prop where
  seqGroups : st'.seqGroups = st.seqGroups ++ [g]
  seqIds : g.seqIds = md.seqData.keys
  seqData : g.seqData = md.seqData
  samplingParams : g.samplingParams = md.samplingParams
  isPrompt : g.isPrompt = md.isPrompt
  query : g.queryLen = queryLen
  promptRows : g.promptLogprobIndices = List.range' st.logitIdx g.promptLogprobIndices.length
  sampleRows : g.sampleIndices =
    List.range' (st.logitIdx + g.promptLogprobIndices.length) g.sampleIndices.length
  logitIdx : st'.logitIdx = st.logitIdx + g.promptLogprobIndices.length + g.sampleIndices.length
  selected : st'.selectedTokenIndices.length =
    st.selectedTokenIndices.length + g.promptLogprobIndices.length + g.sampleIndices.length
  outputIndices : g.promptLogprobIndices.length = g.promptLogprobOutputIndices.length
  promptOnly : g.promptLogprobIndices ≠ [] →
    g.isPrompt = true ∧ g.samplingParams.promptLogprobs.isSome = true
  onePrompt : md.isPrompt = true → g.seqIds.length = 1
  sampled : ∀ q, queryLen = some q → g.sampleIndices.length =
    if md.doSample then (if md.isPrompt then 1 else g.seqIds.length * q) else 0

theorem lenAt_ok {len : Option Nat} {n : Nat} (h : lenAt len = .ok n) : len = some n := by
  cases len with
  | none => exact (throw_eq_ok.mp h).elim
  | some m => exact congrArg some (pure_eq_ok.mp h).symm

theorem groupLens_ok {generators : Dict String Generator} {lens : GroupLens}
    (h : groupLens seqLen queryLen md generators = .ok lens) :
    (md.isPrompt = true → md.seqData.size = 1) ∧ (md.isPrompt = false → lens.promptLogprobLen = 0) ∧
      ∃ q, queryLen = some q ∧ lens.queryLen = some q ∧ lens.sampleLen =
        if md.doSample then (if md.isPrompt then 1 else md.seqData.size * q) else 0 := by
  unfold groupLens at h
  split at h
  · next hprompt =>
    obtain ⟨hone, h⟩ := guardNot_bind_eq_ok.mp h
    obtain ⟨q, hq, h⟩ := bind_eq_ok.mp h
    obtain ⟨l, -, h⟩ := bind_eq_ok.mp h
    obtain rfl := pure_eq_ok.mp h
    refine ⟨fun _ => Decidable.not_not.mp hone, fun hn => ?_, q, lenAt_ok hq, rfl, ?_⟩
    · rw [hprompt] at hn
      cases hn
    · simp only [if_pos hprompt]
  · next hdecode =>
    obtain ⟨q, hq, h⟩ := bind_eq_ok.mp h
    obtain rfl := pure_eq_ok.mp h
    refine ⟨fun hp => absurd hp hdecode, fun _ => rfl, q, lenAt_ok hq, rfl, ?_⟩
    simp only [if_neg hdecode]

theorem getPromptLogprobOutputIndices_nil {params : SamplingParams} {seqData : SequenceData}
    {len : Int} (hlen : params.promptLogprobs = none ∨ len ≤ 0) {indices : List Nat}
    (h : getPromptLogprobOutputIndices params seqData len = .ok indices) : indices = [] := by
  unfold getPromptLogprobOutputIndices at h
  rw [if_pos hlen] at h
  exact pure_eq_ok.mp h

theorem prepareGroup_ok (h : prepareGroup seqLen queryLen md st = .ok st') :
    ∃ g, Prepared queryLen md st g st' := by
  unfold prepareGroup at h
  obtain ⟨lens, hlens, h⟩ := bind_eq_ok.mp h
  obtain ⟨hone, hdecode, q, hq, hquery, hsample⟩ := groupLens_ok hlens
  cases hvalues : md.seqData.values with
  | nil =>
    rw [hvalues] at h
    exact (throw_eq_ok.mp h).elim
  | cons seqData rest =>
    rw [hvalues] at h
    obtain ⟨indices, hindices, h⟩ := bind_eq_ok.mp h
    obtain ⟨-, -, h⟩ := bind_eq_ok.mp h
    obtain ⟨hlen, h⟩ := guardNot_bind_eq_ok.mp h
    obtain rfl := pure_eq_ok.mp h
    refine ⟨_, ⟨rfl, rfl, rfl, rfl, rfl, hquery.trans hq.symm, ?_, ?_, ?_, ?_, ?_, ?_, ?_, ?_⟩⟩
    · simp only [List.length_range']
    · simp only [List.length_range']
    · simp only [List.length_range']
    · simp only [List.length_append, List.length_map, List.length_range, List.length_range']
      split
      · rw [List.length_map]
      · rfl
    · exact Decidable.not_not.mp hlen
    · simp only [ne_eq, List.range'_eq_nil_iff]
      intro hrows
      split at hrows
      · next hsome =>
        refine ⟨?_, hsome⟩
        by_contra hprompt
        have hzero := hdecode (Bool.eq_false_iff.mpr hprompt)
        rw [getPromptLogprobOutputIndices_nil (.inr hzero.le) hindices] at hrows
        exact hrows rfl
      · exact absurd rfl hrows
    · intro hprompt
      rw [Dict.length_keys]
      exact hone hprompt
    · rintro q' rfl
      obtain rfl := Option.some.inj hq
      simp only [List.length_range', Dict.length_keys, hsample]
      split
      · rfl
      · rfl

/-! ## The rows of the batch -/

/-- The rows of the groups follow each other. -/
structure RowsInv (st : PrepareState) : Prop where
  rows : st.seqGroups.flatMap SequenceGroupToSample.rows = List.range st.logitIdx
  selected : st.selectedTokenIndices.length = st.logitIdx
  promptOnly : ∀ g ∈ st.seqGroups, g.promptLogprobIndices ≠ [] →
    g.isPrompt = true ∧ g.samplingParams.promptLogprobs.isSome = true
  known : ∀ g ∈ st.seqGroups, ∀ seqId ∈ g.seqIds, seqId ∈ g.seqData
  sampled : ∀ g ∈ st.seqGroups, g.sampleIndices ≠ [] → g.sampleIndices.length = g.seqIds.length
  queryLen : ∀ g ∈ st.seqGroups, g.queryLen ≠ none

theorem Prepared.rowsInv {g : SequenceGroupToSample} (h : Prepared queryLen md st g st')
    (hst : RowsInv st) (hdecode : md.isPrompt = false → queryLen = some 1)
    (hsome : ∃ q, queryLen = some q) : RowsInv st' := by
  obtain ⟨q, hq⟩ := hsome
  have hmem : ∀ g' ∈ st'.seqGroups, g' ∈ st.seqGroups ∨ g' = g := fun g' hg' => by
    rw [h.seqGroups, List.mem_append, List.mem_singleton] at hg'
    exact hg'
  refine ⟨?_, ?_, fun g' hg' hrows => ?_, fun g' hg' seqId hid => ?_, fun g' hg' hrows => ?_,
    fun g' hg' => ?_⟩
  · rw [h.seqGroups, List.flatMap_append, hst.rows, List.flatMap_singleton,
      SequenceGroupToSample.rows, h.logitIdx, h.promptRows, h.sampleRows]
    simp only [List.length_range']
    rw [List.range_eq_range', List.range_eq_range', ← List.append_assoc, ← List.range'_append_1,
      ← List.range'_append_1]
    simp only [Nat.zero_add]
  · rw [h.selected, hst.selected, h.logitIdx]
  · rcases hmem g' hg' with hg' | rfl
    · exact hst.promptOnly g' hg' hrows
    · exact h.promptOnly hrows
  · rcases hmem g' hg' with hg' | rfl
    · exact hst.known g' hg' seqId hid
    · rw [h.seqIds] at hid
      rw [h.seqData]
      exact hid
  · rcases hmem g' hg' with hg' | rfl
    · exact hst.sampled g' hg' hrows
    · have hlen := h.sampled q hq
      split at hlen
      · split at hlen
        · next hprompt => rw [hlen, h.onePrompt hprompt]
        · next hprompt =>
          obtain rfl := Option.some.inj (hq.symm.trans (hdecode (Bool.eq_false_iff.mpr hprompt)))
          rw [hlen, Nat.mul_one]
      · exact absurd (List.length_eq_zero_iff.mp hlen) hrows
  · rcases hmem g' hg' with hg' | rfl
    · exact hst.queryLen g' hg'
    · rw [h.query, hq]
      exact nofun

theorem prepareLoop_rowsInv {seqLens queryLens : List Nat} {mds : List SequenceGroupMetadata}
    {i : Nat} (hst : RowsInv st)
    (hdecode : ∀ (k : Nat) (md : SequenceGroupMetadata), mds[k]? = some md → md.isPrompt = false →
      queryLens[i + k]? = some 1)
    (h : prepareLoop seqLens queryLens i mds st = .ok st') : RowsInv st' := by
  induction mds generalizing i st with
  | nil =>
    obtain rfl := pure_eq_ok.mp h
    exact hst
  | cons md rest ih =>
    obtain ⟨st₁, h₁, h⟩ := bind_eq_ok.mp h
    obtain ⟨g, hg⟩ := prepareGroup_ok h₁
    have hsome : ∃ q, queryLens[i]? = some q := by
      obtain ⟨lens, hlens, -⟩ := bind_eq_ok.mp h₁
      obtain ⟨-, -, q, hq, -, -⟩ := groupLens_ok hlens
      exact ⟨q, hq⟩
    refine ih (hg.rowsInv hst (hdecode 0 md rfl) hsome) (fun k md' hk hp => ?_) h
    rw [Nat.add_assoc, Nat.add_comm 1]
    exact hdecode (k + 1) md' hk hp

/-- Without a query of more than one token in a decode. -/
theorem prepareSeqGroups_rowsInv {mds : List SequenceGroupMetadata} {seqLens queryLens : List Nat}
    {generators : Dict String Generator} {out : PrepareState}
    (hdecode : ∀ (i : Nat) (md : SequenceGroupMetadata), mds[i]? = some md → md.isPrompt = false →
      queryLens[i]? = some 1)
    (h : prepareSeqGroups mds seqLens queryLens generators = .ok out) : RowsInv out := by
  refine prepareLoop_rowsInv ⟨rfl, rfl, ?_, ?_, ?_, ?_⟩ (fun k md hk hp => ?_) h
  · exact fun g hg => absurd hg List.not_mem_nil
  · exact fun g hg => absurd hg List.not_mem_nil
  · exact fun g hg => absurd hg List.not_mem_nil
  · exact fun g hg => absurd hg List.not_mem_nil
  · rw [Nat.zero_add]
    exact hdecode k md hk hp

end Bi100.Sampling
