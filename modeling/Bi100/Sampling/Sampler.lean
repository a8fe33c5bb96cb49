import Bi100.Sampling.Metadata

/-!
# Sampling a batch (`sampler.py`, `_sample`)

A step of the sampler makes the metadata of its batch and samples from the rows of probabilities.
The noise of a seeded generator is a stream that is read in order; the other noise is part of the
batch.

- `seededNoise`: the rows of `q` that the generators fill, in `_multinomial`.
- `randomSample`: the tokens of the groups, in `_random_sample`.
- `sampleStep`: one step, with the generators of the requests.
-/

namespace Bi100.Sampling

open Py

/-- The exponential variates of a generator, by its seed. -/
abbrev Noise := Int → Nat → ℚ

/-- The inputs of a step. A decode has one token for each sequence, and a request is in the batch
once. -/
structure Batch where
  finished : List String
  metadata : List SequenceGroupMetadata
  seqLens : List Nat
  queryLens : List Nat
  probs : List (List ℚ)
  logprobs : List (List ℚ)
  /-- `q.exponential_()` without a generator -/
  unseeded : List (List ℚ)
  /-- A row of `torch.empty_like` that is not filled. -/
  empty : List ℚ
  decodes : ∀ (i : Nat) (md : SequenceGroupMetadata), metadata[i]? = some md → md.isPrompt = false →
    queryLens[i]? = some 1
  nodup : (metadata.map (·.requestId)).Nodup

/-- `argmax(dim=1)` of a row -/
def argmax (row : List ℚ) : Nat := (row.max?.map row.idxOf).getD 0

/-- `probs.div_(q).argmax(dim=1)` of a row -/
def drawToken (probs q : List ℚ) : Nat := argmax (List.zipWith (· / ·) probs q)

/-- A row that the generator fills after `skipped` rows. -/
def Generator.row (noise : Noise) (vocabSize : Nat) (g : Generator) (skipped : Nat) : List ℚ :=
  (List.range vocabSize).map fun v => noise g.seed (g.drawn + skipped * vocabSize + v)

/-- The generator after `count` rows. -/
def Generator.skip (vocabSize count : Nat) (g : Generator) : Generator :=
  { g with drawn := g.drawn + count * vocabSize }

/-- The loop of `_multinomial` over the groups, for `total` rows of `q`. -/
def seededNoise (noise : Noise) (vocabSize numSamples total : Nat) :
    Nat → List SequenceGroupToSample → Dict String Generator →
      Except Err (List (List ℚ) × Dict String Generator)
  | _, [], generators => pure ([], generators)
  | sampleIdx, g :: rest, generators =>
    match g.generator.bind fun r => (generators.get? r).map fun generator => (r, generator) with
    | none => throw assertion
    | some (r, generator) => do
      let stride := g.seqIds.length * numSamples
      let count := min (sampleIdx + stride) total - sampleIdx
      let (q, generators) ← seededNoise noise vocabSize numSamples total (sampleIdx + stride) rest
        (generators.set r (generator.skip vocabSize count))
      pure ((List.range count).map (generator.row noise vocabSize) ++ q, generators)

/-- `_multinomial`, given `q` -/
def multinomial (probs : List (List ℚ)) (numSamples : Nat) (q : List (List ℚ)) (empty : List ℚ) :
    List (List Nat) :=
  probs.mapIdx fun i p => (List.range numSamples).map fun j =>
    drawToken p (q[i * numSamples + j]?.getD empty)

/-- `max_n_in_batch` -/
def maxN (groups : List SequenceGroupToSample) : Nat :=
  groups.foldl (fun m g => if g.isPrompt then max m g.samplingParams.n else m) 1

/-- `_random_sample`, with the samples from `sample_idx` on -/
def randomSample : List SequenceGroupToSample → List (List Nat) → Except Err (List (List Nat))
  | [], _ => pure []
  | g :: rest, samples =>
    if g.doSample = false then do
      let results ← randomSample rest samples
      pure ([] :: results)
    else if g.isPrompt then
      match samples with
      | [] => throw listIndex
      | sample :: _ => do
        let results ← randomSample rest (samples.drop g.seqIds.length)
        pure (sample.take g.samplingParams.n :: results)
    else do
      let results ← randomSample rest (samples.drop g.seqIds.length)
      pure ((samples.take g.seqIds.length).map (fun sample => sample.headD 0) :: results)

/-- `_greedy_sample`, with the samples from `sample_idx` on -/
def greedySample : List SequenceGroupToSample → List Nat → Except Err (List (List Nat))
  | [], _ => pure []
  | g :: rest, samples =>
    if g.doSample = false then do
      let results ← greedySample rest samples
      pure ([] :: results)
    else do
      guardNot (g.seqIds.length ≠ 1) assertion
      match samples with
      | [] => throw listIndex
      | sample :: _ => do
        let results ← greedySample rest (samples.drop g.seqIds.length)
        pure ([sample] :: results)

/-- `rows[indices]` -/
def rowsAt (rows : List (List ℚ)) (indices : List Nat) : Except Err (List (List ℚ)) :=
  indices.mapM fun i =>
    match rows[i]? with
    | some row => pure row
    | none => throw listIndex

/-- The groups of a sampling type, each with its index. -/
def groupsOf (t : SamplingType) (groups : List SequenceGroupToSample) :
    List (SequenceGroupToSample × Nat) :=
  groups.zipIdx.filter fun p => p.1.samplingParams.samplingType = t

variable (noise : Noise) (vocabSize : Nat)

/-- The groups of a sampling type in `_sample`: their tokens by their indices. -/
def sampleType (b : Batch) (out : PrepareState) (t : SamplingType)
    (generators : Dict String Generator) :
    Except Err (List (Nat × List Nat) × Dict String Generator) :=
  let indices := out.categorizedSampleIndices t
  let groups := (groupsOf t out.seqGroups).map Prod.fst
  let ids := (groupsOf t out.seqGroups).map Prod.snd
  if indices = [] then pure ([], generators)
  else
    match t with
    | .greedy => do
      let rows ← rowsAt b.logprobs indices
      let results ← greedySample groups (rows.map argmax)
      pure (ids.zip results, generators)
    | .random => do
      let rows ← rowsAt b.probs indices
      let results ← randomSample groups (multinomial rows (maxN groups) b.unseeded b.empty)
      pure (ids.zip results, generators)
    | .randomSeed => do
      let rows ← rowsAt b.probs indices
      let (q, generators) ← seededNoise noise vocabSize (maxN groups) (rows.length * maxN groups) 0
        groups generators
      let results ← randomSample groups (multinomial rows (maxN groups) q b.empty)
      pure (ids.zip results, generators)

/-- What a step leaves: the tokens of each group. -/
structure StepResult where
  seqGroups : List SequenceGroupToSample
  tokens : List (List Nat)
  generators : Dict String Generator

/-- `get_generators` -/
def getGenerators (finished : List String) (generators : Dict String Generator) :
    Dict String Generator :=
  finished.foldl Dict.erase generators

/-- A step: `get_generators`, `_prepare_seq_groups` and `_sample`. -/
def sampleStep (b : Batch) (generators : Dict String Generator) : Except Err StepResult := do
  let out ← prepareSeqGroups b.metadata b.seqLens b.queryLens (getGenerators b.finished generators)
  let (greedy, generators) ← sampleType noise vocabSize b out .greedy out.generators
  let (random, generators) ← sampleType noise vocabSize b out .random generators
  let (seeded, generators) ← sampleType noise vocabSize b out .randomSeed generators
  pure {
    seqGroups := out.seqGroups
    tokens := (List.range out.seqGroups.length).map fun i =>
      ((greedy ++ random ++ seeded).lookup i).getD []
    generators := generators }

end Bi100.Sampling
