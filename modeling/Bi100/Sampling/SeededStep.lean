import Bi100.Sampling.SampledRows

/-!
# What a step samples for one request

- `OneRow`: a group of the prepared batch that samples one row.
- `Undisturbed`: the steps in which a seeded request reads its own noise, and only that.
- `sampleStep_at`: the token of a request, by its row and its generator.
-/

namespace Bi100.Sampling

open Py

/-- A group of a prepared batch samples one row. -/
structure OneRow (out : PrepareState) (pre : List SequenceGroupToSample) (g : SequenceGroupToSample)
    (post : List SequenceGroupToSample) (i : Nat) : Prop where
  groups : out.seqGroups = pre ++ g :: post
  indices : ∀ t, out.categorizedSampleIndices t = (out.seqGroups.filter fun g =>
    g.samplingParams.samplingType = t).flatMap (·.sampleIndices)
  counts : ∀ g' ∈ pre, g'.doSample = true → g'.sampleIndices.length = g'.seqIds.length
  row : g.sampleIndices = [i]
  oneSeq : g.seqIds.length = 1

section Step

variable {noise : Noise} {vocabSize : Nat} {b : Batch} {out : PrepareState} {t : SamplingType}
  {generators : Dict String Generator} {res : List (Nat × List Nat) × Dict String Generator}
  {pre post : List SequenceGroupToSample} {g : SequenceGroupToSample} {i : Nat}

/-- The groups of a type before and after a group of the type. -/
theorem filter_groups (ht : g.samplingParams.samplingType = t) :
    ((pre ++ g :: post).filter fun g => g.samplingParams.samplingType = t) =
      (pre.filter fun g => g.samplingParams.samplingType = t) ++
        g :: post.filter fun g => g.samplingParams.samplingType = t := by
  rw [List.filter_append]
  exact congrArg _ (List.filter_cons_of_pos (decide_eq_true ht))

theorem OneRow.doSample (hrow : OneRow out pre g post i) : g.doSample = true := by
  unfold SequenceGroupToSample.doSample
  rw [hrow.row]
  rfl

theorem OneRow.typeIndices (hrow : OneRow out pre g post i)
    (ht : g.samplingParams.samplingType = t) :
    ∃ after, out.categorizedSampleIndices t = (pre.filter fun g =>
      g.samplingParams.samplingType = t).flatMap (·.sampleIndices) ++ i :: after := by
  refine ⟨(post.filter fun g => g.samplingParams.samplingType = t).flatMap (·.sampleIndices), ?_⟩
  rw [hrow.indices, hrow.groups, filter_groups ht, List.flatMap_append, List.flatMap_cons, hrow.row]
  rfl

theorem OneRow.typeIndices_ne_nil (hrow : OneRow out pre g post i)
    (ht : g.samplingParams.samplingType = t) : out.categorizedSampleIndices t ≠ [] := by
  obtain ⟨after, hafter⟩ := hrow.typeIndices ht
  rw [hafter]
  exact List.append_ne_nil_of_right_ne_nil _ (List.cons_ne_nil _ _)

theorem OneRow.typeCounts (hrow : OneRow out pre g post i) :
    ∀ g' ∈ pre.filter fun g => g.samplingParams.samplingType = t, g'.doSample = true →
      g'.sampleIndices.length = g'.seqIds.length :=
  fun g' hg' => hrow.counts g' (List.mem_of_mem_filter hg')

theorem OneRow.lookup (hrow : OneRow out pre g post i) (ht : g.samplingParams.samplingType = t)
    {results : List (List Nat)} {tokens : List Nat}
    (hresult : results[(pre.filter fun g => g.samplingParams.samplingType = t).length]? =
      some tokens) :
    (((groupsOf t out.seqGroups).map Prod.snd).zip results).lookup pre.length = some tokens := by
  obtain ⟨before, after, hids, hnot, hlen⟩ := @groupsOf_ids t pre post g ht
  rw [hrow.groups, hids, lookup_zip hnot, hlen, hresult]

/-- The other sampling types have no tokens for the group. -/
theorem OneRow.lookup_of_ne (hrow : OneRow out pre g post i)
    (ht : g.samplingParams.samplingType ≠ t)
    (h : sampleType noise vocabSize b out t generators = .ok res) :
    res.1.lookup pre.length = none := by
  have hnot := hrow.groups ▸ @groupsOf_ids_of_ne t pre post g ht
  unfold sampleType at h
  dsimp only at h
  split at h
  · obtain rfl := pure_eq_ok.mp h
    rfl
  · split at h
    · obtain ⟨rows, -, h⟩ := bind_eq_ok.mp h
      obtain ⟨results, -, h⟩ := bind_eq_ok.mp h
      obtain rfl := pure_eq_ok.mp h
      exact lookup_zip_of_not_mem hnot
    · obtain ⟨rows, -, h⟩ := bind_eq_ok.mp h
      obtain ⟨results, -, h⟩ := bind_eq_ok.mp h
      obtain rfl := pure_eq_ok.mp h
      exact lookup_zip_of_not_mem hnot
    · obtain ⟨rows, -, h⟩ := bind_eq_ok.mp h
      obtain ⟨⟨q, gens⟩, -, h⟩ := bind_eq_ok.mp h
      obtain ⟨results, -, h⟩ := bind_eq_ok.mp h
      obtain rfl := pure_eq_ok.mp h
      exact lookup_zip_of_not_mem hnot

/-- Only `RANDOM_SEED` draws from the generators. -/
theorem sampleType_generators (ht : t ≠ .randomSeed)
    (h : sampleType noise vocabSize b out t generators = .ok res) : res.2 = generators := by
  unfold sampleType at h
  dsimp only at h
  split at h
  · obtain rfl := pure_eq_ok.mp h
    rfl
  · split at h
    · obtain ⟨rows, -, h⟩ := bind_eq_ok.mp h
      obtain ⟨results, -, h⟩ := bind_eq_ok.mp h
      obtain rfl := pure_eq_ok.mp h
      rfl
    · obtain ⟨rows, -, h⟩ := bind_eq_ok.mp h
      obtain ⟨results, -, h⟩ := bind_eq_ok.mp h
      obtain rfl := pure_eq_ok.mp h
      rfl
    · exact absurd rfl ht

theorem sampleType_greedy (hrow : OneRow out pre g post i)
    (ht : g.samplingParams.samplingType = .greedy)
    (h : sampleType noise vocabSize b out .greedy generators = .ok res) :
    ∃ row, b.logprobs[i]? = some row ∧ res.1.lookup pre.length = some [argmax row] := by
  obtain ⟨after, hafter⟩ := hrow.typeIndices ht
  unfold sampleType at h
  dsimp only at h
  rw [if_neg (hrow.typeIndices_ne_nil ht), hafter, map_fst_groupsOf, hrow.groups,
    filter_groups ht, ← hrow.groups] at h
  obtain ⟨rows, hrows, h⟩ := bind_eq_ok.mp h
  obtain ⟨results, hresults, h⟩ := bind_eq_ok.mp h
  obtain rfl := pure_eq_ok.mp h
  obtain ⟨row, hprobs, hat⟩ := rowsAt_at hrows
  refine ⟨row, hprobs, hrow.lookup ht (greedySample_at hresults hrow.typeCounts hrow.doSample ?_)⟩
  rw [List.getElem?_map, hat, Option.map_some]

theorem seededNoise_generator {numSamples total sampleIdx : Nat}
    {groups : List SequenceGroupToSample} {q : List (List ℚ) × Dict String Generator}
    (h : seededNoise noise vocabSize numSamples total sampleIdx groups generators = .ok q)
    (hg : g ∈ groups) : ∃ r, g.generator = some r := by
  induction groups generalizing sampleIdx generators q with
  | nil => exact absurd hg List.not_mem_nil
  | cons a rest ih =>
    obtain ⟨r, generator, q', hr, -, hrest, -⟩ := seededNoise_cons h
    rcases List.mem_cons.mp hg with rfl | hg
    · exact ⟨r, hr⟩
    · exact ih hrest hg

theorem length_flatMap_congr {α β γ : Type} {l : List α} {f : α → List β} {f' : α → List γ}
    (h : ∀ a ∈ l, (f a).length = (f' a).length) : (l.flatMap f).length = (l.flatMap f').length := by
  induction l with
  | nil => rfl
  | cons a l ih =>
    rw [List.flatMap_cons, List.flatMap_cons, List.length_append, List.length_append,
      h a List.mem_cons_self, ih fun a' ha' => h a' (List.mem_cons_of_mem a ha')]

/-- The token and the generator of a seeded group. The groups before it sample, and no prompt has
more than one sample. -/
theorem sampleType_seeded {r : String} {generator : Generator} (hrow : OneRow out pre g post i)
    (ht : g.samplingParams.samplingType = .randomSeed)
    (hsamples : ∀ g' ∈ pre, g'.samplingParams.samplingType = .randomSeed → g'.doSample = true)
    (honeSample : ∀ g' ∈ out.seqGroups, g'.samplingParams.samplingType = .randomSeed →
      g'.isPrompt = true → g'.samplingParams.n ≤ 1)
    (hn : g.samplingParams.n = 1) (hg : ∀ r', g.generator = some r' → r' = r)
    (hpre : ∀ g' ∈ pre, g'.generator ≠ some r) (hpost : ∀ g' ∈ post, g'.generator ≠ some r)
    (hgen : generators.get? r = some generator)
    (h : sampleType noise vocabSize b out .randomSeed generators = .ok res) :
    ∃ row, b.probs[i]? = some row ∧
      res.1.lookup pre.length = some [drawToken row (generator.row noise vocabSize 0)] ∧
      res.2.get? r = some (generator.skip vocabSize 1) := by
  obtain ⟨after, hafter⟩ := hrow.typeIndices ht
  have hmax : maxN (out.seqGroups.filter fun g =>
      g.samplingParams.samplingType = .randomSeed) = 1 :=
    maxN_eq_one fun g' hg' hp =>
      honeSample g' (List.mem_of_mem_filter hg') (of_decide_eq_true (List.mem_filter.mp hg').2) hp
  unfold sampleType at h
  dsimp only at h
  rw [if_neg (hrow.typeIndices_ne_nil ht), hafter, map_fst_groupsOf, hmax, hrow.groups,
    filter_groups ht, ← hrow.groups] at h
  obtain ⟨rows, hrows, h⟩ := bind_eq_ok.mp h
  obtain ⟨⟨q, gens⟩, hq, h⟩ := bind_eq_ok.mp h
  obtain ⟨results, hresults, h⟩ := bind_eq_ok.mp h
  obtain rfl := pure_eq_ok.mp h
  obtain ⟨row, hprobs, hat⟩ := rowsAt_at hrows
  obtain ⟨r', hr'⟩ := seededNoise_generator hq
    (List.mem_append_right _ (List.mem_cons_self : g ∈ g :: _))
  obtain rfl := hg r' hr'
  -- every group before has as many rows as sequences
  have hlen : ((pre.filter fun g => g.samplingParams.samplingType = .randomSeed).flatMap
      (·.seqIds)).length = ((pre.filter fun g =>
        g.samplingParams.samplingType = .randomSeed).flatMap (·.sampleIndices)).length :=
    length_flatMap_congr fun g' hg' => by
      have hmem := List.mem_filter.mp hg'
      exact (hrow.counts g' hmem.1 (hsamples g' hmem.1 (of_decide_eq_true hmem.2))).symm
  have hlt := (List.getElem?_eq_some_iff.mp hat).1
  obtain ⟨hnoise, hskip⟩ := seededNoise_at hq hr' hrow.oneSeq
    (by rw [hlen, Nat.zero_add, Nat.mul_one]; exact hlt)
    (fun g' hg' => hpre g' (List.mem_of_mem_filter hg'))
    (fun g' hg' => hpost g' (List.mem_of_mem_filter hg')) hgen
  refine ⟨row, hprobs, hrow.lookup ht
    (randomSample_at hresults hrow.typeCounts hrow.doSample hrow.oneSeq hn ?_), hskip⟩
  rw [multinomial_at hat, ← hlen, hnoise]
  rfl

/-- The generator of a request that is not in the batch stays. -/
theorem sampleType_get?_of_ne {r : String} (hne : ∀ g' ∈ out.seqGroups, g'.generator ≠ some r)
    (h : sampleType noise vocabSize b out t generators = .ok res) :
    res.2.get? r = generators.get? r := by
  by_cases ht : t = .randomSeed
  · subst ht
    unfold sampleType at h
    dsimp only at h
    split at h
    · obtain rfl := pure_eq_ok.mp h
      rfl
    · obtain ⟨rows, -, h⟩ := bind_eq_ok.mp h
      obtain ⟨⟨q, gens⟩, hq, h⟩ := bind_eq_ok.mp h
      obtain ⟨results, -, h⟩ := bind_eq_ok.mp h
      obtain rfl := pure_eq_ok.mp h
      refine seededNoise_of_ne hq fun g' hg' => hne g' ?_
      rw [map_fst_groupsOf] at hg'
      exact List.mem_of_mem_filter hg'
  · rw [sampleType_generators ht h]

end Step

/-! ## The request of the group -/

/-- When a seeded request samples in a step, the seeded groups before it sample too, and no seeded
prompt of the batch has more than one sample. -/
def Undisturbed (r : String) (b : Batch) : Prop :=
  ∀ md ∈ b.metadata, md.requestId = r → md.doSample = true →
    md.samplingParams.samplingType = .randomSeed →
    (∀ md' ∈ b.metadata.takeWhile (·.requestId ≠ r),
      md'.samplingParams.samplingType = .randomSeed → md'.doSample = true) ∧
    ∀ md' ∈ b.metadata, md'.samplingParams.samplingType = .randomSeed → md'.isPrompt = true →
      md'.samplingParams.n ≤ 1

instance decidableUndisturbed (r : String) (b : Batch) : Decidable (Undisturbed r b) :=
  inferInstanceAs (Decidable (∀ md ∈ b.metadata, md.requestId = r → md.doSample = true →
    md.samplingParams.samplingType = .randomSeed →
    (∀ md' ∈ b.metadata.takeWhile (·.requestId ≠ r),
      md'.samplingParams.samplingType = .randomSeed → md'.doSample = true) ∧
    ∀ md' ∈ b.metadata, md'.samplingParams.samplingType = .randomSeed → md'.isPrompt = true →
      md'.samplingParams.n ≤ 1))

/-- The rows of `probs` and `logprobs` that a request samples from in a step, and its tokens. -/
structure Sampled where
  rows : List (List ℚ × List ℚ)
  tokens : List Nat
deriving DecidableEq

/-- What a step samples for a request. -/
def sampledBy (r : String) (b : Batch) (out : StepResult) : Option Sampled := do
  let i ← b.metadata.findIdx? (·.requestId = r)
  let g ← out.seqGroups[i]?
  if g.doSample then
    some {
      rows := g.sampleIndices.map fun j => (b.probs[j]?.getD [], b.logprobs[j]?.getD [])
      tokens := out.tokens[i]?.getD [] }
  else none

/-- The token of a seeded request with one sample, by its rows. -/
def tokenOf (noise : Noise) (vocabSize : Nat) (params : SamplingParams) (generator : Generator)
    (row : List ℚ × List ℚ) : Nat :=
  if params.samplingType = .greedy then argmax row.2
  else drawToken row.1 (generator.row noise vocabSize 0)

theorem corresponds_split {before after : List SequenceGroupMetadata} {md : SequenceGroupMetadata}
    {groups : List SequenceGroupToSample}
    (h : List.Forall₂ Corresponds (before ++ md :: after) groups) :
    ∃ pre g post, groups = pre ++ g :: post ∧ pre.length = before.length ∧
      List.Forall₂ Corresponds before pre ∧ Corresponds md g ∧
      List.Forall₂ Corresponds after post := by
  induction before generalizing groups with
  | nil =>
    obtain ⟨g, post, hg, hpost, rfl⟩ := List.forall₂_cons_left_iff.mp h
    exact ⟨[], g, post, rfl, rfl, .nil, hg, hpost⟩
  | cons a before ih =>
    obtain ⟨g₀, rest, hg₀, hrest, rfl⟩ := List.forall₂_cons_left_iff.mp h
    obtain ⟨pre, g, post, rfl, hlen, hpre, hg, hpost⟩ := ih hrest
    exact ⟨g₀ :: pre, g, post, rfl, congrArg Nat.succ hlen, .cons hg₀ hpre, hg, hpost⟩

theorem corresponds_of_mem {mds : List SequenceGroupMetadata} {groups : List SequenceGroupToSample}
    {g : SequenceGroupToSample} (h : List.Forall₂ Corresponds mds groups) (hg : g ∈ groups) :
    ∃ md ∈ mds, Corresponds md g := by
  induction h with
  | nil => exact absurd hg List.not_mem_nil
  | cons hhead _ ih =>
    rcases List.mem_cons.mp hg with rfl | hg
    · exact ⟨_, List.mem_cons_self, hhead⟩
    · obtain ⟨md, hmem, hmd⟩ := ih hg
      exact ⟨md, List.mem_cons_of_mem _ hmem, hmd⟩

/-- Groups of other requests have other generators. -/
theorem generator_ne {mds : List SequenceGroupMetadata} {groups : List SequenceGroupToSample}
    {r : String} (h : List.Forall₂ Corresponds mds groups) (hr : r ∉ mds.map (·.requestId)) :
    ∀ g ∈ groups, g.generator ≠ some r := by
  intro g hg hgen
  obtain ⟨md, hmem, hmd⟩ := corresponds_of_mem h hg
  exact hr (List.mem_map.mpr ⟨md, hmem, (hmd.generator r hgen).symm⟩)

section Request

variable {noise : Noise} {vocabSize : Nat} {b : Batch} {generators : Dict String Generator}
  {result : StepResult} {r : String}

/-- The parts of a step. -/
theorem sampleStep_ok (h : sampleStep noise vocabSize b generators = .ok result) :
    ∃ out greedy random seeded,
      prepareSeqGroups b.metadata b.seqLens b.queryLens (getGenerators b.finished generators) =
        .ok out ∧
      sampleType noise vocabSize b out .greedy out.generators = .ok (greedy, out.generators) ∧
      sampleType noise vocabSize b out .random out.generators = .ok (random, out.generators) ∧
      sampleType noise vocabSize b out .randomSeed out.generators =
        .ok (seeded, result.generators) ∧
      result.seqGroups = out.seqGroups ∧
      result.tokens = (List.range out.seqGroups.length).map fun i =>
        ((greedy ++ random ++ seeded).lookup i).getD [] := by
  obtain ⟨out, hout, h⟩ := bind_eq_ok.mp h
  obtain ⟨⟨greedy, generators₁⟩, hgreedy, h⟩ := bind_eq_ok.mp h
  obtain ⟨⟨random, generators₂⟩, hrandom, h⟩ := bind_eq_ok.mp h
  obtain ⟨⟨seeded, generators₃⟩, hseeded, h⟩ := bind_eq_ok.mp h
  obtain rfl := pure_eq_ok.mp h
  obtain rfl : generators₁ = out.generators :=
    sampleType_generators SamplingType.noConfusion hgreedy
  obtain rfl : generators₂ = out.generators :=
    sampleType_generators SamplingType.noConfusion hrandom
  exact ⟨out, greedy, random, seeded, hout, hgreedy, hrandom, hseeded, rfl, rfl⟩

theorem getGenerators_of_not_mem {finished : List String} (h : r ∉ finished) :
    (getGenerators finished generators).get? r = generators.get? r := by
  unfold getGenerators
  induction finished generalizing generators with
  | nil => rfl
  | cons a finished ih =>
    rw [List.mem_cons, not_or] at h
    rw [List.foldl_cons, ih h.2, Dict.get?_erase_of_ne h.1]

/-- A request that is not in the batch keeps its generator. -/
theorem sampleStep_of_not_mem (h : sampleStep noise vocabSize b generators = .ok result)
    (hfinished : r ∉ b.finished) (hr : r ∉ b.metadata.map (·.requestId)) :
    result.generators.get? r = generators.get? r := by
  obtain ⟨out, greedy, random, seeded, hout, -, -, hseeded, -, -⟩ := sampleStep_ok h
  obtain ⟨hall, -, hgen⟩ := prepareSeqGroups_groups hout
  have hlast := sampleType_get?_of_ne (generator_ne hall hr) hseeded
  rw [hgen, foldl_newGenerators_of_not_mem hr, getGenerators_of_not_mem hfinished] at hlast
  exact hlast

theorem sampledBy_of_not_mem (hr : r ∉ b.metadata.map (·.requestId)) :
    sampledBy r b result = none := by
  have hnone : b.metadata.findIdx? (·.requestId = r) = none := List.findIdx?_eq_none_iff.mpr
    fun md hmd => decide_eq_false fun he => hr (List.mem_map.mpr ⟨md, hmd, he⟩)
  unfold sampledBy
  rw [hnone]
  rfl

section Split

variable {before after : List SequenceGroupMetadata} {md : SequenceGroupMetadata}

theorem not_mem_of_split (hmd : b.metadata = before ++ md :: after) :
    md.requestId ∉ before.map (·.requestId) ∧ md.requestId ∉ after.map (·.requestId) := by
  have hnodup := b.nodup
  rw [hmd, List.map_append, List.map_cons, List.nodup_append] at hnodup
  obtain ⟨-, hcons, hdisjoint⟩ := hnodup
  exact ⟨fun hmem => hdisjoint _ hmem _ List.mem_cons_self rfl, (List.nodup_cons.mp hcons).1⟩

theorem sampledBy_split {pre post : List SequenceGroupToSample} {g : SequenceGroupToSample}
    (hmd : b.metadata = before ++ md :: after) (hgroups : result.seqGroups = pre ++ g :: post)
    (hlen : pre.length = before.length) :
    sampledBy md.requestId b result =
      if g.doSample then
        some {
          rows := g.sampleIndices.map fun j => (b.probs[j]?.getD [], b.logprobs[j]?.getD [])
          tokens := result.tokens[pre.length]?.getD [] }
      else none := by
  have hindex : b.metadata.findIdx? (·.requestId = md.requestId) = some before.length := by
    rw [hmd, List.findIdx?_append, List.findIdx?_eq_none_iff.mpr fun md' hmd' => decide_eq_false
      fun he => (not_mem_of_split hmd).1 (List.mem_map.mpr ⟨md', hmd', he⟩), List.findIdx?_cons,
      decide_eq_true rfl, if_pos rfl, Option.none_or, Option.map_some, Nat.zero_add]
  have hat : result.seqGroups[before.length]? = some g := by
    rw [hgroups, ← hlen, List.getElem?_append_right (Nat.le_refl _), Nat.sub_self]
    rfl
  unfold sampledBy
  rw [hindex]
  show (result.seqGroups[before.length]?).bind _ = _
  rw [hat, hlen]
  rfl

/-- The token of a request that samples. -/
theorem sampleStep_at {generator : Generator}
    (h : sampleStep noise vocabSize b generators = .ok result)
    (hmd : b.metadata = before ++ md :: after) (hone : md.seqData.size = 1)
    (hn : md.samplingParams.n = 1) (hseed : md.samplingParams.seed.isSome = true)
    (hdo : md.doSample = true) (hun : Undisturbed md.requestId b)
    (hgen : md.samplingParams.samplingType = .randomSeed →
      (newGenerators (getGenerators b.finished generators) md).get? md.requestId = some generator) :
    ∃ row, sampledBy md.requestId b result =
        some ⟨[row], [tokenOf noise vocabSize md.samplingParams generator row]⟩ ∧
      (md.samplingParams.samplingType = .randomSeed →
        result.generators.get? md.requestId = some (generator.skip vocabSize 1)) := by
  obtain ⟨out, greedy, random, seeded, hout, hgreedy, hrandom, hseeded, hgroups, htokens⟩ :=
    sampleStep_ok h
  obtain ⟨hall, hindices, hgens⟩ := prepareSeqGroups_groups hout
  obtain ⟨hbefore, hafter⟩ := not_mem_of_split hmd
  rw [hmd] at hall
  obtain ⟨pre, g, post, hsplit, hlen, hpre, hg, hpost⟩ := corresponds_split hall
  have hsamples : g.doSample = true := hg.doSample.trans hdo
  have honeSeq : g.seqIds.length = 1 := hg.seqIds.trans hone
  obtain ⟨i, hi⟩ := List.length_eq_one_iff.mp ((hg.sampled hsamples).trans honeSeq)
  have hrow : OneRow out pre g post i := ⟨hsplit, hindices, fun g' hg' => by
    obtain ⟨_, -, hmd'⟩ := corresponds_of_mem hpre hg'
    exact hmd'.sampled, hi, honeSeq⟩
  rw [sampledBy_split hmd (hgroups.trans hsplit) hlen, if_pos hsamples, hi, List.map_singleton]
  have hat : result.tokens[pre.length]? =
      some (((greedy ++ random ++ seeded).lookup pre.length).getD []) := by
    rw [htokens, List.getElem?_map, List.getElem?_range (by
      rw [hsplit, List.length_append, List.length_cons]
      omega)]
    rfl
  rw [hat]
  refine ⟨(b.probs[i]?.getD [], b.logprobs[i]?.getD []), ?_⟩
  have hrandomType : g.samplingParams.samplingType ≠ .random := by
    rw [hg.params]
    unfold SamplingParams.samplingType
    rw [if_pos hseed]
    split
    · exact SamplingType.noConfusion
    · exact SamplingType.noConfusion
  have hnone := hrow.lookup_of_ne hrandomType hrandom
  rw [List.lookup_append, List.lookup_append, hnone, Option.or_none]
  unfold tokenOf
  by_cases ht : md.samplingParams.samplingType = .greedy
  · have htype : g.samplingParams.samplingType = .greedy := hg.params ▸ ht
    obtain ⟨row, hprobs, hlookup⟩ := sampleType_greedy hrow htype hgreedy
    rw [hlookup, if_pos ht, hprobs]
    exact ⟨rfl, fun hs => by rw [ht] at hs; cases hs⟩
  · have hseededType : md.samplingParams.samplingType = .randomSeed := by
      cases hty : md.samplingParams.samplingType with
      | greedy => exact absurd hty ht
      | random => exact absurd (hg.params ▸ hty) hrandomType
      | randomSeed => rfl
    have htype : g.samplingParams.samplingType = .randomSeed := hg.params ▸ hseededType
    obtain ⟨hsampling, honeSample⟩ := hun md (by
      rw [hmd]
      exact List.mem_append_right _ List.mem_cons_self) rfl hdo hseededType
    have htake : b.metadata.takeWhile (·.requestId ≠ md.requestId) = before := by
      have hne : ∀ md' ∈ before, decide (md'.requestId ≠ md.requestId) = true := fun md' hmd' =>
        decide_eq_true fun he => hbefore (List.mem_map.mpr ⟨md', hmd', he⟩)
      rw [hmd, List.takeWhile_append_of_pos hne, List.takeWhile_cons_of_neg (by simp),
        List.append_nil]
    rw [htake] at hsampling
    have hgenOut : out.generators.get? md.requestId = some generator := by
      have hnodup := b.nodup
      rw [hgens, hmd]
      rw [hmd] at hnodup
      rw [foldl_newGenerators hnodup]
      exact hgen hseededType
    obtain ⟨row, hprobs, hlookup, hskip⟩ := sampleType_seeded hrow htype
      (fun g' hg' ht' => by
        obtain ⟨md', hmem, hmd'⟩ := corresponds_of_mem hpre hg'
        exact hmd'.doSample.trans (hsampling md' hmem (hmd'.params ▸ ht')))
      (fun g' hg' ht' hp' => by
        rw [hsplit] at hg'
        obtain ⟨md', hmem, hmd'⟩ := corresponds_of_mem hall (hsplit ▸ hg')
        rw [hmd'.params]
        exact honeSample md' (hmd ▸ hmem) (hmd'.params ▸ ht') (hmd'.isPrompt.symm.trans hp'))
      (hg.params ▸ hn) hg.generator (generator_ne hpre hbefore) (generator_ne hpost hafter)
      hgenOut hseeded
    rw [hlookup, if_neg ht, hprobs, hrow.lookup_of_ne (htype ▸ SamplingType.noConfusion) hgreedy]
    exact ⟨rfl, fun _ => hskip⟩

/-- A prefill chunk that does not sample. -/
theorem sampledBy_of_chunk (h : sampleStep noise vocabSize b generators = .ok result)
    (hmd : b.metadata = before ++ md :: after) (hdo : md.doSample = false) :
    sampledBy md.requestId b result = none := by
  obtain ⟨out, -, -, -, hout, -, -, -, hgroups, -⟩ := sampleStep_ok h
  have hall := (prepareSeqGroups_groups hout).1
  rw [hmd] at hall
  obtain ⟨pre, g, post, hsplit, hlen, -, hg, -⟩ := corresponds_split hall
  rw [sampledBy_split hmd (hgroups.trans hsplit) hlen, hg.doSample.trans hdo]
  rfl

end Split

end Request

end Bi100.Sampling
