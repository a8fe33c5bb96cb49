import Bi100.Sampling.Sampler

/-!
# What a step samples for one group

- `Corresponds`: what a group of the metadata and its prepared group have in common.
- `prepareSeqGroups_groups`: the prepared groups, their rows by sampling type, and the generators.
- `seededNoise_at`, `randomSample_at`: the noise and the tokens of a group in the batch.
-/

namespace Bi100.Sampling

open Py

/-! ## The prepared groups -/

structure Corresponds (md : SequenceGroupMetadata) (g : SequenceGroupToSample) : Prop where
  seqIds : g.seqIds.length = md.seqData.size
  nonempty : g.seqIds ≠ []
  params : g.samplingParams = md.samplingParams
  isPrompt : g.isPrompt = md.isPrompt
  doSample : g.doSample = md.doSample
  sampled : g.doSample = true → g.sampleIndices.length = g.seqIds.length
  generator : ∀ r, g.generator = some r → r = md.requestId

/-- A prompt with a seed gets a new generator. -/
def newGenerators (generators : Dict String Generator) (md : SequenceGroupMetadata) :
    Dict String Generator :=
  if md.isPrompt then
    match md.samplingParams.seed with
    | some seed => generators.set md.requestId ⟨seed, 0⟩
    | none => generators
  else generators

theorem newGenerators_of_ne {generators : Dict String Generator} {md : SequenceGroupMetadata}
    {r : String} (h : md.requestId ≠ r) :
    (newGenerators generators md).get? r = generators.get? r := by
  unfold newGenerators
  split
  · split
    · exact Dict.get?_set_of_ne h.symm _ _
    · rfl
  · rfl

theorem groupLens_generators {seqLen queryLen : Option Nat} {md : SequenceGroupMetadata}
    {generators : Dict String Generator} {lens : GroupLens}
    (h : groupLens seqLen queryLen md generators = .ok lens) :
    lens.generators = newGenerators generators md ∧
      ∀ r, lens.generator = some r → r = md.requestId := by
  unfold groupLens at h
  unfold newGenerators
  split at h
  · next hprompt =>
    obtain ⟨-, h⟩ := guardNot_bind_eq_ok.mp h
    obtain ⟨q, -, h⟩ := bind_eq_ok.mp h
    obtain ⟨l, -, h⟩ := bind_eq_ok.mp h
    obtain rfl := pure_eq_ok.mp h
    rw [if_pos hprompt]
    refine ⟨rfl, fun r hr => ?_⟩
    obtain ⟨_, -, rfl⟩ := Option.map_eq_some_iff.mp hr
    rfl
  · next hdecode =>
    obtain ⟨q, -, h⟩ := bind_eq_ok.mp h
    obtain rfl := pure_eq_ok.mp h
    rw [if_neg hdecode]
    refine ⟨rfl, fun r hr => ?_⟩
    dsimp only at hr
    split at hr
    · exact (Option.some.inj hr).symm
    · cases hr

section Prepare

variable {seqLen queryLen : Option Nat} {md : SequenceGroupMetadata} {st st' : PrepareState}

theorem prepareGroup_corresponds (hdecode : md.isPrompt = false → queryLen = some 1)
    (h : prepareGroup seqLen queryLen md st = .ok st') :
    ∃ g, Corresponds md g ∧ st'.seqGroups = st.seqGroups ++ [g] ∧
      (∀ t, st'.categorizedSampleIndices t = st.categorizedSampleIndices t ++
        if g.samplingParams.samplingType = t then g.sampleIndices else []) ∧
      st'.generators = newGenerators st.generators md := by
  obtain ⟨g₀, hg₀⟩ := prepareGroup_ok h
  unfold prepareGroup at h
  obtain ⟨lens, hlens, h⟩ := bind_eq_ok.mp h
  obtain ⟨-, -, q, hq, -, -⟩ := groupLens_ok hlens
  obtain ⟨hgenerators, hgenerator⟩ := groupLens_generators hlens
  cases hvalues : md.seqData.values with
  | nil =>
    rw [hvalues] at h
    exact (throw_eq_ok.mp h).elim
  | cons seqData rest =>
    rw [hvalues] at h
    obtain ⟨indices, -, h⟩ := bind_eq_ok.mp h
    obtain ⟨-, -, h⟩ := bind_eq_ok.mp h
    obtain ⟨-, h⟩ := guardNot_bind_eq_ok.mp h
    obtain rfl := pure_eq_ok.mp h
    obtain rfl := List.singleton_injective (List.append_cancel_left hg₀.seqGroups)
    have hsize : md.seqData.size ≠ 0 := by
      rw [← Dict.length_values, hvalues]
      exact Nat.succ_ne_zero _
    have hids := (congrArg List.length hg₀.seqIds).trans (Dict.length_keys _)
    have hne := fun he => hsize (hids ▸ List.length_eq_zero_iff.mpr he)
    have hcount := hg₀.sampled q hq
    have hrows : (if md.isPrompt then 1 else md.seqData.keys.length * q) =
        md.seqData.keys.length := by
      split
      · next hprompt => exact (hg₀.onePrompt hprompt).symm
      · next hprompt =>
        obtain rfl := Option.some.inj (hq.symm.trans (hdecode (Bool.eq_false_iff.mpr hprompt)))
        exact Nat.mul_one _
    refine ⟨_, ⟨hids, hne, hg₀.samplingParams, hg₀.isPrompt, ?_, fun hs => ?_, hgenerator⟩, rfl,
      fun t => ?_, hgenerators⟩
    · unfold SequenceGroupToSample.doSample
      rw [hcount]
      cases hdo : md.doSample with
      | true =>
        rw [if_pos rfl]
        show decide (0 < (if md.isPrompt then 1 else md.seqData.keys.length * q)) = true
        rw [hrows]
        exact decide_eq_true (List.length_pos_iff.mpr hne)
      | false => rfl
    · have hdo : md.doSample = true := by
        by_contra hdo
        unfold SequenceGroupToSample.doSample at hs
        rw [hcount, if_neg hdo] at hs
        cases hs
      exact hcount.trans ((if_pos hdo).trans hrows)
    · dsimp only
      by_cases ht : t = md.samplingParams.samplingType
      · rw [if_pos ht, if_pos ht.symm]
      · rw [if_neg ht, if_neg (Ne.symm ht), List.append_nil]

theorem prepareLoop_groups {seqLens queryLens : List Nat} {mds : List SequenceGroupMetadata}
    {i : Nat}
    (hdecode : ∀ (k : Nat) (md : SequenceGroupMetadata), mds[k]? = some md → md.isPrompt = false →
      queryLens[i + k]? = some 1)
    (h : prepareLoop seqLens queryLens i mds st = .ok st') :
    ∃ groups, List.Forall₂ Corresponds mds groups ∧ st'.seqGroups = st.seqGroups ++ groups ∧
      (∀ t, st'.categorizedSampleIndices t = st.categorizedSampleIndices t ++
        (groups.filter fun g => g.samplingParams.samplingType = t).flatMap (·.sampleIndices)) ∧
      st'.generators = mds.foldl newGenerators st.generators := by
  induction mds generalizing i st with
  | nil =>
    obtain rfl := pure_eq_ok.mp h
    exact ⟨[], .nil, (List.append_nil _).symm, fun t => (List.append_nil _).symm, rfl⟩
  | cons md rest ih =>
    obtain ⟨st₁, h₁, h⟩ := bind_eq_ok.mp h
    obtain ⟨g, hg, hgroups₁, hindices₁, hgen₁⟩ := prepareGroup_corresponds (hdecode 0 md rfl) h₁
    obtain ⟨groups, hall, hgroups, hindices, hgen⟩ := ih (fun k md' hk hp => by
      rw [Nat.add_assoc, Nat.add_comm 1]
      exact hdecode (k + 1) md' hk hp) h
    refine ⟨g :: groups, .cons hg hall, ?_, fun t => ?_, ?_⟩
    · rw [hgroups, hgroups₁, List.append_assoc]
      rfl
    · rw [hindices, hindices₁, List.append_assoc, List.filter_cons]
      by_cases ht : g.samplingParams.samplingType = t
      · rw [if_pos ht, if_pos (decide_eq_true ht), List.flatMap_cons]
      · rw [if_neg ht, if_neg (by rwa [decide_eq_true_iff]), List.nil_append]
    · rw [hgen, hgen₁]
      rfl

end Prepare

/-- The groups of a batch. -/
theorem prepareSeqGroups_groups {b : Batch} {generators : Dict String Generator}
    {out : PrepareState}
    (h : prepareSeqGroups b.metadata b.seqLens b.queryLens generators = .ok out) :
    List.Forall₂ Corresponds b.metadata out.seqGroups ∧
      (∀ t, out.categorizedSampleIndices t = (out.seqGroups.filter fun g =>
        g.samplingParams.samplingType = t).flatMap (·.sampleIndices)) ∧
      out.generators = b.metadata.foldl newGenerators generators := by
  obtain ⟨groups, hall, hgroups, hindices, hgen⟩ := prepareLoop_groups
    (fun k md hk hp => by
      rw [Nat.zero_add]
      exact b.decodes k md hk hp) h
  obtain rfl : out.seqGroups = groups := hgroups
  exact ⟨hall, fun t => hindices t, hgen⟩

/-- The generators of requests that are not in the batch stay. -/
theorem foldl_newGenerators_of_not_mem {mds : List SequenceGroupMetadata} {r : String}
    (h : r ∉ mds.map (·.requestId)) (generators : Dict String Generator) :
    (mds.foldl newGenerators generators).get? r = generators.get? r := by
  induction mds generalizing generators with
  | nil => rfl
  | cons md rest ih =>
    rw [List.map_cons, List.mem_cons, not_or] at h
    rw [List.foldl_cons, ih h.2, newGenerators_of_ne (Ne.symm h.1)]

theorem foldl_newGenerators {pre post : List SequenceGroupMetadata} {md : SequenceGroupMetadata}
    (hnodup : ((pre ++ md :: post).map (·.requestId)).Nodup) (generators : Dict String Generator) :
    ((pre ++ md :: post).foldl newGenerators generators).get? md.requestId =
      (newGenerators generators md).get? md.requestId := by
  rw [List.map_append, List.map_cons] at hnodup
  have hpost := (List.nodup_cons.mp (List.nodup_append.mp hnodup).2.1).1
  have hpre : md.requestId ∉ pre.map (·.requestId) := fun hmem =>
    (List.nodup_append.mp hnodup).2.2 _ hmem _ List.mem_cons_self rfl
  rw [List.foldl_append, List.foldl_cons, foldl_newGenerators_of_not_mem hpost]
  have hsame := foldl_newGenerators_of_not_mem hpre generators
  unfold newGenerators
  split
  · split
    · rw [Dict.get?_set_self, Dict.get?_set_self]
    · exact hsame
  · exact hsame

/-! ## The noise -/

section Noise

variable {noise : Noise} {vocabSize numSamples total sampleIdx : Nat}
  {generators : Dict String Generator} {out : List (List ℚ) × Dict String Generator}

theorem seededNoise_cons {g : SequenceGroupToSample} {rest : List SequenceGroupToSample}
    (h : seededNoise noise vocabSize numSamples total sampleIdx (g :: rest) generators = .ok out) :
    ∃ r generator q, g.generator = some r ∧ generators.get? r = some generator ∧
      seededNoise noise vocabSize numSamples total (sampleIdx + g.seqIds.length * numSamples) rest
        (generators.set r (generator.skip vocabSize
          (min (sampleIdx + g.seqIds.length * numSamples) total - sampleIdx))) = .ok (q, out.2) ∧
      out.1 = (List.range (min (sampleIdx + g.seqIds.length * numSamples) total - sampleIdx)).map
        (generator.row noise vocabSize) ++ q := by
  rw [seededNoise] at h
  split at h
  · exact (throw_eq_ok.mp h).elim
  · next r generator hg =>
    obtain ⟨r', hr, hsome⟩ := Option.bind_eq_some_iff.mp hg
    obtain ⟨generator', hgen, heq⟩ := Option.map_eq_some_iff.mp hsome
    obtain ⟨rfl, rfl⟩ := Prod.mk.inj heq
    obtain ⟨⟨q, gens⟩, hrest, h⟩ := bind_eq_ok.mp h
    obtain rfl := pure_eq_ok.mp h
    exact ⟨r', generator', q, hr, hgen, hrest, rfl⟩

/-- The generator of a request that is not in the groups stays. -/
theorem seededNoise_of_ne {groups : List SequenceGroupToSample} {r : String}
    (h : seededNoise noise vocabSize numSamples total sampleIdx groups generators = .ok out)
    (hne : ∀ g ∈ groups, g.generator ≠ some r) : out.2.get? r = generators.get? r := by
  induction groups generalizing sampleIdx generators out with
  | nil =>
    obtain rfl := pure_eq_ok.mp h
    rfl
  | cons g rest ih =>
    obtain ⟨r', generator, q, hr, -, hrest, -⟩ := seededNoise_cons h
    have hne' : r ≠ r' := by
      rintro rfl
      exact hne g List.mem_cons_self hr
    rw [ih hrest fun g' hg' => hne g' (List.mem_cons_of_mem g hg'), Dict.get?_set_of_ne hne']

/-- The row of a group with one sequence comes after those of the sequences before it, while the
noise of the groups before it fits. -/
theorem seededNoise_at {pre post : List SequenceGroupToSample} {g : SequenceGroupToSample}
    {r : String} {generator : Generator}
    (h : seededNoise noise vocabSize 1 total sampleIdx (pre ++ g :: post) generators = .ok out)
    (hg : g.generator = some r) (hone : g.seqIds.length = 1)
    (hfits : sampleIdx + (pre.flatMap (·.seqIds)).length < total)
    (hpre : ∀ g' ∈ pre, g'.generator ≠ some r) (hpost : ∀ g' ∈ post, g'.generator ≠ some r)
    (hgen : generators.get? r = some generator) :
    out.1[(pre.flatMap (·.seqIds)).length]? = some (generator.row noise vocabSize 0) ∧
      out.2.get? r = some (generator.skip vocabSize 1) := by
  induction pre generalizing sampleIdx generators out with
  | nil =>
    obtain ⟨r', generator', q, hr, hgen', hrest, hq⟩ := seededNoise_cons h
    obtain rfl := Option.some.inj (hg.symm.trans hr)
    obtain rfl := Option.some.inj (hgen.symm.trans hgen')
    rw [List.flatMap_nil, List.length_nil] at hfits
    rw [hone, Nat.one_mul] at hrest hq
    have hcount : min (sampleIdx + 1) total - sampleIdx = 1 := by omega
    rw [hcount] at hrest hq
    refine ⟨by rw [hq]; rfl, ?_⟩
    rw [seededNoise_of_ne hrest hpost, Dict.get?_set_self]
  | cons a pre ih =>
    obtain ⟨r', generator', q, hr, hgen', hrest, hq⟩ := seededNoise_cons h
    have hne : r ≠ r' := by
      rintro rfl
      exact hpre a List.mem_cons_self hr
    rw [List.flatMap_cons, List.length_append] at hfits ⊢
    rw [Nat.mul_one] at hrest hq
    have hcount : min (sampleIdx + a.seqIds.length) total - sampleIdx = a.seqIds.length := by omega
    rw [hcount] at hrest hq
    have hrec := ih hrest (by omega) (fun g' hg' => hpre g' (List.mem_cons_of_mem a hg'))
      ((Dict.get?_set_of_ne hne _ _).trans hgen)
    refine ⟨?_, hrec.2⟩
    rw [hq, List.getElem?_append_right (by rw [List.length_map, List.length_range]; omega),
      List.length_map, List.length_range, Nat.add_sub_cancel_left]
    exact hrec.1

end Noise

/-! ## The tokens -/

theorem rowsAt_ok {rows l : List (List ℚ)} {indices : List Nat} (h : rowsAt rows indices = .ok l) :
    l.map some = indices.map (rows[·]?) := by
  induction indices generalizing l with
  | nil =>
    obtain rfl := pure_eq_ok.mp h
    rfl
  | cons i indices ih =>
    rw [rowsAt, List.mapM_cons] at h
    obtain ⟨row, hrow, h⟩ := bind_eq_ok.mp h
    obtain ⟨l, hl, h⟩ := bind_eq_ok.mp h
    obtain rfl := pure_eq_ok.mp h
    rw [List.map_cons, List.map_cons, ih hl]
    split at hrow
    · next row' hrow' =>
      obtain rfl := pure_eq_ok.mp hrow
      rw [hrow']
    · exact (throw_eq_ok.mp hrow).elim

theorem rowsAt_at {rows l : List (List ℚ)} {pre post : List Nat} {i : Nat}
    (h : rowsAt rows (pre ++ i :: post) = .ok l) :
    ∃ row, rows[i]? = some row ∧ l[pre.length]? = some row := by
  have hat : (l.map some)[pre.length]? = _ := congrArg (·[pre.length]?) (rowsAt_ok h)
  rw [List.getElem?_map, List.getElem?_map, List.getElem?_append_right (Nat.le_refl _),
    Nat.sub_self, List.getElem?_cons_zero, Option.map_some] at hat
  obtain ⟨row, hrow, hsome⟩ := Option.map_eq_some_iff.mp hat
  exact ⟨row, hsome.symm, hrow⟩

theorem multinomial_at {probs q : List (List ℚ)} {empty row : List ℚ} {i : Nat}
    (h : probs[i]? = some row) :
    (multinomial probs 1 q empty)[i]? = some [drawToken row (q[i]?.getD empty)] := by
  rw [multinomial, List.getElem?_mapIdx, h, Option.map_some, Nat.mul_one]
  rfl

section Tokens

variable {pre post : List SequenceGroupToSample} {g : SequenceGroupToSample}
  {results : List (List Nat)}

theorem randomSample_cons {samples : List (List Nat)}
    (h : randomSample (g :: post) samples = .ok results) :
    ∃ tokens rest, results = tokens :: rest ∧
      randomSample post (if g.doSample then samples.drop g.seqIds.length else samples) = .ok rest ∧
      (g.doSample = true → tokens =
        if g.isPrompt then (samples.headD []).take g.samplingParams.n
        else (samples.take g.seqIds.length).map fun sample => sample.headD 0) := by
  rw [randomSample.eq_def] at h
  dsimp only at h
  split at h
  · next hskip =>
    obtain ⟨rest, hrest, h⟩ := bind_eq_ok.mp h
    obtain rfl := pure_eq_ok.mp h
    rw [hskip]
    exact ⟨[], rest, rfl, hrest, fun hdo => by cases hdo⟩
  · next hdo =>
    rw [if_pos (Bool.not_eq_false _ ▸ hdo)]
    split at h
    · next hprompt =>
      split at h
      · exact (throw_eq_ok.mp h).elim
      · obtain ⟨rest, hrest, h⟩ := bind_eq_ok.mp h
        obtain rfl := pure_eq_ok.mp h
        exact ⟨_, rest, rfl, hrest, fun _ => by rw [if_pos hprompt]; rfl⟩
    · next hdecode =>
      obtain ⟨rest, hrest, h⟩ := bind_eq_ok.mp h
      obtain rfl := pure_eq_ok.mp h
      exact ⟨_, rest, rfl, hrest, fun _ => by rw [if_neg hdecode]⟩

theorem greedySample_cons {samples : List Nat}
    (h : greedySample (g :: post) samples = .ok results) :
    ∃ tokens rest, results = tokens :: rest ∧
      greedySample post (if g.doSample then samples.drop g.seqIds.length else samples) = .ok rest ∧
      (g.doSample = true → ∀ t, samples[0]? = some t → tokens = [t]) := by
  rw [greedySample.eq_def] at h
  dsimp only at h
  split at h
  · next hskip =>
    obtain ⟨rest, hrest, h⟩ := bind_eq_ok.mp h
    obtain rfl := pure_eq_ok.mp h
    rw [hskip]
    exact ⟨[], rest, rfl, hrest, fun hdo => by cases hdo⟩
  · next hdo =>
    rw [if_pos (Bool.not_eq_false _ ▸ hdo)]
    obtain ⟨-, h⟩ := guardNot_bind_eq_ok.mp h
    split at h
    · exact (throw_eq_ok.mp h).elim
    · obtain ⟨rest, hrest, h⟩ := bind_eq_ok.mp h
      obtain rfl := pure_eq_ok.mp h
      exact ⟨_, rest, rfl, hrest, fun _ t ht => by rw [Option.some.inj ht]⟩

/-- A group that does not sample has no rows. -/
theorem sampleIndices_length
    (hcount : g.doSample = true → g.sampleIndices.length = g.seqIds.length) :
    g.sampleIndices.length = if g.doSample then g.seqIds.length else 0 := by
  split
  · next hdo => exact hcount hdo
  · next hskip => exact Nat.eq_zero_of_not_pos fun hpos => hskip (decide_eq_true hpos)

/-- The samples of a group come after the rows that the groups before it have. -/
theorem randomSample_at {samples : List (List Nat)} {t : Nat}
    (h : randomSample (pre ++ g :: post) samples = .ok results)
    (hcount : ∀ g' ∈ pre, g'.doSample = true → g'.sampleIndices.length = g'.seqIds.length)
    (hdo : g.doSample = true) (hone : g.seqIds.length = 1) (hn : g.samplingParams.n = 1)
    (ht : samples[(pre.flatMap (·.sampleIndices)).length]? = some [t]) :
    results[pre.length]? = some [t] := by
  induction pre generalizing samples results with
  | nil =>
    obtain ⟨tokens, rest, rfl, -, htokens⟩ := randomSample_cons h
    obtain ⟨samples, rfl⟩ : ∃ rest, samples = [t] :: rest := by
      cases samples with
      | nil => cases ht
      | cons sample samples => exact ⟨samples, by rw [Option.some.inj ht]⟩
    rw [htokens hdo, hone, hn]
    split
    · rfl
    · rfl
  | cons a pre ih =>
    obtain ⟨tokens, rest, rfl, hrest, -⟩ := randomSample_cons h
    refine ih hrest (fun g' hg' => hcount g' (List.mem_cons_of_mem a hg')) ?_
    rw [List.flatMap_cons, List.length_append,
      sampleIndices_length (hcount a List.mem_cons_self)] at ht
    split
    · next ha => rwa [if_pos ha, ← List.getElem?_drop] at ht
    · next ha => rwa [if_neg ha, Nat.zero_add] at ht

theorem greedySample_at {samples : List Nat} {t : Nat}
    (h : greedySample (pre ++ g :: post) samples = .ok results)
    (hcount : ∀ g' ∈ pre, g'.doSample = true → g'.sampleIndices.length = g'.seqIds.length)
    (hdo : g.doSample = true)
    (ht : samples[(pre.flatMap (·.sampleIndices)).length]? = some t) :
    results[pre.length]? = some [t] := by
  induction pre generalizing samples results with
  | nil =>
    obtain ⟨tokens, rest, rfl, -, htokens⟩ := greedySample_cons h
    rw [htokens hdo t ht]
    rfl
  | cons a pre ih =>
    obtain ⟨tokens, rest, rfl, hrest, -⟩ := greedySample_cons h
    refine ih hrest (fun g' hg' => hcount g' (List.mem_cons_of_mem a hg')) ?_
    rw [List.flatMap_cons, List.length_append,
      sampleIndices_length (hcount a List.mem_cons_self)] at ht
    split
    · next ha => rwa [if_pos ha, ← List.getElem?_drop] at ht
    · next ha => rwa [if_neg ha, Nat.zero_add] at ht

end Tokens

/-! ## The groups of a sampling type -/

theorem lookup_zip {before after : List Nat} {k : Nat} {results : List (List Nat)}
    (h : k ∉ before) : ((before ++ k :: after).zip results).lookup k = results[before.length]? := by
  induction before generalizing results with
  | nil =>
    cases results with
    | nil => rfl
    | cons tokens rest => exact List.lookup_cons_self
  | cons a before ih =>
    rw [List.mem_cons, not_or] at h
    cases results with
    | nil => rfl
    | cons tokens rest =>
      rw [List.cons_append, List.zip_cons_cons, List.lookup_cons, beq_eq_false_iff_ne.mpr h.1]
      exact ih h.2

theorem lookup_zip_of_not_mem {ids : List Nat} {k : Nat} {results : List (List Nat)}
    (h : k ∉ ids) : (ids.zip results).lookup k = none := by
  induction ids generalizing results with
  | nil => rfl
  | cons a ids ih =>
    rw [List.mem_cons, not_or] at h
    cases results with
    | nil => rfl
    | cons tokens rest =>
      rw [List.zip_cons_cons, List.lookup_cons, beq_eq_false_iff_ne.mpr h.1]
      exact ih h.2

section Groups

variable {t : SamplingType} {pre post : List SequenceGroupToSample} {g : SequenceGroupToSample}

theorem map_fst_groupsOf (t : SamplingType) (groups : List SequenceGroupToSample) :
    (groupsOf t groups).map Prod.fst =
      groups.filter fun g => g.samplingParams.samplingType = t := by
  conv => rhs; rw [← List.zipIdx_map_fst 0 groups, List.filter_map]
  rfl

/-- The indices of the groups of a type, around a group of the type. -/
theorem groupsOf_ids (ht : g.samplingParams.samplingType = t) :
    ∃ before after, (groupsOf t (pre ++ g :: post)).map Prod.snd = before ++ pre.length :: after ∧
      pre.length ∉ before ∧
      before.length = (pre.filter fun g => g.samplingParams.samplingType = t).length := by
  have hsplit : groupsOf t (pre ++ g :: post) = groupsOf t pre ++ (g, pre.length) ::
      (post.zipIdx (pre.length + 1)).filter fun p => p.1.samplingParams.samplingType = t := by
    rw [groupsOf, List.zipIdx_append, List.zipIdx_cons, List.filter_append, Nat.zero_add]
    exact congrArg _ (List.filter_cons_of_pos (decide_eq_true ht))
  refine ⟨(groupsOf t pre).map Prod.snd, _, by rw [hsplit, List.map_append]; rfl,
    fun hmem => ?_, ?_⟩
  · obtain ⟨⟨g', i⟩, hmem, hi : i = pre.length⟩ := List.mem_map.mp hmem
    have hlt : i < pre.length + 0 := List.snd_lt_of_mem_zipIdx (List.mem_of_mem_filter hmem)
    exact absurd hi (Nat.ne_of_lt hlt)
  · rw [List.length_map, ← map_fst_groupsOf, List.length_map]

/-- A group of another type is not there. -/
theorem groupsOf_ids_of_ne (ht : g.samplingParams.samplingType ≠ t) :
    pre.length ∉ (groupsOf t (pre ++ g :: post)).map Prod.snd := by
  intro hmem
  obtain ⟨⟨g', i⟩, hmem, rfl⟩ := List.mem_map.mp hmem
  obtain ⟨hmem, htype⟩ := List.mem_filter.mp hmem
  have hat := List.mk_mem_zipIdx_iff_getElem?.mp hmem
  rw [List.getElem?_append_right (Nat.le_refl _), Nat.sub_self] at hat
  obtain rfl := Option.some.inj hat
  exact ht (of_decide_eq_true htype)

theorem maxN_eq_one {groups : List SequenceGroupToSample}
    (h : ∀ g ∈ groups, g.isPrompt = true → g.samplingParams.n ≤ 1) : maxN groups = 1 := by
  have hfold : ∀ (groups : List SequenceGroupToSample),
      (∀ g ∈ groups, g.isPrompt = true → g.samplingParams.n ≤ 1) →
      groups.foldl (fun m g => if g.isPrompt then max m g.samplingParams.n else m) 1 = 1 := by
    intro groups
    induction groups with
    | nil => exact fun _ => rfl
    | cons g rest ih =>
      intro h
      have hg : (if g.isPrompt then max 1 g.samplingParams.n else 1) = 1 := by
        split
        · next hp => exact Nat.max_eq_left (h g List.mem_cons_self hp)
        · rfl
      rw [List.foldl_cons, hg]
      exact ih fun g' hg' => h g' (List.mem_cons_of_mem g hg')
  exact hfold groups h

end Groups

end Bi100.Sampling
