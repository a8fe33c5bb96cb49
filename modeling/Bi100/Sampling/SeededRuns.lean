import Bi100.Sampling.SeededStep

/-!
# Runs of seeded sampling

The token that a seeded request samples depends on its row, its seed and how many tokens it has
sampled, in every run whose steps do not disturb it.

- `sampleRun`: the steps of a run, with the generators of the runner.
- `Served`: a request with one sample that is not preempted.
- `sampledIn_eq`: what it samples.
-/

namespace Bi100.Sampling

open Py

/-- The steps of a run. -/
def sampleRun (noise : Noise) (vocabSize : Nat) :
    List Batch → Dict String Generator → Except Err (List StepResult)
  | [], _ => pure []
  | b :: run, generators => do
    let result ← sampleStep noise vocabSize b generators
    let results ← sampleRun noise vocabSize run result.generators
    pure (result :: results)

/-- What a request samples in a run. -/
def sampledIn (r : String) (run : List Batch) (results : List StepResult) : List Sampled :=
  (run.zip results).filterMap fun p => sampledBy r p.1 p.2

/-- The steps of a request. -/
def metadataOf (r : String) (run : List Batch) : List SequenceGroupMetadata :=
  run.filterMap fun b => b.metadata.find? (·.requestId = r)

/-- Prefill chunks, then a prompt that samples, then decodes. -/
def Unpreempted : List SequenceGroupMetadata → Prop
  | [] => True
  | md :: rest => md.isPrompt = true ∧
      if md.doSample then ∀ md' ∈ rest, md'.isPrompt = false ∧ md'.doSample = true
      else Unpreempted rest

instance decidableUnpreempted : (mds : List SequenceGroupMetadata) → Decidable (Unpreempted mds)
  | [] => .isTrue trivial
  | md :: rest =>
    have := decidableUnpreempted rest
    inferInstanceAs (Decidable (md.isPrompt = true ∧
      if md.doSample then ∀ md' ∈ rest, md'.isPrompt = false ∧ md'.doSample = true
      else Unpreempted rest))

/-- A run that serves a request with one sequence. -/
structure Served (r : String) (params : SamplingParams) (run : List Batch) : Prop where
  unfinished : ∀ b ∈ run, r ∉ b.finished
  params : ∀ md ∈ metadataOf r run, md.samplingParams = params
  oneSeq : ∀ md ∈ metadataOf r run, md.seqData.size = 1
  unpreempted : Unpreempted (metadataOf r run)

section Runs

variable {noise : Noise} {vocabSize : Nat} {r : String} {params : SamplingParams} {run : List Batch}
  {b : Batch} {generators : Dict String Generator} {result : StepResult} {results : List StepResult}

theorem sampleRun_cons (h : sampleRun noise vocabSize (b :: run) generators = .ok results) :
    ∃ result rest, results = result :: rest ∧
      sampleStep noise vocabSize b generators = .ok result ∧
      sampleRun noise vocabSize run result.generators = .ok rest := by
  obtain ⟨result, hstep, h⟩ := bind_eq_ok.mp h
  obtain ⟨rest, hrest, h⟩ := bind_eq_ok.mp h
  exact ⟨result, rest, pure_eq_ok.mp h, hstep, hrest⟩

/-- The request is in the batch, or not. -/
theorem metadata_cases (r : String) (b : Batch) :
    (b.metadata.find? (·.requestId = r) = none ∧ r ∉ b.metadata.map (·.requestId)) ∨
      ∃ md before after, b.metadata.find? (·.requestId = r) = some md ∧ md.requestId = r ∧
        b.metadata = before ++ md :: after := by
  cases hfind : b.metadata.find? (·.requestId = r) with
  | none =>
    refine .inl ⟨rfl, fun hmem => ?_⟩
    obtain ⟨md, hmd, he⟩ := List.mem_map.mp hmem
    exact List.find?_eq_none.mp hfind md hmd (decide_eq_true he)
  | some md =>
    obtain ⟨he, before, after, hmd, -⟩ := List.find?_eq_some_iff_append.mp hfind
    exact .inr ⟨md, before, after, rfl, of_decide_eq_true he, hmd⟩

theorem sampledIn_cons_none {rest : List StepResult} (h : sampledBy r b result = none) :
    sampledIn r (b :: run) (result :: rest) = sampledIn r run rest :=
  List.filterMap_cons_none h

theorem sampledIn_cons_some {rest : List StepResult} {e : Sampled}
    (h : sampledBy r b result = some e) :
    sampledIn r (b :: run) (result :: rest) = e :: sampledIn r run rest :=
  List.filterMap_cons_some h

/-- The decodes of a request that has sampled `drawn` tokens. -/
theorem sampledIn_decodes {seed : Int} {drawn : Nat} (hseed : params.seed = some seed)
    (hn : params.n = 1) (hfinished : ∀ b ∈ run, r ∉ b.finished)
    (hparams : ∀ md ∈ metadataOf r run, md.samplingParams = params)
    (hone : ∀ md ∈ metadataOf r run, md.seqData.size = 1)
    (hdecodes : ∀ md ∈ metadataOf r run, md.isPrompt = false ∧ md.doSample = true)
    (hun : ∀ b ∈ run, Undisturbed r b)
    (hgen : params.samplingType = .randomSeed →
      generators.get? r = some ⟨seed, drawn * vocabSize⟩)
    (h : sampleRun noise vocabSize run generators = .ok results) {k : Nat} {e : Sampled}
    (he : (sampledIn r run results)[k]? = some e) :
    ∃ row, e = ⟨[row], [tokenOf noise vocabSize params ⟨seed, (drawn + k) * vocabSize⟩ row]⟩ := by
  induction run generalizing generators results drawn k with
  | nil =>
    obtain rfl := pure_eq_ok.mp h
    cases he
  | cons b run ih =>
    obtain ⟨result, rest, rfl, hstep, hrest⟩ := sampleRun_cons h
    obtain ⟨hb, hfinished⟩ := List.forall_mem_cons.mp hfinished
    obtain ⟨hunb, hun⟩ := List.forall_mem_cons.mp hun
    obtain ⟨hfind, hr⟩ | ⟨md, before, after, hfind, rfl, hmd⟩ := metadata_cases r b
    · have hsame : metadataOf r (b :: run) = metadataOf r run := List.filterMap_cons_none hfind
      rw [hsame] at hparams hone hdecodes
      rw [sampledIn_cons_none (sampledBy_of_not_mem hr)] at he
      exact ih hfinished hparams hone hdecodes hun
        (fun ht => (sampleStep_of_not_mem hstep hb hr).trans (hgen ht)) hrest he
    · have hcons : metadataOf md.requestId (b :: run) = md :: metadataOf md.requestId run :=
        List.filterMap_cons_some hfind
      rw [hcons] at hparams hone hdecodes
      obtain ⟨rfl, hparams⟩ := List.forall_mem_cons.mp hparams
      obtain ⟨honeb, hone⟩ := List.forall_mem_cons.mp hone
      obtain ⟨⟨hdecode, hdo⟩, hdecodes⟩ := List.forall_mem_cons.mp hdecodes
      obtain ⟨row, hsampled, hskip⟩ := sampleStep_at hstep hmd honeb hn
        (Option.isSome_iff_exists.mpr ⟨seed, hseed⟩) hdo hunb (fun ht => by
          unfold newGenerators
          rw [if_neg (by rw [hdecode]; exact Bool.noConfusion), getGenerators_of_not_mem hb]
          exact hgen ht)
      rw [sampledIn_cons_some hsampled] at he
      cases k with
      | zero => exact ⟨row, (Option.some.inj he).symm⟩
      | succ k =>
        rw [← Nat.succ_add_eq_add_succ]
        refine ih hfinished hparams hone hdecodes hun (fun ht => (hskip ht).trans ?_) hrest he
        show some (Generator.mk seed (drawn * vocabSize + 1 * vocabSize)) = _
        rw [Nat.one_mul, ← Nat.succ_mul]

/-- The tokens of a request, by its rows. -/
theorem sampledIn_eq {seed : Int} (hseed : params.seed = some seed) (hn : params.n = 1)
    (hserved : Served r params run) (hun : ∀ b ∈ run, Undisturbed r b)
    (h : sampleRun noise vocabSize run generators = .ok results) {k : Nat} {e : Sampled}
    (he : (sampledIn r run results)[k]? = some e) :
    ∃ row, e = ⟨[row], [tokenOf noise vocabSize params ⟨seed, k * vocabSize⟩ row]⟩ := by
  obtain ⟨hfinished, hparams, hone, hphases⟩ := hserved
  induction run generalizing generators results with
  | nil =>
    obtain rfl := pure_eq_ok.mp h
    cases he
  | cons b run ih =>
    obtain ⟨result, rest, rfl, hstep, hrest⟩ := sampleRun_cons h
    obtain ⟨hb, hfinished⟩ := List.forall_mem_cons.mp hfinished
    obtain ⟨hunb, hun⟩ := List.forall_mem_cons.mp hun
    obtain ⟨hfind, hr⟩ | ⟨md, before, after, hfind, rfl, hmd⟩ := metadata_cases r b
    · have hsame : metadataOf r (b :: run) = metadataOf r run := List.filterMap_cons_none hfind
      rw [hsame] at hparams hone hphases
      rw [sampledIn_cons_none (sampledBy_of_not_mem hr)] at he
      exact ih hun hrest he hfinished hparams hone hphases
    · have hcons : metadataOf md.requestId (b :: run) = md :: metadataOf md.requestId run :=
        List.filterMap_cons_some hfind
      rw [hcons] at hparams hone hphases
      obtain ⟨rfl, hparams⟩ := List.forall_mem_cons.mp hparams
      obtain ⟨honeb, hone⟩ := List.forall_mem_cons.mp hone
      obtain ⟨hprompt, hphases⟩ := hphases
      cases hdo : md.doSample with
      | false =>
        rw [hdo, if_neg Bool.false_ne_true] at hphases
        rw [sampledIn_cons_none (sampledBy_of_chunk hstep hmd hdo)] at he
        exact ih hun hrest he hfinished hparams hone hphases
      | true =>
        rw [hdo, if_pos rfl] at hphases
        -- every prompt starts the generator again
        obtain ⟨row, hsampled, hskip⟩ := sampleStep_at hstep hmd honeb hn
          (Option.isSome_iff_exists.mpr ⟨seed, hseed⟩) hdo hunb (fun _ => by
            unfold newGenerators
            rw [if_pos hprompt, hseed]
            exact Dict.get?_set_self _ _ _)
        rw [sampledIn_cons_some hsampled] at he
        cases k with
        | zero =>
          rw [Nat.zero_mul]
          exact ⟨row, (Option.some.inj he).symm⟩
        | succ k =>
          rw [Nat.add_comm]
          refine sampledIn_decodes hseed hn hfinished hparams hone hphases hun
            (fun ht => (hskip ht).trans ?_) hrest he
          show some (Generator.mk seed (0 + 1 * vocabSize)) = _
          rw [Nat.zero_add]

/-- The tokens do not depend on the other groups of the steps, nor on how they are chunked. -/
theorem sampledIn_independent {run₁ run₂ : List Batch}
    {generators₁ generators₂ : Dict String Generator} {results₁ results₂ : List StepResult}
    (hseed : params.seed.isSome = true) (hn : params.n = 1)
    (hserved₁ : Served r params run₁) (hserved₂ : Served r params run₂)
    (hun₁ : ∀ b ∈ run₁, Undisturbed r b) (hun₂ : ∀ b ∈ run₂, Undisturbed r b)
    (h₁ : sampleRun noise vocabSize run₁ generators₁ = .ok results₁)
    (h₂ : sampleRun noise vocabSize run₂ generators₂ = .ok results₂) {k : Nat} {e₁ e₂ : Sampled}
    (he₁ : (sampledIn r run₁ results₁)[k]? = some e₁)
    (he₂ : (sampledIn r run₂ results₂)[k]? = some e₂) (hrows : e₁.rows = e₂.rows) :
    e₁.tokens = e₂.tokens := by
  obtain ⟨seed, hseed⟩ := Option.isSome_iff_exists.mp hseed
  obtain ⟨row₁, rfl⟩ := sampledIn_eq hseed hn hserved₁ hun₁ h₁ he₁
  obtain ⟨row₂, rfl⟩ := sampledIn_eq hseed hn hserved₂ hun₂ h₂ he₂
  rw [List.singleton_inj.mp hrows]

end Runs

/-! ## A prompt with and without the prefill of another request -/

def seededParams (seed : Int) : SamplingParams where
  n := 1
  presencePenalty := 0
  frequencyPenalty := 0
  repetitionPenalty := 1
  temperature := 1
  topP := 1
  topK := -1
  minP := 0
  seed := some seed
  minTokens := 0
  allStopTokenIds := []
  logprobs := none
  promptLogprobs := none
  promptLogprobPositions := none

def seededPrompt : SequenceGroupMetadata :=
  ⟨"prompt", true, (∅ : Dict Nat SequenceData).set 0 (.fromSeqs [5]), seededParams 1, true⟩

def seededDecode : SequenceGroupMetadata :=
  ⟨"prompt", false, (∅ : Dict Nat SequenceData).set 0 ⟨[5], [0], 1, .decode⟩, seededParams 1, true⟩

/-- The first chunk of a prompt of two tokens. -/
def seededChunk : SequenceGroupMetadata :=
  ⟨"chunk", true, (∅ : Dict Nat SequenceData).set 1 (.fromSeqs [6, 7]), seededParams 2, false⟩

theorem replicate_at {mds : List SequenceGroupMetadata} (i : Nat) (md : SequenceGroupMetadata)
    (h : mds[i]? = some md) (_ : md.isPrompt = false) :
    (List.replicate mds.length 1)[i]? = some 1 :=
  List.getElem?_replicate_of_lt (List.getElem?_eq_some_iff.mp h).1

/-- A step with one row, for groups with one token each. -/
def oneRowBatch (mds : List SequenceGroupMetadata) (hnodup : (mds.map (·.requestId)).Nodup) :
    Batch where
  finished := []
  metadata := mds
  seqLens := List.replicate mds.length 1
  queryLens := List.replicate mds.length 1
  probs := [[1 / 2, 1 / 2]]
  logprobs := [[0, 0]]
  unseeded := []
  empty := [1, 1]
  decodes := replicate_at
  nodup := hnodup

theorem nodup_promptChunk : ([seededPrompt, seededChunk].map (·.requestId)).Nodup := by decide

theorem nodup_chunkPrompt : ([seededChunk, seededPrompt].map (·.requestId)).Nodup := by decide

def alone : List Batch :=
  [oneRowBatch [seededPrompt] (List.nodup_singleton _),
    oneRowBatch [seededDecode] (List.nodup_singleton _)]

def chunkAfter : List Batch :=
  [oneRowBatch [seededPrompt, seededChunk] nodup_promptChunk,
    oneRowBatch [seededDecode] (List.nodup_singleton _)]

def chunkBefore : List Batch := [oneRowBatch [seededChunk, seededPrompt] nodup_chunkPrompt]

/-- The noise of seed 1 rises, that of other seeds falls. -/
def opposedNoise : Noise := fun seed k =>
  if seed = 1 then 1 + ((k % 2 : Nat) : ℚ) else 2 - ((k % 2 : Nat) : ℚ)

theorem served_alone : Served "prompt" (seededParams 1) alone :=
  ⟨by decide +kernel, by decide +kernel, by decide +kernel, by decide +kernel⟩

theorem served_chunkAfter : Served "prompt" (seededParams 1) chunkAfter :=
  ⟨by decide +kernel, by decide +kernel, by decide +kernel, by decide +kernel⟩

theorem served_chunkBefore : Served "prompt" (seededParams 1) chunkBefore :=
  ⟨by decide +kernel, by decide +kernel, by decide +kernel, by decide +kernel⟩

/-- The second token, alone and after a step with the chunk. -/
theorem sampledIn_independent_chunkAfter : ∃ results₁ results₂ e₁ e₂,
    sampleRun opposedNoise 2 alone ∅ = .ok results₁ ∧
      sampleRun opposedNoise 2 chunkAfter ∅ = .ok results₂ ∧
      (sampledIn "prompt" alone results₁)[1]? = some e₁ ∧
      (sampledIn "prompt" chunkAfter results₂)[1]? = some e₂ ∧ e₁.tokens = e₂.tokens := by
  obtain ⟨results₁, h₁, he₁⟩ := exists_of_any (x := sampleRun opposedNoise 2 alone ∅)
    (P := fun results => (sampledIn "prompt" alone results)[1]? =
      some ⟨[([1 / 2, 1 / 2], [0, 0])], [0]⟩) (by decide +kernel)
  obtain ⟨results₂, h₂, he₂⟩ := exists_of_any (x := sampleRun opposedNoise 2 chunkAfter ∅)
    (P := fun results => (sampledIn "prompt" chunkAfter results)[1]? =
      some ⟨[([1 / 2, 1 / 2], [0, 0])], [0]⟩) (by decide +kernel)
  exact ⟨results₁, results₂, _, _, h₁, h₂, he₁, he₂, sampledIn_independent (by decide) (by decide)
    served_alone served_chunkAfter (by decide +kernel) (by decide +kernel) h₁ h₂ he₁ he₂ rfl⟩

/-- The chunk before the prompt fills the row of the prompt with its own noise. -/
theorem sampledIn_depends : ¬ ∀ (noise : Noise) (vocabSize : Nat) (r : String)
    (params : SamplingParams) (run₁ run₂ : List Batch)
    (generators₁ generators₂ : Dict String Generator) (results₁ results₂ : List StepResult)
    (k : Nat) (e₁ e₂ : Sampled),
    params.seed.isSome = true → params.n = 1 → Served r params run₁ → Served r params run₂ →
    sampleRun noise vocabSize run₁ generators₁ = .ok results₁ →
    sampleRun noise vocabSize run₂ generators₂ = .ok results₂ →
    (sampledIn r run₁ results₁)[k]? = some e₁ → (sampledIn r run₂ results₂)[k]? = some e₂ →
    e₁.rows = e₂.rows → e₁.tokens = e₂.tokens := by
  intro hall
  obtain ⟨results₁, h₁, he₁⟩ := exists_of_any (x := sampleRun opposedNoise 2 alone ∅)
    (P := fun results => (sampledIn "prompt" alone results)[0]? =
      some ⟨[([1 / 2, 1 / 2], [0, 0])], [0]⟩) (by decide +kernel)
  obtain ⟨results₂, h₂, he₂⟩ := exists_of_any (x := sampleRun opposedNoise 2 chunkBefore ∅)
    (P := fun results => (sampledIn "prompt" chunkBefore results)[0]? =
      some ⟨[([1 / 2, 1 / 2], [0, 0])], [1]⟩) (by decide +kernel)
  cases hall opposedNoise 2 "prompt" (seededParams 1) alone chunkBefore ∅ ∅ results₁ results₂ 0 _ _
    (by decide) (by decide) served_alone served_chunkBefore h₁ h₂ he₁ he₂ rfl

end Bi100.Sampling
