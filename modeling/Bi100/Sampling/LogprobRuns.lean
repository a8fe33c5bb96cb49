import Bi100.Sampling.LogprobsAligned
import Bi100.Sampling.Tensors
import Mathlib.Data.List.Sort

/-!
# The log-probabilities of a batch and of a prompt

- `getLogprobs_aligned`: in a prepared batch, every dictionary is that of the row of its token.
- `promptLogprobs_complete`: over the chunks of a prompt, every token gets its log-probability once.
-/

namespace Bi100.Sampling

open Py

variable {V : Type} [LinearOrder V] {topk : Nat → List V → List (Nat × V)} {logprobs : List (List V)}
  {vocab : Nat}

/-! ## The groups of a batch -/

/-- What is sampled for a group, for a vocabulary. -/
structure ValidResult (vocab : Nat) (md : SequenceGroupMetadata) (result : SampleResult) : Prop where
  prompt : ∀ d ∈ md.seqData.values, ∀ token ∈ d.promptTokenIds, token < vocab
  promptLogprobs : ∀ n, md.samplingParams.promptLogprobs = some n → n ≤ vocab
  logprobs : ∀ n, md.samplingParams.logprobs = some n → n ≤ vocab
  sampled : md.doSample = true → result.1 ≠ [] ∧ result.2.length = result.1.length ∧
    (∀ token ∈ result.1, token < vocab) ∧ ∀ parentId ∈ result.2, parentId < md.seqData.size

theorem nextTokensAt_ok {d : SequenceData} {indices : List Nat}
    (h : ∀ o ∈ indices, d.numComputedTokens + o + 1 < d.promptTokenIds.length) :
    ∃ tokens, SequenceGroupToSample.nextTokensAt d indices = .ok tokens ∧
      tokens.map some = indices.map fun o => d.promptTokenIds[d.numComputedTokens + o + 1]? := by
  induction indices with
  | nil => exact ⟨[], rfl, rfl⟩
  | cons o indices ih =>
    obtain ⟨ho, hindices⟩ := List.forall_mem_cons.mp h
    obtain ⟨tokens, hrun, htokens⟩ := ih hindices
    have hget := List.getElem?_eq_getElem ho
    refine ⟨d.promptTokenIds[d.numComputedTokens + o + 1] :: tokens, ?_, ?_⟩
    · rw [SequenceGroupToSample.nextTokensAt, hget]
      exact bind_eq_ok.mpr ⟨tokens, hrun, rfl⟩
    · rw [List.map_cons, List.map_cons, htokens, hget]

section Placed

variable {selected : List Int} {start q : Nat} {md : SequenceGroupMetadata}
  {g : SequenceGroupToSample} {result : SampleResult} {d : SequenceData}

/-- The next tokens of a prompt. -/
theorem PromptReady.next (h : PromptReady g q d) (hprompt : g.isPrompt = true) :
    g.getNextPromptTokens = .ok g.nextTokens ∧ g.nextTokens.map some =
      g.promptLogprobOutputIndices.map fun o => d.promptTokenIds[d.numComputedTokens + o + 1]? := by
  obtain ⟨tokens, hrun, htokens⟩ := @nextTokensAt_ok d g.promptLogprobOutputIndices fun o ho => by
    obtain ⟨hlt, -⟩ := (h.mem o).mp ho
    have hle : fullPromptLogprobLen g q d ≤ d.promptTokenIds.length - d.numComputedTokens - 1 :=
      Nat.min_le_right _ _
    omega
  have hok : g.getNextPromptTokens = .ok tokens := by
    refine guardNot_bind_eq_ok.mpr ⟨?_, guardNot_bind_eq_ok.mpr ⟨?_, guardNot_bind_eq_ok.mpr
      ⟨not_not.mpr h.seqIds, bind_eq_ok.mpr ⟨d, h.first, hrun⟩⟩⟩⟩
    · exact fun hfalse => Bool.false_ne_true (hfalse.symm.trans hprompt)
    · rw [h.query]
      exact Option.some_ne_none q
  have hnext : g.nextTokens = tokens := by
    rw [SequenceGroupToSample.nextTokens, hok]
  rw [hnext]
  exact ⟨hok, htokens⟩

theorem Placed.groupReady (h : Placed selected start q md g)
    (hrows : g.promptLogprobIndices ≠ [] →
      g.isPrompt = true ∧ g.samplingParams.promptLogprobs.isSome = true)
    (hsampled : g.sampleIndices ≠ [] → g.sampleIndices.length = g.seqIds.length)
    (hresult : ValidResult vocab md result) : GroupReady g result := by
  have hwants : g.wantsPromptLogprobs = true → g.isPrompt = true := fun hw =>
    (Bool.and_eq_true_iff.mp hw).1
  have hready : g.isPrompt = true → ∃ d, PromptReady g q d := fun hp => by
    obtain ⟨d, -, hd⟩ := h.ready (h.isPrompt ▸ hp)
    exact ⟨d, hd⟩
  refine ⟨fun hw => ?_, fun hw => ?_, fun hw => ?_, h.outputIndices, ?_, fun hw => ?_, fun hs => ?_,
    fun hs => ?_⟩
  · obtain ⟨d, hd⟩ := hready (hwants hw)
    exact ⟨q, d, hd.query, hd.first, fun o ho => ((hd.mem o).mp ho).1⟩
  · obtain ⟨d, hd⟩ := hready (hwants hw)
    exact (hd.next (hwants hw)).1
  · obtain ⟨d, hd⟩ := hready (hwants hw)
    have hlen := congrArg List.length (hd.next (hwants hw)).2
    rw [List.length_map, List.length_map] at hlen
    rw [hlen, h.outputIndices]
  · cases hprompt : g.isPrompt with
    | true =>
      obtain ⟨d, hd⟩ := hready hprompt
      exact hd.increasing.imp fun hlt => Nat.ne_of_lt hlt
    | false =>
      have hnil : g.promptLogprobIndices = [] := by
        by_contra hne
        exact Bool.false_ne_true (hprompt.symm.trans (hrows hne).1)
      have houts := h.outputIndices
      rw [hnil, List.length_nil] at houts
      rw [List.length_eq_zero_iff.mp houts.symm]
      exact List.nodup_nil
  · by_contra hne
    obtain ⟨hp, hs⟩ := hrows hne
    exact Bool.false_ne_true (hw.symm.trans (Bool.and_eq_true_iff.mpr ⟨hp, hs⟩))
  · exact hsampled (List.ne_nil_of_length_pos (of_decide_eq_true hs))
  · obtain ⟨hne, hlen, -, hparents⟩ := hresult.sampled (h.doSample ▸ hs)
    refine ⟨hne, hlen, fun parentId hmem => ?_⟩
    rw [h.seqIds, Dict.length_keys]
    exact hparents parentId hmem

theorem lookup_of_lt {r token : Nat} (hr : r < logprobs.length)
    (hvocab : ∀ row ∈ logprobs, row.length = vocab) (ht : token < vocab) :
    ∃ item, lookup logprobs (r, token) = some item := by
  have hrow := List.getElem?_eq_getElem hr
  have hlt : token < logprobs[r].length := by rwa [hvocab _ (List.mem_of_getElem? hrow)]
  refine ⟨(logprobs[r][token], rank logprobs[r] logprobs[r][token]), ?_⟩
  show logprobs[r]?.bind (rowValue · token) = _
  rw [hrow, Option.bind_some, rowValue, List.getElem?_eq_getElem hlt]
  rfl

/-- What is selected for a group exists. -/
theorem Placed.lookup (h : Placed selected start q md g) (hresult : ValidResult vocab md result)
    (hready : GroupReady g result) (hlt : ∀ r ∈ g.rows, r < logprobs.length)
    (hvocab : ∀ row ∈ logprobs, row.length = vocab) {query : Nat × Nat}
    (hquery : query ∈ queries (g, result)) : ∃ item, lookup logprobs query = some item := by
  obtain ⟨r, token⟩ := query
  rcases List.mem_append.mp hquery with hq | hq
  · by_cases hw : g.wantsPromptLogprobs = true
    · rw [promptQueries, if_pos hw] at hq
      obtain ⟨hr, ht⟩ := List.of_mem_zip hq
      have hprompt := (Bool.and_eq_true_iff.mp hw).1
      obtain ⟨d, hd, hprompt'⟩ := h.ready (h.isPrompt ▸ hprompt)
      refine lookup_of_lt (hlt r (List.mem_append_left _ hr)) hvocab
        (hresult.prompt d (by rw [hd]; exact List.mem_singleton_self d) token ?_)
      have hmem := List.mem_map_of_mem (f := some) ht
      rw [(hprompt'.next hprompt).2] at hmem
      obtain ⟨o, -, ho⟩ := List.mem_map.mp hmem
      exact List.mem_of_getElem? ho
    · rw [promptQueries, if_neg hw] at hq
      exact absurd hq List.not_mem_nil
  · by_cases hs : g.doSample = true
    · rw [sampleQueries, if_pos hs] at hq
      obtain ⟨hr, ht⟩ := List.of_mem_zip hq
      obtain ⟨parentId, hparent, rfl⟩ := List.mem_map.mp hr
      obtain ⟨-, -, htokens, -⟩ := hresult.sampled (h.doSample ▸ hs)
      have hparent' := (hready.sampled hs).2.2 parentId hparent
      rw [← hready.sampleIndices hs] at hparent'
      have hmem : g.sampleIndices.headD 0 + parentId ∈
          List.range' (g.sampleIndices.headD 0) g.sampleIndices.length :=
        List.mem_range'_1.mpr ⟨Nat.le_add_right _ _, Nat.add_lt_add_left hparent' _⟩
      rw [← h.sampleRange] at hmem
      exact lookup_of_lt (hlt _ (List.mem_append_right _ hmem)) hvocab (htokens token ht)
    · rw [sampleQueries, if_neg hs] at hq
      exact absurd hq List.not_mem_nil

end Placed

/-! ## A batch -/

/-- How many prompt logprobs a chunk of a prompt has. -/
def promptLogprobCount (md : SequenceGroupMetadata) (queryLen : Nat) (d : SequenceData) : Nat :=
  min (if md.doSample then queryLen - 1 else queryLen)
    (d.promptTokenIds.length - d.numComputedTokens - 1)

/-- The dictionary of a token, from the one of some rows that belongs to a hidden state. -/
def EntryOf (topk : Nat → List V → List (Nat × V)) (selected : List Int)
    (logprobs : List (List V)) (largest : Nat) (rows : List Nat) (hidden num token : Nat)
    (entry : LogprobDict V) : Prop :=
  ∃ r ∈ rows, selected[r]? = some (hidden : Int) ∧ IsEntry topk logprobs largest num r token entry

/-- The log-probabilities of a group whose first hidden state is `start`. -/
structure AlignedLogprobs (topk : Nat → List V → List (Nat × V)) (selected : List Int)
    (logprobs : List (List V)) (largest start queryLen : Nat) (md : SequenceGroupMetadata)
    (g : SequenceGroupToSample) (result : SampleResult) (answer : GroupLogprobs V) : Prop where
  requested : ∀ n, md.isPrompt = true ∧ md.samplingParams.promptLogprobs = some n ∨
    md.doSample = true ∧ md.samplingParams.logprobs = some n → n ≤ largest
  noPrompt : md.isPrompt = false ∨ md.samplingParams.promptLogprobs = none → answer.1 = none
  /-- The entry of a prompt token is from the hidden state before it. -/
  prompt : ∀ num, md.isPrompt = true → md.samplingParams.promptLogprobs = some num →
    ∃ d entries, md.seqData.values = [d] ∧ answer.1 = some entries ∧
      entries.length = promptLogprobCount md queryLen d ∧
      ∀ o < promptLogprobCount md queryLen d,
        (Asked md.samplingParams (d.numComputedTokens + o + 1) → ∃ token e,
          d.promptTokenIds[d.numComputedTokens + o + 1]? = some token ∧
          entries[o]? = some (some e) ∧ EntryOf topk selected logprobs largest
            g.promptLogprobIndices (start + o) num token e) ∧
        (¬ Asked md.samplingParams (d.numComputedTokens + o + 1) → entries[o]? = some none)
  nothing : md.doSample = false → answer.2 = []
  dummy : md.doSample = true → md.samplingParams.logprobs = none →
    answer.2 = result.1.map dummyEntry
  /-- The entry of a sampled token is from the hidden state that it is sampled from. -/
  sampled : ∀ num, md.doSample = true → md.samplingParams.logprobs = some num →
    answer.2.length = result.1.length ∧ ∀ i token parentId : Nat, result.1[i]? = some token →
      result.2[i]? = some parentId → ∃ e, answer.2[i]? = some e ∧
        EntryOf topk selected logprobs largest g.sampleIndices
          (start + sampleOffset md queryLen + parentId) num token e

section Aligned

variable {selected : List Int} {start q largest : Nat} {md : SequenceGroupMetadata}
  {g : SequenceGroupToSample} {result : SampleResult} {answer : GroupLogprobs V}

theorem Placed.aligned (h : Placed selected start q md g)
    (hrequested : ∀ n, Requests g n → n ≤ largest)
    (hprompt : PromptAnswer topk logprobs largest g answer.1)
    (hsample : SampleAnswer topk logprobs largest g result answer.2) :
    AlignedLogprobs topk selected logprobs largest start q md g result answer := by
  refine ⟨fun n hn => hrequested n ?_, fun hn => ?_, fun num hp hn => ?_, fun hs => ?_,
    fun hs hn => ?_, fun num hs hn => ?_⟩
  · rw [Requests, h.isPrompt, h.samplingParams, h.doSample]
    exact hn
  · cases hanswer : answer.1 with
    | none => rfl
    | some entries =>
      rw [hanswer] at hprompt
      obtain ⟨num, -, -, hp, hnum, -⟩ := hprompt
      rw [h.isPrompt] at hp
      rw [h.samplingParams] at hnum
      rcases hn with hn | hn
      · exact absurd (hn.symm.trans hp) Bool.false_ne_true
      · cases hn.symm.trans hnum
  · cases hanswer : answer.1 with
    | none =>
      rw [hanswer] at hprompt
      have hw : g.wantsPromptLogprobs = true := by
        rw [SequenceGroupToSample.wantsPromptLogprobs, h.isPrompt, hp, h.samplingParams, hn]
        rfl
      exact absurd (hprompt.symm.trans hw) Bool.false_ne_true
    | some entries =>
      rw [hanswer] at hprompt
      obtain ⟨num', q', d', hp', hnum, hq, hd', hlen, hentries, hothers⟩ := hprompt
      obtain ⟨d, hvalues, hready⟩ := h.ready hp
      rw [h.samplingParams, hn] at hnum
      obtain rfl := Option.some_inj.mp hnum
      obtain rfl := Option.some_inj.mp (hready.query.symm.trans hq)
      obtain rfl := Except.ok.inj (hready.first.symm.trans hd')
      have hcount : fullPromptLogprobLen g q d = promptLogprobCount md q d := by
        rw [fullPromptLogprobLen, h.doSample, hready.seqIds]
        rfl
      rw [hcount] at hlen hothers
      have hmem := hready.mem
      rw [hcount, h.samplingParams] at hmem
      refine ⟨d, entries, hvalues, rfl, hlen, fun o ho => ⟨fun hasked => ?_, fun hasked => ?_⟩⟩
      · obtain ⟨i, hi⟩ := List.mem_iff_getElem?.mp ((hmem o).mpr ⟨ho, hasked⟩)
        have hlt := (List.getElem?_eq_some_iff.mp hi).1
        rw [← h.outputIndices] at hlt
        have hr := List.getElem?_eq_getElem hlt
        obtain ⟨-, htokens⟩ := hready.next hp'
        have htoken := congrArg (fun l : List (Option Nat) => l[i]?) htokens
        rw [List.getElem?_map, List.getElem?_map, hi, Option.map_some] at htoken
        obtain ⟨token, ht, htoken⟩ := Option.map_eq_some_iff.mp htoken
        obtain ⟨e, he, hise⟩ := hentries i _ o token hr hi ht
        exact ⟨token, e, htoken.symm, he, _, List.getElem_mem hlt,
          h.promptRows i _ o hr hi, hise⟩
      · exact hothers o ho fun hin => hasked ((hmem o).mp hin).2
  · exact hsample.nothing (h.doSample.trans hs)
  · exact hsample.dummy (h.doSample.trans hs) (h.samplingParams ▸ hn)
  · obtain ⟨hlen, hentries⟩ := hsample.sampled num (h.doSample.trans hs) (h.samplingParams ▸ hn)
    refine ⟨hlen, fun i token parentId ht hparent => ?_⟩
    obtain ⟨r, e, hr, he, hise⟩ := hentries i token parentId ht hparent
    exact ⟨e, he, r, List.mem_of_getElem? hr, h.sampleRows parentId r hr, hise⟩

end Aligned

section Batch

variable {mds : List SequenceGroupMetadata} {seqLens queryLens : List Nat}
  {generators : Dict String Generator} {out : PrepareState} {results : List SampleResult}

/-- A batch: the rows that it has, and what is sampled. -/
structure ValidBatch (mds : List SequenceGroupMetadata) (queryLens : List Nat)
    (results : List SampleResult) (vocab : Nat) : Prop where
  numQueries : queryLens.length = mds.length
  query : ∀ (k : Nat) (md : SequenceGroupMetadata) (q : Nat), mds[k]? = some md →
    queryLens[k]? = some q → ValidQuery md q
  numResults : results.length = mds.length
  result : ∀ (k : Nat) (md : SequenceGroupMetadata) (result : SampleResult), mds[k]? = some md →
    results[k]? = some result → ValidResult vocab md result

theorem getLogprobs_batch (hprepare : prepareSeqGroups mds seqLens queryLens generators = .ok out)
    (hvalid : ValidBatch mds queryLens results vocab)
    (hrows : logprobs.length = out.selectedTokenIndices.length)
    (hvocab : ∀ row ∈ logprobs, row.length = vocab) :
    ∃ largest answers, getLogprobs topk logprobs out.seqGroups results = .ok answers ∧
      answers.length = mds.length ∧
      ∀ (k : Nat) md q result, mds[k]? = some md → queryLens[k]? = some q →
        results[k]? = some result → ∃ g answer, out.seqGroups[k]? = some g ∧
          answers[k]? = some answer ∧ AlignedLogprobs topk out.selectedTokenIndices logprobs largest
            (totalTokens ((mds.zip queryLens).take k)) q md g result answer := by
  have hbatch := prepareSeqGroups_placed hvalid.query hprepare
  have hlen : out.seqGroups.length = mds.length := by
    rw [hbatch.length, List.length_zip, hvalid.numQueries, Nat.min_self]
  rw [hbatch.rows.selected] at hrows
  have hflat := hbatch.rows.rows
  rw [← hrows] at hflat
  -- Every group is a group of the metadata.
  have hgroup : ∀ p ∈ out.seqGroups.zip results, ∃ md q start,
      Placed out.selectedTokenIndices start q md p.1 ∧ ValidResult vocab md p.2 ∧
        GroupReady p.1 p.2 := by
    rintro ⟨g, result⟩ hp
    obtain ⟨k, hk⟩ := List.mem_iff_getElem?.mp hp
    obtain ⟨hg, hresult⟩ := List.getElem?_zip_eq_some.mp hk
    have hklt := (List.getElem?_eq_some_iff.mp hg).1
    have hmd := List.getElem?_eq_getElem (hlen ▸ hklt : k < mds.length)
    have hq := List.getElem?_eq_getElem
      (hvalid.numQueries.symm ▸ hlen ▸ hklt : k < queryLens.length)
    obtain ⟨g', hg', hplaced⟩ := hbatch.placed k _ _ (List.getElem?_zip_eq_some.mpr ⟨hmd, hq⟩)
    obtain rfl := Option.some_inj.mp (hg.symm.trans hg')
    have hgmem := List.mem_of_getElem? hg
    have hres := hvalid.result k _ result hmd hresult
    exact ⟨_, _, _, hplaced, hres, hplaced.groupReady (hbatch.rows.promptOnly g hgmem)
      (hbatch.rows.sampled g hgmem) hres⟩
  have hlt : ∀ g ∈ out.seqGroups, ∀ r ∈ g.rows, r < logprobs.length := fun g hg r hr => by
    have hmem : r ∈ out.seqGroups.flatMap SequenceGroupToSample.rows :=
      List.mem_flatMap.mpr ⟨g, hg, hr⟩
    rwa [hflat, List.mem_range] at hmem
  obtain ⟨largest, answers, hrun, hrequested, hanswers⟩ := @getLogprobs_ok V _ topk logprobs
    out.seqGroups results vocab (by rw [hvalid.numResults, hlen])
    (fun p hp => by
      obtain ⟨_, _, _, -, -, hready⟩ := hgroup p hp
      exact hready) hflat
    (fun p hp query hquery => by
      obtain ⟨md, q, start, hplaced, hres, hready⟩ := hgroup p hp
      exact hplaced.lookup hres hready (hlt p.1 (List.of_mem_zip hp).1) hvocab hquery) hvocab
    (fun p hp n hn => by
      obtain ⟨md, q, start, hplaced, hres, -⟩ := hgroup p hp
      rcases hn with ⟨-, hn⟩ | ⟨-, hn⟩
      · exact hres.promptLogprobs n (hplaced.samplingParams ▸ hn)
      · exact hres.logprobs n (hplaced.samplingParams ▸ hn))
  have hcount : (out.seqGroups.zip results).length = answers.length := hanswers.length_eq
  rw [List.length_zip, hlen, hvalid.numResults, Nat.min_self] at hcount
  refine ⟨largest, answers, hrun, hcount.symm, fun k md q result hmd hq hresult => ?_⟩
  obtain ⟨g, hg, hplaced⟩ := hbatch.placed k md q (List.getElem?_zip_eq_some.mpr ⟨hmd, hq⟩)
  have hk := (List.getElem?_eq_some_iff.mp hmd).1
  have hanswer := List.getElem?_eq_getElem (hcount ▸ hk : k < answers.length)
  have hpair : (out.seqGroups.zip results)[k]? = some (g, result) :=
    List.getElem?_zip_eq_some.mpr ⟨hg, hresult⟩
  obtain ⟨hklt, hget⟩ := List.getElem?_eq_some_iff.mp hpair
  have hboth := hanswers.get hklt (hcount ▸ hk)
  rw [List.get_eq_getElem, List.get_eq_getElem, hget] at hboth
  refine ⟨g, _, hg, hanswer, hplaced.aligned (fun n hn => ?_) hboth.1 hboth.2⟩
  exact hrequested _ (List.mem_of_getElem? hpair) n hn

end Batch

/-! ## The chunks of a prompt -/

/-- A step with a chunk of a prompt: the `index`-th group of a batch. -/
structure ChunkStep (V : Type) where
  mds : List SequenceGroupMetadata
  seqLens : List Nat
  queryLens : List Nat
  generators : Dict String Generator
  logprobs : List (List V)
  results : List SampleResult
  index : Nat

namespace ChunkStep

def prepare (s : ChunkStep V) : Except Err PrepareState :=
  prepareSeqGroups s.mds s.seqLens s.queryLens s.generators

/-- The hidden states of the groups before the chunk. -/
def start (s : ChunkStep V) : Nat := totalTokens ((s.mds.zip s.queryLens).take s.index)

/-- The prompt logprobs of the request after a step. -/
def run (topk : Nat → List V → List (Nat × V)) (s : ChunkStep V)
    (requestLogprobs : List (Option (LogprobDict V))) :
    Except Err (List (Option (LogprobDict V))) := do
  let out ← s.prepare
  let answers ← getLogprobs topk s.logprobs out.seqGroups s.results
  match answers[s.index]? with
  | none => throw listIndex
  | some answer => pure (processPromptLogprob requestLogprobs answer.1)

/-- A chunk of `queryLen` tokens from position `computed` on, of a prompt of `tokens`. -/
structure Valid (params : SamplingParams) (tokens : List Nat) (vocab computed queryLen : Nat)
    (s : ChunkStep V) : Prop where
  prepared : ∃ out, s.prepare = .ok out ∧ s.logprobs.length = out.selectedTokenIndices.length
  batch : ValidBatch s.mds s.queryLens s.results vocab
  vocab : ∀ row ∈ s.logprobs, row.length = vocab
  query : s.queryLens[s.index]? = some queryLen
  le : computed + queryLen ≤ tokens.length
  -- The chunk that ends the prompt samples.
  chunk : ∃ md d, s.mds[s.index]? = some md ∧ md.isPrompt = true ∧ md.samplingParams = params ∧
    md.doSample = decide (computed + queryLen = tokens.length) ∧ md.seqData.values = [d] ∧
    d.promptTokenIds = tokens ∧ d.numComputedTokens = computed

/-- The dictionary of a token of a prompt, from the hidden state of position `p`. -/
def EntryAt (topk : Nat → List V → List (Nat × V)) (s : ChunkStep V) (p num token : Nat)
    (entry : LogprobDict V) : Prop :=
  ∃ out g md d q largest, s.prepare = .ok out ∧ out.seqGroups[s.index]? = some g ∧
    s.mds[s.index]? = some md ∧ md.seqData.values = [d] ∧ s.queryLens[s.index]? = some q ∧
    d.numComputedTokens ≤ p ∧ p < d.numComputedTokens + q ∧ num ≤ largest ∧
    EntryOf topk out.selectedTokenIndices s.logprobs largest g.promptLogprobIndices
      (s.start + (p - d.numComputedTokens)) num token entry

end ChunkStep

/-- The steps have the rest of a prompt. -/
def ChunksFrom (params : SamplingParams) (tokens : List Nat) (vocab : Nat) :
    Nat → List (ChunkStep V) → Prop
  | computed, [] => computed = tokens.length
  | computed, s :: rest => ∃ queryLen, s.Valid params tokens vocab computed queryLen ∧
    ChunksFrom params tokens vocab (computed + queryLen) rest

/-- The prompt logprobs of the request after some steps. -/
def runChunks (topk : Nat → List V → List (Nat × V)) :
    List (ChunkStep V) → List (Option (LogprobDict V)) → Except Err (List (Option (LogprobDict V)))
  | [], requestLogprobs => pure requestLogprobs
  | s :: rest, requestLogprobs => do
    let requestLogprobs ← s.run topk requestLogprobs
    runChunks topk rest requestLogprobs

/-- The first `len` entries of a prompt. -/
structure Collected (topk : Nat → List V → List (Nat × V)) (params : SamplingParams)
    (tokens : List Nat) (num len : Nat) (steps : List (ChunkStep V))
    (entries : List (Option (LogprobDict V))) : Prop where
  length : entries.length = len
  first : 0 < len → entries[0]? = some none
  /-- The entry of a token is from the hidden state of the token before it. -/
  asked : ∀ p, p + 1 < len → Asked params (p + 1) → ∃ s ∈ steps, ∃ token e,
    tokens[p + 1]? = some token ∧ entries[p + 1]? = some (some e) ∧ s.EntryAt topk p num token e
  notAsked : ∀ p, p + 1 < len → ¬ Asked params (p + 1) → entries[p + 1]? = some none

section Chunks

variable {params : SamplingParams} {tokens : List Nat} {num computed q : Nat} {s : ChunkStep V}
  {done : List (ChunkStep V)} {entries : List (Option (LogprobDict V))}

/-- The entries that there are when `computed` tokens are computed. -/
def collectedLen (tokens : List Nat) (computed : Nat) : Nat :=
  if computed = 0 then 0 else min (computed + 1) tokens.length

/-- The first token has no log-probability. -/
theorem Collected.base (h : Collected topk params tokens num (collectedLen tokens computed) done
    entries) (hlt : computed < tokens.length) : ∃ base, base.length = computed + 1 ∧
      Collected topk params tokens num (computed + 1) done base ∧
      ∀ new, processPromptLogprob entries (some new) = base ++ new := by
  by_cases hzero : computed = 0
  · subst hzero
    have hnil : entries = [] := List.length_eq_zero_iff.mp h.length
    refine ⟨[none], rfl, ⟨rfl, fun _ => rfl, fun p hp => ?_, fun p hp => ?_⟩, fun new => ?_⟩
    · omega
    · omega
    · rw [hnil]
      rfl
  · have hlen : collectedLen tokens computed = computed + 1 := by
      rw [collectedLen, if_neg hzero]
      omega
    rw [hlen] at h
    refine ⟨entries, h.length, h, fun new => if_neg fun hnil => ?_⟩
    have hlength := h.length
    rw [hnil, List.length_nil] at hlength
    omega

theorem Collected.append {base new : List (Option (LogprobDict V))}
    (h : Collected topk params tokens num (computed + 1) done base)
    (hasked : ∀ o < new.length, Asked params (computed + o + 1) → ∃ token e,
      tokens[computed + o + 1]? = some token ∧ new[o]? = some (some e) ∧
        s.EntryAt topk (computed + o) num token e)
    (hnot : ∀ o < new.length, ¬ Asked params (computed + o + 1) → new[o]? = some none) :
    Collected topk params tokens num (computed + 1 + new.length) (done ++ [s]) (base ++ new) := by
  have hnew : ∀ p, computed ≤ p → (base ++ new)[p + 1]? = new[p - computed]? := fun p hp => by
    rw [List.getElem?_append_right (by rw [h.length]; omega), h.length]
    congr 1
    omega
  refine ⟨by rw [List.length_append, h.length],
    fun _ => getElem?_append_some (h.first (Nat.succ_pos _)) _, fun p hp hask => ?_,
    fun p hp hask => ?_⟩
  · by_cases hold : p + 1 < computed + 1
    · obtain ⟨s', hs', token, e, htoken, he, hentry⟩ := h.asked p hold hask
      exact ⟨s', List.mem_append_left _ hs', token, e, htoken, getElem?_append_some he _, hentry⟩
    · have hback : computed + (p - computed) = p := by omega
      have hrec := hasked (p - computed) (by omega)
      rw [hback] at hrec
      obtain ⟨token, e, htoken, he, hentry⟩ := hrec hask
      refine ⟨s, List.mem_append_right _ (List.mem_singleton_self s), token, e, htoken, ?_, hentry⟩
      rw [hnew p (by omega), he]
  · by_cases hold : p + 1 < computed + 1
    · exact getElem?_append_some (h.notAsked p hold hask) _
    · have hback : computed + (p - computed) = p := by omega
      have hrec := hnot (p - computed) (by omega)
      rw [hback] at hrec
      rw [hnew p (by omega), hrec hask]

/-- A chunk. -/
theorem ChunkStep.Valid.run (hs : s.Valid params tokens vocab computed q)
    (hnum : params.promptLogprobs = some num)
    (h : Collected topk params tokens num (collectedLen tokens computed) done entries) :
    ∃ entries', s.run topk entries = .ok entries' ∧
      Collected topk params tokens num (collectedLen tokens (computed + q)) (done ++ [s])
        entries' := by
  obtain ⟨out, hprepare, hrows⟩ := hs.prepared
  obtain ⟨md, d, hmd, hprompt, hparams, hdo, hvalues, htokens, hcomputed⟩ := hs.chunk
  have hpos := (hs.batch.query s.index md q hmd hs.query).1
  have hle := hs.le
  have hlt := (List.getElem?_eq_some_iff.mp hmd).1
  have hresult := List.getElem?_eq_getElem (hs.batch.numResults.symm ▸ hlt :
    s.index < s.results.length)
  obtain ⟨largest, answers, hrun, -, hanswers⟩ :=
    @getLogprobs_batch V _ topk _ _ _ _ _ _ _ _ hprepare hs.batch hrows hs.vocab
  obtain ⟨g, answer, hg, hanswer, haligned⟩ := hanswers s.index md q _ hmd hs.query hresult
  obtain ⟨d', new, hd', hnew, hlen, hentries⟩ := haligned.prompt num hprompt (hparams ▸ hnum)
  obtain rfl := (List.cons.inj (hvalues.symm.trans hd')).1
  have hcount : promptLogprobCount md q d =
      min (if computed + q = tokens.length then q - 1 else q) (tokens.length - computed - 1) := by
    rw [promptLogprobCount, hdo, htokens, hcomputed]
    congr 1
    by_cases hend : computed + q = tokens.length
    · rw [if_pos hend, decide_eq_true hend, if_pos rfl]
    · rw [if_neg hend, decide_eq_false hend, if_neg Bool.false_ne_true]
  rw [hparams, htokens, hcomputed] at hentries
  have hle' : num ≤ largest := haligned.requested num (.inl ⟨hprompt, hparams ▸ hnum⟩)
  obtain ⟨base, hbase, hcollected, hprocess⟩ := h.base (by omega)
  refine ⟨base ++ new, ?_, ?_⟩
  · refine bind_eq_ok.mpr ⟨out, hprepare, bind_eq_ok.mpr ⟨answers, hrun, ?_⟩⟩
    rw [hanswer]
    dsimp only
    rw [hnew, hprocess]
    rfl
  · have htotal : collectedLen tokens (computed + q) = computed + 1 + new.length := by
      rw [collectedLen, if_neg (by omega), hlen, hcount]
      split
      · omega
      · omega
    rw [htotal]
    refine hcollected.append (fun o ho hask => ?_) fun o ho hask => ?_
    · have hlast : o < q := by
        rw [hlen, hcount] at ho
        split at ho
        · omega
        · omega
      obtain ⟨token, e, htoken, he, hentry⟩ := (hentries o (hlen ▸ ho)).1 hask
      refine ⟨token, e, htoken, he, out, g, md, d, q, largest, hprepare, hg, hmd, hvalues, hs.query,
        by omega, by omega, hle', ?_⟩
      have hback : computed + o - d.numComputedTokens = o := by omega
      rw [hback]
      exact hentry
    · exact (hentries o (hlen ▸ ho)).2 hask

theorem runChunks_collected {steps : List (ChunkStep V)}
    (hnum : params.promptLogprobs = some num)
    (hsteps : ChunksFrom params tokens vocab computed steps)
    (h : Collected topk params tokens num (collectedLen tokens computed) done entries) :
    ∃ entries', runChunks topk steps entries = .ok entries' ∧
      Collected topk params tokens num (collectedLen tokens tokens.length) (done ++ steps)
        entries' := by
  induction steps generalizing computed done entries with
  | nil =>
    have hend : computed = tokens.length := hsteps
    rw [hend] at h
    rw [List.append_nil]
    exact ⟨entries, rfl, h⟩
  | cons s rest ih =>
    obtain ⟨q, hs, hrest⟩ := hsteps
    obtain ⟨entries₁, h₁, hcollected⟩ := hs.run hnum h
    obtain ⟨entries', hrun, hfinal⟩ := ih hrest hcollected
    rw [List.append_assoc, List.singleton_append] at hfinal
    exact ⟨entries', bind_eq_ok.mpr ⟨entries₁, h₁, hrun⟩, hfinal⟩

end Chunks

/-! ## The results -/

/-- **A prompt.** Whatever its chunks are and whatever they are batched with, a request ends with an
entry for every token of its prompt: nothing for the first one, and for each other one that is asked
for the dictionary from the hidden state of the token before it. -/
theorem promptLogprobs_complete {params : SamplingParams} {tokens : List Nat} {num : Nat}
    {steps : List (ChunkStep V)} (hnum : params.promptLogprobs = some num)
    (hsteps : ChunksFrom params tokens vocab 0 steps) :
    ∃ entries, runChunks topk steps [] = .ok entries ∧
      Collected topk params tokens num tokens.length steps entries := by
  have hinit : Collected topk params tokens num (collectedLen tokens 0) [] [] := by
    refine ⟨rfl, fun h => absurd h (Nat.lt_irrefl 0), fun p hp => absurd hp (Nat.not_lt_zero _),
      fun p hp => absurd hp (Nat.not_lt_zero _)⟩
  obtain ⟨entries, hrun, hfinal⟩ := runChunks_collected hnum hsteps hinit
  have hlen : collectedLen tokens tokens.length = tokens.length := by
    rw [collectedLen]
    split
    · next hzero => exact hzero.symm
    · omega
  rw [hlen] at hfinal
  exact ⟨entries, hrun, hfinal⟩

/-! ## A prompt in two chunks -/

/-- `torch.topk` of a row. -/
def topTokens (k : Nat) (row : List Nat) : List (Nat × Nat) :=
  ((row.zipIdx.map Prod.swap).insertionSort fun a b => b.2 ≤ a.2).take k

/-- A chunk of a prompt of three tokens. -/
def chunkGroup (computed : Nat) (doSample : Bool) : SequenceGroupMetadata :=
  ⟨"prompt", true, (∅ : Dict Nat SequenceData).set 0 ⟨[5, 6, 7], [], computed, .prefill⟩,
    penaltyParams (some 1), doSample⟩

/-- The first two tokens, after a decode. -/
def firstChunk : ChunkStep Nat where
  mds := [decodeGroup, chunkGroup 0 false]
  seqLens := [2, 2]
  queryLens := [1, 2]
  generators := ∅
  logprobs := List.replicate 3 (List.range 10)
  results := [([4], [0]), ([], [])]
  index := 1

def lastChunk : ChunkStep Nat where
  mds := [chunkGroup 2 true]
  seqLens := [3]
  queryLens := [1]
  generators := ∅
  logprobs := [List.range 10]
  results := [([8], [0])]
  index := 0

theorem firstChunk_batch : ValidBatch firstChunk.mds firstChunk.queryLens firstChunk.results 10 := by
  refine ⟨rfl, fun k md q hmd hq => ?_, rfl, fun k md result hmd hresult => ?_⟩
  · rcases k with _ | _ | k
    · obtain rfl : decodeGroup = md := Option.some_inj.mp hmd
      obtain rfl : 1 = q := Option.some_inj.mp hq
      exact ⟨le_rfl, fun _ => rfl⟩
    · obtain rfl : chunkGroup 0 false = md := Option.some_inj.mp hmd
      obtain rfl : 2 = q := Option.some_inj.mp hq
      exact ⟨by decide, fun hp => absurd hp (by decide)⟩
    · cases hmd
  · rcases k with _ | _ | k
    · obtain rfl : decodeGroup = md := Option.some_inj.mp hmd
      obtain rfl : ([4], [0]) = result := Option.some_inj.mp hresult
      refine ⟨by decide, fun n hn => ?_, fun n hn => ?_, by decide⟩
      · cases hn
      · cases hn
    · obtain rfl : chunkGroup 0 false = md := Option.some_inj.mp hmd
      obtain rfl : ([], []) = result := Option.some_inj.mp hresult
      refine ⟨by decide, fun n hn => ?_, fun n hn => ?_, by decide⟩
      · obtain rfl : 1 = n := Option.some_inj.mp hn
        decide
      · cases hn
    · cases hmd

theorem lastChunk_batch : ValidBatch lastChunk.mds lastChunk.queryLens lastChunk.results 10 := by
  refine ⟨rfl, fun k md q hmd hq => ?_, rfl, fun k md result hmd hresult => ?_⟩
  · rcases k with _ | k
    · obtain rfl : chunkGroup 2 true = md := Option.some_inj.mp hmd
      obtain rfl : 1 = q := Option.some_inj.mp hq
      exact ⟨le_rfl, fun _ => rfl⟩
    · cases hmd
  · rcases k with _ | k
    · obtain rfl : chunkGroup 2 true = md := Option.some_inj.mp hmd
      obtain rfl : ([8], [0]) = result := Option.some_inj.mp hresult
      refine ⟨by decide, fun n hn => ?_, fun n hn => ?_, by decide⟩
      · obtain rfl : 1 = n := Option.some_inj.mp hn
        decide
      · cases hn
    · cases hmd

theorem promptLogprobs_complete_chunks : ∃ entries,
    runChunks topTokens [firstChunk, lastChunk] [] = .ok entries ∧
      Collected topTokens (penaltyParams (some 1)) [5, 6, 7] 1 3 [firstChunk, lastChunk] entries := by
  refine promptLogprobs_complete (V := Nat) rfl ⟨2, ⟨?_, firstChunk_batch, by decide, rfl, by decide,
    _, _, rfl, rfl, rfl, rfl, rfl, rfl, rfl⟩, 1, ⟨?_, lastChunk_batch, by decide, rfl, by decide,
    _, _, rfl, rfl, rfl, rfl, rfl, rfl, rfl⟩, rfl⟩
  · exact exists_of_any (by decide +kernel)
  · exact exists_of_any (by decide +kernel)

end Bi100.Sampling
