import Bi100.Sampling.Logprobs

/-!
# The rows of a prepared group

- `PromptReady`: what `get_logprobs` relies on for a prompt.
- `Placed`: the logits rows of a group are those of its tokens in the batch.
- `prepareSeqGroups_placed`: every group of a prepared batch is so.
-/

namespace Bi100.Sampling

open Py

variable {seqLen queryLen : Option Nat} {md : SequenceGroupMetadata} {st st' : PrepareState}

/-- A prompt logprob is asked for at position `p`. -/
def Asked (params : SamplingParams) (p : Nat) : Prop :=
  params.promptLogprobs.isSome = true ∧
    ∀ positions, params.promptLogprobPositions = some positions → p ∈ positions

/-- A prompt whose next tokens exist, and which has room for their log-probabilities. -/
structure PromptReady (g : SequenceGroupToSample) (queryLen : Nat) (seqData : SequenceData) :
    Prop where
  query : g.queryLen = some queryLen
  seqIds : g.seqIds.length = 1
  first : g.firstSeqData = .ok seqData
  increasing : g.promptLogprobOutputIndices.Pairwise (· < ·)
  mem : ∀ o, o ∈ g.promptLogprobOutputIndices ↔ o < fullPromptLogprobLen g queryLen seqData ∧
    Asked g.samplingParams (seqData.numComputedTokens + o + 1)

/-- The output indices, for a chunk of a prompt. -/
theorem getPromptLogprobOutputIndices_ok {params : SamplingParams} {seqData : SequenceData}
    {len : Int} {indices : List Nat}
    (h : getPromptLogprobOutputIndices params seqData len = .ok indices) :
    indices.Pairwise (· < ·) ∧ ∀ o, o ∈ indices ↔
      o < min len.toNat (seqData.promptTokenIds.length - seqData.numComputedTokens - 1) ∧
        Asked params (seqData.numComputedTokens + o + 1) := by
  unfold getPromptLogprobOutputIndices at h
  split at h
  · next hnone =>
    obtain rfl := pure_eq_ok.mp h
    refine ⟨List.Pairwise.nil, fun o => ⟨fun ho => absurd ho List.not_mem_nil, fun ho => ?_⟩⟩
    rcases hnone with hnone | hlen
    · have hsome := ho.2.1
      rw [hnone] at hsome
      cases hsome
    · omega
  · next hsome =>
    rw [not_or, not_le] at hsome
    have hask : params.promptLogprobs.isSome = true := Option.isSome_iff_ne_none.mpr hsome.1
    dsimp only at h
    cases hpos : params.promptLogprobPositions with
    | none =>
      rw [hpos] at h
      obtain rfl := pure_eq_ok.mp h
      refine ⟨List.pairwise_lt_range, fun o => ?_⟩
      rw [List.mem_range]
      refine ⟨fun ho => ⟨ho, hask, fun positions hp => ?_⟩, fun ho => ho.1⟩
      rw [hpos] at hp
      cases hp
    | some positions =>
      rw [hpos] at h
      obtain ⟨hinc, h⟩ := guardNot_bind_eq_ok.mp h
      obtain ⟨-, h⟩ := guardNot_bind_eq_ok.mp h
      obtain rfl := pure_eq_ok.mp h
      refine ⟨Decidable.not_not.mp hinc, fun o => ?_⟩
      rw [List.mem_map]
      constructor
      · rintro ⟨p, hp, rfl⟩
        rw [List.mem_filter, decide_eq_true_eq] at hp
        obtain ⟨hmem, hlo, hhi⟩ := hp
        have hback : seqData.numComputedTokens + (p - seqData.numComputedTokens - 1) + 1 = p := by
          omega
        rw [hback]
        refine ⟨by omega, hask, fun positions' hp => ?_⟩
        obtain rfl := Option.some_inj.mp (hpos.symm.trans hp)
        exact hmem
      · rintro ⟨hlt, -, hmem⟩
        refine ⟨seqData.numComputedTokens + o + 1, ?_, by omega⟩
        rw [List.mem_filter, decide_eq_true_eq]
        exact ⟨hmem positions hpos, by omega, by omega⟩

theorem get?_of_values {K W : Type} [DecidableEq K] {d : Dict K W} {v : W} {vs : List W}
    (h : d.values = v :: vs) : ∃ k ks, d.keys = k :: ks ∧ d.get? k = some v := by
  rw [Dict.values] at h
  obtain ⟨p, ps, hp, rfl, -⟩ := List.map_eq_cons_iff.mp h
  refine ⟨p.1, ps.map Prod.fst, ?_, ?_⟩
  · rw [Dict.keys, hp, List.map_cons]
  · refine Dict.mem_entries.mp ?_
    rw [hp]
    exact List.mem_cons_self

/-- How many hidden states a group has in a batch. -/
def queryTokens (md : SequenceGroupMetadata) (queryLen : Nat) : Nat :=
  if md.isPrompt then queryLen else if md.doSample then md.seqData.size * queryLen else 0

/-- The first hidden state of a group that is sampled from, counted from its first one. -/
def sampleOffset (md : SequenceGroupMetadata) (queryLen : Nat) : Nat :=
  if md.isPrompt then queryLen - 1 else 0

/-- What preparing a group selects of its hidden states. -/
structure GroupRows (queryLen : Nat) (md : SequenceGroupMetadata) (st : PrepareState)
    (g : SequenceGroupToSample) (st' : PrepareState) : Prop where
  prepared : Prepared (some queryLen) md st g st'
  ready : md.isPrompt = true → ∃ d, md.seqData.values = [d] ∧ PromptReady g queryLen d
  doSample : g.doSample = md.doSample
  selected : st'.selectedTokenIndices = st.selectedTokenIndices ++
    ((g.promptLogprobOutputIndices.map fun o : Nat => st.modelOutputIdx + (o : Int)) ++
      (List.range g.sampleIndices.length).map fun i : Nat =>
        st.modelOutputIdx + (sampleOffset md queryLen : Int) + (i : Int))
  modelOutputIdx : st'.modelOutputIdx = st.modelOutputIdx + (queryTokens md queryLen : Int)

theorem groupLens_promptLogprobLen {generators : Dict String Generator} {lens : GroupLens} {q : Nat}
    (h : groupLens seqLen (some q) md generators = .ok lens) (hprompt : md.isPrompt = true) :
    lens.promptLogprobLen = if md.doSample then (q : Int) - 1 else q := by
  unfold groupLens at h
  rw [if_pos hprompt] at h
  obtain ⟨-, h⟩ := guardNot_bind_eq_ok.mp h
  obtain ⟨q', hq, h⟩ := bind_eq_ok.mp h
  obtain ⟨l, -, h⟩ := bind_eq_ok.mp h
  obtain rfl := pure_eq_ok.mp h
  obtain rfl := Option.some_inj.mp (lenAt_ok hq)
  rfl

theorem prepareGroup_rows {q : Nat} (hpos : 1 ≤ q)
    (h : prepareGroup seqLen (some q) md st = .ok st') : ∃ g, GroupRows q md st g st' := by
  obtain ⟨g₀, hg₀⟩ := prepareGroup_ok h
  unfold prepareGroup at h
  obtain ⟨lens, hlens, hrest⟩ := bind_eq_ok.mp h
  obtain ⟨hone, hdecode, q', hq', hquery, hsample⟩ := groupLens_ok hlens
  obtain rfl := Option.some_inj.mp hq'
  cases hvalues : md.seqData.values with
  | nil =>
    rw [hvalues] at hrest
    exact (throw_eq_ok.mp hrest).elim
  | cons seqData rest =>
    rw [hvalues] at hrest
    obtain ⟨indices, hindices, hpost⟩ := bind_eq_ok.mp hrest
    obtain ⟨-, -, hguard⟩ := bind_eq_ok.mp hpost
    obtain ⟨-, hpure⟩ := guardNot_bind_eq_ok.mp hguard
    obtain rfl := pure_eq_ok.mp hpure
    obtain rfl := (List.cons.inj (List.append_inj' hg₀.seqGroups rfl).2).1
    obtain ⟨hinc, hmem⟩ := getPromptLogprobOutputIndices_ok hindices
    obtain ⟨k, ks, hkeys, hget⟩ := get?_of_values hvalues
    have hsize : 1 ≤ md.seqData.size := by
      rw [← Dict.length_values, hvalues, List.length_cons]
      omega
    have hdo : decide (0 < (List.range' (st.logitIdx +
        if md.samplingParams.promptLogprobs.isSome then indices.length else 0)
        (if md.doSample then lens.sampleLen else 0)).length) = md.doSample := by
      rw [List.length_range', hsample]
      cases md.doSample with
      | true =>
        cases md.isPrompt with
        | true => rfl
        | false => exact decide_eq_true (Nat.mul_pos hsize hpos)
      | false => rfl
    have hnone : md.samplingParams.promptLogprobs.isSome = false → indices = [] := fun hn =>
      getPromptLogprobOutputIndices_nil (.inl (Option.not_isSome_iff_eq_none.mp
        (Bool.eq_false_iff.mp hn))) hindices
    refine ⟨_, hg₀, fun hprompt => ?_, hdo, ?_, ?_⟩
    · have hnil : rest = [] := by
        have hsize := hone hprompt
        rw [← Dict.length_values, hvalues, List.length_cons] at hsize
        exact List.length_eq_zero_iff.mp (by omega)
      have hkeys' : md.seqData.keys.length = 1 := by rw [Dict.length_keys, hone hprompt]
      refine ⟨seqData, by rw [hvalues, hnil], hquery, hkeys', ?_, hinc, fun o => ?_⟩
      · rw [SequenceGroupToSample.firstSeqData]
        dsimp only
        rw [hkeys]
        dsimp only
        rw [hget]
        rfl
      · rw [hmem o, fullPromptLogprobLen, SequenceGroupToSample.doSample, hdo, hkeys',
          groupLens_promptLogprobLen hlens hprompt]
        cases md.doSample with
        | true =>
          have hsub : ((q : Int) - 1).toNat = q - 1 := by omega
          show _ < min ((q : Int) - 1).toNat _ ∧ _ ↔ _ < min (q - 1) _ ∧ _
          rw [hsub]
        | false => rfl
    · have hprompts : (if md.samplingParams.promptLogprobs.isSome then
            indices.map fun index : Nat => st.modelOutputIdx + (index : Int) else []) =
          indices.map fun o : Nat => st.modelOutputIdx + (o : Int) := by
        split
        · rfl
        · next hn => rw [hnone (Bool.eq_false_iff.mpr hn), List.map_nil]
      dsimp only
      rw [hprompts, List.length_range', List.append_assoc]
      congr 2
      refine List.map_congr_left fun i hi => ?_
      cases hdo' : md.doSample with
      | false =>
        rw [hdo', if_neg Bool.false_ne_true] at hi
        cases hi
      | true =>
        rw [sampleOffset]
        by_cases hprompt : md.isPrompt = true
        · rw [if_pos hprompt, groupLens_promptLogprobLen hlens hprompt, if_pos hdo']
          omega
        · rw [if_neg hprompt, hdecode (Bool.eq_false_iff.mpr hprompt)]
          rfl
    · show st.modelOutputIdx + lens.promptLogprobLen + lens.sampleLen = _
      rw [queryTokens, hsample]
      by_cases hprompt : md.isPrompt = true
      · rw [if_pos hprompt, if_pos hprompt, groupLens_promptLogprobLen hlens hprompt]
        cases hdo : md.doSample with
        | true =>
          show _ + ((q : Int) - 1) + ((1 : Nat) : Int) = _
          omega
        | false =>
          show _ + (q : Int) + ((0 : Nat) : Int) = _
          omega
      · rw [if_neg hprompt, if_neg hprompt, hdecode (Bool.eq_false_iff.mpr hprompt)]
        omega

/-! ## The groups of a batch -/

/-- The hidden states of the first groups. -/
def totalTokens : List (SequenceGroupMetadata × Nat) → Nat
  | [] => 0
  | (md, queryLen) :: rest => queryTokens md queryLen + totalTokens rest

theorem totalTokens_append (l₁ l₂ : List (SequenceGroupMetadata × Nat)) :
    totalTokens (l₁ ++ l₂) = totalTokens l₁ + totalTokens l₂ := by
  induction l₁ with
  | nil => exact (Nat.zero_add _).symm
  | cons p l₁ ih => rw [List.cons_append, totalTokens, totalTokens, ih, Nat.add_assoc]

theorem getElem?_append_some {α : Type} {l : List α} {i : Nat} {a : α} (h : l[i]? = some a)
    (l' : List α) : (l ++ l')[i]? = some a :=
  (List.getElem?_append_left (List.getElem?_eq_some_iff.mp h).1).trans h

/-- A group whose first hidden state is `start`, and where its rows come from. -/
structure Placed (selected : List Int) (start queryLen : Nat) (md : SequenceGroupMetadata)
    (g : SequenceGroupToSample) : Prop where
  seqIds : g.seqIds = md.seqData.keys
  samplingParams : g.samplingParams = md.samplingParams
  isPrompt : g.isPrompt = md.isPrompt
  doSample : g.doSample = md.doSample
  ready : md.isPrompt = true → ∃ d, md.seqData.values = [d] ∧ PromptReady g queryLen d
  outputIndices : g.promptLogprobIndices.length = g.promptLogprobOutputIndices.length
  sampleRange : g.sampleIndices = List.range' (g.sampleIndices.headD 0) g.sampleIndices.length
  promptRows : ∀ i r o : Nat, g.promptLogprobIndices[i]? = some r →
    g.promptLogprobOutputIndices[i]? = some o → selected[r]? = some ((start + o : Nat) : Int)
  sampleRows : ∀ i r : Nat, g.sampleIndices[i]? = some r →
    selected[r]? = some ((start + sampleOffset md queryLen + i : Nat) : Int)

theorem Placed.append {selected : List Int} {start q : Nat} {g : SequenceGroupToSample}
    (h : Placed selected start q md g) (l : List Int) : Placed (selected ++ l) start q md g where
  seqIds := h.seqIds
  samplingParams := h.samplingParams
  isPrompt := h.isPrompt
  doSample := h.doSample
  ready := h.ready
  outputIndices := h.outputIndices
  sampleRange := h.sampleRange
  promptRows i r o hr ho := getElem?_append_some (h.promptRows i r o hr ho) l
  sampleRows i r hr := getElem?_append_some (h.sampleRows i r hr) l

theorem range'_headD {l : List Nat} {s : Nat} (h : l = List.range' s l.length) :
    l = List.range' (l.headD 0) l.length := by
  cases l with
  | nil => rfl
  | cons a l =>
    rw [List.length_cons, List.range'_succ] at h
    obtain ⟨rfl, hl⟩ := List.cons.inj h
    rw [List.headD_cons, List.length_cons, List.range'_succ, ← hl]

/-- A group that is prepared. -/
theorem GroupRows.placed {q start : Nat} {g : SequenceGroupToSample} (h : GroupRows q md st g st')
    (hlogit : st.selectedTokenIndices.length = st.logitIdx) (hstart : st.modelOutputIdx = start) :
    Placed st'.selectedTokenIndices start q md g := by
  have hp := h.prepared
  refine ⟨hp.seqIds, hp.samplingParams, hp.isPrompt, h.doSample, h.ready, hp.outputIndices,
    range'_headD hp.sampleRows, fun i r o hr ho => ?_, fun i r hr => ?_⟩
  · have hi := (List.getElem?_eq_some_iff.mp hr).1
    rw [hp.promptRows, List.getElem?_range' hi, Nat.one_mul] at hr
    obtain rfl := Option.some_inj.mp hr
    have ho' := (List.getElem?_eq_some_iff.mp ho).1
    rw [h.selected, List.getElem?_append_right (by omega), hlogit, Nat.add_sub_cancel_left,
      List.getElem?_append_left (by rw [List.length_map]; exact ho'), List.getElem?_map, ho, hstart]
    rfl
  · have hi := (List.getElem?_eq_some_iff.mp hr).1
    rw [hp.sampleRows, List.getElem?_range' hi, Nat.one_mul] at hr
    obtain rfl := Option.some_inj.mp hr
    have hlen : (g.promptLogprobOutputIndices.map fun o : Nat =>
        st.modelOutputIdx + (o : Int)).length = g.promptLogprobIndices.length := by
      rw [List.length_map, hp.outputIndices]
    have hidx : st.logitIdx + g.promptLogprobIndices.length + i - st.logitIdx -
        g.promptLogprobIndices.length = i := by omega
    rw [h.selected, List.getElem?_append_right (by omega), hlogit,
      List.getElem?_append_right (by omega), hlen, hidx, List.getElem?_map,
      List.getElem?_range hi, hstart]
    rfl

/-- The groups that are prepared so far. -/
structure BatchInv (done : List (SequenceGroupMetadata × Nat)) (st : PrepareState) : Prop where
  rows : RowsInv st
  length : st.seqGroups.length = done.length
  modelOutputIdx : st.modelOutputIdx = totalTokens done
  placed : ∀ (k : Nat) (md : SequenceGroupMetadata) (q : Nat), done[k]? = some (md, q) →
    ∃ g, st.seqGroups[k]? = some g ∧
      Placed st.selectedTokenIndices (totalTokens (done.take k)) q md g

/-- Every query has a token, and that of a decode has one. -/
def ValidQuery (md : SequenceGroupMetadata) (queryLen : Nat) : Prop :=
  1 ≤ queryLen ∧ (md.isPrompt = false → queryLen = 1)

theorem BatchInv.prepareGroup {done : List (SequenceGroupMetadata × Nat)} {q : Nat}
    (h : BatchInv done st) (hq : ValidQuery md q)
    (hs : prepareGroup seqLen (some q) md st = .ok st') : BatchInv (done ++ [(md, q)]) st' := by
  obtain ⟨g, hg⟩ := prepareGroup_rows hq.1 hs
  have hrows := hg.prepared.rowsInv h.rows (fun hp => congrArg some (hq.2 hp)) ⟨q, rfl⟩
  refine ⟨hrows, ?_, ?_, fun k md' q' hk => ?_⟩
  · rw [hg.prepared.seqGroups, List.length_append, List.length_append, h.length]
    rfl
  · rw [hg.modelOutputIdx, h.modelOutputIdx, totalTokens_append, totalTokens, totalTokens]
    omega
  · by_cases hlt : k < done.length
    · rw [List.getElem?_append_left hlt] at hk
      obtain ⟨g', hg', hplaced⟩ := h.placed k md' q' hk
      refine ⟨g', ?_, ?_⟩
      · rw [hg.prepared.seqGroups]
        exact getElem?_append_some hg' _
      · rw [List.take_append_of_le_length hlt.le, hg.selected]
        exact hplaced.append _
    · have hlen := (List.getElem?_eq_some_iff.mp hk).1
      rw [List.length_append, List.length_singleton] at hlen
      obtain rfl : k = done.length := by omega
      rw [List.getElem?_concat_length] at hk
      obtain ⟨rfl, rfl⟩ := Prod.mk.inj (Option.some_inj.mp hk)
      refine ⟨g, ?_, ?_⟩
      · rw [hg.prepared.seqGroups, ← h.length, List.getElem?_concat_length]
      · rw [List.take_left]
        exact hg.placed h.rows.selected h.modelOutputIdx

theorem prepareLoop_batch {seqLens queryLens : List Nat} {mds : List SequenceGroupMetadata}
    {done : List (SequenceGroupMetadata × Nat)} {i : Nat} (hst : BatchInv done st)
    (hvalid : ∀ (k : Nat) (md : SequenceGroupMetadata) (q : Nat), mds[k]? = some md →
      queryLens[i + k]? = some q → ValidQuery md q)
    (h : prepareLoop seqLens queryLens i mds st = .ok st') :
    BatchInv (done ++ mds.zip (queryLens.drop i)) st' := by
  induction mds generalizing i st done with
  | nil =>
    obtain rfl := pure_eq_ok.mp h
    rw [List.zip_nil_left, List.append_nil]
    exact hst
  | cons md rest ih =>
    obtain ⟨st₁, h₁, h⟩ := bind_eq_ok.mp h
    have hsome : ∃ q, queryLens[i]? = some q := by
      obtain ⟨lens, hlens, -⟩ := bind_eq_ok.mp h₁
      obtain ⟨-, -, q, hq, -, -⟩ := groupLens_ok hlens
      exact ⟨q, hq⟩
    obtain ⟨q, hq⟩ := hsome
    rw [hq] at h₁
    have hrec := ih (hst.prepareGroup (hvalid 0 md q rfl hq) h₁) (fun k md' q' hk hq' => by
      rw [Nat.add_assoc, Nat.add_comm 1] at hq'
      exact hvalid (k + 1) md' q' hk hq') h
    obtain ⟨hlt, hget⟩ := List.getElem?_eq_some_iff.mp hq
    rw [List.drop_eq_getElem_cons hlt, hget, List.zip_cons_cons]
    rwa [List.append_assoc, List.singleton_append] at hrec

/-- The groups of a prepared batch. -/
theorem prepareSeqGroups_placed {mds : List SequenceGroupMetadata} {seqLens queryLens : List Nat}
    {generators : Dict String Generator} {out : PrepareState}
    (hvalid : ∀ (k : Nat) (md : SequenceGroupMetadata) (q : Nat), mds[k]? = some md →
      queryLens[k]? = some q → ValidQuery md q)
    (h : prepareSeqGroups mds seqLens queryLens generators = .ok out) :
    BatchInv (mds.zip queryLens) out := by
  show BatchInv ([] ++ mds.zip (queryLens.drop 0)) out
  refine prepareLoop_batch ⟨⟨rfl, rfl, ?_, ?_, ?_, ?_⟩, rfl, rfl, fun k md q hk => ?_⟩
    (fun k md q hk hq => ?_) h
  · exact fun g hg => absurd hg List.not_mem_nil
  · exact fun g hg => absurd hg List.not_mem_nil
  · exact fun g hg => absurd hg List.not_mem_nil
  · exact fun g hg => absurd hg List.not_mem_nil
  · cases hk
  · rw [Nat.zero_add] at hq
    exact hvalid k md q hk hq

end Bi100.Sampling
