import Bi100.Lib.Ragged
import Bi100.Sampling.Metadata
import Mathlib.Algebra.Order.Group.Unbundled.Abs
import Mathlib.Algebra.Order.Group.Abs

/-!
# Sampling tensors (`SamplingTensors`)

One value for each logits row: the scalar parameters of the group that has it and the tokens of the
sequence that is sampled from it. They are built by two loops over the groups.

- `fromSamplingMetadata`: the two loops. The second one reads `sampling_params`, the variable of the
  first.
- `tensors_aligned_iff`: every list has one entry for each row, which is that of its owner, exactly
  when the last group does not make the second loop drop rows.
-/

namespace Bi100.Sampling

open Py

structure SamplingTensors where
  temperatures : List ℚ
  topPs : List ℚ
  topKs : List Int
  minPs : List ℚ
  presencePenalties : List ℚ
  frequencyPenalties : List ℚ
  repetitionPenalties : List ℚ
  /-- Before they are padded. -/
  promptTokens : List (List Nat)
  outputTokens : List (List Nat)
deriving DecidableEq, Repr

structure TensorFlags where
  doPenalties : Bool
  doTopPTopK : Bool
  doMinP : Bool
deriving DecidableEq, Repr

namespace SamplingParams

/-- A temperature of zero is greedy; the rows are not divided by it. -/
def rowTemperature (params : SamplingParams) : ℚ :=
  if params.temperature < samplingEps then 1 else params.temperature

/-- `top_k`, at most the vocabulary. -/
def rowTopK (params : SamplingParams) (vocabSize : Nat) : Int :=
  if min params.topK vocabSize = -1 then vocabSize else min params.topK vocabSize

/-- The group makes `do_penalties` true. -/
def NeedsPenalties (params : SamplingParams) : Prop :=
  samplingEps ≤ |params.presencePenalty| ∨ samplingEps ≤ |params.frequencyPenalty| ∨
    samplingEps ≤ |params.repetitionPenalty - 1|

instance (params : SamplingParams) : Decidable params.NeedsPenalties :=
  inferInstanceAs (Decidable (_ ∨ _ ∨ _))

end SamplingParams

/-- What the first loop has built. -/
structure TensorState where
  temperatures : List ℚ
  topPs : List ℚ
  topKs : List Int
  minPs : List ℚ
  presencePenalties : List ℚ
  frequencyPenalties : List ℚ
  repetitionPenalties : List ℚ
  flags : TensorFlags
  /-- The variable of the loop. -/
  samplingParams : Option SamplingParams

def TensorState.init : TensorState := ⟨[], [], [], [], [], [], [], ⟨false, false, false⟩, none⟩

/-- `is_prompt` with `prompt_logprobs` -/
def hasPromptRows (isPrompt : Bool) (params : SamplingParams) : Bool :=
  isPrompt && params.promptLogprobs.isSome

/-- A value for the prompt-logprob rows of a group, and one for those it samples from. -/
def column {α : Type} (g : SequenceGroupToSample) (promptValue sampleValue : α) : List α :=
  (if hasPromptRows g.isPrompt g.samplingParams then
    List.replicate g.promptLogprobIndices.length promptValue else []) ++
  if g.doSample then List.replicate g.sampleIndices.length sampleValue else []

/-- The body of the first loop. -/
def addScalars (vocabSize : Nat) (st : TensorState) (g : SequenceGroupToSample) :
    Except Err TensorState := do
  let params := g.samplingParams
  let temperature := params.rowTemperature
  let topK := params.rowTopK vocabSize
  guardNot (hasPromptRows g.isPrompt params = true ∧ g.queryLen = none) assertion
  guardNot (g.doSample = true ∧ g.sampleIndices.length < g.seqIds.length) assertion
  return {
    temperatures := st.temperatures ++ column g temperature temperature
    topPs := st.topPs ++ column g params.topP params.topP
    topKs := st.topKs ++ column g topK topK
    minPs := st.minPs ++ column g params.minP params.minP
    presencePenalties := st.presencePenalties ++ column g 0 params.presencePenalty
    frequencyPenalties := st.frequencyPenalties ++ column g 0 params.frequencyPenalty
    repetitionPenalties := st.repetitionPenalties ++ column g 1 params.repetitionPenalty
    flags := {
      doPenalties := st.flags.doPenalties || decide params.NeedsPenalties
      doTopPTopK := st.flags.doTopPTopK ||
        decide (params.topP < 1 - samplingEps ∨ topK ≠ vocabSize)
      doMinP := st.flags.doMinP || decide (samplingEps < params.minP) }
    samplingParams := some params }

/-- The tokens of the sequences of a group, if it samples. -/
def sampledTokens (tokens : SequenceData → List Nat) (g : SequenceGroupToSample) :
    Except Err (List (List Nat)) :=
  if g.doSample then
    g.seqIds.mapM fun seqId =>
      match g.seqData.get? seqId with
      | some seqData => pure (tokens seqData)
      | none => throw .keyError
  else pure []

/-- The tokens that the second loop adds for a group: none for its prompt-logprob rows. -/
def tokenRows (params : SamplingParams) (tokens : SequenceData → List Nat)
    (g : SequenceGroupToSample) : Except Err (List (List Nat)) := do
  let sampled ← sampledTokens tokens g
  return (if hasPromptRows g.isPrompt params then
    List.replicate g.promptLogprobIndices.length [] else []) ++ sampled

/-- The second loop. -/
def tokenLists (groups : List SequenceGroupToSample) (params : SamplingParams)
    (tokens : SequenceData → List Nat) : Except Err (List (List Nat)) :=
  List.flatten <$> groups.mapM (tokenRows params tokens)

/-- The second loop runs if `do_penalties`, and then there is a group. -/
def penaltyTokens (groups : List SequenceGroupToSample) (st : TensorState)
    (tokens : SequenceData → List Nat) : Except Err (List (List Nat)) :=
  match st.samplingParams with
  | some params => if st.flags.doPenalties then tokenLists groups params tokens else pure []
  | none => pure []

/-- `SamplingTensors.from_sampling_metadata` -/
def fromSamplingMetadata (groups : List SequenceGroupToSample) (vocabSize : Nat) :
    Except Err (SamplingTensors × TensorFlags) := do
  let st ← groups.foldlM (addScalars vocabSize) .init
  let promptTokens ← penaltyTokens groups st (·.promptTokenIds)
  let outputTokens ← penaltyTokens groups st (·.outputTokenIds)
  return ({
    temperatures := st.temperatures
    topPs := st.topPs
    topKs := st.topKs
    minPs := st.minPs
    presencePenalties := st.presencePenalties
    frequencyPenalties := st.frequencyPenalties
    repetitionPenalties := st.repetitionPenalties
    promptTokens := promptTokens
    outputTokens := outputTokens }, st.flags)

/-! ## Aligned lists -/

/-- One value for each of the `n` rows, which is that of the owner of the row. -/
structure RowsHold {α : Type} (groups : List SequenceGroupToSample) (n : Nat) (values : List α)
    (promptRow : SequenceGroupToSample → α) (sampleRow : SequenceGroupToSample → Nat → Option α) :
    Prop where
  length : values.length = n
  prompt : ∀ g ∈ groups, ∀ j ∈ g.promptLogprobIndices, values[j]? = some (promptRow g)
  sample : ∀ g ∈ groups, ∀ i j : Nat, g.sampleIndices[i]? = some j →
    ∃ seqId value, g.seqIds[i]? = some seqId ∧ sampleRow g seqId = some value ∧
      values[j]? = some value

/-- The tokens of a sequence. -/
def tokensOf (tokens : SequenceData → List Nat) (g : SequenceGroupToSample) (seqId : Nat) :
    Option (List Nat) := (g.seqData.get? seqId).map tokens

/-- Every list of `t` has one entry for each row of the batch, which is that of its owner, and every
row has an owner. -/
structure Aligned (out : PrepareState) (vocabSize : Nat) (t : SamplingTensors) (flags : TensorFlags) :
    Prop where
  owned : ∀ j, j < out.selectedTokenIndices.length → ∃ g ∈ out.seqGroups, j ∈ g.rows
  temperatures : RowsHold out.seqGroups out.selectedTokenIndices.length t.temperatures
    (·.samplingParams.rowTemperature) fun g _ => some g.samplingParams.rowTemperature
  topPs : RowsHold out.seqGroups out.selectedTokenIndices.length t.topPs
    (·.samplingParams.topP) fun g _ => some g.samplingParams.topP
  topKs : RowsHold out.seqGroups out.selectedTokenIndices.length t.topKs
    (·.samplingParams.rowTopK vocabSize) fun g _ => some (g.samplingParams.rowTopK vocabSize)
  minPs : RowsHold out.seqGroups out.selectedTokenIndices.length t.minPs
    (·.samplingParams.minP) fun g _ => some g.samplingParams.minP
  presencePenalties : RowsHold out.seqGroups out.selectedTokenIndices.length t.presencePenalties
    (fun _ => 0) fun g _ => some g.samplingParams.presencePenalty
  frequencyPenalties : RowsHold out.seqGroups out.selectedTokenIndices.length t.frequencyPenalties
    (fun _ => 0) fun g _ => some g.samplingParams.frequencyPenalty
  repetitionPenalties : RowsHold out.seqGroups out.selectedTokenIndices.length t.repetitionPenalties
    (fun _ => 1) fun g _ => some g.samplingParams.repetitionPenalty
  promptTokens : flags.doPenalties = true → RowsHold out.seqGroups out.selectedTokenIndices.length
    t.promptTokens (fun _ => []) (tokensOf (·.promptTokenIds))
  outputTokens : flags.doPenalties = true → RowsHold out.seqGroups out.selectedTokenIndices.length
    t.outputTokens (fun _ => []) (tokensOf (·.outputTokenIds))

/-- A group needs penalties, the last group asks for no prompt logprobs, and another one has
prompt-logprob rows. -/
def DropsRows (groups : List SequenceGroupToSample) : Prop :=
  (∃ g ∈ groups, g.samplingParams.NeedsPenalties) ∧
    (∃ g, groups.getLast? = some g ∧ g.samplingParams.promptLogprobs = none) ∧
    ∃ g ∈ groups, g.promptLogprobIndices ≠ []

/-! ## What the loops build -/

variable {groups : List SequenceGroupToSample} {vocabSize : Nat}

/-- Neither of the assertions of the first loop fails. -/
def ScalarsOk (g : SequenceGroupToSample) : Prop :=
  g.queryLen ≠ none ∧ (g.doSample = true → g.seqIds.length ≤ g.sampleIndices.length)

theorem scalars_ok {st : TensorState} (h : ∀ g ∈ groups, ScalarsOk g) :
    groups.foldlM (addScalars vocabSize) st = .ok {
      temperatures := st.temperatures ++ groups.flatMap fun g =>
        column g g.samplingParams.rowTemperature g.samplingParams.rowTemperature
      topPs := st.topPs ++ groups.flatMap fun g => column g g.samplingParams.topP g.samplingParams.topP
      topKs := st.topKs ++ groups.flatMap fun g =>
        column g (g.samplingParams.rowTopK vocabSize) (g.samplingParams.rowTopK vocabSize)
      minPs := st.minPs ++ groups.flatMap fun g => column g g.samplingParams.minP g.samplingParams.minP
      presencePenalties := st.presencePenalties ++ groups.flatMap fun g =>
        column g 0 g.samplingParams.presencePenalty
      frequencyPenalties := st.frequencyPenalties ++ groups.flatMap fun g =>
        column g 0 g.samplingParams.frequencyPenalty
      repetitionPenalties := st.repetitionPenalties ++ groups.flatMap fun g =>
        column g 1 g.samplingParams.repetitionPenalty
      flags := {
        doPenalties := st.flags.doPenalties || groups.any fun g => g.samplingParams.NeedsPenalties
        doTopPTopK := st.flags.doTopPTopK || groups.any fun g =>
          g.samplingParams.topP < 1 - samplingEps ∨ g.samplingParams.rowTopK vocabSize ≠ vocabSize
        doMinP := st.flags.doMinP || groups.any fun g => samplingEps < g.samplingParams.minP }
      samplingParams := (groups.getLast?.map (·.samplingParams)).or st.samplingParams } := by
  induction groups generalizing st with
  | nil => simp; rfl
  | cons g rest ih =>
    obtain ⟨⟨hquery, hlen⟩, hrest⟩ := List.forall_mem_cons.mp h
    have hadd : ¬ (hasPromptRows g.isPrompt g.samplingParams = true ∧ g.queryLen = none) :=
      fun hn => hquery hn.2
    have hsample : ¬ (g.doSample = true ∧ g.sampleIndices.length < g.seqIds.length) :=
      fun hn => absurd (hlen hn.1) (Nat.not_le_of_lt hn.2)
    rw [List.foldlM_cons]
    unfold addScalars
    dsimp only
    rw [guardNot_bind, if_neg hadd, guardNot_bind, if_neg hsample]
    refine (ih hrest).trans ?_
    simp only [List.append_assoc, List.flatMap_cons, List.any_cons, Bool.or_assoc, List.getLast?_cons,
      Option.map_some]
    cases rest.getLast? with
    | none => rfl
    | some last => rfl

/-- The tokens of the sequences of a group, when they are all there. -/
def tokenColumn (params : SamplingParams) (tokens : SequenceData → List Nat)
    (g : SequenceGroupToSample) : List (List Nat) :=
  (if hasPromptRows g.isPrompt params then List.replicate g.promptLogprobIndices.length [] else []) ++
    if g.doSample then g.seqIds.map fun seqId => (tokensOf tokens g seqId).getD [] else []

theorem tokenLists_ok {params : SamplingParams} {tokens : SequenceData → List Nat}
    (h : ∀ g ∈ groups, ∀ seqId ∈ g.seqIds, seqId ∈ g.seqData) :
    tokenLists groups params tokens = .ok (groups.flatMap (tokenColumn params tokens)) := by
  have hrows : ∀ g ∈ groups, tokenRows params tokens g = .ok (tokenColumn params tokens g) := by
    intro g hg
    have hsampled : sampledTokens tokens g = .ok (if g.doSample then
        g.seqIds.map fun seqId => (tokensOf tokens g seqId).getD [] else []) := by
      unfold sampledTokens
      split
      · refine mapM_eq_ok_map fun seqId hid => ?_
        obtain ⟨d, hd⟩ := Dict.mem_iff.mp (h g hg seqId hid)
        unfold tokensOf
        rw [hd]
        rfl
      · rfl
    unfold tokenRows
    rw [hsampled]
    rfl
  unfold tokenLists
  rw [mapM_eq_ok_map hrows, List.flatMap_def]
  rfl

/-! ## The rows of a prepared batch -/

variable {out : PrepareState}

theorem doSample_iff {g : SequenceGroupToSample} : g.doSample = true ↔ g.sampleIndices ≠ [] := by
  unfold SequenceGroupToSample.doSample
  rw [decide_eq_true_iff, List.length_pos_iff]

theorem RowsInv.scalarsOk (h : RowsInv out) : ∀ g ∈ out.seqGroups, ScalarsOk g := fun g hg =>
  ⟨h.queryLen g hg, fun hs => (h.sampled g hg (doSample_iff.mp hs)).ge⟩

theorem RowsInv.hasPromptRows (h : RowsInv out) {g : SequenceGroupToSample} (hg : g ∈ out.seqGroups)
    (hrows : g.promptLogprobIndices ≠ []) : hasPromptRows g.isPrompt g.samplingParams = true := by
  obtain ⟨hprompt, hsome⟩ := h.promptOnly g hg hrows
  unfold Sampling.hasPromptRows
  rw [hprompt, hsome]
  rfl

/-- Values that each group gives for its own rows. -/
theorem RowsInv.rowsHold {α : Type} (h : RowsInv out) {values : SequenceGroupToSample → List α}
    {promptRow : SequenceGroupToSample → α} {sampleRow : SequenceGroupToSample → Nat → Option α}
    (hlen : ∀ g ∈ out.seqGroups, (values g).length = g.rows.length)
    (hprompt : ∀ g ∈ out.seqGroups, ∀ i < g.promptLogprobIndices.length,
      (values g)[i]? = some (promptRow g))
    (hsample : ∀ g ∈ out.seqGroups, ∀ i < g.sampleIndices.length, ∃ seqId value,
      g.seqIds[i]? = some seqId ∧ sampleRow g seqId = some value ∧
        (values g)[g.promptLogprobIndices.length + i]? = some value) :
    RowsHold out.seqGroups out.selectedTokenIndices.length (out.seqGroups.flatMap values)
      promptRow sampleRow := by
  have hrows : out.seqGroups.flatMap SequenceGroupToSample.rows =
      List.range' 0 out.selectedTokenIndices.length := by
    rw [h.rows, h.selected, List.range_eq_range']
  refine ⟨Ragged.length_values hrows hlen, fun g hg j hj => ?_, fun g hg i j hj => ?_⟩
  · obtain ⟨i, hi⟩ := List.mem_iff_getElem?.mp hj
    have hlt := (List.getElem?_eq_some_iff.mp hi).1
    have hrow : g.rows[i]? = some j := by
      rw [SequenceGroupToSample.rows, List.getElem?_append_left hlt]
      exact hi
    rw [← hprompt g hg i hlt]
    exact Ragged.getElem?_values hrows hlen hg hrow
  · have hlt := (List.getElem?_eq_some_iff.mp hj).1
    obtain ⟨seqId, value, hid, hvalue, hat⟩ := hsample g hg i hlt
    refine ⟨seqId, value, hid, hvalue, ?_⟩
    have hrow : g.rows[g.promptLogprobIndices.length + i]? = some j := by
      rw [SequenceGroupToSample.rows, List.getElem?_append_right (by omega), Nat.add_sub_cancel_left]
      exact hj
    rw [← hat]
    exact Ragged.getElem?_values hrows hlen hg hrow

theorem RowsInv.column_eq {α : Type} (h : RowsInv out) {g : SequenceGroupToSample}
    (hg : g ∈ out.seqGroups) (x y : α) : column g x y =
      List.replicate g.promptLogprobIndices.length x ++ List.replicate g.sampleIndices.length y := by
  have hprompt : (if Sampling.hasPromptRows g.isPrompt g.samplingParams then
      List.replicate g.promptLogprobIndices.length x else []) =
      List.replicate g.promptLogprobIndices.length x := by
    by_cases hrows : g.promptLogprobIndices = []
    · rw [hrows]
      exact ite_self _
    · rw [if_pos (h.hasPromptRows hg hrows)]
  have hsample : (if g.doSample then List.replicate g.sampleIndices.length y else []) =
      List.replicate g.sampleIndices.length y := by
    by_cases hrows : g.sampleIndices = []
    · rw [hrows]
      exact ite_self _
    · rw [if_pos (doSample_iff.mpr hrows)]
  rw [column, hprompt, hsample]

/-- A scalar parameter. -/
theorem RowsInv.columnsHold {α : Type} (h : RowsInv out) (x y : SequenceGroupToSample → α) :
    RowsHold out.seqGroups out.selectedTokenIndices.length
      (out.seqGroups.flatMap fun g => column g (x g) (y g)) x fun g _ => some (y g) := by
  refine h.rowsHold (fun g hg => ?_) (fun g hg i hi => ?_) fun g hg i hi => ?_
  · rw [h.column_eq hg, SequenceGroupToSample.rows]
    simp only [List.length_append, List.length_replicate]
  · rw [h.column_eq hg, List.getElem?_append_left (by rw [List.length_replicate]; exact hi),
      List.getElem?_replicate, if_pos hi]
  · have hne : g.sampleIndices ≠ [] := List.ne_nil_of_length_pos (Nat.lt_of_le_of_lt (Nat.zero_le i) hi)
    have hids : i < g.seqIds.length := h.sampled g hg hne ▸ hi
    refine ⟨g.seqIds[i], y g, List.getElem?_eq_getElem hids, rfl, ?_⟩
    rw [h.column_eq hg, List.getElem?_append_right (by rw [List.length_replicate]; omega),
      List.length_replicate, Nat.add_sub_cancel_left, List.getElem?_replicate, if_pos hi]

/-- The second loop, when it drops no rows. -/
theorem RowsInv.tokensHold (h : RowsInv out) {params : SamplingParams}
    (tokens : SequenceData → List Nat)
    (hkeep : params.promptLogprobs.isSome = true ∨
      ∀ g ∈ out.seqGroups, g.promptLogprobIndices = []) :
    RowsHold out.seqGroups out.selectedTokenIndices.length
      (out.seqGroups.flatMap (tokenColumn params tokens)) (fun _ => []) (tokensOf tokens) := by
  have heq : ∀ g ∈ out.seqGroups, tokenColumn params tokens g =
      List.replicate g.promptLogprobIndices.length [] ++
        if g.doSample then g.seqIds.map fun seqId => (tokensOf tokens g seqId).getD [] else [] := by
    intro g hg
    rw [tokenColumn]
    congr 1
    by_cases hrows : g.promptLogprobIndices = []
    · rw [hrows]
      exact ite_self _
    · have hsome := hkeep.resolve_right fun hall => hrows (hall g hg)
      rw [if_pos]
      unfold Sampling.hasPromptRows
      rw [(h.promptOnly g hg hrows).1, hsome]
      rfl
  refine h.rowsHold (fun g hg => ?_) (fun g hg i hi => ?_) fun g hg i hi => ?_
  · rw [heq g hg, SequenceGroupToSample.rows, List.length_append, List.length_append,
      List.length_replicate]
    congr 1
    by_cases hrows : g.sampleIndices = []
    · rw [if_neg (fun hs => doSample_iff.mp hs hrows), hrows]
      rfl
    · rw [if_pos (doSample_iff.mpr hrows), List.length_map, h.sampled g hg hrows]
  · rw [heq g hg, List.getElem?_append_left (by rw [List.length_replicate]; exact hi),
      List.getElem?_replicate, if_pos hi]
  · have hne : g.sampleIndices ≠ [] := List.ne_nil_of_length_pos (Nat.lt_of_le_of_lt (Nat.zero_le i) hi)
    have hids : i < g.seqIds.length := h.sampled g hg hne ▸ hi
    have hget := List.getElem?_eq_getElem hids
    obtain ⟨d, hd⟩ := Dict.mem_iff.mp (h.known g hg _ (List.getElem_mem hids))
    have htokens : tokensOf tokens g g.seqIds[i] = some (tokens d) := by rw [tokensOf, hd]; rfl
    refine ⟨g.seqIds[i], tokens d, hget, htokens, ?_⟩
    rw [heq g hg, List.getElem?_append_right (by rw [List.length_replicate]; omega),
      List.length_replicate, Nat.add_sub_cancel_left, if_pos (doSample_iff.mpr hne),
      List.getElem?_map, hget, Option.map_some, htokens]
    rfl

/-- Without the prompt-logprob rows there are too few entries. -/
theorem RowsInv.tokens_short (h : RowsInv out) {params : SamplingParams}
    (tokens : SequenceData → List Nat) (hnone : params.promptLogprobs = none)
    (hrows : ∃ g ∈ out.seqGroups, g.promptLogprobIndices ≠ []) :
    (out.seqGroups.flatMap (tokenColumn params tokens)).length < out.selectedTokenIndices.length := by
  have hlen : ∀ groups ⊆ out.seqGroups,
      (groups.flatMap (tokenColumn params tokens)).length +
        (groups.flatMap (·.promptLogprobIndices)).length =
      (groups.flatMap SequenceGroupToSample.rows).length := by
    intro groups hsub
    induction groups with
    | nil => rfl
    | cons g rest ih =>
      obtain ⟨hg, hrest⟩ := List.cons_subset.mp hsub
      have hcol : (tokenColumn params tokens g).length = g.sampleIndices.length := by
        unfold tokenColumn Sampling.hasPromptRows
        rw [hnone, Option.isSome_none, Bool.and_false, if_neg Bool.false_ne_true, List.nil_append]
        by_cases hs : g.sampleIndices = []
        · rw [if_neg (fun hd => doSample_iff.mp hd hs), hs]
          rfl
        · rw [if_pos (doSample_iff.mpr hs), List.length_map, h.sampled g hg hs]
      have hrec := ih hrest
      simp only [List.flatMap_cons, List.length_append, SequenceGroupToSample.rows] at hrec ⊢
      rw [hcol]
      omega
  obtain ⟨g, hg, hne⟩ := hrows
  have hpos : 0 < (out.seqGroups.flatMap (·.promptLogprobIndices)).length := by
    rw [List.length_pos_iff]
    intro hnil
    exact hne (List.flatMap_eq_nil_iff.mp hnil g hg)
  have htotal := hlen out.seqGroups (List.Subset.refl _)
  rw [h.rows, List.length_range, ← h.selected] at htotal
  omega

/-- The token lists, with the parameters of the last group. -/
def batchTokens (groups : List SequenceGroupToSample) (tokens : SequenceData → List Nat) :
    List (List Nat) :=
  match groups.getLast? with
  | some last => if groups.any fun g => g.samplingParams.NeedsPenalties then
      groups.flatMap (tokenColumn last.samplingParams tokens) else []
  | none => []

def batchFlags (groups : List SequenceGroupToSample) (vocabSize : Nat) : TensorFlags where
  doPenalties := groups.any fun g => g.samplingParams.NeedsPenalties
  doTopPTopK := groups.any fun g =>
    g.samplingParams.topP < 1 - samplingEps ∨ g.samplingParams.rowTopK vocabSize ≠ vocabSize
  doMinP := groups.any fun g => samplingEps < g.samplingParams.minP

theorem RowsInv.fromSamplingMetadata (h : RowsInv out) (vocabSize : Nat) :
    Sampling.fromSamplingMetadata out.seqGroups vocabSize = .ok ({
        temperatures := out.seqGroups.flatMap fun g =>
          column g g.samplingParams.rowTemperature g.samplingParams.rowTemperature
        topPs := out.seqGroups.flatMap fun g => column g g.samplingParams.topP g.samplingParams.topP
        topKs := out.seqGroups.flatMap fun g =>
          column g (g.samplingParams.rowTopK vocabSize) (g.samplingParams.rowTopK vocabSize)
        minPs := out.seqGroups.flatMap fun g => column g g.samplingParams.minP g.samplingParams.minP
        presencePenalties := out.seqGroups.flatMap fun g =>
          column g 0 g.samplingParams.presencePenalty
        frequencyPenalties := out.seqGroups.flatMap fun g =>
          column g 0 g.samplingParams.frequencyPenalty
        repetitionPenalties := out.seqGroups.flatMap fun g =>
          column g 1 g.samplingParams.repetitionPenalty
        promptTokens := batchTokens out.seqGroups (·.promptTokenIds)
        outputTokens := batchTokens out.seqGroups (·.outputTokenIds) },
      batchFlags out.seqGroups vocabSize) := by
  have hlists : ∀ (st : TensorState) (tokens : SequenceData → List Nat),
      st.samplingParams = (out.seqGroups.getLast?.map (·.samplingParams)).or none →
      st.flags.doPenalties = (out.seqGroups.any fun g => g.samplingParams.NeedsPenalties) →
      penaltyTokens out.seqGroups st tokens = .ok (batchTokens out.seqGroups tokens) := by
    intro st tokens hlast hneeds
    unfold penaltyTokens batchTokens
    rw [hlast, hneeds]
    cases out.seqGroups.getLast? with
    | none => rfl
    | some last =>
      show (if _ then _ else _) = _
      split
      · exact tokenLists_ok h.known
      · rfl
  unfold Sampling.fromSamplingMetadata
  exact bind_eq_ok.mpr ⟨_, scalars_ok h.scalarsOk, bind_eq_ok.mpr ⟨_, hlists _ _ rfl rfl,
    bind_eq_ok.mpr ⟨_, hlists _ _ rfl rfl, rfl⟩⟩⟩

/-- The lists of a prepared batch are aligned with its rows exactly when no row is dropped. -/
theorem tensors_aligned_iff {mds : List SequenceGroupMetadata} {seqLens queryLens : List Nat}
    {generators : Dict String Generator} {out : PrepareState} (vocabSize : Nat)
    (hdecode : ∀ (i : Nat) (md : SequenceGroupMetadata), mds[i]? = some md → md.isPrompt = false →
      queryLens[i]? = some 1)
    (h : prepareSeqGroups mds seqLens queryLens generators = .ok out) :
    ∃ t flags, fromSamplingMetadata out.seqGroups vocabSize = .ok (t, flags) ∧
      (Aligned out vocabSize t flags ↔ ¬ DropsRows out.seqGroups) := by
  have hinv := prepareSeqGroups_rowsInv hdecode h
  refine ⟨_, _, hinv.fromSamplingMetadata vocabSize, fun ha hdrops => ?_, fun hkeep => ?_⟩
  · obtain ⟨⟨g, hg, hneeds⟩, ⟨last, hlast, hnone⟩, hrows⟩ := hdrops
    have hany : (out.seqGroups.any fun g => decide g.samplingParams.NeedsPenalties) = true :=
      List.any_eq_true.mpr ⟨g, hg, decide_eq_true hneeds⟩
    have hlen := (ha.promptTokens hany).length
    simp only [batchTokens, hlast, hany, if_true] at hlen
    have hshort := hinv.tokens_short (·.promptTokenIds) hnone hrows
    omega
  · have htokens : ∀ tokens : SequenceData → List Nat,
        (batchFlags out.seqGroups vocabSize).doPenalties = true →
        RowsHold out.seqGroups out.selectedTokenIndices.length (batchTokens out.seqGroups tokens)
          (fun _ => []) (tokensOf tokens) := by
      intro tokens hany
      replace hany : (out.seqGroups.any fun g => decide g.samplingParams.NeedsPenalties) = true := hany
      obtain ⟨g, hg, hneeds⟩ := List.any_eq_true.mp hany
      obtain ⟨last, hlast⟩ := Option.ne_none_iff_exists'.mp fun hnil =>
        List.ne_nil_of_mem hg (List.getLast?_eq_none_iff.mp hnil)
      simp only [batchTokens, hlast, hany, if_true]
      refine hinv.tokensHold tokens ?_
      by_cases hsome : last.samplingParams.promptLogprobs.isSome = true
      · exact .inl hsome
      · refine .inr fun g' hg' => ?_
        by_contra hne
        exact hkeep ⟨⟨g, hg, of_decide_eq_true hneeds⟩, ⟨last, hlast, Option.not_isSome_iff_eq_none.mp hsome⟩,
          g', hg', hne⟩
    refine ⟨fun j hj => ?_, hinv.columnsHold _ _, hinv.columnsHold _ _, hinv.columnsHold _ _,
      hinv.columnsHold _ _, hinv.columnsHold _ _, hinv.columnsHold _ _, hinv.columnsHold _ _,
      htokens _, htokens _⟩
    have hmem : j ∈ out.seqGroups.flatMap SequenceGroupToSample.rows := by
      rw [hinv.rows, List.mem_range, ← hinv.selected]
      exact hj
    exact List.mem_flatMap.mp hmem

/-! ## A prompt before a decode -/

def penaltyParams (promptLogprobs : Option Nat) : SamplingParams where
  n := 1
  presencePenalty := 1
  frequencyPenalty := 0
  repetitionPenalty := 1
  temperature := 1
  topP := 1
  topK := -1
  minP := 0
  seed := none
  minTokens := 0
  allStopTokenIds := []
  logprobs := none
  promptLogprobs := promptLogprobs
  promptLogprobPositions := none

/-- A prompt of three tokens whose logprobs are asked for. -/
def promptGroup : SequenceGroupMetadata :=
  ⟨"prompt", true, (∅ : Dict Nat SequenceData).set 0 (.fromSeqs [5, 6, 7]), penaltyParams (some 1), true⟩

def decodeGroup : SequenceGroupMetadata :=
  ⟨"decode", false, (∅ : Dict Nat SequenceData).set 1 ⟨[8], [9], 1, .decode⟩, penaltyParams none, true⟩

/-- The decode before the prompt: nothing is dropped. -/
theorem tensors_aligned_decode_first : ∃ out,
    prepareSeqGroups [decodeGroup, promptGroup] [2, 3] [1, 3] ∅ = .ok out ∧
      ∃ t flags, fromSamplingMetadata out.seqGroups 10 = .ok (t, flags) ∧
        (Aligned out 10 t flags ↔ ¬ DropsRows out.seqGroups) := by
  obtain ⟨out, hout, -⟩ := exists_of_any
    (x := prepareSeqGroups [decodeGroup, promptGroup] [2, 3] [1, 3] ∅) (P := fun _ => True)
    (by decide +kernel)
  refine ⟨out, hout, tensors_aligned_iff 10 (fun i md hi hdecode => ?_) hout⟩
  rcases i with _ | _ | i
  · rfl
  · obtain rfl : promptGroup = md := Option.some.inj hi
    cases hdecode
  · cases hi

/-- The prompt before the decode: there are four rows, and tokens for two of them. -/
theorem tensors_not_aligned : ¬ ∀ (mds : List SequenceGroupMetadata) (seqLens queryLens : List Nat)
    (generators : Dict String Generator) (out : PrepareState) (vocabSize : Nat),
    (∀ (i : Nat) (md : SequenceGroupMetadata), mds[i]? = some md → md.isPrompt = false →
      queryLens[i]? = some 1) →
    prepareSeqGroups mds seqLens queryLens generators = .ok out →
    ∃ t flags, fromSamplingMetadata out.seqGroups vocabSize = .ok (t, flags) ∧
      Aligned out vocabSize t flags := by
  intro hall
  obtain ⟨out, hout, hrows, htokens⟩ := exists_of_any
    (x := prepareSeqGroups [promptGroup, decodeGroup] [3, 2] [3, 1] ∅)
    (P := fun out => out.selectedTokenIndices.length = 4 ∧
      (fromSamplingMetadata out.seqGroups 10).toOption.map
        (fun r => (r.2.doPenalties, r.1.promptTokens.length)) = some (true, 2)) (by decide +kernel)
  obtain ⟨t, flags, hrun, ha⟩ := hall [promptGroup, decodeGroup] [3, 2] [3, 1] ∅ out 10
    (fun i md hi hdecode => by
      rcases i with _ | _ | i
      · obtain rfl : promptGroup = md := Option.some.inj hi
        cases hdecode
      · rfl
      · cases hi) hout
  rw [hrun] at htokens
  have hpair := Prod.mk.inj (Option.some.inj htokens)
  have hlen := (ha.promptTokens hpair.1).length
  have htwo : t.promptTokens.length = 2 := hpair.2
  omega

end Bi100.Sampling
