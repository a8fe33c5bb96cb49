import Bi100.Lib.Slices
import Bi100.Sampling.Metadata

/-!
# Log-probabilities (`get_logprobs` of `sampler.py`, `single_step.py`)

The log-probabilities of the prompt tokens and of the sampled tokens are taken out of the batch's
logits rows. Two cursors go through the groups: one over the rows, one over the values that were
selected.

- `V` is the type of the log-probabilities. `topk k` is `torch.topk` of a row: its `k` best tokens.
- `selected_logprobs` and `ranks` are one list of pairs, as are `top_token_ids` and `top_logprobs`.
- `processPromptLogprob`: what the output processor appends to a request, without the texts of the
  tokens.
-/

namespace Bi100.Sampling

open Py

variable {V : Type} [LinearOrder V]

/-- `Logprob`; the dummy value `inf` is `none`. -/
structure Logprob (V : Type) where
  logprob : Option V
  rank : Option Nat
deriving DecidableEq, Repr

/-- Token ids with their log-probabilities. -/
abbrev LogprobDict (V : Type) := Dict Nat (Logprob V)

/-- `next_token_ids` and `parent_ids` of a group. -/
abbrev SampleResult := List Nat × List Nat

namespace SequenceGroupToSample

/-- The group has prompt logprobs. -/
def wantsPromptLogprobs (g : SequenceGroupToSample) : Bool :=
  g.isPrompt && g.samplingParams.promptLogprobs.isSome

/-- `seq_group.seq_data[seq_group.seq_ids[0]]` -/
def firstSeqData (g : SequenceGroupToSample) : Except Err SequenceData :=
  match g.seqIds with
  | [] => throw listIndex
  | seqId :: _ =>
    match g.seqData.get? seqId with
    | none => throw .keyError
    | some seqData => pure seqData

/-- The loop of `_get_next_prompt_tokens`. -/
def nextTokensAt (seqData : SequenceData) : List Nat → Except Err (List Nat)
  | [] => pure []
  | outputIndex :: rest =>
    match seqData.promptTokenIds[seqData.numComputedTokens + outputIndex + 1]? with
    | none => throw assertion
    | some token => do
      let tokens ← nextTokensAt seqData rest
      pure (token :: tokens)

/-- `_get_next_prompt_tokens` -/
def getNextPromptTokens (g : SequenceGroupToSample) : Except Err (List Nat) := do
  guardNot (g.isPrompt = false) assertion
  guardNot (g.queryLen = none) assertion
  guardNot (g.seqIds.length ≠ 1) assertion
  let seqData ← g.firstSeqData
  nextTokensAt seqData g.promptLogprobOutputIndices

end SequenceGroupToSample

/-! ## What is selected -/

structure Selection where
  queryIndices : List Nat
  nextTokenIds : List Nat
  largestNumLogprobs : Int

/-- The prompt part of the first loop. -/
def selectPrompt (g : SequenceGroupToSample) (sel : Selection) : Except Err Selection :=
  match g.isPrompt, g.samplingParams.promptLogprobs with
  | true, some numLogprobs => do
    let nextPromptTokens ← g.getNextPromptTokens
    pure {
      queryIndices := sel.queryIndices ++ g.promptLogprobIndices
      nextTokenIds := sel.nextTokenIds ++ nextPromptTokens
      largestNumLogprobs := max sel.largestNumLogprobs numLogprobs }
  | _, _ => pure sel

/-- The sample part of the first loop. -/
def selectSample (g : SequenceGroupToSample) (result : SampleResult) (sel : Selection) :
    Except Err Selection :=
  if g.doSample then
    match g.sampleIndices with
    | [] => throw listIndex
    | queryIdx :: _ => pure {
        queryIndices := sel.queryIndices ++ result.2.map (queryIdx + ·)
        nextTokenIds := sel.nextTokenIds ++ result.1
        largestNumLogprobs :=
          match g.samplingParams.logprobs with
          | some numLogprobs => max sel.largestNumLogprobs numLogprobs
          | none => sel.largestNumLogprobs }
  else pure sel

/-- The first loop of `get_logprobs`. -/
def selectLoop : List (SequenceGroupToSample × SampleResult) → Selection → Except Err Selection
  | [], sel => pure sel
  | (g, result) :: rest, sel => do
    let sel ← selectPrompt g sel
    let sel ← selectSample g result sel
    guardNot (sel.nextTokenIds.length ≠ sel.queryIndices.length) assertion
    selectLoop rest sel

/-- `_get_ranks`, for a row. -/
def rank (row : List V) (v : V) : Nat := (row.filter (v < ·)).length + 1

/-- The log-probability of a token in a row, and its rank. -/
def selectLogprob (logprobs : List (List V)) (queryIndex token : Nat) : Except Err (V × Nat) :=
  match logprobs[queryIndex]? with
  | none => throw listIndex
  | some row =>
    match row[token]? with
    | none => throw listIndex
    | some v => pure (v, rank row v)

/-- `selected_logprobs` and `ranks` -/
def selectLogprobs (logprobs : List (List V)) (sel : Selection) :
    Except Err (Option (List (V × Nat))) :=
  if sel.queryIndices ≠ [] ∧ 0 ≤ sel.largestNumLogprobs then
    some <$> (sel.queryIndices.zip sel.nextTokenIds).mapM fun p => selectLogprob logprobs p.1 p.2
  else pure none

/-- `top_token_ids` and `top_logprobs` -/
def topLogprobs (topk : Nat → List V → List (Nat × V)) (logprobs : List (List V))
    (sel : Selection) : Except Err (Option (List (List (Nat × V)))) :=
  if sel.queryIndices ≠ [] ∧ 0 < sel.largestNumLogprobs then do
    guardNot (∃ row ∈ logprobs, row.length < sel.largestNumLogprobs.toNat)
      (.runtimeError "selected index k out of range")
    pure (some (logprobs.map (topk sel.largestNumLogprobs.toNat)))
  else pure none

/-! ## The dictionaries -/

/-- The best tokens, with their ranks from `start` on. -/
def addTop (entry : LogprobDict V) : List (Nat × V) → Nat → LogprobDict V
  | [], _ => entry
  | (topId, topProb) :: rest, start =>
    addTop (entry.set topId ⟨some topProb, some start⟩) rest (start + 1)

/-- The dictionary of a token. -/
def logprobEntry (token : Nat) (item : V × Nat) (numLogprobs : Nat)
    (top : Option (List (List (Nat × V)))) (topLogprobIdx : Nat) : Except Err (LogprobDict V) :=
  let entry : LogprobDict V := (∅ : LogprobDict V).set token ⟨some item.1, some item.2⟩
  if 0 < numLogprobs then
    match top with
    | none => throw assertion
    | some rows =>
      match rows[topLogprobIdx]? with
      | none => throw listIndex
      | some row => pure (addTop entry (row.take numLogprobs) 1)
  else pure entry

/-- The loop of `_get_prompt_logprob_if_needed` over the next prompt tokens, and their output
indices. -/
def promptEntries (numLogprobs : Nat) (top : Option (List (List (Nat × V)))) :
    List (Nat × Nat) → List (V × Nat) → Nat → List (Option (LogprobDict V)) →
      Except Err (List (Option (LogprobDict V)) × Nat)
  | [], _, topLogprobIdx, promptLogprobs => pure (promptLogprobs, topLogprobIdx)
  | _ :: _, [], _, _ => throw listIndex
  | (token, outputIndex) :: rest, item :: items, topLogprobIdx, promptLogprobs => do
    let entry ← logprobEntry token item numLogprobs top topLogprobIdx
    guardNot (promptLogprobs.length ≤ outputIndex) listIndex
    promptEntries numLogprobs top rest items (topLogprobIdx + 1)
      (promptLogprobs.set outputIndex (some entry))

/-- `full_prompt_logprob_len`; a difference is not negative. -/
def fullPromptLogprobLen (g : SequenceGroupToSample) (queryLen : Nat) (seqData : SequenceData) :
    Nat :=
  min (if g.doSample then queryLen - g.seqIds.length else queryLen)
    (seqData.promptTokenIds.length - seqData.numComputedTokens - 1)

/-- `selected_logprob_items` and `rank_items` -/
def promptItems (selected : Option (List (V × Nat))) (selectedLogprobsIdx : Nat)
    (nextPromptTokens : List Nat) : Except Err (List (V × Nat)) :=
  if nextPromptTokens = [] then pure [] else
    match selected with
    | none => throw assertion
    | some values =>
      pure (slice values selectedLogprobsIdx (selectedLogprobsIdx + nextPromptTokens.length))

/-- `_get_prompt_logprob_if_needed` -/
def getPromptLogprobIfNeeded (g : SequenceGroupToSample) (selected : Option (List (V × Nat)))
    (top : Option (List (List (Nat × V)))) (selectedLogprobsIdx topLogprobIdx : Nat) :
    Except Err (Option (List (Option (LogprobDict V))) × Nat × Nat) :=
  match g.isPrompt, g.samplingParams.promptLogprobs with
  | true, some numLogprobs =>
    match g.queryLen with
    | none => throw assertion
    | some queryLen => do
      let seqData ← g.firstSeqData
      let promptLogprobs := List.replicate (fullPromptLogprobLen g queryLen seqData) none
      let nextPromptTokens ← g.getNextPromptTokens
      guardNot (nextPromptTokens.length ≠ g.promptLogprobIndices.length ∨
        g.promptLogprobIndices.length ≠ g.promptLogprobOutputIndices.length) assertion
      let items ← promptItems selected selectedLogprobsIdx nextPromptTokens
      let (promptLogprobs, topLogprobIdx) ← promptEntries numLogprobs top
        (nextPromptTokens.zip g.promptLogprobOutputIndices) items topLogprobIdx promptLogprobs
      pure (some promptLogprobs, topLogprobIdx, selectedLogprobsIdx + nextPromptTokens.length)
  | _, _ => pure (none, topLogprobIdx, selectedLogprobsIdx)

/-- The loop of `_get_sampled_logprob_if_needed` over the sampled tokens and their parents. -/
def sampleEntries (numLogprobs : Nat) (top : Option (List (List (Nat × V)))) (topLogprobIdx : Nat) :
    List (Nat × Nat) → List (V × Nat) → Except Err (List (LogprobDict V))
  | [], _ => pure []
  | _ :: _, [] => throw listIndex
  | (token, parentId) :: rest, item :: items => do
    let entry ← logprobEntry token item numLogprobs top (topLogprobIdx + parentId)
    let entries ← sampleEntries numLogprobs top topLogprobIdx rest items
    pure (entry :: entries)

/-- `{next_token_id: Logprob(inf)}` -/
def dummyEntry (token : Nat) : LogprobDict V := (∅ : LogprobDict V).set token ⟨none, none⟩

/-- `sampled_logprobs` -/
def sampledLogprobs (g : SequenceGroupToSample) (result : SampleResult)
    (selected : Option (List (V × Nat))) (top : Option (List (List (Nat × V))))
    (selectedLogprobsIdx topLogprobIdx : Nat) : Except Err (List (LogprobDict V)) :=
  match g.samplingParams.logprobs with
  | none => pure (result.1.map dummyEntry)
  | some numLogprobs =>
    match selected with
    | none => throw (.typeError "'NoneType' object is not subscriptable")
    | some values => sampleEntries numLogprobs top topLogprobIdx (result.1.zip result.2)
      (slice values selectedLogprobsIdx (selectedLogprobsIdx + result.1.length))

/-- `_get_sampled_logprob_if_needed` -/
def getSampledLogprobIfNeeded (g : SequenceGroupToSample) (result : SampleResult)
    (selected : Option (List (V × Nat))) (top : Option (List (List (Nat × V))))
    (selectedLogprobsIdx topLogprobIdx : Nat) :
    Except Err (List (LogprobDict V) × Nat × Nat) :=
  if g.doSample then do
    guardNot (result.1 = []) assertion
    let entries ← sampledLogprobs g result selected top selectedLogprobsIdx topLogprobIdx
    pure (entries, topLogprobIdx + g.seqIds.length, selectedLogprobsIdx + result.1.length)
  else pure ([], topLogprobIdx, selectedLogprobsIdx)

/-- What `get_logprobs` returns for a group. -/
abbrev GroupLogprobs (V : Type) := Option (List (Option (LogprobDict V))) × List (LogprobDict V)

/-- The second loop of `get_logprobs`. -/
def logprobsLoop (selected : Option (List (V × Nat))) (top : Option (List (List (Nat × V)))) :
    List (SequenceGroupToSample × SampleResult) → Nat → Nat → Except Err (List (GroupLogprobs V))
  | [], _, _ => pure []
  | (g, result) :: rest, selectedLogprobsIdx, topLogprobIdx => do
    let (promptLogprobs, topLogprobIdx, selectedLogprobsIdx) ←
      getPromptLogprobIfNeeded g selected top selectedLogprobsIdx topLogprobIdx
    let (sampledLogprobs, topLogprobIdx, selectedLogprobsIdx) ←
      getSampledLogprobIfNeeded g result selected top selectedLogprobsIdx topLogprobIdx
    let others ← logprobsLoop selected top rest selectedLogprobsIdx topLogprobIdx
    pure ((promptLogprobs, sampledLogprobs) :: others)

/-- `get_logprobs` -/
def getLogprobs (topk : Nat → List V → List (Nat × V)) (logprobs : List (List V))
    (seqGroups : List SequenceGroupToSample) (sampleResults : List SampleResult) :
    Except Err (List (GroupLogprobs V)) := do
  let sel ← selectLoop (seqGroups.zip sampleResults) ⟨[], [], -1⟩
  let selected ← selectLogprobs logprobs sel
  let top ← topLogprobs topk logprobs sel
  logprobsLoop selected top (seqGroups.zip sampleResults) 0 0

/-- `single_step_process_prompt_logprob`: the prompt logprobs of the request afterwards. -/
def processPromptLogprob (requestLogprobs : List (Option (LogprobDict V)))
    (promptLogprobs : Option (List (Option (LogprobDict V)))) : List (Option (LogprobDict V)) :=
  match promptLogprobs with
  | none => requestLogprobs
  | some promptLogprobs =>
    -- The first token has no log-probability.
    if requestLogprobs = [] then none :: promptLogprobs else requestLogprobs ++ promptLogprobs

end Bi100.Sampling
