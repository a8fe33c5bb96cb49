import Bi100.Lib.Text

/-!
# The reasoning parser (`reasoning/qwen3_reasoning_parser.py`)

A text is the list of its characters. Only the fields of a `DeltaMessage` that the parser sets are
modelled.
-/

namespace Bi100

open Py

/-- `DeltaMessage` -/
structure ReasoningDelta where
  reasoningContent : Option Text
  content : Option Text
deriving DecidableEq

structure Qwen3ReasoningParser where
  startTokenId : Nat
  endTokenId : Nat
  thinkingEnabled : Bool

namespace Qwen3ReasoningParser

def startToken : Text := "<think>".toList

def endToken : Text := "</think>".toList

/-- `extract_reasoning` -/
def extractReasoning (p : Qwen3ReasoningParser) (modelOutput : Text) : Option Text × Option Text :=
  let parts := Text.partition modelOutput startToken
  let modelOutput := if parts.2.1 ≠ [] then parts.2.2 else parts.1
  if p.thinkingEnabled = false then
    if Text.contains modelOutput endToken then
      (none, some (Text.partition modelOutput endToken).2.2)
    else (none, some modelOutput)
  else if Text.contains modelOutput endToken = false then (Text.orNone modelOutput, none)
  else
    let parts := Text.partition modelOutput endToken
    (Text.orNone parts.1, Text.orNone parts.2.2)

/-- A token of the loop of `BaseThinkingReasoningParser.count_reasoning_tokens`, with the count and
the depth before it. -/
def countStep (p : Qwen3ReasoningParser) (s : Nat × Nat) (tid : Nat) : Nat × Nat :=
  let (count, depth) := s
  if tid = p.startTokenId then (count, depth + 1)
  else if tid = p.endTokenId then (count, if 0 < depth then depth - 1 else depth)
  else if 0 < depth then (count + 1, depth)
  else (count, depth)

/-- `BaseThinkingReasoningParser.count_reasoning_tokens` -/
def baseCountReasoningTokens (p : Qwen3ReasoningParser) (tokenIds : List Nat) : Nat :=
  (tokenIds.foldl p.countStep (0, 0)).1

/-- `count_reasoning_tokens` -/
def countReasoningTokens (p : Qwen3ReasoningParser) (tokenIds : List Nat) : Nat :=
  if p.startTokenId ∈ tokenIds then p.baseCountReasoningTokens tokenIds
  else if p.endTokenId ∈ tokenIds then tokenIds.idxOf p.endTokenId
  else if p.thinkingEnabled then tokenIds.length
  else 0

/-- The text after the start token, if it is among the token ids. -/
def stripStart (p : Qwen3ReasoningParser) (deltaText : Text) (deltaTokenIds : List Nat) : Text :=
  if p.startTokenId ∈ deltaTokenIds then
    match Text.find startToken deltaText with
    | some startIdx => deltaText.drop (startIdx + startToken.length)
    | none => deltaText
  else deltaText

/-- `extract_reasoning_streaming`; of the histories only the previous token ids are read. -/
def extractReasoningStreaming (p : Qwen3ReasoningParser) (deltaText : Text)
    (previousTokenIds deltaTokenIds : List Nat) : Option ReasoningDelta :=
  if p.thinkingEnabled = false then
    if deltaText ≠ [] then some ⟨none, some deltaText⟩ else none
  else
    let deltaText := p.stripStart deltaText deltaTokenIds
    if p.endTokenId ∈ deltaTokenIds then
      match Text.find endToken deltaText with
      | some endIdx =>
        let reasoning := deltaText.take endIdx
        let content := deltaText.drop (endIdx + endToken.length)
        if reasoning = [] ∧ content = [] then none
        else some ⟨Text.orNone reasoning, Text.orNone content⟩
      | none => none
    else if deltaText = [] then none
    else if p.endTokenId ∈ previousTokenIds then some ⟨none, some deltaText⟩
    else some ⟨some deltaText, none⟩

end Qwen3ReasoningParser

end Bi100
