import Bi100.Base

/-!
# Sequence data (`sequence.py`)

The tokens of a sequence and how many of them are computed, its status, and the group of sequences
that a request is. Log-probabilities, texts and the delta encoding are not modelled: nothing that is
scheduled depends on them.
-/

namespace Bi100

inductive SequenceStage where
  | prefill
  | decode
deriving DecidableEq, Repr

structure SequenceData where
  promptTokenIds : List Nat
  outputTokenIds : List Nat
  numComputedTokens : Nat
  stage : SequenceStage
deriving DecidableEq, Repr

namespace SequenceData

/-- `SequenceData.from_seqs`. -/
def fromSeqs (promptTokenIds : List Nat) : SequenceData := ⟨promptTokenIds, [], 0, .prefill⟩

def getLen (d : SequenceData) : Nat := d.outputTokenIds.length + d.promptTokenIds.length

def getPromptLen (d : SequenceData) : Nat := d.promptTokenIds.length

def getTokenIds (d : SequenceData) : List Nat := d.promptTokenIds ++ d.outputTokenIds

/-- Tokens that are not computed; after a preemption these include generated tokens. -/
def getNumUncomputedTokens (d : SequenceData) : Nat := d.getLen - d.numComputedTokens

def appendTokenId (d : SequenceData) (tokenId : Nat) : SequenceData :=
  { d with outputTokenIds := d.outputTokenIds ++ [tokenId] }

/-- `update_num_computed_tokens`: once all tokens are computed the sequence decodes. -/
def updateNumComputedTokens (d : SequenceData) (n : Nat) : Except Err SequenceData :=
  let c := d.numComputedTokens + n
  if d.getLen < c then
    throw (.assertionError s!"({c}, {d.getLen})")
  else
    pure { d with numComputedTokens := c, stage := if c = d.getLen then .decode else d.stage }

def resetStateForRecompute (d : SequenceData) : SequenceData :=
  { d with numComputedTokens := 0, stage := .prefill }

@[simp] theorem length_getTokenIds (d : SequenceData) : d.getTokenIds.length = d.getLen := by
  rw [getTokenIds, List.length_append, getLen, Nat.add_comm]

end SequenceData

inductive SequenceStatus where
  | waiting
  | running
  | swapped
  | finishedStopped
  | finishedLengthCapped
  | finishedAborted
  | finishedIgnored
deriving DecidableEq, Repr

/-- `is_finished` -/
def SequenceStatus.isFinished : SequenceStatus → Bool
  | .waiting | .running | .swapped => false
  | _ => true

structure Sequence where
  seqId : Nat
  data : SequenceData
  status : SequenceStatus
deriving DecidableEq, Repr

structure SequenceGroup where
  requestId : String
  seqs : List Sequence
  encoderSeq : Option Sequence
deriving DecidableEq, Repr

/-- `get_seqs` with a status. -/
def SequenceGroup.getSeqs (g : SequenceGroup) (status : SequenceStatus) : List Sequence :=
  g.seqs.filter (·.status = status)

end Bi100
