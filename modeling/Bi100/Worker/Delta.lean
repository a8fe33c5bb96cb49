import Bi100.Gdn.Prefix
import Bi100.Lib.Labelled
import Bi100.Sequence

/-!
# What SPMD workers are sent (`sequence.py`, `scheduler.py`, `worker.py`)

With `send_delta_data` a request is sent in full with its first chunk, again if it was preempted,
and as a delta otherwise. Every worker keeps the metadata of the requests and returns what it has
for those that are scheduled.

- Groups have one sequence. Multi-step scheduling (`state`) is not modelled.
- `samplingParams` stands for all that is sent with the first chunk only and never changes. What the
  scheduler chooses for a step (`Scheduled`) is an input here.
- `Engine.requestIds` and the second components of `Engine.sent` are history: no step reads them.
-/

namespace Bi100.Spmd

open Py

variable {L P M D : Type}

/-! ## The data of a sequence -/

/-- `SequenceData`, with what the delta encoding needs. -/
structure SequenceData (L : Type) extends Bi100.SequenceData where
  cumulativeLogprob : L
  cachedAllTokenIds : List Nat
  newAppendedTokens : List Nat
deriving DecidableEq

structure SequenceDataDelta (L : Type) where
  newOutputTokenIds : List Nat
  newCumulativeLogprob : L
  newNumComputedTokens : Nat
  newStage : SequenceStage
deriving DecidableEq

namespace SequenceData

def fromSeqs [Zero L] (promptTokenIds : List Nat) : SequenceData L where
  toSequenceData := .fromSeqs promptTokenIds
  cumulativeLogprob := 0
  cachedAllTokenIds := promptTokenIds
  newAppendedTokens := []

def appendTokenId [Add L] (d : SequenceData L) (tokenId : Nat) (logprob : L) : SequenceData L where
  toSequenceData := d.toSequenceData.appendTokenId tokenId
  cumulativeLogprob := d.cumulativeLogprob + logprob
  cachedAllTokenIds := d.cachedAllTokenIds ++ [tokenId]
  newAppendedTokens := d.newAppendedTokens ++ [tokenId]

def updateNumComputedTokens (d : SequenceData L) (n : Nat) : Except Err (SequenceData L) := do
  let data ← d.toSequenceData.updateNumComputedTokens n
  pure { d with toSequenceData := data }

def resetStateForRecompute (d : SequenceData L) : SequenceData L :=
  { d with
    toSequenceData := d.toSequenceData.resetStateForRecompute
    newAppendedTokens := [] }

def getDeltaAndReset (d : SequenceData L) : SequenceDataDelta L × SequenceData L :=
  (⟨d.newAppendedTokens, d.cumulativeLogprob, d.numComputedTokens, d.stage⟩,
    { d with newAppendedTokens := [] })

def applyDelta (d : SequenceData L) (delta : SequenceDataDelta L) : SequenceData L :=
  { d with
    numComputedTokens := delta.newNumComputedTokens
    cumulativeLogprob := delta.newCumulativeLogprob
    stage := delta.newStage
    outputTokenIds := d.outputTokenIds ++ delta.newOutputTokenIds
    cachedAllTokenIds := d.cachedAllTokenIds ++ delta.newOutputTokenIds }

end SequenceData

/-! ## The metadata of a group -/

structure SequenceGroupMetadata (L P M D : Type) where
  requestId : String
  isPrompt : Bool
  seqData : Dict Nat (SequenceData L)
  samplingParams : P
  blockTables : Dict Nat (List Nat)
  doSample : Bool
  computedBlockNums : List Nat
  multiModalData : Option M
  tokenChunkSize : Nat
  gdnRestoreKey : Option (GdnPrefixKey D)
  gdnCapturePoints : Option (List (GdnCapturePoint D))
  gdnEvictKeys : Option (List (GdnPrefixKey D))
  gdnSegmentOffsets : Option (List Nat)

structure SequenceGroupMetadataDelta (L D : Type) where
  seqDataDelta : Dict Nat (SequenceDataDelta L)
  requestId : String
  blockTables : Dict Nat (List Nat)
  isPrompt : Bool
  doSample : Bool
  tokenChunkSize : Nat
  computedBlockNums : List Nat
  gdnRestoreKey : Option (GdnPrefixKey D)
  gdnCapturePoints : Option (List (GdnCapturePoint D))
  gdnEvictKeys : Option (List (GdnPrefixKey D))
  gdnSegmentOffsets : Option (List Nat)

/-- The loop of `apply_delta` over `seq_data_delta`. -/
def applyDeltas (seqData : Dict Nat (SequenceData L)) :
    List (Nat × SequenceDataDelta L) → Except Err (Dict Nat (SequenceData L))
  | [] => pure seqData
  | (id, delta) :: rest =>
    match seqData.get? id with
    | none => throw .keyError
    | some data => applyDeltas (seqData.set id (data.applyDelta delta)) rest

def SequenceGroupMetadata.applyDelta (md : SequenceGroupMetadata L P M D)
    (delta : SequenceGroupMetadataDelta L D) : Except Err (SequenceGroupMetadata L P M D) := do
  let seqData ← applyDeltas md.seqData delta.seqDataDelta.entries
  if md.requestId ≠ delta.requestId then throw (.assertionError "")
  pure { md with
    seqData := seqData
    blockTables := delta.blockTables
    tokenChunkSize := delta.tokenChunkSize
    doSample := delta.doSample
    isPrompt := delta.isPrompt
    computedBlockNums := delta.computedBlockNums
    gdnRestoreKey := delta.gdnRestoreKey
    gdnCapturePoints := delta.gdnCapturePoints
    gdnEvictKeys := delta.gdnEvictKeys
    gdnSegmentOffsets := delta.gdnSegmentOffsets }

/-- `Union[SequenceGroupMetadata, SequenceGroupMetadataDelta]` -/
inductive MetadataOrDelta (L P M D : Type) where
  | metadata (md : SequenceGroupMetadata L P M D)
  | delta (delta : SequenceGroupMetadataDelta L D)

namespace MetadataOrDelta

def requestId : MetadataOrDelta L P M D → String
  | .metadata md => md.requestId
  | .delta d => d.requestId

def tokenChunkSize : MetadataOrDelta L P M D → Nat
  | .metadata md => md.tokenChunkSize
  | .delta d => d.tokenChunkSize

def doSample : MetadataOrDelta L P M D → Bool
  | .metadata md => md.doSample
  | .delta d => d.doSample

end MetadataOrDelta

/-- What is sent for a step. -/
structure ExecuteModelRequest (L P M D : Type) where
  seqGroupMetadataList : List (MetadataOrDelta L P M D)
  finishedRequestsIds : List String

/-! ## The scheduler -/

structure SequenceGroup (L P M : Type) where
  seqId : Nat
  data : SequenceData L
  samplingParams : P
  multiModalData : Option M

/-- A `ScheduledSequenceGroup`, with the block table and the actions chosen for it. -/
structure Scheduled (D : Type) where
  requestId : String
  tokenChunkSize : Nat
  blockTable : List Nat
  computedBlockNums : List Nat
  gdnRestoreKey : Option (GdnPrefixKey D)
  gdnCapturePoints : Option (List (GdnCapturePoint D))
  gdnEvictKeys : Option (List (GdnPrefixKey D))
  gdnSegmentOffsets : Option (List Nat)

namespace SequenceGroup

def isPrefill (g : SequenceGroup L P M) : Bool := g.data.stage = .prefill

def isFirstPrefill (g : SequenceGroup L P M) : Bool :=
  g.isPrefill && g.data.numComputedTokens = 0

/-- A chunk of a prompt that is not the last one samples nothing. -/
def doSample (g : SequenceGroup L P M) (tokenChunkSize : Nat) : Bool :=
  !(g.isPrefill && tokenChunkSize + g.data.numComputedTokens < g.data.getLen)

/-- The metadata of a scheduled group. -/
def metadata (g : SequenceGroup L P M) (numPrefillGroups : Nat) (sg : Scheduled D) :
    SequenceGroupMetadata L P M D where
  requestId := sg.requestId
  isPrompt := g.isPrefill
  seqData := (∅ : Dict _ _).set g.seqId g.data
  samplingParams := g.samplingParams
  blockTables := (∅ : Dict _ _).set g.seqId sg.blockTable
  doSample := g.doSample sg.tokenChunkSize
  computedBlockNums := sg.computedBlockNums
  multiModalData := if 0 < numPrefillGroups then g.multiModalData else none
  tokenChunkSize := sg.tokenChunkSize
  gdnRestoreKey := sg.gdnRestoreKey
  gdnCapturePoints := sg.gdnCapturePoints
  gdnEvictKeys := sg.gdnEvictKeys
  gdnSegmentOffsets := sg.gdnSegmentOffsets

def metadataDelta (g : SequenceGroup L P M) (sg : Scheduled D) :
    SequenceGroupMetadataDelta L D where
  seqDataDelta := (∅ : Dict _ _).set g.seqId g.data.getDeltaAndReset.1
  requestId := sg.requestId
  blockTables := (∅ : Dict _ _).set g.seqId sg.blockTable
  isPrompt := g.isPrefill
  doSample := g.doSample sg.tokenChunkSize
  tokenChunkSize := sg.tokenChunkSize
  computedBlockNums := sg.computedBlockNums
  gdnRestoreKey := sg.gdnRestoreKey
  gdnCapturePoints := sg.gdnCapturePoints
  gdnEvictKeys := sg.gdnEvictKeys
  gdnSegmentOffsets := sg.gdnSegmentOffsets

/-- What is sent for a scheduled group, and the group afterwards. -/
def send (sendDeltaData : Bool) (g : SequenceGroup L P M) (numPrefillGroups : Nat)
    (sg : Scheduled D) : MetadataOrDelta L P M D × SequenceGroup L P M :=
  if g.isFirstPrefill || !sendDeltaData then (.metadata (g.metadata numPrefillGroups sg), g)
  else (.delta (g.metadataDelta sg), { g with data := g.data.getDeltaAndReset.2 })

end SequenceGroup

/-- The loop of `schedule` over the scheduled groups. -/
def sendAll (sendDeltaData : Bool) (numPrefillGroups : Nat) :
    List (Scheduled D) → Dict String (SequenceGroup L P M) →
      Except Err (List (MetadataOrDelta L P M D) × Dict String (SequenceGroup L P M))
  | [], groups => pure ([], groups)
  | sg :: rest, groups =>
    match groups.get? sg.requestId with
    | none => throw .keyError
    | some g => do
      let (m, g) := g.send sendDeltaData numPrefillGroups sg
      let (ms, groups) ← sendAll sendDeltaData numPrefillGroups rest (groups.set sg.requestId g)
      pure (m :: ms, groups)

/-! ## The engine -/

/-- The requests in the queues of the scheduler, and what the engine has sent. -/
structure Engine (L P M D : Type) where
  groups : Dict String (SequenceGroup L P M)
  finishedRequestsIds : List String
  /-- The last step, while its outputs are not processed. -/
  awaiting : List (MetadataOrDelta L P M D)
  requestIds : List String
  /-- Every step, with what is sent for it without `send_delta_data`. -/
  sent : List (ExecuteModelRequest L P M D × List (MetadataOrDelta L P M D))

inductive Event (L P M D : Type) where
  | addRequest (requestId : String) (seqId : Nat) (promptTokenIds : List Nat) (samplingParams : P)
    (multiModalData : Option M)
  /-- `_preempt_by_recompute` -/
  | preempt (requestId : String)
  | schedule (numPrefillGroups : Nat) (scheduled : List (Scheduled D))
  /-- The sampled tokens, with their log-probabilities. -/
  | processOutputs (samples : List (Nat × L))
  /-- The request is finished, or it is aborted. -/
  | free (requestId : String)
  /-- The scheduler ignores the request: it leaves the queues, and no worker is told. -/
  | ignore (requestId : String)

/-- `_process_model_outputs`, for a group. One that is finished meanwhile is passed over. -/
def processOutput [Add L] (groups : Dict String (SequenceGroup L P M)) (m : MetadataOrDelta L P M D)
    (sample : Nat × L) : Except Err (Dict String (SequenceGroup L P M)) :=
  match groups.get? m.requestId with
  | none => pure groups
  | some g => do
    let data ← g.data.updateNumComputedTokens m.tokenChunkSize
    let data := if m.doSample then data.appendTokenId sample.1 sample.2 else data
    pure (groups.set m.requestId { g with data := data })

def processOutputs [Add L] (groups : Dict String (SequenceGroup L P M)) :
    List (MetadataOrDelta L P M D × Nat × L) → Except Err (Dict String (SequenceGroup L P M))
  | [] => pure groups
  | (m, sample) :: rest => do
    let groups ← processOutput groups m sample
    processOutputs groups rest

namespace Engine

def init : Engine L P M D := ⟨∅, [], [], [], []⟩

def step [Zero L] [Add L] (e : Engine L P M D) : Event L P M D → Except Err (Engine L P M D)
  | .addRequest requestId seqId promptTokenIds samplingParams multiModalData => pure { e with
      groups := e.groups.set requestId
        ⟨seqId, .fromSeqs promptTokenIds, samplingParams, multiModalData⟩
      requestIds := e.requestIds ++ [requestId] }
  | .preempt requestId =>
    match e.groups.get? requestId with
    | none => throw .keyError
    | some g => pure { e with
        groups := e.groups.set requestId { g with data := g.data.resetStateForRecompute } }
  | .schedule numPrefillGroups scheduled => do
    let (ms, groups) ← sendAll true numPrefillGroups scheduled e.groups
    let (full, _) ← sendAll false numPrefillGroups scheduled e.groups
    pure { e with
      groups := groups
      finishedRequestsIds := []
      awaiting := ms
      sent := e.sent ++ [(⟨ms, e.finishedRequestsIds⟩, full)] }
  | .processOutputs samples => do
    let groups ← processOutputs e.groups (e.awaiting.zip samples)
    pure { e with groups := groups, awaiting := [] }
  | .free requestId =>
    match e.groups.get? requestId with
    | none => throw .keyError
    | some _ => pure { e with
        groups := e.groups.erase requestId
        finishedRequestsIds := e.finishedRequestsIds ++ [requestId] }
  | .ignore requestId => pure { e with groups := e.groups.erase requestId }

/-- What the engine and its callers see to: ids are not used twice, a pass begins when the outputs
of the last one are processed, and it schedules a group once. -/
def Promised (e : Engine L P M D) : Event L P M D → Prop
  | .addRequest requestId _ _ _ _ => requestId ∉ e.requestIds
  | .preempt _ => e.awaiting = []
  | .schedule _ scheduled => e.awaiting = [] ∧ (scheduled.map Scheduled.requestId).Nodup
  | .processOutputs _ | .free _ | .ignore _ => True

end Engine

/-- What a worker keeps for a request, of what it has and what it is sent. -/
def accept (cached : Option (SequenceGroupMetadata L P M D)) (m : MetadataOrDelta L P M D) :
    Except Err (SequenceGroupMetadata L P M D) :=
  match cached, m with
  | none, .metadata md => pure md
  | none, .delta _ => throw (.assertionError "")
  | some md, .delta delta => md.applyDelta delta
  -- It was preempted.
  | some _, .metadata md => pure md

/-- The first loop of `_get_cached_seq_group_metadata`. -/
def receive (cache : Dict String (SequenceGroupMetadata L P M D)) :
    List (MetadataOrDelta L P M D) → Except Err
      (List (SequenceGroupMetadata L P M D) × Dict String (SequenceGroupMetadata L P M D))
  | [] => pure ([], cache)
  | m :: rest => do
    let md ← accept (cache.get? m.requestId) m
    let (mds, cache) ← receive (cache.set m.requestId md) rest
    pure (md :: mds, cache)

/-- The second loop. -/
def cleanUp (cache : Dict String (SequenceGroupMetadata L P M D)) :
    List String → Except Err (Dict String (SequenceGroupMetadata L P M D))
  | [] => pure cache
  | finishedId :: rest =>
    if finishedId ∈ cache then cleanUp (cache.erase finishedId) rest else throw .keyError

def getCachedSeqGroupMetadata (cache : Dict String (SequenceGroupMetadata L P M D))
    (request : ExecuteModelRequest L P M D) : Except Err
      (List (SequenceGroupMetadata L P M D) × Dict String (SequenceGroupMetadata L P M D)) := do
  let (mds, cache) ← receive cache request.seqGroupMetadataList
  let cache ← cleanUp cache request.finishedRequestsIds
  pure (mds, cache)

/-- The cache of a worker that was sent some steps. -/
def executeAll (cache : Dict String (SequenceGroupMetadata L P M D)) :
    List (ExecuteModelRequest L P M D) → Except Err (Dict String (SequenceGroupMetadata L P M D))
  | [] => pure cache
  | request :: rest => do
    let (_, cache) ← getCachedSeqGroupMetadata cache request
    executeAll cache rest

end Bi100.Spmd
