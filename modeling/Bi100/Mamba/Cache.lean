import Bi100.Base
import Bi100.Lib.Dict
import Mathlib.Algebra.Notation.Defs
import Mathlib.Logic.Function.Basic

/-!
# The recurrent state cache (`mamba_cache.py`)

`MambaCacheManager` keeps the recurrent states of the live sequences in `maxBatchSize` slots and
moves those of a batch to the first slots. A state (the convolution and the temporal state of
all layers) is a value of type `S`, with `0` for the zeroed tensors; the source applies every
operation to both tensors alike.
-/

namespace Bi100

open Py

variable {R Q S : Type} [DecidableEq R] [DecidableEq Q] [Zero S]

structure MambaCacheManager (R Q S : Type) where
  /-- `mamba_cache`: the state in each slot. -/
  slot : Nat → S
  /-- `mamba_cache[0].shape[1]`. -/
  maxBatchSize : Nat
  /-- `mamba_cache_indices_mapping`. -/
  mapping : Dict R (Dict Q Nat)

namespace MambaCacheManager

/-- `__init__`. -/
def init (maxBatchSize : Nat) : MambaCacheManager R Q S := ⟨fun _ => 0, maxBatchSize, ∅⟩

/-- The mapping's entries, in the order in which the source's nested loops visit them. -/
def items (m : MambaCacheManager R Q S) : List (R × Q × Nat) :=
  m.mapping.entries.flatMap fun p => p.2.entries.map fun e => (p.1, e.1, e.2)

/-- `_get_all_occupied_indices`. -/
def allOccupiedIndices (m : MambaCacheManager R Q S) : List Nat := m.items.map (·.2.2)

/-- An access to a slot outside the tensor raises. -/
def requireIndex (index : Nat) : EStateM Err (MambaCacheManager R Q S) Unit := do
  let m ← get
  raiseUnless (index < m.maxBatchSize) (.indexError "index is out of bounds for dimension 1")

/-- `cache_t[:, index].zero_()`. -/
def zeroSlot (index : Nat) : EStateM Err (MambaCacheManager R Q S) Unit := do
  requireIndex index
  modify fun m => { m with slot := Function.update m.slot index 0 }

/-- `_copy_mamba_cache`. -/
def copyMambaCache (fromIndex toIndex : Nat) : EStateM Err (MambaCacheManager R Q S) Unit := do
  requireIndex fromIndex
  requireIndex toIndex
  modify fun m => { m with slot := Function.update m.slot toIndex (m.slot fromIndex) }

/-- `_swap_mamba_cache`. -/
def swapMambaCache (fromIndex toIndex : Nat) : EStateM Err (MambaCacheManager R Q S) Unit := do
  requireIndex fromIndex
  requireIndex toIndex
  modify fun m => { m with
    slot := Function.update (Function.update m.slot toIndex (m.slot fromIndex))
      fromIndex (m.slot toIndex) }

/-- `mapping[request_id][seq_id] = index`, for a request that is mapped. -/
def setIndex (m : MambaCacheManager R Q S) (requestId : R) (seqId : Q) (index : Nat) :
    MambaCacheManager R Q S :=
  { m with
    mapping := m.mapping.set requestId
      (((m.mapping.get? requestId).getD ∅).set seqId index) }

/-- `_update_mapping_index`: the first sequence at `fromIndex`. -/
def updateMappingIndex (fromIndex toIndex : Nat) :
    EStateM Err (MambaCacheManager R Q S) Unit := do
  let m ← get
  match m.items.find? (·.2.2 = fromIndex) with
  | some (requestId, seqId, _) => set (m.setIndex requestId seqId toIndex)
  | none => pure ()

/-- `_swap_mapping_index`. -/
def swapMappingIndex (fromIndex toIndex : Nat) : EStateM Err (MambaCacheManager R Q S) Unit :=
  modify fun m => { m with
    mapping := m.mapping.mapValues fun seqIds2index =>
      seqIds2index.mapValues fun index =>
        if fromIndex = index then toIndex else if toIndex = index then fromIndex else index }

/-- `_move_cache_index_and_mappings`. -/
def moveCacheIndexAndMappings (fromIndex toIndex : Nat) :
    EStateM Err (MambaCacheManager R Q S) Unit := do
  copyMambaCache fromIndex toIndex
  updateMappingIndex fromIndex toIndex

/-- `_swap_pair_indices_and_mappings`. -/
def swapPairIndicesAndMappings (fromIndex toIndex : Nat) :
    EStateM Err (MambaCacheManager R Q S) Unit := do
  swapMambaCache fromIndex toIndex
  swapMappingIndex fromIndex toIndex

/-- `_first_free_index_in_mamba_cache`. -/
def firstFreeIndex (indicesRange : List Nat) : EStateM Err (MambaCacheManager R Q S) Nat := do
  let m ← get
  getOrRaise (indicesRange.find? (· ∉ m.allOccupiedIndices)) (.exception
    "Couldn't find a free spot in the mamba cache! Thisshould never happen")

/-- `_move_out_if_already_occupied`. -/
def moveOutIfAlreadyOccupied (index : Nat) (allOccupiedIndices : List Nat) :
    EStateM Err (MambaCacheManager R Q S) Unit := do
  if index ∈ allOccupiedIndices then
    let m ← get
    let firstFree ← firstFreeIndex (List.range m.maxBatchSize)
    moveCacheIndexAndMappings index firstFree

/-- `_assign_seq_id_to_mamba_cache_in_specific_dest`, for a new request. -/
def assignNewRequest (curRid : R) (seqId : Q) (destinationIndex : Nat) :
    EStateM Err (MambaCacheManager R Q S) Unit := do
  let m ← get
  moveOutIfAlreadyOccupied destinationIndex m.allOccupiedIndices
  zeroSlot destinationIndex
  modify fun m => { m with
    mapping := m.mapping.set curRid ((∅ : Dict Q Nat).set seqId destinationIndex) }

/-- `_assign_seq_id_to_mamba_cache_in_specific_dest`, for a new sequence of a known request
(parallel sampling): the state of the request's first sequence is copied. -/
def assignSibling (curRid : R) (seqId : Q) (destinationIndex : Nat) :
    EStateM Err (MambaCacheManager R Q S) Unit := do
  let m ← get
  moveOutIfAlreadyOccupied destinationIndex m.allOccupiedIndices
  let m ← get
  -- the values are read after the move, which may have changed them
  let indexExists ← getOrRaise (((m.mapping.get? curRid).getD ∅).values.head?)
    (.indexError "list index out of range")
  copyMambaCache indexExists destinationIndex
  modify fun m => m.setIndex curRid seqId destinationIndex

/-- `_assign_seq_id_to_mamba_cache_in_specific_dest`. -/
def assignSeqId (curRid : R) (seqId : Q) (destinationIndex : Nat) :
    EStateM Err (MambaCacheManager R Q S) Unit := do
  let m ← get
  match m.mapping.get? curRid with
  | none => assignNewRequest curRid seqId destinationIndex
  | some seqIds2indices =>
    match seqIds2indices.get? seqId with
    | none => assignSibling curRid seqId destinationIndex
    | some index =>
      if index ≠ destinationIndex then
        swapPairIndicesAndMappings index destinationIndex

/-- One destination of `_clean_up_first_bs_blocks`. The method it calls at the end,
`self._swap_indices`, does not exist. -/
def cleanUpIndex (batchSize : Nat) (indicesForCurrentRun : List Nat) (destinationIndex : Nat) :
    EStateM Err (MambaCacheManager R Q S) Unit := do
  let m ← get
  if destinationIndex ∈ m.allOccupiedIndices ∧ destinationIndex ∉ indicesForCurrentRun then
    let _ ← firstFreeIndex (List.range' batchSize (m.maxBatchSize - batchSize))
    throw (.attributeError "'MambaCacheManager' object has no attribute '_swap_indices'")

/-- `_clean_up_first_bs_blocks`. -/
def cleanUpFirstBsBlocks (batchSize : Nat) (indicesForCurrentRun : List Nat) :
    EStateM Err (MambaCacheManager R Q S) Unit :=
  forM (List.range batchSize) (cleanUpIndex batchSize indicesForCurrentRun)

/-- `request_ids_to_seq_ids_flatten`. -/
def flatten (requestIdsToSeqIds : Dict R (List Q)) : List (R × Q) :=
  requestIdsToSeqIds.entries.flatMap fun p => p.2.map fun seqId => (p.1, seqId)

/-- The loop of `_prepare_current_run_mamba_cache` over the batch from position `destIndex` on;
it returns `running_indices`. -/
def assignBatch (finishedRequestsIds : List R) (destIndex : Nat) :
    List (R × Q) → EStateM Err (MambaCacheManager R Q S) (List Nat)
  | [] => return []
  | (requestId, seqId) :: rest => do
    if requestId ∈ finishedRequestsIds then
      assignBatch finishedRequestsIds (destIndex + 1) rest
    else
      assignSeqId requestId seqId destIndex
      let running ← assignBatch finishedRequestsIds (destIndex + 1) rest
      return destIndex :: running

/-- `_prepare_current_run_mamba_cache`. -/
def prepareCurrentRun (requestIdsToSeqIds : Dict R (List Q)) (finishedRequestsIds : List R) :
    EStateM Err (MambaCacheManager R Q S) Unit := do
  let batch := flatten requestIdsToSeqIds
  let running ← assignBatch finishedRequestsIds 0 batch
  cleanUpFirstBsBlocks batch.length running

/-- One request of `_release_finished_requests`. -/
def releaseRequest (reqId : R) : EStateM Err (MambaCacheManager R Q S) Unit := do
  let m ← get
  match m.mapping.get? reqId with
  | none => pure ()
  | some seqMapping =>
    set { m with mapping := m.mapping.erase reqId }
    forM seqMapping.values zeroSlot

/-- `_release_finished_requests`. -/
def releaseFinishedRequests (finishedReqIds : List R) :
    EStateM Err (MambaCacheManager R Q S) Unit :=
  forM finishedReqIds releaseRequest

/-- `current_run_tensors`, outside CUDA graph capture. -/
def currentRunTensors (requestIdsToSeqIds : Dict R (List Q)) (finishedRequestsIds : List R) :
    EStateM Err (MambaCacheManager R Q S) Unit := do
  releaseFinishedRequests finishedRequestsIds
  prepareCurrentRun requestIdsToSeqIds finishedRequestsIds

end MambaCacheManager

end Bi100
