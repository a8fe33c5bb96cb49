import Bi100.Block.Table
import Bi100.Sequence

/-!
# The block manager (`block_manager_v2.py`)

The cache namespaces of a request (`_get_cache_namespace`) are computed in `Namespace/Cache.lean`;
here they are arguments. `_computed_blocks_tracker`, which tracks the same sequences as
`_last_access_blocks_tracker`, is in `Block/Tracker.lean`: no block depends on what it remembers.
-/

namespace Bi100

open Py
open PrefixCachingBlockAllocator (assertion)

structure BlockSpaceManager (H : Type) where
  blockSize : Nat
  numTotalGpuBlocks : Nat
  maxBlockSlidingWindow : Option Nat
  enableCaching : Bool
  /-- `int(watermark * num_gpu_blocks)` -/
  watermarkBlocks : Nat
  blockAllocator : CpuGpuBlockAllocator H
  blockTables : Dict Nat BlockTable
  crossBlockTables : Dict String BlockTable
  /-- `_last_access_blocks_tracker` -/
  seqLastAccess : Dict Nat (Option Int)

inductive AllocStatus where
  | ok
  | later
  | never
deriving DecidableEq, Repr

abbrev ManagerM (H : Type) := EStateM Err (BlockSpaceManager H)

/-- A fresh allocator of a device, with the policy that the environment sets. -/
def AllocState.init {H : Type} (device : Device) (blockSize : Nat) (blockIds : List Nat)
    (policy : EvictionPolicy) (contentCache : Option (CpuKvContentCache H)) (recursionLimit : Nat) :
    AllocState H :=
  { PrefixCachingBlockAllocator.init device blockSize blockIds policy with
    heap := fun _ => .blank
    contentCache := contentCache
    recursionLimit := recursionLimit
    guests := ∅ }

/-- `__init__`, and `CpuGpuBlockAllocator.create`. -/
def BlockSpaceManager.init (H : Type) (blockSize numGpuBlocks numCpuBlocks watermarkBlocks : Nat)
    (slidingWindow : Option Nat) (enableCaching : Bool) (policy : EvictionPolicy)
    (contentOffload : Bool) (recursionLimit : Nat) : BlockSpaceManager H where
  blockSize := blockSize
  numTotalGpuBlocks := numGpuBlocks
  maxBlockSlidingWindow := slidingWindow.map fun window => window / blockSize + 1 + 1
  enableCaching := enableCaching
  watermarkBlocks := watermarkBlocks
  blockAllocator :=
    { enableCaching := enableCaching
      gpu := .init .gpu blockSize (List.range numGpuBlocks) policy
        (if contentOffload then some (.fresh numCpuBlocks) else none) recursionLimit
      cpu := .init .cpu blockSize (List.range' numGpuBlocks numCpuBlocks) policy none recursionLimit
      nullBlock := none }
  blockTables := ∅
  crossBlockTables := ∅
  seqLastAccess := ∅

namespace BlockSpaceManager

variable {H : Type}

/-- Call the block allocator. -/
def onAllocator {α : Type} (x : DeviceM H α) : ManagerM H α := fun m =>
  match x.run m.blockAllocator with
  | .ok a d => .ok a { m with blockAllocator := d }
  | .error e d => .error e { m with blockAllocator := d }

/-- `self.block_tables[seq_id]` -/
def getBlockTable (seqId : Nat) : ManagerM H BlockTable := do
  getOrRaise ((← get).blockTables.get? seqId) .keyError

def setBlockTable (seqId : Nat) (t : BlockTable) : ManagerM H Unit :=
  modify fun m => { m with blockTables := m.blockTables.set seqId t }

/-- `LastAccessBlocksTracker.add_seq` -/
def trackSeq (seqId : Nat) : ManagerM H Unit := do
  let m ← get
  raiseIf (seqId ∈ m.seqLastAccess) assertion
  set { m with seqLastAccess := m.seqLastAccess.set seqId none }

variable [DecidableEq H] [Sha256 H]

/-- `get_num_free_gpu_blocks` -/
def getNumFreeGpuBlocks (m : BlockSpaceManager H) : Nat :=
  m.blockAllocator.methods.getNumFreeBlocks m.blockAllocator.gpu

/-! ## Allocation -/

omit [DecidableEq H] [Sha256 H] in
/-- `check_no_caching_or_swa_for_blockmgr_encdec` -/
def checkNoCachingOrSwa (m : BlockSpaceManager H) (g : SequenceGroup) : Except Err Unit :=
  if g.encoderSeq.isSome then do
    guardNot (m.maxBlockSlidingWindow.isSome = true)
      (.notImplementedError
        "Sliding window attention for encoder/decoder models is not currently supported.")
    guardNot (m.enableCaching = true)
      (.notImplementedError
        "Prefix caching for encoder/decoder models is not currently supported.")
  else pure ()

omit [DecidableEq H] [Sha256 H] in
/-- The blocks that a group is said to require in `can_allocate`: those of its first waiting
sequence, and of its encoder sequence. -/
def getNumRequiredBlocks (m : BlockSpaceManager H) (g : SequenceGroup) (seq : Sequence)
    (numLookaheadSlots : Nat) : Nat :=
  BlockTable.getNumRequiredBlocks seq.data.getTokenIds m.blockSize numLookaheadSlots +
    match g.encoderSeq with
    | none => 0
    | some encoderSeq => BlockTable.getNumRequiredBlocks encoderSeq.data.getTokenIds m.blockSize 0

/-- `can_allocate` -/
def canAllocate (m : BlockSpaceManager H) (g : SequenceGroup) (numLookaheadSlots : Nat) :
    Except Err AllocStatus := do
  m.checkNoCachingOrSwa g
  match g.getSeqs .waiting with
  | [] => throw (.indexError "list index out of range")
  | seq :: _ =>
    let required := m.getNumRequiredBlocks g seq numLookaheadSlots
    let required :=
      match m.maxBlockSlidingWindow with
      | none => required
      | some window => min required window
    if (m.numTotalGpuBlocks : Int) - required < m.watermarkBlocks then pure .never
    else if (m.watermarkBlocks : Int) ≤ m.getNumFreeGpuBlocks - required then pure .ok
    else pure .later

/-- `_allocate_sequence` -/
def allocateSequence (seq : Sequence) (cacheNamespace : Bytes) : ManagerM H BlockTable := do
  let m ← get
  let t : BlockTable := {
    blockSize := m.blockSize
    blocks := []
    blockIds := []
    numFullSlots := 0
    maxBlockSlidingWindow := m.maxBlockSlidingWindow
    cacheNamespace := cacheNamespace }
  if seq.data.getTokenIds = [] then pure t else onAllocator (t.allocate seq.data.getTokenIds)

/-- The loop of `allocate` over the other waiting sequences, which share the blocks. -/
def forkTables (t : BlockTable) : List Sequence → ManagerM H Unit
  | [] => pure ()
  | seq :: rest => do
    let forked ← onAllocator t.fork
    setBlockTable seq.seqId forked
    trackSeq seq.seqId
    forkTables t rest

/-- The end of `allocate`: the cross-attention blocks of an encoder sequence. -/
def allocateCross (g : SequenceGroup) (encoderCacheNamespace : Bytes) : ManagerM H Unit := do
  let m ← get
  raiseIf (g.requestId ∈ m.crossBlockTables) (.assertionError "block table already exists")
  lift (m.checkNoCachingOrSwa g)
  match g.encoderSeq with
  | none => pure ()
  | some encoderSeq =>
    let t ← allocateSequence encoderSeq encoderCacheNamespace
    modify fun m => { m with crossBlockTables := m.crossBlockTables.set g.requestId t }

/-- `allocate` -/
def allocate (g : SequenceGroup) (cacheNamespace encoderCacheNamespace : Bytes) :
    ManagerM H Unit := do
  let m ← get
  raiseIf (∃ seq ∈ g.getSeqs .waiting, seq.seqId ∈ m.blockTables)
    (.assertionError "block table already exists")
  match g.getSeqs .waiting with
  | [] => throw (.indexError "list index out of range")
  | seq :: rest =>
    let t ← allocateSequence seq cacheNamespace
    setBlockTable seq.seqId t
    trackSeq seq.seqId
    forkTables t rest
    allocateCross g encoderCacheNamespace

/-! ## Appending -/

omit [DecidableEq H] [Sha256 H] in
/-- The blocks that appending to a sequence is said to touch. -/
def numBlocksTouched (m : BlockSpaceManager H) (numLookaheadSlots : Nat) (seq : Sequence) :
    Except Err Int :=
  match m.blockTables.get? seq.seqId with
  | none => throw .keyError
  | some t => pure (t.getNumBlocksTouchedByAppendSlots (t.getUnseenTokenIds seq.data.getTokenIds)
      numLookaheadSlots)

/-- `can_append_slots` -/
def canAppendSlots (m : BlockSpaceManager H) (g : SequenceGroup) (numLookaheadSlots : Nat) :
    Except Err Bool := do
  let touched ← (g.getSeqs .running).mapM (m.numBlocksTouched numLookaheadSlots)
  pure (touched.sum ≤ m.getNumFreeGpuBlocks)

/-- `append_slots` -/
def appendSlots (seq : Sequence) (numLookaheadSlots : Nat) : ManagerM H (List (Nat × Nat)) := do
  let t ← getBlockTable seq.seqId
  let t ← onAllocator (t.appendTokenIds (t.getUnseenTokenIds seq.data.getTokenIds)
    numLookaheadSlots seq.data.numComputedTokens)
  setBlockTable seq.seqId t
  onAllocator (CpuGpuBlockAllocator.onGpu fun _ => PrefixCachingBlockAllocator.clearCopyOnWrites)

/-! ## Forking, freeing and swapping -/

/-- `fork` -/
def fork (parentSeq childSeq : Sequence) : ManagerM H Unit := do
  match (← get).blockTables.get? parentSeq.seqId with
  | none => pure ()
  | some t =>
    let forked ← onAllocator t.fork
    setBlockTable childSeq.seqId forked
    trackSeq childSeq.seqId

/-- `free` -/
def free (seq : Sequence) : ManagerM H Unit := do
  let m ← get
  match m.blockTables.get? seq.seqId with
  | none => pure ()
  | some t =>
    let lastAccess ← getOrRaise (m.seqLastAccess.get? seq.seqId) assertion
    match lastAccess with
    | none => pure ()
    | some time => onAllocator (CpuGpuBlockAllocator.onGpu fun a =>
        a.markBlocksAsAccessed t.blockIds time)
    modify fun m => { m with seqLastAccess := m.seqLastAccess.erase seq.seqId }
    onAllocator t.free
    modify fun m => { m with blockTables := m.blockTables.erase seq.seqId }

/-- `free_cross` -/
def freeCross (g : SequenceGroup) : ManagerM H Unit := do
  match (← get).crossBlockTables.get? g.requestId with
  | none => pure ()
  | some t =>
    onAllocator t.free
    modify fun m => { m with crossBlockTables := m.crossBlockTables.erase g.requestId }

/-- The loop of `swap_out` and `swap_in`: each table gets its new ids. -/
def swapTables (swap : List Ref → DeviceM H (Dict Nat Nat)) : List Sequence →
    ManagerM H (List (Nat × Nat))
  | [] => pure []
  | seq :: rest => do
    let t ← getBlockTable seq.seqId
    if t.blocks = [] then swapTables swap rest else
      let mapping ← onAllocator (swap t.blocks)
      let blockIds ← onAllocator (CpuGpuBlockAllocator.getBlockIds t.blocks)
      setBlockTable seq.seqId { t with blockIds := blockIds }
      let mappings ← swapTables swap rest
      pure (mapping.entries ++ mappings)

/-- `swap_out`; the source numbers the ids of each device from 0. -/
def swapOut (g : SequenceGroup) : ManagerM H (List (Nat × Nat)) :=
  swapTables CpuGpuBlockAllocator.swapOut (g.getSeqs .running)

/-- `swap_in` -/
def swapIn (g : SequenceGroup) : ManagerM H (List (Nat × Nat)) :=
  swapTables CpuGpuBlockAllocator.swapIn (g.getSeqs .swapped)

/-! ## Marks -/

omit [DecidableEq H] [Sha256 H] in
/-- `access_all_blocks_in_seq` -/
def accessAllBlocksInSeq (seq : Sequence) (now : Int) : ManagerM H Unit := do
  let m ← get
  if m.enableCaching then
    raiseUnless (seq.seqId ∈ m.seqLastAccess) assertion
    set { m with seqLastAccess := m.seqLastAccess.set seq.seqId (some now) }
  else pure ()

/-- `mark_blocks_as_computed` -/
def markBlocksAsComputed : ManagerM H Unit :=
  onAllocator (CpuGpuBlockAllocator.onGpu fun a => a.markBlocksAsComputed)

end BlockSpaceManager

end Bi100
