import Bi100.Block.Naive

/-!
# Block tables (`cpu_gpu_block_allocator.py`, `block_table.py`)

In the source the two devices share the block objects, and a block has one id, that of the device it
is on. In the model each allocator has a copy of the blocks it was given, and the id of a block is
in the copy of the allocator whose id it is. The copies go along when blocks are swapped.
-/

namespace Bi100

open Py
open PrefixCachingBlockAllocator (assertion)

/-- `chunk_list` -/
def chunkList {α : Type} (lst : List α) (chunkSize : Nat) : List (List α) :=
  (List.range ((lst.length + chunkSize - 1) / chunkSize)).map fun i =>
    (lst.drop (i * chunkSize)).take chunkSize

/-- `cdiv` -/
def cdiv (a b : Nat) : Nat := (a + b - 1) / b

structure CpuGpuBlockAllocator (H : Type) where
  /-- `allocator_type == "prefix_caching"` -/
  enableCaching : Bool
  gpu : AllocState H
  cpu : AllocState H
  /-- The block that a `NullBlock` wraps. -/
  nullBlock : Option Ref

abbrev DeviceM (H : Type) := EStateM Err (CpuGpuBlockAllocator H)

structure BlockTable where
  blockSize : Nat
  blocks : List Ref
  /-- The ids that `BlockList` keeps of its blocks. -/
  blockIds : List Nat
  numFullSlots : Nat
  maxBlockSlidingWindow : Option Nat
  cacheNamespace : Bytes
deriving DecidableEq, Repr

variable {H : Type} [DecidableEq H] [Sha256 H]

namespace CpuGpuBlockAllocator

def methods (d : CpuGpuBlockAllocator H) : BlockAllocator H :=
  if d.enableCaching then PrefixCachingBlockAllocator.methods else NaiveBlockAllocator.methods

/-- Call the allocator of the GPU. -/
def onGpu {α : Type} (x : BlockAllocator H → AllocM H α) : DeviceM H α := fun d =>
  match (x d.methods).run d.gpu with
  | .ok a s => .ok a { d with gpu := s }
  | .error e s => .error e { d with gpu := s }

/-- Call the allocator of the CPU. -/
def onCpu {α : Type} (x : BlockAllocator H → AllocM H α) : DeviceM H α := fun d =>
  match (x d.methods).run d.cpu with
  | .ok a s => .ok a { d with cpu := s }
  | .error e s => .error e { d with cpu := s }

omit [DecidableEq H] [Sha256 H] in
/-- `content_offload_enabled` -/
def contentOffloadEnabled (d : CpuGpuBlockAllocator H) : Bool := d.gpu.contentCache.isSome

omit [DecidableEq H] [Sha256 H] in
/-- A block as the device has it that it is on. -/
def block (d : CpuGpuBlockAllocator H) (r : Ref) : PrefixCachingBlock H :=
  if (d.gpu.heap r).blockId.isSome then d.gpu.heap r else d.cpu.heap r

omit [DecidableEq H] [Sha256 H] in
/-- `block.block_id` of some blocks. -/
def getBlockIds (blocks : List Ref) : DeviceM H (List Nat) := do
  let d ← get
  getOrRaise (blocks.mapM fun r => (d.block r).blockId) assertion

/-- `allocate_or_get_null_block` -/
def allocateOrGetNullBlock : DeviceM H Ref := do
  match (← get).nullBlock with
  | some r => pure r
  | none =>
    let r ← onGpu fun a => a.allocateMutableBlock none []
    modify fun d => { d with nullBlock := some r }
    pure r

/-- `free` -/
def free (r : Ref) : DeviceM H Unit := do
  let d ← get
  if d.nullBlock = some r then pure ()
  else if (d.gpu.heap r).blockId.isSome then onGpu fun a => a.free r
  else
    raiseIf ((d.cpu.heap r).blockId = none) assertion
    onCpu fun a => a.free r

/-- `fork` -/
def fork (lastBlock : Ref) : DeviceM H (List Ref) := do
  let d ← get
  raiseIf (d.nullBlock = some lastBlock) assertion
  if (d.gpu.heap lastBlock).blockId.isSome then onGpu fun a => a.fork lastBlock
  else
    raiseIf ((d.cpu.heap lastBlock).blockId = none) assertion
    onCpu fun a => a.fork lastBlock

/-- The ids of swapped blocks, and their new ids. -/
def swapMapping (srcBlockIds dstBlockIds : List Nat) : Dict Nat Nat :=
  (srcBlockIds.zip dstBlockIds).foldl (fun d p => d.set p.1 p.2) ∅

def swapRefused : Err := .runtimeError
  "request-level preemption swap cannot share CPU slots with BI100_CPU_KV_OFFLOAD"

/-- `swap` from the GPU to the CPU. -/
def swapOut (blocks : List Ref) : DeviceM H (Dict Nat Nat) := do
  raiseIf ((← get).contentOffloadEnabled = true) swapRefused
  let srcBlockIds ← getBlockIds blocks
  onGpu fun a => a.swapOut blocks
  modify fun d => { d with cpu := { d.cpu with
    guests := d.cpu.guests ∪ blocks.toFinset
    heap := fun r => if r ∈ blocks then d.gpu.heap r else d.cpu.heap r } }
  onCpu fun a => a.swapIn blocks
  let dstBlockIds ← getBlockIds blocks
  pure (swapMapping srcBlockIds dstBlockIds)

/-- `swap` from the CPU to the GPU. The allocator of the CPU does not know the id of a block that is
on the GPU. -/
def swapIn (blocks : List Ref) : DeviceM H (Dict Nat Nat) := do
  let d ← get
  raiseIf (d.contentOffloadEnabled = true) swapRefused
  let srcBlockIds ← getBlockIds blocks
  raiseIf (∃ r ∈ blocks, (d.gpu.heap r).blockId.isSome = true) assertion
  onCpu fun a => a.swapOut blocks
  modify fun d => { d with cpu := { d.cpu with guests := d.cpu.guests \ blocks.toFinset } }
  onGpu fun a => a.swapIn blocks
  let dstBlockIds ← getBlockIds blocks
  pure (swapMapping srcBlockIds dstBlockIds)

end CpuGpuBlockAllocator

namespace BlockTable

open CpuGpuBlockAllocator

/-- `get_num_required_blocks` -/
def getNumRequiredBlocks (tokenIds : List Nat) (blockSize numLookaheadSlots : Nat) : Nat :=
  cdiv (tokenIds.length + numLookaheadSlots) blockSize

/-- `_allocate_blocks_for_token_ids`, on the GPU and from no previous block. -/
def allocateBlocksForTokenIds (t : BlockTable) (tokenIds : List Nat) : DeviceM H (List Ref) := do
  let chunks := chunkList tokenIds t.blockSize
  let blockTokenIds := chunks.filter (·.length = t.blockSize)
  let tailTokenIds := chunks.filter (·.length ≠ t.blockSize)
  let blocks ←
    if blockTokenIds = [] then pure []
    else onGpu fun a => a.allocateImmutableBlocks t.cacheNamespace none blockTokenIds
  match tailTokenIds with
  | [] => pure blocks
  | curTokenIds :: rest =>
    raiseUnless (rest = []) assertion
    let r ← onGpu fun a => a.allocateMutableBlock blocks.getLast? t.cacheNamespace
    onGpu fun a => a.appendTokenIds r curTokenIds
    pure (blocks ++ [r])

/-- `allocate` -/
def allocate (t : BlockTable) (tokenIds : List Nat) : DeviceM H BlockTable := do
  raiseUnless (t.blocks = []) assertion
  raiseUnless (tokenIds ≠ []) assertion
  let blocks ← t.allocateBlocksForTokenIds tokenIds
  let blockIds ← getBlockIds blocks
  pure { t with blocks := blocks, blockIds := blockIds, numFullSlots := tokenIds.length }

/-- The blocks before a sliding window are replaced by the null block. -/
def dropBlocks (nullBlock : Ref) : List Nat → BlockTable → DeviceM H BlockTable
  | [], t => pure t
  | idx :: rest, t => do
    let r ← getOrRaise t.blocks[idx]? (.indexError "list index out of range")
    if r = nullBlock then dropBlocks nullBlock rest t else
      CpuGpuBlockAllocator.free r
      let blockIds ← getBlockIds [nullBlock]
      dropBlocks nullBlock rest { t with
        blocks := t.blocks.set idx nullBlock
        blockIds := t.blockIds.set idx (blockIds.headD 0) }

/-- The loop of `ensure_num_empty_slots`. -/
def addBlocks : Nat → BlockTable → DeviceM H BlockTable
  | 0, t => pure t
  | n + 1, t => do
    let last ← getOrRaise t.blocks.getLast? assertion
    let r ← onGpu fun a => a.allocateMutableBlock (some last) []
    let blockIds ← getBlockIds [r]
    addBlocks n { t with blocks := t.blocks ++ [r], blockIds := t.blockIds ++ blockIds }

/-- `ensure_num_empty_slots` -/
def ensureNumEmptySlots (t : BlockTable) (numEmptySlots : Nat) : DeviceM H BlockTable := do
  raiseUnless (t.blocks ≠ []) assertion
  if t.numFullSlots + numEmptySlots ≤ t.blocks.length * t.blockSize then pure t else
    let slotsToAllocate := t.numFullSlots + numEmptySlots - t.blocks.length * t.blockSize
    addBlocks (cdiv slotsToAllocate t.blockSize) t

/-- `_chunk_token_blocks_for_append` -/
def chunkTokenBlocksForAppend (t : BlockTable) (tokenIds : List Nat) : List (List Nat) :=
  if tokenIds = [] then [] else
    let firstChunkSize := t.blockSize - t.numFullSlots % t.blockSize
    tokenIds.take firstChunkSize :: chunkList (tokenIds.drop firstChunkSize) t.blockSize

/-- The loop over the token blocks in `append_token_ids`. The allocator of the GPU does not know
the id of a block that is on the CPU. -/
def appendTokenBlocks : Nat → List (List Nat) → BlockTable → DeviceM H BlockTable
  | _, [], t => pure t
  | blockIdx, tokenBlock :: rest, t => do
    let d ← get
    let r ← getOrRaise t.blocks[blockIdx]? (.indexError "list index out of range")
    raiseIf (d.nullBlock = some r) (.valueError "null block should not be modified")
    raiseIf ((d.gpu.heap r).blockId = none) assertion
    onGpu fun a => a.appendTokenIds r tokenBlock
    let blockIds ← getBlockIds [r]
    appendTokenBlocks (blockIdx + 1) rest { t with
      blockIds := t.blockIds.set blockIdx (blockIds.headD 0) }

/-- `append_token_ids` -/
def appendTokenIds (t : BlockTable) (tokenIds : List Nat) (numLookaheadSlots numComputedSlots : Nat) :
    DeviceM H BlockTable := do
  raiseUnless (t.blocks ≠ []) assertion
  let t ← match t.maxBlockSlidingWindow with
    | none => pure t
    | some window =>
      let nullBlock ← allocateOrGetNullBlock
      dropBlocks nullBlock (List.range (numComputedSlots / t.blockSize - window)) t
  let t ← t.ensureNumEmptySlots (tokenIds.length + numLookaheadSlots)
  let t ← appendTokenBlocks (t.numFullSlots / t.blockSize) (t.chunkTokenBlocksForAppend tokenIds) t
  pure { t with numFullSlots := t.numFullSlots + tokenIds.length }

/-- `fork` -/
def fork (t : BlockTable) : DeviceM H BlockTable := do
  let last ← getOrRaise t.blocks.getLast? assertion
  let blocks ← CpuGpuBlockAllocator.fork last
  let blockIds ← getBlockIds blocks
  let d ← get
  pure { t with
    blocks := blocks
    blockIds := blockIds
    numFullSlots := (blocks.map fun r => (d.block r).tokenIds.length).sum }

/-- `free` -/
def free (t : BlockTable) : DeviceM H Unit := forM t.blocks CpuGpuBlockAllocator.free

/-- `get_unseen_token_ids` -/
def getUnseenTokenIds (t : BlockTable) (sequenceTokenIds : List Nat) : List Nat :=
  sequenceTokenIds.drop t.numFullSlots

/-- `get_num_blocks_touched_by_append_slots` -/
def getNumBlocksTouchedByAppendSlots (t : BlockTable) (tokenIds : List Nat)
    (numLookaheadSlots : Nat) : Int :=
  let numTokenIds : Int := tokenIds.length + numLookaheadSlots
  let firstChunkSize : Int := t.blockSize - t.numFullSlots % t.blockSize
  1 + -(-(numTokenIds - firstChunkSize) / t.blockSize)

end BlockTable

end Bi100
