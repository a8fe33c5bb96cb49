import Bi100.Block.Allocator

/-!
# The allocators of block ids (`naive_block.py`, `interfaces.py`)

`NaiveBlockAllocator` does without prefix caching. Its state is a part of that of the prefix-caching
allocator: the free list, the reference counts, the pool and the copies on write. A `NaiveBlock` has
predecessor, tokens and id; the other fields of the block record mean nothing here.

`BlockAllocator` has the methods that block tables use. Both allocators have them.
-/

namespace Bi100

open Py

namespace NaiveBlockAllocator

open PrefixCachingBlockAllocator (assertion getBlockId setBlockId refIncr refGet poolInit poolFree)

variable {H : Type}

/-- `_allocate_block_id` -/
def allocateBlockId : AllocM H Nat := do
  let s ← get
  match s.freeBlockIndices with
  | [] => throw .noFreeBlocksError
  | blockId :: rest =>
    set { s with freeBlockIndices := rest }
    let _ ← refIncr blockId
    pure blockId

/-- `_free_block_id` -/
def freeBlockId (r : Ref) : AllocM H Unit := PrefixCachingBlockAllocator.hashlessFree r

/-- `free` -/
def free (r : Ref) : AllocM H Unit := do
  freeBlockId r
  poolFree r

/-- `cow_block_if_not_appendable` -/
def cowBlockIfNotAppendable (r : Ref) : AllocM H Nat := do
  let srcBlockId ← getBlockId r
  let refcount ← refGet srcBlockId
  if refcount ≤ 1 then pure srcBlockId else
    freeBlockId r
    let trgBlockId ← allocateBlockId
    modify fun s => { s with copyOnWrites := s.copyOnWrites ++ [(srcBlockId, trgBlockId)] }
    pure trgBlockId

/-- `NaiveBlock.append_token_ids` -/
def appendTokenIds (r : Ref) (tokenIds : List Nat) : AllocM H Unit := do
  let s ← get
  raiseUnless (tokenIds.length ≤ s.blockSize - (s.heap r).tokenIds.length) assertion
  set (s.updateBlock r fun b => { b with tokenIds := b.tokenIds ++ tokenIds })
  match (s.heap r).blockId with
  | none => pure ()
  | some _ =>
    let blockId ← cowBlockIfNotAppendable r
    setBlockId r (some blockId)

/-- `allocate_mutable_block` -/
def allocateMutableBlock (prevBlock : Option Ref) : AllocM H Ref := do
  let blockId ← allocateBlockId
  poolInit prevBlock [] (some blockId)

/-- `allocate_immutable_block` -/
def allocateImmutableBlock (prevBlock : Option Ref) (tokenIds : List Nat) : AllocM H Ref := do
  let r ← allocateMutableBlock prevBlock
  appendTokenIds r tokenIds
  pure r

/-- The first loop of `allocate_immutable_blocks`. -/
def allocateBlockIds : Nat → AllocM H (List Nat)
  | 0 => pure []
  | n + 1 => do
    let blockId ← allocateBlockId
    let blockIds ← allocateBlockIds n
    pure (blockId :: blockIds)

/-- The second loop. -/
def initBlocks : Option Ref → List (List Nat × Nat) → AllocM H (List Ref)
  | _, [] => pure []
  | prevBlock, (tokenIds, blockId) :: rest => do
    let r ← poolInit prevBlock tokenIds (some blockId)
    let blocks ← initBlocks (some r) rest
    pure (r :: blocks)

/-- `allocate_immutable_blocks` -/
def allocateImmutableBlocks (prevBlock : Option Ref) (blockTokenIds : List (List Nat)) :
    AllocM H (List Ref) := do
  let blockIds ← allocateBlockIds blockTokenIds.length
  initBlocks prevBlock (blockTokenIds.zip blockIds)

/-- The loop of `fork`. -/
def forkBlocks : Option Ref → List Ref → AllocM H (List Ref)
  | _, [] => pure []
  | prevBlock, r :: rest => do
    let blockId ← getBlockId r
    let refcount ← refIncr blockId
    raiseIf (refcount = 1) (.assertionError "can't fork free'd block")
    let forked ← poolInit prevBlock ((← get).heap r).tokenIds (some blockId)
    let blocks ← forkBlocks (some forked) rest
    pure (forked :: blocks)

/-- `fork` -/
def fork (lastBlock : Ref) : AllocM H (List Ref) := do
  let s ← get
  let sourceBlocks ← lift
    (PrefixCachingBlockAllocator.getAllBlocksRecursively s.heap s.recursionLimit lastBlock)
  forkBlocks none sourceBlocks

/-- `swap_out` -/
def swapOut (blocks : List Ref) : AllocM H Unit := forM blocks freeBlockId

/-- One iteration of `swap_in`. -/
def swapInBlock (r : Ref) : AllocM H Unit := do
  let s ← get
  let b := s.heap r
  let tmp ←
    if s.isFull r then allocateImmutableBlock b.prevBlock b.tokenIds
    else do
      let tmp ← allocateMutableBlock b.prevBlock
      appendTokenIds tmp b.tokenIds
      pure tmp
  let blockId := ((← get).heap tmp).blockId
  setBlockId tmp none
  poolFree tmp
  setBlockId r blockId

/-- `swap_in` -/
def swapIn (blocks : List Ref) : AllocM H Unit := forM blocks swapInBlock

end NaiveBlockAllocator

/-- The methods of a device's allocator. -/
structure BlockAllocator (H : Type) where
  allocateMutableBlock : Option Ref → Bytes → AllocM H Ref
  allocateImmutableBlocks : Bytes → Option Ref → List (List Nat) → AllocM H (List Ref)
  /-- `Block.append_token_ids` -/
  appendTokenIds : Ref → List Nat → AllocM H Unit
  fork : Ref → AllocM H (List Ref)
  free : Ref → AllocM H Unit
  swapOut : List Ref → AllocM H Unit
  swapIn : List Ref → AllocM H Unit
  markBlocksAsAccessed : List Nat → Int → AllocM H Unit
  markBlocksAsComputed : AllocM H Unit
  getNumFreeBlocks : AllocState H → Nat

variable {H : Type}

/-- Without prefix caching the cache namespace does not matter, and marks do nothing. -/
def NaiveBlockAllocator.methods : BlockAllocator H where
  allocateMutableBlock prevBlock _ := allocateMutableBlock prevBlock
  allocateImmutableBlocks _ := allocateImmutableBlocks
  appendTokenIds := appendTokenIds
  fork := fork
  free := free
  swapOut := swapOut
  swapIn := swapIn
  markBlocksAsAccessed _ _ := pure ()
  markBlocksAsComputed := pure ()
  getNumFreeBlocks s := s.freeBlockIndices.length

def PrefixCachingBlockAllocator.methods [DecidableEq H] [Sha256 H] : BlockAllocator H where
  allocateMutableBlock := allocateMutableBlock
  allocateImmutableBlocks := allocateImmutableBlocks
  appendTokenIds := appendTokenIds
  fork := fork
  free := free
  swapOut := swapOut
  swapIn := swapIn
  markBlocksAsAccessed := markBlocksAsAccessed
  markBlocksAsComputed := markBlocksAsComputed
  getNumFreeBlocks := getNumFreeBlocks

end Bi100
