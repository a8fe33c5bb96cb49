import Bi100.Block.Evictor
import Bi100.CpuKv.Cache
import Bi100.Lib.Action
import Mathlib.Algebra.Order.Ring.Int

/-!
# The prefix-caching block allocator (`prefix_caching_block.py`)

Blocks are pooled objects that several sequences refer to, so the model has a heap of them: a
`Ref` is the pool of a device and an index into it, and an object stays in the heap, with its
content, when it goes back to the free list of its pool. A `PrefixCachingBlock` and the
`NaiveBlock` inside it are one record. `NaiveBlockAllocator` (`naive_block.py`), `RefCounter`,
`CopyOnWriteTracker` and `BlockPool` (`common.py`) are part of the state.

The digest is a parameter (`Sha256`). Token ids fit 64 bits (`SequenceData` keeps them in an array
of type `l`), so packing them cannot fail. The hit-rate metric is left out.
-/

namespace Bi100

open Py

inductive Device where
  | gpu
  | cpu
deriving DecidableEq, Repr

/-- A block object. -/
structure Ref where
  pool : Device
  /-- `pool_id` -/
  poolId : Nat
deriving DecidableEq, Repr

/-- SHA-256 digests. -/
class Sha256 (H : Type) where
  digest : Bytes → H
  bytes : H → Bytes

/-- `b"vllm-prefix-cache-v2"` -/
def prefixCacheTag : Bytes :=
  [118, 108, 108, 109, 45, 112, 114, 101, 102, 105, 120, 45, 99, 97, 99, 104, 101, 45, 118, 50]

/-- `struct.pack("!q", token_id)` -/
def packToken (tokenId : Nat) : Bytes :=
  [7, 6, 5, 4, 3, 2, 1, 0].map fun i => UInt8.ofNat (tokenId / 256 ^ i)

/-- `hash_block_tokens`; `prevBlockHash` is `none` for a first block. -/
def hashBlockTokens {H : Type} [Sha256 H] (prevBlockHash : Option H)
    (curBlockTokenIds : List Nat) (cacheNamespace : Bytes) : H :=
  let head :=
    match prevBlockHash with
    | none => cacheNamespace
    | some h => Sha256.bytes h
  Sha256.digest (prefixCacheTag ++ head ++ curBlockTokenIds.flatMap packToken)

structure PrefixCachingBlock (H : Type) where
  prevBlock : Option Ref
  tokenIds : List Nat
  blockId : Option Nat
  cacheNamespace : Bytes
  cachedContentHash : Option H
  numTokensTotal : Nat
  computed : Bool

structure BlockTracker where
  active : Bool
  lastAccessed : Int
  computed : Bool
deriving DecidableEq, Repr

/-- `_DEFAULT_LAST_ACCESSED_TIME` -/
def defaultLastAccessedTime : Int := -1

structure PrefixCachingBlockAllocator (H : Type) where
  device : Device
  blockSize : Nat
  allBlockIds : List Nat
  /-- The size of the block pool and the deque of its free objects. -/
  poolSize : Nat
  poolFreeIds : List Nat
  /-- `_free_block_indices` of the hashless allocator, a deque. -/
  freeBlockIndices : List Nat
  refcounts : Nat → Nat
  cachedBlocks : Dict H Nat
  touchedBlocks : Finset Nat
  blockTracker : Nat → BlockTracker
  evictor : Evictor H
  copyOnWrites : List (Nat × Nat)

/-- What the methods read and write: the allocator, the block objects, and the CPU tier behind the
external cache callbacks, if they are set. -/
structure AllocState (H : Type) extends PrefixCachingBlockAllocator H where
  heap : Ref → PrefixCachingBlock H
  contentCache : Option (CpuKvContentCache H)
  /-- How deep a recursion over a chain of blocks may go. -/
  recursionLimit : Nat
  /-- Block objects of another allocator's pool that may be handed to this one, to be swapped in.
  No method reads it. -/
  guests : Finset Ref

abbrev AllocM (H : Type) := EStateM Err (AllocState H)

variable {H : Type}

/-- A block object that no block was made of. -/
def PrefixCachingBlock.blank : PrefixCachingBlock H := ⟨none, [], none, [], none, 0, false⟩

/-- `__init__` -/
def PrefixCachingBlockAllocator.init (device : Device) (blockSize : Nat) (blockIds : List Nat)
    (policy : EvictionPolicy) : PrefixCachingBlockAllocator H where
  device := device
  blockSize := blockSize
  allBlockIds := blockIds
  poolSize := blockIds.length * 4
  poolFreeIds := List.range (blockIds.length * 4)
  freeBlockIndices := blockIds
  refcounts := fun _ => 0
  cachedBlocks := ∅
  touchedBlocks := ∅
  blockTracker := fun _ => ⟨false, defaultLastAccessedTime, false⟩
  evictor := .make policy
  copyOnWrites := []

namespace AllocState

/-- Change a block object. -/
def updateBlock (s : AllocState H) (r : Ref)
    (f : PrefixCachingBlock H → PrefixCachingBlock H) : AllocState H :=
  { s with heap := Function.update s.heap r (f (s.heap r)) }

@[simp] theorem updateBlock_self (s : AllocState H) (r : Ref)
    (f : PrefixCachingBlock H → PrefixCachingBlock H) :
    (s.updateBlock r f).heap r = f (s.heap r) :=
  Function.update_self _ _ _

/-- `is_full` -/
def isFull (s : AllocState H) (r : Ref) : Bool := s.blockSize - (s.heap r).tokenIds.length = 0

end AllocState

namespace PrefixCachingBlockAllocator

def setBlockId (r : Ref) (blockId : Option Nat) : AllocM H Unit :=
  modify fun s => s.updateBlock r fun b => { b with blockId := blockId }

def assertion : Err := .assertionError ""

/-- `assert block.block_id is not None`, and its value. -/
def getBlockId (r : Ref) : AllocM H Nat := do
  getOrRaise ((← get).heap r).blockId assertion

/-! ## Reference counts and trackers -/

/-- `RefCounter.incr` -/
def refIncr (blockId : Nat) : AllocM H Nat := do
  let s ← get
  raiseUnless (blockId ∈ s.allBlockIds) assertion
  set { s with
    refcounts := Function.update s.refcounts blockId (s.refcounts blockId + 1) }
  pure (s.refcounts blockId + 1)

/-- `RefCounter.decr` -/
def refDecr (blockId : Nat) : AllocM H Nat := do
  let s ← get
  raiseUnless (blockId ∈ s.allBlockIds) assertion
  raiseUnless (0 < s.refcounts blockId) assertion
  set { s with
    refcounts := Function.update s.refcounts blockId (s.refcounts blockId - 1) }
  pure (s.refcounts blockId - 1)

/-- `RefCounter.get` -/
def refGet (blockId : Nat) : AllocM H Nat := do
  let s ← get
  raiseUnless (blockId ∈ s.allBlockIds) assertion
  pure (s.refcounts blockId)

/-- `_track_block_id` -/
def trackBlockId (blockId : Nat) (computed : Bool) : AllocM H Unit := do
  let s ← get
  raiseUnless (blockId ∈ s.allBlockIds) .keyError
  raiseIf ((s.blockTracker blockId).active = true) assertion
  set { s with
    blockTracker := Function.update s.blockTracker blockId
      ⟨true, defaultLastAccessedTime, computed⟩ }

/-- `_untrack_block_id` -/
def untrackBlockId (blockId : Nat) : AllocM H Unit := do
  let s ← get
  raiseUnless (blockId ∈ s.allBlockIds) .keyError
  raiseUnless ((s.blockTracker blockId).active = true) assertion
  set { s with
    blockTracker := Function.update s.blockTracker blockId
      ⟨false, defaultLastAccessedTime, false⟩ }

/-! ## Block objects -/

/-- `BlockPool.init_block`; an empty pool doubles its size. -/
def poolInit (prevBlock : Option Ref) (tokenIds : List Nat) (blockId : Option Nat) :
    AllocM H Ref := do
  let s ← get
  let size := if s.poolFreeIds = [] then 2 * s.poolSize else s.poolSize
  let freeIds := if s.poolFreeIds = [] then List.range' s.poolSize s.poolSize else s.poolFreeIds
  let poolId ← getOrRaise freeIds.head? assertion
  raiseUnless (tokenIds.length ≤ s.blockSize) assertion
  set { s with
    poolSize := size
    poolFreeIds := freeIds.tail
    heap := Function.update s.heap ⟨s.device, poolId⟩ {
      prevBlock := prevBlock
      tokenIds := tokenIds
      blockId := blockId
      cacheNamespace := (prevBlock.map fun p => (s.heap p).cacheNamespace).getD []
      cachedContentHash := none
      numTokensTotal := (prevBlock.map fun p => (s.heap p).numTokensTotal).getD 0 + tokenIds.length
      computed := false } }
  pure ⟨s.device, poolId⟩

/-- `BlockPool.free_block` -/
def poolFree (r : Ref) : AllocM H Unit :=
  modify fun s => { s with poolFreeIds := r.poolId :: s.poolFreeIds }

/-- `_init_block`; `none` and `b""` are both the empty namespace. -/
def initBlock (prevBlock : Option Ref) (tokenIds : List Nat) (physicalBlockId : Option Nat)
    (cacheNamespace : Bytes) : AllocM H Ref := do
  let r ← poolInit prevBlock tokenIds physicalBlockId
  let s ← get
  let resolved :=
    if cacheNamespace = [] then (prevBlock.map fun p => (s.heap p).cacheNamespace).getD []
    else cacheNamespace
  raiseIf ((s.heap r).cachedContentHash.isSome = true)
    (.runtimeError "pooled prefix block retained a content hash during init")
  set (s.updateBlock r fun b => { b with cacheNamespace := resolved })
  pure r

section Hashing

variable [Sha256 H]

/-- Remember a computed hash. -/
def cacheContentHash (r : Ref) (h : H) : AllocM H (Option H) := do
  modify fun s => s.updateBlock r fun b => { b with cachedContentHash := some h }
  pure (some h)

/-- `content_hash`, recursive over the chain of predecessors. -/
def contentHashRec : Nat → Ref → AllocM H (Option H)
  | 0, _ => throw .recursionError
  | fuel + 1, r => do
    let s ← get
    let b := s.heap r
    match b.cachedContentHash, s.isFull r, b.prevBlock with
    | some h, _, _ => pure (some h)
    | none, false, _ => pure none
    | none, true, none => cacheContentHash r (hashBlockTokens none b.tokenIds b.cacheNamespace)
    | none, true, some p =>
      match ← contentHashRec fuel p with
      | none => pure none
      | some h => cacheContentHash r (hashBlockTokens (some h) b.tokenIds b.cacheNamespace)

/-- `content_hash` -/
def contentHash (r : Ref) : AllocM H (Option H) := do
  contentHashRec (← get).recursionLimit r

/-- `assert block.content_hash is not None`, and its value. -/
def getContentHash (r : Ref) : AllocM H H := do
  getOrRaise (← contentHash r) assertion

end Hashing

/-! ## The CPU tier -/

/-- A callback of the external cache. -/
def tier {α : Type} (x : EStateM Err (CpuKvContentCache H) α) : AllocM H α := fun s =>
  match s.contentCache with
  | none => .error assertion s
  | some c =>
    match x.run c with
    | .ok a c' => .ok a { s with contentCache := some c' }
    | .error e c' => .error e { s with contentCache := some c' }

/-- `get_physical_block_id`: the index of an id among the sorted ids. -/
def getPhysicalBlockId (absoluteId : Nat) : AllocM H Nat := do
  let s ← get
  raiseUnless (absoluteId ∈ s.allBlockIds) (.valueError s!"{absoluteId} is not in list")
  pure (s.allBlockIds.filter (· < absoluteId)).length

variable [DecidableEq H]

/-- `_stage_gpu_to_cpu` -/
def stageGpuToCpu (h : H) (blockId : Nat) : AllocM H Unit := do
  let gpuSlot ← getPhysicalBlockId blockId
  let _ ← tier (CpuKvContentCache.stageStore h gpuSlot)

/-- `_stage_cpu_to_gpu` -/
def stageCpuToGpu (h : H) (cpuSlot blockId : Nat) : AllocM H Unit := do
  let gpuSlot ← getPhysicalBlockId blockId
  tier (CpuKvContentCache.stageLoad h cpuSlot gpuSlot)

/-! ## Taking block ids -/

/-- `_maybe_allocate_hashless_block_id`. Without a free id the hashless allocator raises before it
changes anything, and the exception is caught. -/
def maybeAllocateHashlessBlockId : AllocM H (Option Nat) := do
  let s ← get
  match s.freeBlockIndices with
  | [] => pure none
  | blockId :: rest =>
    set { s with freeBlockIndices := rest }
    let _ ← refIncr blockId
    let r ← poolInit none [] (some blockId)
    poolFree r
    trackBlockId blockId false
    pure (some blockId)

/-- The victim leaves the cache; the external cache may keep its content. -/
def evictBlock : AllocM H Nat := do
  let s ← get
  let ((blockId, h), evictor) ← lift s.evictor.evict
  set { s with evictor := evictor }
  let cached ← getOrRaise (s.cachedBlocks.get? h) assertion
  let refcount ← refGet cached
  raiseUnless (refcount = 0) assertion
  raiseUnless (cached = blockId) assertion
  if s.contentCache.isSome then stageGpuToCpu h blockId else pure ()
  modify fun s => { s with cachedBlocks := s.cachedBlocks.erase h }
  let _ ← refIncr blockId
  trackBlockId blockId false
  pure blockId

/-- `_maybe_allocate_evicted_block_id` -/
def maybeAllocateEvictedBlockId : AllocM H (Option Nat) := do
  let s ← get
  if s.evictor.numBlocks = 0 then pure none else some <$> evictBlock

/-- `_allocate_block_id` -/
def allocateBlockId : AllocM H Nat := do
  match ← maybeAllocateHashlessBlockId with
  | some blockId => pure blockId
  | none => getOrRaise (← maybeAllocateEvictedBlockId) .noFreeBlocksError

/-! ## Releasing block ids -/

/-- `free` of the hashless allocator, with `keep_block_object=True`. -/
def hashlessFree (r : Ref) : AllocM H Unit := do
  let blockId ← getBlockId r
  let refcount ← refDecr blockId
  modify fun s => if refcount = 0 then
    { s with freeBlockIndices := blockId :: s.freeBlockIndices } else s
  setBlockId r none

/-- `_decr_refcount_hashless_block` -/
def decrRefcountHashlessBlock (r : Ref) : AllocM H Unit := do
  let blockId ← getBlockId r
  let refcount ← refGet blockId
  if refcount = 1 then untrackBlockId blockId else pure ()
  hashlessFree r

/-- A cached block that no sequence uses becomes evictable. -/
def makeEvictable (r : Ref) (h : H) (blockId : Nat) : AllocM H Unit := do
  let s ← get
  raiseUnless (h ∈ s.cachedBlocks) assertion
  let lastAccessed := (s.blockTracker blockId).lastAccessed
  set { s with evictor := s.evictor.add blockId h (s.heap r).numTokensTotal lastAccessed }
  untrackBlockId blockId

section Hashing

variable [Sha256 H]

/-- `_decr_refcount_cached_block` -/
def decrRefcountCachedBlock (r : Ref) : AllocM H Unit := do
  let h ← getContentHash r
  let blockId ← getBlockId r
  let refcount ← refDecr blockId
  if 0 < refcount then pure () else makeEvictable r h blockId
  setBlockId r none

/-- `_free_block_id` -/
def freeBlockId (r : Ref) : AllocM H Unit := do
  let _ ← getBlockId r
  match ← contentHash r with
  | some _ => decrRefcountCachedBlock r
  | none => decrRefcountHashlessBlock r

/-- `free` -/
def free (r : Ref) : AllocM H Unit := do
  freeBlockId r
  poolFree r

/-! ## Using cached blocks -/

omit [Sha256 H] in
/-- `_incr_refcount_cached_block` -/
def incrRefcountCachedBlock (r : Ref) : AllocM H Unit := do
  modify fun s => s.updateBlock r fun b => { b with computed := true }
  let blockId ← getBlockId r
  let refcount ← refIncr blockId
  if refcount = 1 then do
    let s ← get
    let evictor ← lift (if blockId ∈ s.evictor.freeTable then s.evictor.remove blockId
      else pure s.evictor)
    set { s with evictor := evictor }
    trackBlockId blockId true
  else pure ()

/-- `promote_to_immutable_block` -/
def promoteToImmutableBlock (r : Ref) : AllocM H Nat := do
  let h ← getContentHash r
  let blockId ← getBlockId r
  let refcount ← refGet blockId
  raiseUnless (0 < refcount) assertion
  let s ← get
  match s.cachedBlocks.get? h with
  | none =>
    set { s with
      cachedBlocks := s.cachedBlocks.set h blockId
      touchedBlocks := insert blockId s.touchedBlocks }
    pure blockId
  | some cached =>
    decrRefcountHashlessBlock r
    setBlockId r (some cached)
    incrRefcountCachedBlock r
    pure cached

omit [Sha256 H] in
/-- `cow_block_if_not_appendable`. It is called with the `NaiveBlock` inside the block, which has
no content hash, so the shared id is released as a hashless one. -/
def cowBlockIfNotAppendable (r : Ref) : AllocM H Nat := do
  let srcBlockId ← getBlockId r
  let refcount ← refGet srcBlockId
  if refcount ≤ 1 then pure srcBlockId else
    decrRefcountHashlessBlock r
    let trgBlockId ← allocateBlockId
    modify fun s => { s with copyOnWrites := s.copyOnWrites ++ [(srcBlockId, trgBlockId)] }
    pure trgBlockId

omit [Sha256 H] in
/-- `NaiveBlock.append_token_ids` -/
def naiveAppendTokenIds (r : Ref) (tokenIds : List Nat) : AllocM H Unit := do
  let s ← get
  raiseUnless (tokenIds.length ≤ s.blockSize - (s.heap r).tokenIds.length) assertion
  set (s.updateBlock r fun b => { b with tokenIds := b.tokenIds ++ tokenIds })
  match (s.heap r).blockId with
  | none => pure ()
  | some _ =>
    let blockId ← cowBlockIfNotAppendable r
    setBlockId r (some blockId)

omit [Sha256 H] [DecidableEq H] in
/-- `_update_num_tokens_total` -/
def updateNumTokensTotal (r : Ref) : AllocM H Unit :=
  modify fun s => s.updateBlock r fun b => { b with
    numTokensTotal :=
      (b.prevBlock.map fun p => (s.heap p).numTokensTotal).getD 0 + b.tokenIds.length }

/-- A block that became full is promoted. -/
def promoteIfHashed (r : Ref) : AllocM H Unit := do
  match ← contentHash r with
  | none => pure ()
  | some _ =>
    let blockId ← promoteToImmutableBlock r
    setBlockId r (some blockId)

/-- `append_token_ids` -/
def appendTokenIds (r : Ref) (tokenIds : List Nat) : AllocM H Unit := do
  let h ← contentHash r
  raiseUnless (h = none) assertion
  raiseIf (((← get).heap r).computed = true) assertion
  if tokenIds = [] then pure () else
    naiveAppendTokenIds r tokenIds
    updateNumTokensTotal r
    promoteIfHashed r

/-! ## Allocation -/

/-- `allocate_mutable_block_with_cache_namespace`; `allocate_mutable_block` is this with the empty
namespace. -/
def allocateMutableBlock (prevBlock : Option Ref) (cacheNamespace : Bytes) : AllocM H Ref := do
  let blockId ← allocateBlockId
  let r ← initBlock prevBlock [] (some blockId) cacheNamespace
  raiseIf (((← get).heap r).computed = true) assertion
  let h ← contentHash r
  raiseUnless (h = none) assertion
  pure r

/-- The last part of `_maybe_restore_external_cached_block`, once the CPU slot is claimed. -/
def restoreClaimed (r : Ref) (h : H) (cpuSlot : Nat) : AllocM H Unit := do
  let blockId ← tryCatch allocateBlockId fun e => do
    tier (CpuKvContentCache.cancelLoad h cpuSlot)
    throw e
  setBlockId r (some blockId)
  tryCatch (stageCpuToGpu h cpuSlot blockId) fun e => do
    decrRefcountHashlessBlock r
    tier (CpuKvContentCache.cancelLoad h cpuSlot)
    poolFree r
    throw e
  let s ← get
  raiseIf (h ∈ s.cachedBlocks)
    (.runtimeError "external prefix promotion raced with a GPU cache insert")
  let s := { s with
    cachedBlocks := s.cachedBlocks.set h blockId
    blockTracker := Function.update s.blockTracker blockId
      { s.blockTracker blockId with computed := true } }
  set (s.updateBlock r fun b => { b with computed := true })

/-- `_maybe_restore_external_cached_block` -/
def maybeRestoreExternalCachedBlock (r : Ref) : AllocM H Bool := do
  if (← get).contentCache.isNone then pure false else
    let h ← getContentHash r
    raiseIf (((← get).heap r).blockId.isSome = true) assertion
    match ← tier (CpuKvContentCache.claimLoad h) with
    | none => pure false
    | some cpuSlot =>
      restoreClaimed r h cpuSlot
      pure true

/-- The miss path of `allocate_immutable_block_with_cache_namespace`: the CPU tier, else a new
block. -/
def allocateUncachedBlock (r : Ref) (prevBlock : Option Ref) (tokenIds : List Nat)
    (cacheNamespace : Bytes) : AllocM H Ref := do
  if ← maybeRestoreExternalCachedBlock r then pure r else
    poolFree r
    let r' ← allocateMutableBlock prevBlock cacheNamespace
    appendTokenIds r' tokenIds
    pure r'

/-- `allocate_immutable_block_with_cache_namespace`; `allocate_immutable_block` is this with the
empty namespace. -/
def allocateImmutableBlock (prevBlock : Option Ref) (tokenIds : List Nat)
    (cacheNamespace : Bytes) : AllocM H Ref := do
  let r ← initBlock prevBlock tokenIds none cacheNamespace
  let h ← getContentHash r
  match (← get).cachedBlocks.get? h with
  | some cached =>
    setBlockId r (some cached)
    incrRefcountCachedBlock r
    pure r
  | none => allocateUncachedBlock r prevBlock tokenIds cacheNamespace

/-- `allocate_immutable_blocks_with_cache_namespace` -/
def allocateImmutableBlocks (cacheNamespace : Bytes) :
    Option Ref → List (List Nat) → AllocM H (List Ref)
  | _, [] => pure []
  | prevBlock, tokenIds :: rest => do
    let r ← allocateImmutableBlock prevBlock tokenIds cacheNamespace
    let blocks ← allocateImmutableBlocks cacheNamespace (some r) rest
    pure (r :: blocks)

omit [Sha256 H] [DecidableEq H] in
/-- `get_all_blocks_recursively` -/
def getAllBlocksRecursively (heap : Ref → PrefixCachingBlock H) : Nat → Ref →
    Except Err (List Ref)
  | 0, _ => throw .recursionError
  | fuel + 1, r =>
    match (heap r).prevBlock with
    | none => pure [r]
    | some p => do
      let blocks ← getAllBlocksRecursively heap fuel p
      pure (blocks ++ [r])

omit [Sha256 H] [DecidableEq H] in
/-- The loop of `fork`. -/
def forkBlocks : Option Ref → List Ref → AllocM H (List Ref)
  | _, [] => pure []
  | prevBlock, r :: rest => do
    let blockId ← getBlockId r
    let refcount ← refIncr blockId
    raiseIf (refcount = 1) (.assertionError s!"can't fork free'd block_id = {blockId}")
    let b := (← get).heap r
    let forked ← initBlock prevBlock b.tokenIds (some blockId) b.cacheNamespace
    let blocks ← forkBlocks (some forked) rest
    pure (forked :: blocks)

omit [Sha256 H] [DecidableEq H] in
/-- `fork` -/
def fork (lastBlock : Ref) : AllocM H (List Ref) := do
  let s ← get
  let sourceBlocks ← lift (getAllBlocksRecursively s.heap s.recursionLimit lastBlock)
  forkBlocks none sourceBlocks

/-! ## Swapping -/

/-- `swap_out` -/
def swapOut (blocks : List Ref) : AllocM H Unit := forM blocks freeBlockId

/-- A temporary block with the content of `r`. -/
def allocateSwapBlock (r : Ref) : AllocM H Ref := do
  let s ← get
  let b := s.heap r
  if s.isFull r then allocateImmutableBlock b.prevBlock b.tokenIds b.cacheNamespace else
    let tmp ← allocateMutableBlock b.prevBlock b.cacheNamespace
    appendTokenIds tmp b.tokenIds
    pure tmp

/-- One iteration of `swap_in`: the temporary block's id is handed to `r`. -/
def swapInBlock (r : Ref) : AllocM H Unit := do
  let tmp ← allocateSwapBlock r
  let blockId := ((← get).heap tmp).blockId
  poolFree tmp
  setBlockId r blockId

/-- `swap_in` -/
def swapIn (blocks : List Ref) : AllocM H Unit := forM blocks swapInBlock

end Hashing

/-! ## Marks and reads -/

/-- One iteration of `mark_blocks_as_accessed`. -/
def markBlockAsAccessed (now : Int) (blockId : Nat) : AllocM H Unit := do
  let s ← get
  raiseUnless (blockId ∈ s.allBlockIds) .keyError
  if (s.blockTracker blockId).active then
    set { s with
      blockTracker := Function.update s.blockTracker blockId
        { s.blockTracker blockId with lastAccessed := now } }
  else do
    raiseUnless (blockId ∈ s.evictor.freeTable)
      (.valueError "Mark block as accessed which is not belonged to GPU")
    let evictor ← lift (s.evictor.update blockId now)
    set { s with evictor := evictor }

/-- `mark_blocks_as_accessed` -/
def markBlocksAsAccessed (blockIds : List Nat) (now : Int) : AllocM H Unit :=
  forM blockIds (markBlockAsAccessed now)

omit [DecidableEq H] in
/-- `mark_blocks_as_computed`: all touched blocks, whatever blocks it is called with. -/
def markBlocksAsComputed : AllocM H Unit :=
  modify fun s => { s with
    blockTracker := fun id =>
      if id ∈ s.touchedBlocks then { s.blockTracker id with computed := true }
      else s.blockTracker id
    touchedBlocks := ∅ }

omit [DecidableEq H] in
/-- `clear_copy_on_writes` -/
def clearCopyOnWrites : AllocM H (List (Nat × Nat)) := do
  let s ← get
  set { s with copyOnWrites := [] }
  pure s.copyOnWrites

/-- `block_is_computed` -/
def blockIsComputed (s : AllocState H) (blockId : Nat) : Bool :=
  if (s.blockTracker blockId).active then (s.blockTracker blockId).computed
  else blockId ∈ s.evictor.freeTable

omit [DecidableEq H] in
/-- `get_num_free_blocks` -/
def getNumFreeBlocks (s : AllocState H) : Nat :=
  s.freeBlockIndices.length + s.evictor.numBlocks

omit [DecidableEq H] in
/-- `get_num_total_blocks` -/
def getNumTotalBlocks (s : AllocState H) : Nat := s.allBlockIds.length

end PrefixCachingBlockAllocator

end Bi100
