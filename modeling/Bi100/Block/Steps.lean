import Bi100.Block.Ids

/-!
# What an allocator call can do

Every method of the allocator is a sequence of `AllocStep`s. Between two of them a local variable
of the method may own a reference (`owed`), and a block whose tokens have just changed is not yet
promoted (`pend`). The invariant `Inv` says what holds then.

- `Inv.count`: the reference count of an id is the number of live blocks that hold it, plus what
  is owed.
- `Inv.hashed`, `Inv.unhashed`: an id that a block with a hash holds is cached under the hash, and
  an id that a block without a hash holds is not cached. So freeing a block puts its id into the
  right container.
- `AllocStep.inv`: every step keeps the invariant.
-/

namespace Bi100

open Py PrefixCachingBlockAllocator

variable {H : Type} [DecidableEq H] [Sha256 H]

/-- The allocator within a method. -/
structure AllocConf (H : Type) where
  owed : List Nat
  pend : Option Ref
  st : AllocState H

/-- The free objects are objects of the own pool, each of them once. -/
structure PoolInv (s : AllocState H) : Prop where
  nodup : s.poolFreeIds.Nodup
  lt : ∀ i ∈ s.poolFreeIds, i < s.poolSize
  guests : ∀ r ∈ s.guests, r.pool ≠ s.device

/-- The blocks, their ids and the cache agree. -/
structure Inv (c : AllocConf H) : Prop where
  ids : IdInv c.st
  pool : PoolInv c.st
  count : ∀ id, c.st.refcounts id = (c.st.holders id).card + c.owed.count id
  sound : c.st.Sound
  hashed : ∀ r ∈ c.st.live, ∀ id h, (c.st.heap r).blockId = some id → c.pend ≠ some r →
    HasHash c.st.blockSize c.st.heap r h → c.st.cachedBlocks.get? h = some id
  unhashed : ∀ r ∈ c.st.live, ∀ id, (c.st.heap r).blockId = some id →
    (c.pend = some r ∨ ∀ h, ¬ HasHash c.st.blockSize c.st.heap r h) →
    ∀ h, c.st.cachedBlocks.get? h ≠ some id

/-- `r` is popped from the pool, which then has `size` objects and the free objects `freeIds`. -/
def PoolPop (s : AllocState H) (r : Ref) (size : Nat) (freeIds : List Nat) : Prop :=
  r.pool = s.device ∧
    ((s.poolFreeIds = r.poolId :: freeIds ∧ size = s.poolSize) ∨
     (s.poolFreeIds = [] ∧ size = 2 * s.poolSize ∧
      List.range' s.poolSize s.poolSize = r.poolId :: freeIds))

/-- `s` with a block object made of `b`. -/
def withBlock (s : AllocState H) (r : Ref) (b : PrefixCachingBlock H) (size : Nat)
    (freeIds : List Nat) : AllocState H :=
  { s with poolSize := size, poolFreeIds := freeIds, heap := Function.update s.heap r b }

/-- `s` with the id of a block changed. -/
def withId (s : AllocState H) (r : Ref) (blockId : Option Nat) : AllocState H :=
  s.updateBlock r fun b => { b with blockId := blockId }

/-- `s` with a computed block that holds `id`. -/
def withComputed (s : AllocState H) (r : Ref) (id : Nat) : AllocState H :=
  s.updateBlock r fun b => { b with blockId := some id, computed := true }

/-- `s` with the reference count of an id changed. -/
def withRefcount (s : AllocState H) (id n : Nat) : AllocState H :=
  { s with refcounts := Function.update s.refcounts id n }

/-- `s` with the touched ids marked as computed. -/
def AllocState.marked (s : AllocState H) : AllocState H :=
  { s with
    blockTracker := fun id =>
      if id ∈ s.touchedBlocks then { s.blockTracker id with computed := true }
      else s.blockTracker id
    touchedBlocks := ∅ }

/-- A tracker after `_track_block_id`. -/
def tracked (computed : Bool) : BlockTracker := ⟨true, defaultLastAccessedTime, computed⟩

/-- A tracker after `_untrack_block_id`. -/
def untracked : BlockTracker := ⟨false, defaultLastAccessedTime, false⟩

/-- One step of a method. -/
inductive AllocStep : AllocConf H → AllocConf H → Prop where
  /-- Content hashes are computed and kept. -/
  | hashes {o p} {s s' : AllocState H} (same : SameButHashes s s') (sound : s'.Sound) :
    AllocStep ⟨o, p, s⟩ ⟨o, p, s'⟩
  /-- The CPU tier changes. -/
  | tier {o p} {s : AllocState H} (c : Option (CpuKvContentCache H)) :
    AllocStep ⟨o, p, s⟩ ⟨o, p, { s with contentCache := c }⟩
  /-- A temporary block object is made and freed. -/
  | scratch {o p} {s : AllocState H} {r size ids} (pop : PoolPop s r size ids)
      (preds : s.PredsLive) (b : PrefixCachingBlock H) :
    AllocStep ⟨o, p, s⟩ ⟨o, p, withBlock s r b size (r.poolId :: ids)⟩
  | takeFree {o p} {s : AllocState H} {id rest} (free : s.freeBlockIndices = id :: rest) :
    AllocStep ⟨o, p, s⟩ ⟨id :: o, p,
      { IdInv.withCount s id (s.refcounts id + 1) (tracked false) with
        freeBlockIndices := rest }⟩
  | takeEvicted {o p} {s : AllocState H} {id h e} (evict : s.evictor.evict = .ok ((id, h), e)) :
    AllocStep ⟨o, p, s⟩ ⟨id :: o, p,
      { IdInv.withCount s id (s.refcounts id + 1) (tracked false) with
        evictor := e, cachedBlocks := s.cachedBlocks.erase h }⟩
  /-- A block without an id is made. -/
  | newBlock {o p} {s : AllocState H} {r size ids} {b : PrefixCachingBlock H}
      (pop : PoolPop s r size ids) (preds : s.PredsLive) (blockId : b.blockId = none)
      (fresh : b.cachedContentHash = none) (prev : ∀ q, b.prevBlock = some q → q ∈ s.live) :
    AllocStep ⟨o, p, s⟩ ⟨o, p, withBlock s r b size ids⟩
  /-- A block is made with an owed id. -/
  | newOwned {o} {s : AllocState H} {r size ids id} {b : PrefixCachingBlock H}
      (pop : PoolPop s r size ids) (preds : s.PredsLive) (blockId : b.blockId = some id)
      (fresh : b.cachedContentHash = none) (prev : ∀ q, b.prevBlock = some q → q ∈ s.live)
      (owed : id ∈ o) (uncached : ∀ h, s.cachedBlocks.get? h ≠ some id) :
    AllocStep ⟨o, none, s⟩ ⟨o.erase id, some r, withBlock s r b size ids⟩
  /-- A block is made that shares the content and the id of another. -/
  | newForked {o} {s : AllocState H} {r size ids id src} {b : PrefixCachingBlock H}
      (pop : PoolPop s r size ids) (preds : s.PredsLive) (blockId : b.blockId = some id)
      (fresh : b.cachedContentHash = none) (prev : ∀ q, b.prevBlock = some q → q ∈ s.live)
      (owed : id ∈ o) (src_live : src ∈ s.live) (src_id : (s.heap src).blockId = some id)
      (src_hash : ∀ h, HasHash s.blockSize (Function.update s.heap r b) r h ↔
        HasHash s.blockSize s.heap src h) :
    AllocStep ⟨o, none, s⟩ ⟨o.erase id, none, withBlock s r b size ids⟩
  /-- A reference to a used id is made. -/
  | share {o p} {s : AllocState H} {id} (used : 0 < s.refcounts id) :
    AllocStep ⟨o, p, s⟩ ⟨id :: o, p, withRefcount s id (s.refcounts id + 1)⟩
  /-- A block without an id gets the id of a cached block in use. -/
  | acquireUsed {o p} {s : AllocState H} {r id h} (live : r ∈ s.live)
      (blockId : (s.heap r).blockId = none) (hash : HasHash s.blockSize s.heap r h)
      (cached : s.cachedBlocks.get? h = some id) (used : 0 < s.refcounts id)
      (pend : p = none ∨ p = some r) :
    AllocStep ⟨o, p, s⟩
      ⟨o, none, withComputed (withRefcount s id (s.refcounts id + 1)) r id⟩
  /-- A block without an id gets the id of an evictable cached block. -/
  | acquireEvicted {o p} {s : AllocState H} {r id h e} (live : r ∈ s.live)
      (blockId : (s.heap r).blockId = none) (hash : HasHash s.blockSize s.heap r h)
      (cached : s.cachedBlocks.get? h = some id) (unused : s.refcounts id = 0)
      (evictor : e.freeTable = s.evictor.freeTable.erase id) (pend : p = none ∨ p = some r) :
    AllocStep ⟨o, p, s⟩ ⟨o, none, withComputed
      { IdInv.withCount s id (s.refcounts id + 1) (tracked true) with evictor := e } r id⟩
  /-- A block drops one of several references. -/
  | releaseShared {o p} {s : AllocState H} {r id} (live : r ∈ s.live)
      (blockId : (s.heap r).blockId = some id) (shared : 1 < s.refcounts id) :
    AllocStep ⟨o, p, s⟩ ⟨o, p, withId (withRefcount s id (s.refcounts id - 1)) r none⟩
  /-- A block with a hash drops the last reference. -/
  | releaseCached {o p} {s : AllocState H} {r id h} (live : r ∈ s.live)
      (blockId : (s.heap r).blockId = some id) (last : s.refcounts id = 1) (pend : p ≠ some r)
      (hash : HasHash s.blockSize s.heap r h) (n : Nat) (t : Int) :
    AllocStep ⟨o, p, s⟩ ⟨o, p, withId
      { IdInv.withCount s id 0 untracked with evictor := s.evictor.add id h n t } r none⟩
  /-- A block without a hash drops the last reference. -/
  | releaseFree {o p} {s : AllocState H} {r id} (live : r ∈ s.live)
      (blockId : (s.heap r).blockId = some id) (last : s.refcounts id = 1)
      (hash : p = some r ∨ ∀ h, ¬ HasHash s.blockSize s.heap r h) :
    AllocStep ⟨o, p, s⟩ ⟨o, p, withId
      { IdInv.withCount s id 0 untracked with
        freeBlockIndices := id :: s.freeBlockIndices } r none⟩
  /-- A block object without an id goes back to the pool. -/
  | freeObject {o p} {s : AllocState H} {r} (own : s.Own r)
      (blockId : (s.heap r).blockId = none) :
    AllocStep ⟨o, p, s⟩ ⟨o, p, { s with poolFreeIds := r.poolId :: s.poolFreeIds }⟩
  /-- A temporary block is freed and its id goes to a block with the same content. -/
  | handover {o} {s : AllocState H} {tmp r id} (own : s.Own tmp)
      (tmp_id : (s.heap tmp).blockId = some id) (live : r ∈ s.live) (ne : r ≠ tmp)
      (blockId : (s.heap r).blockId = none)
      (hash : ∀ h, HasHash s.blockSize s.heap r h ↔ HasHash s.blockSize s.heap tmp h) :
    AllocStep ⟨o, none, s⟩
      ⟨o, none, withId { s with poolFreeIds := tmp.poolId :: s.poolFreeIds } r (some id)⟩
  /-- Tokens are appended to a block without a hash that no full block follows. -/
  | extend {o} {s : AllocState H} {r} (live : r ∈ s.live) (preds : s.PredsLive)
      (hash : ∀ h, ¬ HasHash s.blockSize s.heap r h)
      (last : ∀ q ∈ s.live, (s.heap q).prevBlock = some r → s.isFull q = false)
      (tokens : List Nat) :
    AllocStep ⟨o, none, s⟩
      ⟨o, some r, s.updateBlock r fun b => { b with tokenIds := b.tokenIds ++ tokens }⟩
  /-- A block without an id gets an owed one. -/
  | assign {o p} {s : AllocState H} {r id} (live : r ∈ s.live)
      (blockId : (s.heap r).blockId = none) (pend : p = none ∨ p = some r) (owed : id ∈ o)
      (uncached : ∀ h, s.cachedBlocks.get? h ≠ some id) :
    AllocStep ⟨o, p, s⟩ ⟨o.erase id, some r, withId s r (some id)⟩
  /-- A block with a new hash is cached, and touched. -/
  | promote {o} {s : AllocState H} {r id h} (live : r ∈ s.live)
      (blockId : (s.heap r).blockId = some id) (hash : HasHash s.blockSize s.heap r h)
      (uncached : s.cachedBlocks.get? h = none) (last : s.refcounts id = 1) :
    AllocStep ⟨o, some r, s⟩ ⟨o, none,
      { s with
        cachedBlocks := s.cachedBlocks.set h id
        touchedBlocks := insert id s.touchedBlocks }⟩
  /-- A block that is loaded from the CPU tier is cached, and computed. -/
  | restore {o} {s : AllocState H} {r id h} (live : r ∈ s.live)
      (blockId : (s.heap r).blockId = some id) (hash : HasHash s.blockSize s.heap r h)
      (uncached : s.cachedBlocks.get? h = none) (last : s.refcounts id = 1) :
    AllocStep ⟨o, some r, s⟩ ⟨o, none, withComputed
      { s with
        cachedBlocks := s.cachedBlocks.set h id
        blockTracker := Function.update s.blockTracker id
          { s.blockTracker id with computed := true } } r id⟩
  /-- A block turns out to have no hash. -/
  | settle {o} {s : AllocState H} {r} (live : r ∈ s.live)
      (hash : ∀ h, ¬ HasHash s.blockSize s.heap r h) :
    AllocStep ⟨o, some r, s⟩ ⟨o, none, s⟩
  /-- A block of another allocator, without an id, is handed to this one. -/
  | guestCame {o p} {s : AllocState H} {r} {b : PrefixCachingBlock H} (pool : r.pool ≠ s.device)
      (new : r ∉ s.live) (preds : s.PredsLive) (blockId : b.blockId = none)
      (kept : ∀ h, b.cachedContentHash = some h →
        HasHash s.blockSize (Function.update s.heap r b) r h)
      (prev : ∀ q, b.prevBlock = some q → q ∈ s.live) :
    AllocStep ⟨o, p, s⟩ ⟨o, p,
      { s with guests := insert r s.guests, heap := Function.update s.heap r b }⟩
  /-- It goes back, without an id. -/
  | guestLeft {o p} {s : AllocState H} {r} (guest : r ∈ s.guests)
      (blockId : (s.heap r).blockId = none) :
    AllocStep ⟨o, p, s⟩ ⟨o, p, { s with guests := s.guests.erase r }⟩
  | updateTotal {o p} {s : AllocState H} {r} (live : r ∈ s.live) (n : Nat) :
    AllocStep ⟨o, p, s⟩ ⟨o, p, s.updateBlock r fun b => { b with numTokensTotal := n }⟩
  | cows {o p} {s : AllocState H} (l : List (Nat × Nat)) :
    AllocStep ⟨o, p, s⟩ ⟨o, p, { s with copyOnWrites := l }⟩
  | accessUsed {o p} {s : AllocState H} (id : Nat) (t : Int) :
    AllocStep ⟨o, p, s⟩ ⟨o, p,
      { s with
        blockTracker := Function.update s.blockTracker id
          { s.blockTracker id with lastAccessed := t } }⟩
  | accessEvictable {o p} {s : AllocState H} {id t e} (update : s.evictor.update id t = .ok e) :
    AllocStep ⟨o, p, s⟩ ⟨o, p, { s with evictor := e }⟩

end Bi100
