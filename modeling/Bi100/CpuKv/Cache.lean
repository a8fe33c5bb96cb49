import Bi100.Base
import Bi100.Lib.Dict
import Mathlib.Data.Finset.Basic
import Mathlib.Data.List.Sort

/-!
# The content index of the CPU KV tier (`core/block/cpu_kv_content_cache.py`)

The scheduler's metadata for immutable KV blocks held in the worker's pinned CPU cache: which
content hash lies in which CPU slot, which slots are ready, and the copies staged in the current
scheduling step. Every method is an `EStateM`, so the mutations before a raise stay.

Content hashes are a type `H` (32-byte digests in the source, where `_validate_hash` rejects
anything else); slots and GPU blocks are `Nat` (`_validate_block_id` rejects the rest).
-/

namespace Bi100

open Py

/-- `CpuKvContentCache`. -/
structure CpuKvContentCache (H : Type) where
  capacity : Nat
  hashToSlot : Dict H Nat
  slotToHash : Dict Nat H
  readySlots : Finset Nat
  /-- An `OrderedDict` from slot to `None`: the least recently used slot first. -/
  lru : Dict Nat Unit
  /-- A heap. -/
  freeSlots : List Nat
  stepSlotsInUse : Finset Nat
  stepLoadSlots : Finset Nat
  /-- CPU slot to GPU block. -/
  stepH2d : Dict Nat Nat
  /-- GPU block to CPU slot. -/
  stepD2h : Dict Nat Nat
  deferredD2h : Dict Nat H
  deferredHashes : Finset H
  pendingReadySlots : Finset Nat
  hits : Nat
  misses : Nat
  stores : Nat
  deduplicatedStores : Nat
  evictions : Nat
  skippedStores : Nat

namespace CpuKvContentCache

variable {H : Type} [DecidableEq H]

/-- The cache that `__init__` builds. -/
def fresh (capacity : Nat) : CpuKvContentCache H where
  capacity := capacity
  hashToSlot := ∅
  slotToHash := ∅
  readySlots := ∅
  lru := ∅
  freeSlots := List.range capacity
  stepSlotsInUse := ∅
  stepLoadSlots := ∅
  stepH2d := ∅
  stepD2h := ∅
  deferredD2h := ∅
  deferredHashes := ∅
  pendingReadySlots := ∅
  hits := 0
  misses := 0
  stores := 0
  deduplicatedStores := 0
  evictions := 0
  skippedStores := 0

/-- `__init__`. -/
def init (capacity : Int) : Except Err (CpuKvContentCache H) :=
  if capacity ≤ 0 then
    throw (.valueError "CPU KV content cache capacity must be positive")
  else
    pure (fresh capacity.toNat)

/-- `heapq.heappop`: the least element of a heap, and the rest. -/
def heappop (heap : List Nat) : Option (Nat × List Nat) :=
  heap.min?.map fun slot => (slot, heap.erase slot)

/-- `_touch`: the slot becomes the most recently used. -/
def touch (slot : Nat) : EStateM Err (CpuKvContentCache H) Unit :=
  modify fun c => { c with lru := (c.lru.erase slot).set slot () }

/-- `_select_store_slot`: a free slot, else the least recently used slot that this step does not
use. -/
def selectStoreSlot : EStateM Err (CpuKvContentCache H) (Option Nat) := do
  let c ← get
  match heappop c.freeSlots with
  | some (slot, rest) =>
    set { c with freeSlots := rest }
    pure (some slot)
  | none => pure (c.lru.keys.find? (· ∉ c.stepSlotsInUse))

/-- The first part of `_commit_store`: the previous content of the slot is evicted. -/
def evictOldHash (slot : Nat) : EStateM Err (CpuKvContentCache H) Unit := do
  let c ← get
  match c.slotToHash.get? slot with
  | none => pure ()
  | some oldHash =>
    raiseIf (slot ∈ c.stepSlotsInUse)
      (.runtimeError "selected an in-use CPU KV slot for eviction")
    raiseUnless (oldHash ∈ c.hashToSlot) .keyError
    set { c with
      hashToSlot := c.hashToSlot.erase oldHash
      readySlots := c.readySlots.erase slot
      evictions := c.evictions + 1 }

/-- `_commit_store`. -/
def commitStore (contentHash : H) (gpuBlock slot : Nat) :
    EStateM Err (CpuKvContentCache H) Unit := do
  evictOldHash slot
  let c ← get
  raiseIf (slot ∈ c.stepH2d) (.runtimeError
    "a CPU KV slot cannot be an H2D source and D2H destination in one scheduler step")
  raiseIf (slot ∈ c.stepD2h.values)
    (.runtimeError s!"duplicate D2H destination CPU slot {slot}")
  set { c with
    hashToSlot := c.hashToSlot.set contentHash slot
    slotToHash := c.slotToHash.set slot contentHash
    readySlots := c.readySlots.erase slot
    stepSlotsInUse := insert slot c.stepSlotsInUse
    stepD2h := c.stepD2h.set gpuBlock slot }
  touch slot
  modify fun c => { c with stores := c.stores + 1 }

/-- `begin_step`. -/
def beginStep : EStateM Err (CpuKvContentCache H) Unit := do
  let c ← get
  raiseIf (c.stepSlotsInUse ≠ ∅ ∨ c.stepH2d.entries ≠ [] ∨ c.stepD2h.entries ≠ [] ∨
      c.deferredD2h.entries ≠ [] ∨ c.deferredHashes ≠ ∅)
    (.runtimeError "cannot begin a CPU KV step before draining it")
  set { c with
    readySlots := c.readySlots ∪ c.pendingReadySlots
    pendingReadySlots := ∅ }

/-- `_require_step_started`. -/
def requireStepStarted : EStateM Err (CpuKvContentCache H) Unit := do
  let c ← get
  raiseIf (c.pendingReadySlots ≠ ∅)
    (.runtimeError "CPU KV step must begin before content lookup or eviction")

/-- `claim_load`. -/
def claimLoad (contentHash : H) : EStateM Err (CpuKvContentCache H) (Option Nat) := do
  requireStepStarted
  let c ← get
  match c.hashToSlot.get? contentHash with
  | none =>
    set { c with misses := c.misses + 1 }
    pure none
  | some slot =>
    if slot ∉ c.readySlots then
      set { c with misses := c.misses + 1 }
      pure none
    else
      raiseIf (slot ∈ c.stepSlotsInUse)
        (.runtimeError s!"CPU KV slot {slot} was claimed twice in one scheduler step")
      set { c with
        stepSlotsInUse := insert slot c.stepSlotsInUse
        stepLoadSlots := insert slot c.stepLoadSlots }
      touch slot
      modify fun c => { c with hits := c.hits + 1 }
      pure (some slot)

/-- `cancel_load`. -/
def cancelLoad (contentHash : H) (cpuSlot : Nat) : EStateM Err (CpuKvContentCache H) Unit := do
  let c ← get
  raiseIf (c.hashToSlot.get? contentHash ≠ some cpuSlot)
    (.runtimeError "CPU KV load cancellation key/slot mismatch")
  raiseIf (cpuSlot ∈ c.stepH2d)
    (.runtimeError "cannot cancel a CPU KV load after H2D staging")
  raiseIf (cpuSlot ∉ c.stepSlotsInUse)
    (.runtimeError "cannot cancel an unclaimed CPU KV load")
  set { c with stepSlotsInUse := c.stepSlotsInUse.erase cpuSlot }
  raiseUnless (cpuSlot ∈ c.stepLoadSlots) .keyError
  modify fun c => { c with stepLoadSlots := c.stepLoadSlots.erase cpuSlot }

/-- `stage_load`. -/
def stageLoad (contentHash : H) (cpuSlot gpuBlock : Nat) :
    EStateM Err (CpuKvContentCache H) Unit := do
  let c ← get
  raiseIf (c.hashToSlot.get? contentHash ≠ some cpuSlot)
    (.runtimeError "CPU KV load key/slot mismatch")
  raiseIf (cpuSlot ∉ c.readySlots) (.runtimeError "CPU KV load source is not ready")
  raiseIf (cpuSlot ∉ c.stepSlotsInUse) (.runtimeError "CPU KV load source was not claimed")
  raiseIf (cpuSlot ∈ c.stepH2d)
    (.runtimeError s!"duplicate H2D source CPU slot {cpuSlot}")
  raiseIf (gpuBlock ∈ c.stepH2d.values)
    (.runtimeError s!"duplicate H2D destination GPU block {gpuBlock}")
  raiseIf (cpuSlot ∈ c.stepD2h.values) (.runtimeError
    "a CPU KV slot cannot be an H2D source and D2H destination in one scheduler step")
  set { c with stepH2d := c.stepH2d.set cpuSlot gpuBlock }

/-- `stage_store`. -/
def stageStore (contentHash : H) (gpuBlock : Nat) :
    EStateM Err (CpuKvContentCache H) Bool := do
  requireStepStarted
  let c ← get
  if contentHash ∈ c.hashToSlot ∨ contentHash ∈ c.deferredHashes then
    forM (c.hashToSlot.get? contentHash).toList touch
    modify fun c => { c with deduplicatedStores := c.deduplicatedStores + 1 }
    pure false
  else
    raiseIf (gpuBlock ∈ c.stepD2h ∨ gpuBlock ∈ c.deferredD2h)
      (.runtimeError s!"duplicate D2H source GPU block {gpuBlock}")
    match heappop c.freeSlots with
    | some (slot, rest) =>
      set { c with freeSlots := rest }
      commitStore contentHash gpuBlock slot
      pure true
    | none =>
      -- Resident content is not replaced before all lookups of the step are known.
      set { c with
        deferredD2h := c.deferredD2h.set gpuBlock contentHash
        deferredHashes := insert contentHash c.deferredHashes }
      pure true

/-- One iteration of the loop in `_resolve_deferred_stores`. -/
def resolveDeferredStore (p : Nat × H) : EStateM Err (CpuKvContentCache H) Unit := do
  match ← selectStoreSlot with
  | none => modify fun c => { c with skippedStores := c.skippedStores + 1 }
  | some slot => commitStore p.2 p.1 slot

/-- `_resolve_deferred_stores`. -/
def resolveDeferredStores : EStateM Err (CpuKvContentCache H) Unit := do
  let c ← get
  if c.stepLoadSlots ≠ ∅ then
    set { c with skippedStores := c.skippedStores + c.deferredD2h.size }
  else
    forM c.deferredD2h.entries resolveDeferredStore
  modify fun c => { c with deferredD2h := ∅, deferredHashes := ∅ }

/-- `sorted(d.items())`. -/
def sortedItems (d : Dict Nat Nat) : List (Nat × Nat) :=
  d.entries.insertionSort fun p q => p.1 < q.1 ∨ (p.1 = q.1 ∧ p.2 ≤ q.2)

/-- `drain_step`: the H2D map (CPU slot, GPU block) and the D2H map (GPU block, CPU slot). -/
def drainStep : EStateM Err (CpuKvContentCache H)
    (List (Nat × Nat) × List (Nat × Nat)) := do
  resolveDeferredStores
  let c ← get
  raiseIf (c.stepH2d.keys.toFinset ∪ c.stepD2h.values.toFinset ≠ c.stepSlotsInUse)
    (.runtimeError "CPU KV scheduler step contains an uncommitted slot claim")
  raiseIf (c.stepH2d.keys.toFinset ∩ c.stepD2h.values.toFinset ≠ ∅)
    (.runtimeError "CPU KV scheduler step reuses a CPU slot across directions")
  raiseIf (c.stepH2d.keys.toFinset ≠ c.stepLoadSlots)
    (.runtimeError "CPU KV scheduler step contains an unstaged load claim")
  set { c with
    pendingReadySlots := c.pendingReadySlots ∪ c.stepD2h.values.toFinset
    stepH2d := ∅
    stepD2h := ∅
    stepSlotsInUse := ∅
    stepLoadSlots := ∅ }
  pure (sortedItems c.stepH2d, sortedItems c.stepD2h)

/-- `is_ready`. -/
def isReady (c : CpuKvContentCache H) (contentHash : H) : Bool :=
  match c.hashToSlot.get? contentHash with
  | some slot => decide (slot ∈ c.readySlots)
  | none => false

/-- `resident_count`. -/
def residentCount (c : CpuKvContentCache H) : Nat := c.hashToSlot.size

end CpuKvContentCache

end Bi100
