import Bi100.Base
import Bi100.Lib.Dict
import Bi100.Lib.Except
import Mathlib.Data.Int.Order.Basic
import Mathlib.Data.List.Lex

/-!
# Evictors (`evictor_v2.py`)

The unused cached blocks and the order in which they are reused. Timestamps are integers; the
check that a content hash has 32 bytes is left out, since every hash is a SHA-256 digest.

- `Evictor.evict_ok`, `Evictor.remove_ok`, `Evictor.update_ok`, `Evictor.freeTable_add`: what the
  operations of both policies do to the table of unused blocks.
-/

namespace Bi100

open Py

structure BlockMetaData (H : Type) where
  contentHash : H
  numHashedTokens : Nat
  lastAccessed : Int
deriving DecidableEq, Repr

/-! ## Least recently used -/

structure LRUEvictor (H : Type) where
  /-- An `OrderedDict`. -/
  freeTable : Dict Nat (BlockMetaData H)

namespace LRUEvictor

variable {H : Type}

/-- The loop of `evict`: among the first blocks, up to a later timestamp than the chosen one's, the
one with the most hashed tokens. -/
def scan : List (Nat × BlockMetaData H) → Nat × BlockMetaData H → Nat × BlockMetaData H
  | [], evicted => evicted
  | (id, block) :: rest, evicted =>
    if evicted.2.lastAccessed < block.lastAccessed then evicted
    else if evicted.2.numHashedTokens < block.numHashedTokens then scan rest (id, block)
    else scan rest evicted

def evict (e : LRUEvictor H) : Except Err ((Nat × H) × LRUEvictor H) :=
  match e.freeTable.entries with
  | [] => throw (.valueError "No usable cache memory left")
  | first :: rest =>
    let evicted := scan rest first
    pure ((evicted.1, evicted.2.contentHash), ⟨e.freeTable.erase evicted.1⟩)

end LRUEvictor

/-! ## Least frequently used -/

/-- A heap entry, a tuple in the order of the fields. -/
structure HeapEntry where
  frequency : Nat
  lastAccessed : Int
  negHashedTokens : Int
  blockId : Nat
  generation : Nat
deriving DecidableEq

/-- Entries are compared as tuples. -/
def HeapEntry.key (e : HeapEntry) : List Int :=
  [e.frequency, e.lastAccessed, e.negHashedTokens, e.blockId, e.generation]

structure FrequencyAwareEvictor (H : Type) where
  freeTable : Dict Nat (BlockMetaData H)
  frequencyByHash : Dict H Nat
  heap : List HeapEntry
  generations : Dict Nat Nat
  nextGeneration : Nat

namespace FrequencyAwareEvictor

variable {H : Type} [DecidableEq H]

/-- `_heap_key` -/
def heapKey (e : FrequencyAwareEvictor H) (blockId : Nat) (block : BlockMetaData H)
    (generation : Nat) : HeapEntry :=
  ⟨(e.frequencyByHash.get? block.contentHash).getD 0, block.lastAccessed,
    -(block.numHashedTokens : Int), blockId, generation⟩

/-- `_push` -/
def push (e : FrequencyAwareEvictor H) (blockId : Nat) (block : BlockMetaData H) :
    FrequencyAwareEvictor H :=
  let generation := e.nextGeneration + 1
  { e with
    nextGeneration := generation
    generations := e.generations.set blockId generation
    heap := e.heapKey blockId block generation :: e.heap }

/-- `_compact_if_needed`, with factor 2 and slack 1 -/
def compactIfNeeded (e : FrequencyAwareEvictor H) : FrequencyAwareEvictor H :=
  let entries := e.freeTable.entries.map fun p =>
    e.heapKey p.1 p.2 ((e.generations.get? p.1).getD 0)
  if e.heap.length ≤ 2 * e.freeTable.size + 1 then e else { e with heap := entries }

/-- `heapq.heappop`: the least entry, and the others. -/
def heappop (heap : List HeapEntry) : Option (HeapEntry × List HeapEntry) :=
  (heap.find? fun entry => heap.all fun other => entry.key ≤ other.key).map fun entry =>
    (entry, heap.erase entry)

/-- The loop of `evict`. An entry whose frequency is out of date is pushed back once, so twice as
many iterations as entries are enough. -/
def evictLoop : Nat → FrequencyAwareEvictor H →
    Except Err ((Nat × H) × FrequencyAwareEvictor H)
  | 0, _ => throw (.runtimeError "Evictor heap has no usable entry")
  | fuel + 1, e =>
    match heappop e.heap with
    | none => throw (.runtimeError "Evictor heap has no usable entry")
    | some (entry, heap) =>
      match e.freeTable.get? entry.blockId with
      | none => evictLoop fuel { e with heap := heap }
      | some block =>
        if e.generations.get? entry.blockId ≠ some entry.generation then
          evictLoop fuel { e with heap := heap }
        else if e.frequencyByHash.get? block.contentHash ≠ some entry.frequency then
          evictLoop fuel { e with
            heap := e.heapKey entry.blockId block entry.generation :: heap }
        else
          let e' := { e with
            heap := heap
            freeTable := e.freeTable.erase entry.blockId
            generations := e.generations.erase entry.blockId }
          pure ((entry.blockId, block.contentHash), e'.compactIfNeeded)

def evict (e : FrequencyAwareEvictor H) : Except Err ((Nat × H) × FrequencyAwareEvictor H) :=
  if e.freeTable.size = 0 then throw (.valueError "No usable cache memory left")
  else evictLoop (2 * e.heap.length + 1) e

end FrequencyAwareEvictor

/-! ## The evictor of an allocator -/

inductive EvictionPolicy where
  | lru
  | frequencyAware
deriving DecidableEq

inductive Evictor (H : Type) where
  | lru (e : LRUEvictor H)
  | frequencyAware (e : FrequencyAwareEvictor H)

namespace Evictor

variable {H : Type}

/-- `make_evictor` -/
def make : EvictionPolicy → Evictor H
  | .lru => .lru ⟨∅⟩
  | .frequencyAware => .frequencyAware ⟨∅, ∅, [], ∅, 0⟩

def freeTable : Evictor H → Dict Nat (BlockMetaData H)
  | .lru e => e.freeTable
  | .frequencyAware e => e.freeTable

/-- `num_blocks` -/
def numBlocks (e : Evictor H) : Nat := e.freeTable.size

variable [DecidableEq H]

def evict : Evictor H → Except Err ((Nat × H) × Evictor H)
  | .lru e => do
    let (evicted, e') ← e.evict
    pure (evicted, .lru e')
  | .frequencyAware e => do
    let (evicted, e') ← e.evict
    pure (evicted, .frequencyAware e')

def add (e : Evictor H) (blockId : Nat) (contentHash : H) (numHashedTokens : Nat)
    (lastAccessed : Int) : Evictor H :=
  let block : BlockMetaData H := ⟨contentHash, numHashedTokens, lastAccessed⟩
  match e with
  | .lru e => .lru ⟨e.freeTable.set blockId block⟩
  | .frequencyAware e =>
    let counted := { e with
      frequencyByHash :=
        e.frequencyByHash.set contentHash ((e.frequencyByHash.get? contentHash).getD 0 + 1)
      freeTable := e.freeTable.set blockId block }
    .frequencyAware (counted.push blockId block).compactIfNeeded

def update (e : Evictor H) (blockId : Nat) (lastAccessed : Int) : Except Err (Evictor H) :=
  match e.freeTable.get? blockId with
  | none => throw .keyError
  | some old =>
    let block := { old with lastAccessed := lastAccessed }
    match e with
    | .lru e => pure (.lru ⟨e.freeTable.set blockId block⟩)
    | .frequencyAware e =>
      let accessed := { e with freeTable := e.freeTable.set blockId block }
      pure (.frequencyAware (accessed.push blockId block).compactIfNeeded)

def remove (e : Evictor H) (blockId : Nat) : Except Err (Evictor H) :=
  if blockId ∈ e.freeTable then
    match e with
    | .lru e => pure (.lru ⟨e.freeTable.erase blockId⟩)
    | .frequencyAware e =>
      let removed := { e with
        freeTable := e.freeTable.erase blockId
        generations := e.generations.erase blockId }
      pure (.frequencyAware removed.compactIfNeeded)
  else
    throw (.valueError "Attempting to remove block that's not in the evictor")

/-! ## The table after an operation -/

omit [DecidableEq H] in
@[simp] theorem freeTable_make (policy : EvictionPolicy) :
    (make policy : Evictor H).freeTable = ∅ := by
  cases policy <;> rfl

omit [DecidableEq H] in
theorem scan_mem {l : List (Nat × BlockMetaData H)} {first : Nat × BlockMetaData H} :
    LRUEvictor.scan l first ∈ first :: l := by
  induction l generalizing first with
  | nil => exact List.mem_singleton_self first
  | cons p l ih =>
    rw [LRUEvictor.scan]
    split_ifs
    · exact List.mem_cons_self
    · exact List.mem_cons_of_mem _ ih
    · rcases List.mem_cons.mp (@ih first) with h | h
      · rw [h]
        exact List.mem_cons_self
      · exact List.mem_cons_of_mem _ (List.mem_cons_of_mem _ h)

@[simp] theorem freeTable_compactIfNeeded (e : FrequencyAwareEvictor H) :
    e.compactIfNeeded.freeTable = e.freeTable := by
  rw [FrequencyAwareEvictor.compactIfNeeded]
  split <;> rfl

theorem evictLoop_ok {fuel : Nat} {e e' : FrequencyAwareEvictor H} {id : Nat} {h : H}
    (hr : FrequencyAwareEvictor.evictLoop fuel e = .ok ((id, h), e')) :
    (∃ m, e.freeTable.get? id = some m ∧ m.contentHash = h) ∧
      e'.freeTable = e.freeTable.erase id := by
  induction fuel generalizing e with
  | zero => cases hr
  | succ fuel ih =>
    rw [FrequencyAwareEvictor.evictLoop] at hr
    split at hr
    · cases hr
    · split at hr
      · have hrest := ih hr
        exact hrest
      · next block hb =>
        split at hr
        · have hrest := ih hr
          exact hrest
        · split at hr
          · have hrest := ih hr
            exact hrest
          · cases hr
            exact ⟨⟨block, hb, rfl⟩, freeTable_compactIfNeeded _⟩

/-- `evict` takes a block of the table, with the hash it is in the table under. -/
theorem evict_ok {e e' : Evictor H} {id : Nat} {h : H} (hr : e.evict = .ok ((id, h), e')) :
    (∃ m, e.freeTable.get? id = some m ∧ m.contentHash = h) ∧
      e'.freeTable = e.freeTable.erase id := by
  cases e with
  | lru e =>
    obtain ⟨⟨evicted, e₁⟩, he, hr⟩ := bind_eq_ok.mp hr
    cases hr
    rw [LRUEvictor.evict] at he
    split at he
    · cases he
    · next first rest hentries =>
      cases he
      refine ⟨⟨_, ?_, rfl⟩, rfl⟩
      exact Dict.mem_entries.mp (hentries ▸ scan_mem)
  | frequencyAware e =>
    obtain ⟨⟨evicted, e₁⟩, he, hr⟩ := bind_eq_ok.mp hr
    cases hr
    rw [FrequencyAwareEvictor.evict] at he
    split at he
    · cases he
    · exact evictLoop_ok he

@[simp] theorem freeTable_add (e : Evictor H) (id : Nat) (h : H) (n : Nat) (t : Int) :
    (e.add id h n t).freeTable = e.freeTable.set id ⟨h, n, t⟩ := by
  cases e with
  | lru e => rfl
  | frequencyAware e => exact freeTable_compactIfNeeded _

theorem update_ok {e e' : Evictor H} {id : Nat} {t : Int} (hr : e.update id t = .ok e') :
    ∃ m, e.freeTable.get? id = some m ∧
      e'.freeTable = e.freeTable.set id { m with lastAccessed := t } := by
  rw [update] at hr
  split at hr
  · cases hr
  · next m hm =>
    refine ⟨m, hm, ?_⟩
    cases e with
    | lru e =>
      cases hr
      rfl
    | frequencyAware e =>
      cases hr
      exact freeTable_compactIfNeeded _

theorem remove_ok {e e' : Evictor H} {id : Nat} (hr : e.remove id = .ok e') :
    id ∈ e.freeTable ∧ e'.freeTable = e.freeTable.erase id := by
  simp only [remove] at hr
  split at hr
  · next hm =>
    refine ⟨hm, ?_⟩
    cases e with
    | lru e =>
      cases hr
      rfl
    | frequencyAware e =>
      cases hr
      exact freeTable_compactIfNeeded _
  · cases hr

/-- An empty evictor raises another exception than an empty allocator. -/
theorem evictLoop_ne {fuel : Nat} {e : FrequencyAwareEvictor H} :
    FrequencyAwareEvictor.evictLoop fuel e ≠ .error .noFreeBlocksError := by
  induction fuel generalizing e with
  | zero => exact nofun
  | succ fuel ih =>
    rw [FrequencyAwareEvictor.evictLoop]
    split
    · exact nofun
    · split
      · exact ih
      · split
        · exact ih
        · split
          · exact ih
          · exact nofun

theorem evict_ne (e : Evictor H) : e.evict ≠ .error .noFreeBlocksError := by
  cases e with
  | lru e =>
    unfold evict LRUEvictor.evict
    dsimp only
    split <;> exact nofun
  | frequencyAware e =>
    unfold evict FrequencyAwareEvictor.evict
    dsimp only
    split
    · exact nofun
    · intro h
      cases hl : FrequencyAwareEvictor.evictLoop (2 * e.heap.length + 1) e with
      | ok a =>
        rw [hl] at h
        cases h
      | error err =>
        rw [hl] at h
        cases h
        exact evictLoop_ne hl

theorem remove_ne (e : Evictor H) (id : Nat) : e.remove id ≠ .error .noFreeBlocksError := by
  unfold remove
  dsimp only
  split
  · cases e <;> exact nofun
  · exact nofun

end Evictor

end Bi100
