import Bi100.Block.Blocks
import Bi100.Lib.Run

/-!
# Every block id is free, evictable or in use

The operations of the allocator, as its callers use them (`AllocOp`):

- tokens are appended only to a block that no live full block follows;
- when an operation may take a block object from the pool, every live block's predecessor is live;
- `swap_in` gets distinct blocks without an id. They may be blocks of another allocator (guests).

Between the operations the CPU tier may change.

- `partition_of_inv`: what the invariant says between two operations.
- `block_ids_partitioned`: it holds after any number of operations.
-/

namespace Bi100

open Py PrefixCachingBlockAllocator

variable {H : Type} [DecidableEq H] [Sha256 H]

/-- An operation that does not raise. -/
inductive AllocOp : AllocState H → AllocState H → Prop where
  | allocateMutableBlock {s s' : AllocState H} {prevBlock : Option Ref} {ns : Bytes} {r : Ref}
      (preds : s.PredsLive) (prev : ∀ q, prevBlock = some q → q ∈ s.live)
      (run : (allocateMutableBlock prevBlock ns).run s = .ok r s') : AllocOp s s'
  | allocateImmutableBlock {s s' : AllocState H} {prevBlock : Option Ref} {tokenIds : List Nat}
      {ns : Bytes} {r : Ref} (preds : s.PredsLive) (prev : ∀ q, prevBlock = some q → q ∈ s.live)
      (run : (allocateImmutableBlock prevBlock tokenIds ns).run s = .ok r s') : AllocOp s s'
  | allocateImmutableBlocks {s s' : AllocState H} {prevBlock : Option Ref}
      {tokens : List (List Nat)} {ns : Bytes} {rs : List Ref} (preds : s.PredsLive)
      (prev : ∀ q, prevBlock = some q → q ∈ s.live)
      (run : (allocateImmutableBlocks ns prevBlock tokens).run s = .ok rs s') : AllocOp s s'
  | appendTokenIds {s s' : AllocState H} {r : Ref} {tokenIds : List Nat} (preds : s.PredsLive)
      (live : r ∈ s.live)
      (last : ∀ q ∈ s.live, (s.heap q).prevBlock = some r → s.isFull q = false)
      (run : (appendTokenIds r tokenIds).run s = .ok () s') : AllocOp s s'
  | fork {s s' : AllocState H} {r : Ref} {rs : List Ref} (preds : s.PredsLive) (live : r ∈ s.live)
      (run : (fork r).run s = .ok rs s') : AllocOp s s'
  | free {s s' : AllocState H} {r : Ref} (own : s.Own r) (run : (free r).run s = .ok () s') :
      AllocOp s s'
  | swapOut {s s' : AllocState H} {rs : List Ref} (live : ∀ r ∈ rs, r ∈ s.live)
      (run : (swapOut rs).run s = .ok () s') : AllocOp s s'
  | swapIn {s s' : AllocState H} {rs : List Ref} (preds : s.PredsLive)
      (live : ∀ r ∈ rs, r ∈ s.live ∧ (s.heap r).blockId = none) (distinct : rs.Nodup)
      (run : (swapIn rs).run s = .ok () s') : AllocOp s s'
  | markBlocksAsAccessed {s s' : AllocState H} {ids : List Nat} {now : Int}
      (run : (markBlocksAsAccessed ids now).run s = .ok () s') : AllocOp s s'
  | markBlocksAsComputed {s s' : AllocState H}
      (run : (markBlocksAsComputed).run s = .ok () s') : AllocOp s s'
  | clearCopyOnWrites {s s' : AllocState H} {l : List (Nat × Nat)}
      (run : (clearCopyOnWrites).run s = .ok l s') : AllocOp s s'
  /-- The CPU tier is used by others. -/
  | tier {s : AllocState H} (c : Option (CpuKvContentCache H)) :
      AllocOp s { s with contentCache := c }
  /-- A block of another allocator is handed to this one. -/
  | guestCame {s : AllocState H} {r : Ref} {b : PrefixCachingBlock H} (pool : r.pool ≠ s.device)
      (new : r ∉ s.live) (preds : s.PredsLive) (blockId : b.blockId = none)
      (kept : ∀ h, b.cachedContentHash = some h →
        HasHash s.blockSize (Function.update s.heap r b) r h)
      (prev : ∀ q, b.prevBlock = some q → q ∈ s.live) :
      AllocOp s { s with guests := insert r s.guests, heap := Function.update s.heap r b }
  | guestLeft {s : AllocState H} {r : Ref} (guest : r ∈ s.guests)
      (blockId : (s.heap r).blockId = none) : AllocOp s { s with guests := s.guests.erase r }

/-- A fresh allocator. -/
def Fresh (s : AllocState H) : Prop :=
  ∃ device blockSize blockIds policy heap contentCache recursionLimit,
    (blockIds : List Nat).Nodup ∧ s =
      { PrefixCachingBlockAllocator.init device blockSize blockIds policy with
        heap := heap
        contentCache := contentCache
        recursionLimit := recursionLimit
        guests := ∅ }

/-- Runs of an allocator. -/
def allocSys (H : Type) [DecidableEq H] [Sha256 H] : Sys (AllocState H) := ⟨Fresh, AllocOp⟩

/-! ## What a run keeps -/

theorem inv_of_fresh {s : AllocState H} (h : Fresh s) :
    Inv ⟨[], none, s⟩ ∧ s.allBlockIds.Nodup := by
  obtain ⟨device, blockSize, blockIds, policy, heap, contentCache, limit, hnd, rfl⟩ := h
  have hlive : ({ PrefixCachingBlockAllocator.init device blockSize blockIds policy with
      heap := heap
      contentCache := contentCache
      recursionLimit := limit
      guests := ∅ } : AllocState H).live = ∅ := by
    ext r
    simp [AllocState.mem_live, AllocState.Own, PrefixCachingBlockAllocator.init]
  have hcached : ∀ (h : H) (id : Nat), (∅ : Dict H Nat).get? h ≠ some id := fun h id hh => by
    rw [Dict.get?_empty] at hh
    cases hh
  refine ⟨⟨⟨hnd, fun id hid => ?_, fun id m hm => ?_, fun id hid => absurd hid (lt_irrefl 0),
    fun id _ => ?_, fun id hid _ => .inl hid, fun h _ id hh => absurd hh (hcached h id),
    fun h id hh => absurd hh (hcached h id)⟩,
    ⟨List.nodup_range, fun i hi => List.mem_range.mp hi, fun r hr => ?_⟩, fun id => ?_,
    fun r hr h hh => ?_, fun r hr => ?_, fun r hr => ?_⟩, hnd⟩
  · exact ⟨hid, rfl, by simp [PrefixCachingBlockAllocator.init], fun h => hcached h id⟩
  · have hm : (Evictor.make policy : Evictor H).freeTable.get? id = some m := hm
    rw [Evictor.freeTable_make, Dict.get?_empty] at hm
    cases hm
  · exact ⟨fun h => (by cases h), fun h => absurd h (lt_irrefl 0)⟩
  · exact absurd hr (Finset.notMem_empty r)
  · dsimp only
    rw [AllocState.holders, hlive]
    rfl
  · -- Nothing is live, so nothing is reached.
    have hno : ∀ q, ¬ AllocState.Reach _ q := fun q hq => by
      induction hq with
      | live hl => exact absurd (hlive ▸ hl) (Finset.notMem_empty _)
      | prev _ _ ih => exact ih
    exact absurd hr (hno r)
  · exact absurd (hlive ▸ hr) (Finset.notMem_empty r)
  · exact absurd (hlive ▸ hr) (Finset.notMem_empty r)

theorem AllocStep.allBlockIds_eq {c c' : AllocConf H} (h : AllocStep c c') :
    c'.st.allBlockIds = c.st.allBlockIds := by
  cases h with
  | hashes same => rw [same.state]
  | _ => rfl

theorem AllocSteps.allBlockIds_eq {c c' : AllocConf H} (h : AllocSteps c c') :
    c'.st.allBlockIds = c.st.allBlockIds := by
  induction h with
  | refl => rfl
  | tail _ hs ih => exact hs.allBlockIds_eq.trans ih

/-- An operation marks the touched ids as computed, or it is a sequence of steps. -/
theorem AllocOp.steps {s s' : AllocState H} (h : AllocOp s s') (hc : Inv ⟨[], none, s⟩) :
    s' = s.marked ∨ AllocSteps ⟨[], none, s⟩ ⟨[], none, s'⟩ := by
  cases h with
  | allocateMutableBlock preds prev run =>
    exact .inr (allocateMutableBlock_ok hc preds prev run).1.steps
  | allocateImmutableBlock preds prev run =>
    exact .inr (allocateImmutableBlock_ok hc preds prev run).1.steps
  | allocateImmutableBlocks preds prev run =>
    exact .inr (allocateImmutableBlocks_ok hc preds prev run).1
  | appendTokenIds preds live last run =>
    exact .inr (appendTokenIds_ok hc preds live last run).1.steps
  | fork preds live run => exact .inr (fork_ok hc preds live run).1
  | free own run => exact .inr (free_ok hc own run).1
  | swapOut live run => exact .inr (swapOut_ok hc live run).1
  | swapIn preds live distinct run => exact .inr (swapIn_ok hc preds live distinct run).1
  | markBlocksAsAccessed run => exact .inr (markBlocksAsAccessed_ok run).1
  | markBlocksAsComputed run => exact .inl (run_modify_ok.mp run)
  | clearCopyOnWrites run =>
    rw [PrefixCachingBlockAllocator.clearCopyOnWrites, run_get_bind, run_set_bind, run_pure_ok]
      at run
    obtain ⟨-, rfl⟩ := run
    exact .inr (AllocStep.steps (.cows []))
  | tier c => exact .inr (AllocStep.steps (.tier c))
  | guestCame pool new preds blockId kept prev =>
    exact .inr (AllocStep.steps (.guestCame pool new preds blockId kept prev))
  | guestLeft guest blockId => exact .inr (AllocStep.steps (.guestLeft guest blockId))

theorem AllocOp.inv {s s' : AllocState H} (h : AllocOp s s') (hc : Inv ⟨[], none, s⟩) :
    Inv ⟨[], none, s'⟩ := by
  rcases h.steps hc with rfl | hsteps
  · exact hc.marked
  · exact hsteps.inv hc

theorem AllocOp.allBlockIds_eq {s s' : AllocState H} (h : AllocOp s s')
    (hc : Inv ⟨[], none, s⟩) : s'.allBlockIds = s.allBlockIds := by
  rcases h.steps hc with rfl | hsteps
  · rfl
  · exact hsteps.allBlockIds_eq

theorem inv_of_reachable {s : AllocState H} (h : (allocSys H).Reachable s) : Inv ⟨[], none, s⟩ :=
  h.invariant (I := fun s => Inv ⟨[], none, s⟩) (fun _ hs => (inv_of_fresh hs).1)
    fun _ _ _ hc hop => AllocOp.inv hop hc

/-! ## The partition -/

/-- Exactly one of three. -/
def ExactlyOne (p q r : Prop) : Prop := (p ∧ ¬ q ∧ ¬ r) ∨ (¬ p ∧ q ∧ ¬ r) ∨ (¬ p ∧ ¬ q ∧ r)

/-- The three states of a block id, and what is counted. -/
structure Partition (s : AllocState H) : Prop where
  /-- An id is in the free list, in the evictor, or referenced. -/
  one : ∀ id ∈ s.allBlockIds,
    ExactlyOne (id ∈ s.freeBlockIndices) (id ∈ s.evictor.freeTable) (0 < s.refcounts id)
  evictable : ∀ id m, s.evictor.freeTable.get? id = some m →
    (s.blockTracker id).active = false ∧ s.cachedBlocks.get? m.contentHash = some id
  active : ∀ id ∈ s.allBlockIds, 0 < s.refcounts id → (s.blockTracker id).active = true
  count : ∀ id ∈ s.allBlockIds, s.refcounts id = (s.holders id).card
  cached : ∀ h h' id, s.cachedBlocks.get? h = some id → s.cachedBlocks.get? h' = some id → h = h'
  total : getNumFreeBlocks s + (s.allBlockIds.filter (0 < s.refcounts ·)).length =
    getNumTotalBlocks s

/-- The ids in the three states are as many as there are ids. -/
theorem total_of_inv {s : AllocState H} (hc : IdInv s) (hnd : s.allBlockIds.Nodup) :
    getNumFreeBlocks s + (s.allBlockIds.filter (0 < s.refcounts ·)).length =
      getNumTotalBlocks s := by
  have hkeys : ∀ id, id ∈ s.evictor.freeTable.keys ↔ id ∈ s.evictor.freeTable := fun _ =>
    Dict.mem_def.symm
  have hperm : (s.freeBlockIndices ++ (s.evictor.freeTable.keys ++
      s.allBlockIds.filter (0 < s.refcounts ·))).Perm s.allBlockIds := by
    rw [List.perm_ext_iff_of_nodup ?_ hnd]
    · intro id
      simp only [List.mem_append, hkeys, List.mem_filter, decide_eq_true_eq]
      constructor
      · rintro (hf | he | ⟨ha, -⟩)
        · exact (hc.free id hf).1
        · obtain ⟨m, hm⟩ := Dict.mem_iff.mp he
          exact (hc.evictable id m hm).1
        · exact ha
      · intro ha
        rcases Nat.eq_zero_or_pos (s.refcounts id) with h0 | hpos
        · exact (hc.cover id ha h0).imp_right .inl
        · exact .inr (.inr ⟨ha, hpos⟩)
    · refine List.nodup_append.mpr ⟨hc.free_nodup, List.nodup_append.mpr
        ⟨Dict.nodup_keys _, hnd.filter _, ?_⟩, ?_⟩
      · rintro id he _ ha rfl
        obtain ⟨m, hm⟩ := Dict.mem_iff.mp ((hkeys id).mp he)
        have h0 := (hc.evictable id m hm).2.1
        have hpos := of_decide_eq_true (List.mem_filter.mp ha).2
        omega
      · rintro id hf _ hr rfl
        obtain ⟨-, h0, hne, -⟩ := hc.free id hf
        rcases List.mem_append.mp hr with he | ha
        · exact hne ((hkeys id).mp he)
        · have hpos := of_decide_eq_true (List.mem_filter.mp ha).2
          omega
  have hlen := hperm.length_eq
  rw [List.length_append, List.length_append, Dict.length_keys] at hlen
  rw [getNumFreeBlocks, getNumTotalBlocks, Evictor.numBlocks]
  omega

theorem partition_of_inv {s : AllocState H} (hc : Inv ⟨[], none, s⟩)
    (hnd : s.allBlockIds.Nodup) : Partition s := by
  have hids := hc.ids
  constructor
  · intro id hid
    rcases Nat.eq_zero_or_pos (s.refcounts id) with h0 | hpos
    · have hact : ¬ 0 < s.refcounts id := by omega
      rcases hids.cover id hid h0 with hf | he
      · exact .inl ⟨hf, (hids.free id hf).2.2.1, hact⟩
      · exact .inr (.inl ⟨fun hf => (hids.free id hf).2.2.1 he, he, hact⟩)
    · refine .inr (.inr ⟨fun hf => ?_, fun he => ?_, hpos⟩)
      · have h0 : s.refcounts id = 0 := (hids.free id hf).2.1
        omega
      · obtain ⟨m, hm⟩ := Dict.mem_iff.mp he
        have h0 : s.refcounts id = 0 := (hids.evictable id m hm).2.1
        omega
  · intro id m hm
    obtain ⟨hid, h0, hget⟩ := hids.evictable id m hm
    refine ⟨Bool.eq_false_iff.mpr fun ha => ?_, hget⟩
    have hpos := (hids.active id hid).mp ha
    dsimp only at h0 hpos
    omega
  · exact fun id hid hpos => (hids.active id hid).mpr hpos
  · exact fun id _ => hc.count id
  · exact hids.cached_inj
  · exact total_of_inv hids hnd

/-- In every run of operations that do not raise, the block ids stay partitioned. -/
theorem block_ids_partitioned {s : AllocState H} (h : (allocSys H).Reachable s) :
    Partition s := by
  have hinv : Inv ⟨[], none, s⟩ ∧ s.allBlockIds.Nodup := by
    refine h.invariant (I := fun s => Inv ⟨[], none, s⟩ ∧ s.allBlockIds.Nodup)
      (fun s hs => inv_of_fresh hs) ?_
    rintro s s' - ⟨hc, hnd⟩ hop
    exact ⟨hop.inv hc, hop.allBlockIds_eq hc ▸ hnd⟩
  exact partition_of_inv hinv.1 hinv.2

/-! ## Other orders of operations -/

/-- A digest for runs on fixed inputs. -/
structure PlainDigest where
  bytes : Bytes
deriving DecidableEq

instance : Sha256 PlainDigest := ⟨PlainDigest.mk, PlainDigest.bytes⟩

/-- Four ids of one token each. -/
def fourBlocks : AllocState PlainDigest :=
  { PrefixCachingBlockAllocator.init .gpu 1 [0, 1, 2, 3] .lru with
    heap := fun _ => .blank
    contentCache := none
    recursionLimit := 16
    guests := ∅ }

/-- Tokens are appended to a block after its successor became full. -/
def appendBeforeFull : AllocM PlainDigest Unit := do
  let _ ← allocateImmutableBlocks [] none [[1], [2]]
  let first ← allocateMutableBlock none []
  let second ← allocateMutableBlock (some first) []
  appendTokenIds second [2]
  appendTokenIds first [1]
  free second

/-- A first block is freed and its object reused while its successor is in use. -/
def reusePredecessor : AllocM PlainDigest Unit := do
  let blocks ← allocateImmutableBlocks [] none [[1], [2]]
  let forked ← fork (blocks.getD 1 ⟨.gpu, 0⟩)
  free (blocks.getD 0 ⟨.gpu, 0⟩)
  free (blocks.getD 1 ⟨.gpu, 0⟩)
  free (forked.getD 0 ⟨.gpu, 0⟩)
  let _ ← allocateMutableBlock none []
  free (forked.getD 1 ⟨.gpu, 0⟩)
  let _ ← allocateImmutableBlocks [] none [[1], [2]]

/-- A block that holds an id is swapped in. -/
def swapInHolder : AllocM PlainDigest Unit := do
  let block ← allocateMutableBlock none []
  swapIn [block]

theorem fresh_fourBlocks : Fresh fourBlocks :=
  ⟨.gpu, 1, [0, 1, 2, 3], .lru, fun _ => .blank, none, 16, by decide, rfl⟩

/-- Two blocks of one prompt, from a fresh allocator. -/
theorem block_ids_partitioned_prompt : ∃ rs s,
    (allocateImmutableBlocks [] none [[1], [2]]).run fourBlocks = .ok rs s ∧
      (s.refcounts 1 = 1 ∧ s.freeBlockIndices = [2, 3]) ∧ Partition s := by
  obtain ⟨rs, s, hrun, hs⟩ := check_eq_true.mp (show check
    (allocateImmutableBlocks [] none [[1], [2]]) fourBlocks
    (fun _ s => s.refcounts 1 = 1 ∧ s.freeBlockIndices = [2, 3]) = true by decide +kernel)
  have hempty : fourBlocks.live = ∅ := by decide +kernel
  refine ⟨rs, s, hrun, of_decide_eq_true hs, ?_⟩
  refine block_ids_partitioned (.step (.init fresh_fourBlocks) (.allocateImmutableBlocks ?_ ?_ hrun))
  · intro r hr
    rw [hempty] at hr
    exact absurd hr (Finset.notMem_empty r)
  · exact fun q hq => nomatch hq

/-- None of these three runs raises. After the first, an evictable id is not the one that its hash
is cached under; after the second, a referenced id is in the free list; after the third, a
referenced id has no holder. -/
theorem not_partitioned :
    (∃ s, appendBeforeFull.run fourBlocks = .ok () s ∧ ¬ Partition s) ∧
    (∃ s, reusePredecessor.run fourBlocks = .ok () s ∧ ¬ Partition s) ∧
    ∃ s, swapInHolder.run fourBlocks = .ok () s ∧ ¬ Partition s := by
  refine ⟨?_, ?_, ?_⟩
  · obtain ⟨_, s, hrun, hbad⟩ := check_eq_true.mp (show check appendBeforeFull fourBlocks
      (fun _ s => s.evictor.freeTable.entries.any fun p =>
        s.cachedBlocks.get? p.2.contentHash ≠ some p.1) = true by decide +kernel)
    obtain ⟨⟨id, m⟩, hmem, hne⟩ := List.any_eq_true.mp hbad
    refine ⟨s, hrun, fun hp => of_decide_eq_true hne ?_⟩
    exact (hp.evictable id m (Dict.mem_entries.mp hmem)).2
  · obtain ⟨_, s, hrun, hbad⟩ := check_eq_true.mp (show check reusePredecessor fourBlocks
      (fun _ s => s.allBlockIds.any fun id => id ∈ s.freeBlockIndices ∧ 0 < s.refcounts id) = true
        by decide +kernel)
    obtain ⟨id, hmem, hbad⟩ := List.any_eq_true.mp hbad
    obtain ⟨hfree, hpos⟩ := of_decide_eq_true hbad
    refine ⟨s, hrun, fun hp => ?_⟩
    rcases hp.one id hmem with ⟨-, -, hn⟩ | ⟨hn, -, -⟩ | ⟨hn, -, -⟩
    · exact hn hpos
    · exact hn hfree
    · exact hn hfree
  · obtain ⟨_, s, hrun, hbad⟩ := check_eq_true.mp (show check swapInHolder fourBlocks
      (fun _ s => s.allBlockIds.any fun id => s.refcounts id ≠ (s.holders id).card) = true
        by decide +kernel)
    obtain ⟨id, hmem, hne⟩ := List.any_eq_true.mp hbad
    exact ⟨s, hrun, fun hp => of_decide_eq_true hne (hp.count id hmem)⟩

end Bi100
