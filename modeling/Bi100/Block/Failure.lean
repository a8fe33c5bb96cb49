import Bi100.Block.CachingLaws
import Bi100.Block.Partition
import Bi100.CpuKv.Calls

/-!
# What is left behind when no block is free

`_allocate_block_id` raises before it changes anything. What the caller had done by then stays.

- `failed_calls`: for each call that takes ids, the state after `NoFreeBlocksError`.
- `failure_not_atomic`: three calls after which the allocator is not what it was.
-/

namespace Bi100

open Py AllocState PrefixCachingBlockAllocator

variable {H : Type}

/-- The block ids and the cache are as before. -/
structure SameIds (s s' : AllocState H) : Prop where
  free : s'.freeBlockIndices = s.freeBlockIndices
  evictor : s'.evictor = s.evictor
  refcounts : s'.refcounts = s.refcounts
  cached : s'.cachedBlocks = s.cachedBlocks

/-- The same objects are free, or the pool was empty and has doubled. -/
def PoolKept (s s' : AllocState H) : Prop :=
  (s'.poolSize = s.poolSize ∧ s'.poolFreeIds = s.poolFreeIds) ∨
    (s.poolFreeIds = [] ∧ s'.poolSize = 2 * s.poolSize ∧
      s'.poolFreeIds = List.range' s.poolSize s.poolSize)

/-- The ids, the cache and the pool are as before. -/
structure Unchanged (s s' : AllocState H) : Prop extends SameIds s s' where
  poolSize : s'.poolSize = s.poolSize
  poolFree : s'.poolFreeIds = s.poolFreeIds

namespace SameIds

variable {s s' s'' : AllocState H}

theorem refl (s : AllocState H) : SameIds s s := ⟨rfl, rfl, rfl, rfl⟩

theorem trans (h : SameIds s s') (h' : SameIds s' s'') : SameIds s s'' :=
  ⟨h'.free.trans h.free, h'.evictor.trans h.evictor, h'.refcounts.trans h.refcounts,
    h'.cached.trans h.cached⟩

theorem numFree (h : SameIds s s') : getNumFreeBlocks s' = getNumFreeBlocks s := by
  rw [getNumFreeBlocks, getNumFreeBlocks, h.free, h.evictor]

end SameIds

theorem Unchanged.refl (s : AllocState H) : Unchanged s s := ⟨.refl s, rfl, rfl⟩

section Hashing

variable [Sha256 H]

/-- The content hash of a block that is made of this. -/
def NewHash (s : AllocState H) (prevBlock : Option Ref) (tokenIds : List Nat) (ns : Bytes)
    (h : H) : Prop :=
  s.blockSize - tokenIds.length = 0 ∧
    ((prevBlock = none ∧ h = hashBlockTokens none tokenIds ns) ∨
      ∃ p x, prevBlock = some p ∧ HasHash s.blockSize s.heap p x ∧
        h = hashBlockTokens (some x) tokenIds ns)

/-- The CPU tier has the content of a block that is made of this, ready to be loaded. -/
def InTier [DecidableEq H] (s : AllocState H) (prevBlock : Option Ref) (tokenIds : List Nat)
    (ns : Bytes) : Prop :=
  ∃ h c slot, NewHash s prevBlock tokenIds ns h ∧ s.contentCache = some c ∧
    c.hashToSlot.get? h = some slot ∧ slot ∈ c.readySlots

/-- An immutable block was refused. -/
structure Refused [DecidableEq H] (s : AllocState H) (prevBlock : Option Ref)
    (tokenIds : List Nat) (ns : Bytes) (s' : AllocState H) : Prop where
  none_free : getNumFreeBlocks s = 0
  ids : SameIds s s'
  pool : ¬ InTier s prevBlock tokenIds ns → PoolKept s s'

end Hashing

/-! ## Asking for an id -/

namespace PrefixCachingBlockAllocator

variable {s s' : AllocState H} {r : Ref}

theorem SameButHashes.sameIds (h : SameButHashes s s') : SameIds s s' := by
  rw [h.state]
  exact ⟨rfl, rfl, rfl, rfl⟩

variable [DecidableEq H]

/-- Without a free block the request is refused, and changes nothing. -/
theorem allocateBlockId_refused (hzero : getNumFreeBlocks s = 0) :
    (allocateBlockId).run s = .error .noFreeBlocksError s := by
  rw [getNumFreeBlocks] at hzero
  have hfree : s.freeBlockIndices = [] := List.length_eq_zero_iff.mp (by omega)
  have hevict : s.evictor.numBlocks = 0 := by omega
  have hhashless : (maybeAllocateHashlessBlockId).run s = .ok none s := by
    rw [maybeAllocateHashlessBlockId, run_get_bind, hfree]
    rfl
  have hevicted : (maybeAllocateEvictedBlockId).run s = .ok none s := by
    rw [maybeAllocateEvictedBlockId, run_get_bind, if_pos hevict]
    rfl
  rw [allocateBlockId, run_bind_of_ok hhashless]
  dsimp only
  rw [run_bind_of_ok hevicted]
  rfl

theorem allocateBlockId_error (h : (allocateBlockId).run s = .error .noFreeBlocksError s') :
    s' = s ∧ getNumFreeBlocks s = 0 := by
  have hlt := allocateBlockId_costs.raises s' h
  have hzero : getNumFreeBlocks s = 0 := by omega
  rw [allocateBlockId_refused hzero] at h
  cases h
  exact ⟨rfl, hzero⟩

/-- A hit does not ask for an id. -/
theorem incrRefcountCachedBlock_never :
    Never .noFreeBlocksError (incrRefcountCachedBlock (H := H) r) := by
  have : ByIds (H := H) fun _ => 0 := ⟨fun _ _ _ _ => rfl⟩
  intro s
  unfold incrRefcountCachedBlock
  refine .modify_bind (l := 0) ?_ (Nat.le_refl _)
  refine getBlockId_costs.then_of_zero fun id _ _ => refIncr_costs.then_of_zero fun n t _ => ?_
  split
  · refine .get_bind (.lift_bind ?_ fun e he => .set_bind (l := 0) trackBlockId_costs
      (Nat.le_refl _))
    split
    · exact Evictor.remove_ne _ _
    · exact nofun
  · exact .ret

theorem allocateMutableBlock_refused [Sha256 H] (prevBlock : Option Ref) (ns : Bytes)
    (hzero : getNumFreeBlocks s = 0) :
    (allocateMutableBlock prevBlock ns).run s = .error .noFreeBlocksError s :=
  run_bind_error.mpr (.inl (allocateBlockId_refused hzero))

section Hashing

variable [Sha256 H] {o : List Nat} {prevBlock : Option Ref} {tokenIds : List Nat} {ns : Bytes}

/-! ## An immutable block -/

/-- A new block has the hash of what it is made of. -/
theorem newHash_iff {o' : List Nat} {p p' : Option Ref} {x : H} (hp : s.PredsLive)
    (hprev : s.PrevLive prevBlock) (hm : Made o p s r prevBlock tokenIds ns o' p' s') :
    HasHash s'.blockSize s'.heap r x ↔ NewHash s prevBlock tokenIds ns x := by
  have hold : ∀ q, prevBlock = some q → ∀ y,
      HasHash s.blockSize s'.heap q y ↔ HasHash s.blockSize s.heap q y := fun q hq y =>
    (HasHash.congr (K := (· ∈ s.live)) (fun a c ha hac => hp a ha c hac)
      (fun a ha => hm.frame.content ha) (hprev q hq)).symm
  rw [HasHash.iff_prev, NewHash, hm.prev, hm.tokens, hm.frame.blockSize]
  refine and_congr_right fun _ => or_congr ?_ ?_
  · exact and_congr_right fun hn => by rw [hm.ns hn]
  · refine exists_congr fun q => exists_congr fun y => ?_
    exact and_congr_right fun hq => by rw [hold q hq y]; rfl

omit [DecidableEq H] [Sha256 H] in
/-- A new block object goes back to the pool. -/
theorem poolKept_of_free {size : Nat} {ids : List Nat} (h : PoolPop s r size ids)
    (hsize : s'.poolSize = size) (hids : s'.poolFreeIds = r.poolId :: ids) : PoolKept s s' := by
  rcases h.2 with ⟨hpop, rfl⟩ | ⟨hempty, rfl, hrange⟩
  · exact .inl ⟨hsize, hids.trans hpop.symm⟩
  · exact .inr ⟨hempty, hsize, hids.trans hrange.symm⟩

omit [DecidableEq H] [Sha256 H] in
theorem tier_run_ok {α : Type} {x : EStateM Err (CpuKvContentCache H) α} {a : α}
    (h : (tier x).run s = .ok a s') : ∃ c c', s.contentCache = some c ∧ x.run c = .ok a c' ∧
      s' = { s with contentCache := some c' } := by
  simp only [EStateM.run, tier] at h
  split at h
  · cases h
  · next c hcache =>
    split at h
    · next b c' hx =>
      cases h
      exact ⟨c, c', hcache, hx, rfl⟩
    · cases h

omit [Sha256 H] in
/-- A claimed slot is given up again, and the exception goes on. -/
theorem restoreClaimed_error {x : H} {slot : Nat}
    (h : (restoreClaimed r x slot).run s = .error .noFreeBlocksError s') :
    SameIds s s' := by
  rw [restoreClaimed] at h
  rcases run_bind_error.mp h with h | ⟨id, s₁, -, h⟩
  · obtain ⟨e, s₁, h₁, h⟩ := run_tryCatch_error.mp h
    obtain ⟨_, s₂, h₂, h⟩ := (tier_costs CpuKvContentCache.cancelLoad_never).error_of_bind h
    obtain ⟨c, rfl⟩ := tier_ok h₂
    cases h
    obtain ⟨rfl, -⟩ := allocateBlockId_error h₁
    exact ⟨rfl, rfl, rfl, rfl⟩
  · exact absurd h (restoreAllocated_costs.not_error (Nat.zero_le _) s')

/-- The tier is asked to load a block for which there is no id. -/
theorem maybeRestoreExternalCachedBlock_error (hc : Inv ⟨o, none, s⟩) (hr : r ∈ s.live)
    (h : (maybeRestoreExternalCachedBlock r).run s = .error .noFreeBlocksError s') :
    SameIds s s' ∧ ∃ x c slot, HasHash s.blockSize s.heap r x ∧ s.contentCache = some c ∧
      c.hashToSlot.get? x = some slot ∧ slot ∈ c.readySlots := by
  rw [maybeRestoreExternalCachedBlock, run_get_bind] at h
  split at h
  · cases h
  obtain ⟨x, s₁, h₁, h⟩ := getContentHash_costs.error_of_bind h
  obtain ⟨hsame, -, hx⟩ := getContentHash_ok hc hr h₁
  rw [run_get_bind, run_raiseIf_bind] at h
  split at h
  · cases h
  obtain ⟨claim, s₂, h₂, h⟩ := (tier_costs CpuKvContentCache.claimLoad_never).error_of_bind h
  obtain ⟨c, c', hcache, hclaim, rfl⟩ := tier_run_ok h₂
  rcases (CpuKvContentCache.claimLoad_ok hclaim).2 with ⟨rfl, -⟩ | ⟨slot, rfl, hslot, hready, -⟩
  · cases h
  rcases run_bind_error.mp h with h | ⟨_, s₃, -, h⟩
  · have hids := restoreClaimed_error h
    have hids₁ : SameIds s { s₁ with contentCache := some c' } :=
      hsame.sameIds.trans ⟨rfl, rfl, rfl, rfl⟩
    refine ⟨hids₁.trans hids, x, c, slot, hx, ?_, hslot, hready⟩
    rw [hsame.state] at hcache
    exact hcache
  · cases h

/-- A miss in the tier changes nothing but the tier and kept hashes. -/
theorem maybeRestoreExternalCachedBlock_miss
    (hc : Inv ⟨o, none, s⟩) (hr : r ∈ s.live)
    (h : (maybeRestoreExternalCachedBlock r).run s = .ok false s') :
    SameIds s s' ∧ s'.poolSize = s.poolSize ∧ s'.poolFreeIds = s.poolFreeIds := by
  rw [maybeRestoreExternalCachedBlock, run_get_bind] at h
  split at h
  · obtain ⟨-, rfl⟩ := run_pure_ok.mp h
    exact ⟨.refl _, rfl, rfl⟩
  obtain ⟨x, s₁, h₁, h⟩ := run_bind_ok.mp h
  obtain ⟨hsame, -, -⟩ := getContentHash_ok hc hr h₁
  rw [run_get_bind, run_raiseIf_bind_ok] at h
  obtain ⟨claim, s₂, h₂, h⟩ := run_bind_ok.mp h.2
  obtain ⟨c, rfl⟩ := tier_ok h₂
  cases claim with
  | none =>
    obtain ⟨-, rfl⟩ := run_pure_ok.mp h
    refine ⟨hsame.sameIds.trans ⟨rfl, rfl, rfl, rfl⟩, ?_, ?_⟩
    · show s₁.poolSize = s.poolSize
      rw [hsame.state]
    · show s₁.poolFreeIds = s.poolFreeIds
      rw [hsame.state]
  | some slot =>
    obtain ⟨_, s₃, -, h⟩ := run_bind_ok.mp h
    cases (run_pure_ok.mp h).1

theorem allocateImmutableBlock_error (hc : Inv ⟨o, none, s⟩) (hp : s.PredsLive)
    (hprev : s.PrevLive prevBlock)
    (h : (allocateImmutableBlock prevBlock tokenIds ns).run s = .error .noFreeBlocksError s') :
    Refused s prevBlock tokenIds ns s' := by
  have hzero : getNumFreeBlocks s = 0 :=
    Nat.lt_one_iff.mp ((allocateImmutableBlock_costs hc hp hprev).raises s' h)
  rw [allocateImmutableBlock] at h
  obtain ⟨q, s₁, h₁, h⟩ := initBlock_costs.error_of_bind h
  obtain ⟨hm, hnone⟩ := initBlock_made hc hp hprev h₁
  obtain ⟨size, ids, b, hpop, hs₁, -⟩ := initBlock_ok h₁
  have hids₁ : SameIds s s₁ := hs₁ ▸ ⟨rfl, rfl, rfl, rfl⟩
  have hc₁ := hm.steps.inv hc
  obtain ⟨x, s₂, h₂, h⟩ := getContentHash_costs.error_of_bind h
  obtain ⟨hsame, hsound, hx⟩ := getContentHash_ok hc₁ hm.mem h₂
  have hids₂ := hids₁.trans hsame.sameIds
  have hc₂ := hc₁.hashes hsame hsound
  have hq₂ : q ∈ s₂.live := hsame.live_eq ▸ hm.mem
  rw [run_get_bind] at h
  split at h
  · next cached hget =>
    obtain ⟨_, s₃, -, h⟩ := (setBlockId_costs (m := getNumFreeBlocks)).error_of_bind h
    obtain ⟨_, s₄, -, h⟩ := (incrRefcountCachedBlock_never s₃).error_of_bind h
    cases h
  · rw [allocateUncachedBlock] at h
    rcases run_bind_error.mp h with h | ⟨restored, s₃, h₃, h⟩
    · obtain ⟨hids, y, c, slot, hy, hcache, hslot, hready⟩ :=
        maybeRestoreExternalCachedBlock_error hc₂ hq₂ h
      refine ⟨hzero, hids₂.trans hids, fun htier => absurd ?_ htier⟩
      refine ⟨y, c, slot, (newHash_iff hp hprev hm).mp (hsame.hasHash_iff.mp hy), ?_, hslot, hready⟩
      rw [hsame.state, hs₁] at hcache
      exact hcache
    · cases restored with
      | true => cases h
      | false =>
        obtain ⟨hids, hsize, hfree⟩ := maybeRestoreExternalCachedBlock_miss hc₂ hq₂ h₃
        obtain ⟨_, s₄, h₄, h⟩ := (poolFree_costs (m := getNumFreeBlocks)).error_of_bind h
        obtain rfl := poolFree_ok.mp h₄
        have hids₄ : SameIds s { s₃ with poolFreeIds := q.poolId :: s₃.poolFreeIds } :=
          (hids₂.trans hids).trans ⟨rfl, rfl, rfl, rfl⟩
        have hrefused := allocateMutableBlock_refused prevBlock ns
          (hids₄.numFree.trans hzero)
        rcases run_bind_error.mp h with h | ⟨r', s₅, h₅, -⟩
        · cases hrefused.symm.trans h
          refine ⟨hzero, hids₄, fun _ => poolKept_of_free hpop ?_ ?_⟩
          · show s₃.poolSize = size
            rw [hsize, hsame.state, hs₁]
            rfl
          · show q.poolId :: s₃.poolFreeIds = _
            rw [hfree, hsame.state, hs₁]
            rfl
        · cases hrefused.symm.trans h₅

/-! ## Several blocks -/

/-- A block that holds an id, and did not, adds a reference. -/
theorem refcounts_lt {q : Ref} {id : Nat} (hc : Inv ⟨[], none, s⟩) (hc' : Inv ⟨[], none, s'⟩)
    (hlive : s.live ⊆ s'.live)
    (hkept : ∀ r ∈ s.live, (s.heap r).blockId = some id → (s'.heap r).blockId = some id)
    (hq : q ∈ s'.live) (hid : (s'.heap q).blockId = some id)
    (hnew : q ∈ s.live → (s.heap q).blockId = none) : s.refcounts id < s'.refcounts id := by
  rw [refcounts_eq hc, refcounts_eq hc']
  refine Finset.card_lt_card (Finset.ssubset_iff_subset_ne.mpr ⟨fun r hr => ?_, fun he => ?_⟩)
  · obtain ⟨hrl, hrid⟩ := mem_holders.mp hr
    exact mem_holders.mpr ⟨hlive hrl, hkept r hrl hrid⟩
  · have hqs : q ∈ s.holders id := he ▸ mem_holders.mpr ⟨hq, hid⟩
    obtain ⟨hql, hqid⟩ := mem_holders.mp hqs
    cases (hnew hql).symm.trans hqid

/-- New blocks hold references. -/
theorem refcounts_ne_of_newBlocks {tokens : List (List Nat)} {rs : List Ref}
    (hc : Inv ⟨[], none, s⟩) (hc' : Inv ⟨[], none, s'⟩) (h : s.NewBlocks prevBlock tokens rs s')
    (hne : rs ≠ []) : s'.refcounts ≠ s.refcounts := by
  obtain ⟨q, hq⟩ := List.exists_mem_of_ne_nil rs hne
  obtain ⟨id, hid⟩ := Option.ne_none_iff_exists'.mp (h.blockId q hq)
  have hlt := refcounts_lt hc hc' h.subset (fun r hr hrid => (h.frame.blockId hr).trans hrid)
    (h.mem hq) hid fun hql => absurd hql (h.new q hq)
  exact fun he => Nat.ne_of_lt hlt (congrFun he id).symm

/-- So do blocks that got an id. -/
theorem refcounts_ne_of_moved {rs : List Ref} (hc : Inv ⟨[], none, s⟩) (hc' : Inv ⟨[], none, s'⟩)
    (hlive : ∀ r ∈ rs, r ∈ s.live ∧ (s.heap r).blockId = none) (h : s.Moved rs true s')
    (hne : rs ≠ []) : s'.refcounts ≠ s.refcounts := by
  obtain ⟨q, hq⟩ := List.exists_mem_of_ne_nil rs hne
  obtain ⟨id, hid⟩ := Option.isSome_iff_exists.mp (h.blockId q hq)
  have hlt := refcounts_lt hc hc' h.live.ge (fun r hr hrid => ?_) (h.live ▸ (hlive q hq).1) hid
    fun _ => (hlive q hq).2
  · exact fun he => Nat.ne_of_lt hlt (congrFun he id).symm
  · refine (h.blockId_of_not_mem hr fun hrs => ?_).trans hrid
    cases (hlive r hrs).2.symm.trans hrid

/-- The blocks before the refused one were made. -/
theorem allocateImmutableBlocks_error {tokens : List (List Nat)} (hc : Inv ⟨o, none, s⟩)
    (hp : s.PredsLive) (hprev : s.PrevLive prevBlock)
    (h : (allocateImmutableBlocks ns prevBlock tokens).run s = .error .noFreeBlocksError s') :
    ∃ before tokenIds after rs t, tokens = before ++ tokenIds :: after ∧
      (allocateImmutableBlocks ns prevBlock before).run s = .ok rs t ∧
      Refused t (rs.getLast?.or prevBlock) tokenIds ns s' := by
  induction tokens generalizing prevBlock s with
  | nil => cases h
  | cons tokenIds rest ih =>
    rw [allocateImmutableBlocks] at h
    rcases run_bind_error.mp h with h | ⟨r, s₁, h₁, h⟩
    · exact ⟨[], tokenIds, rest, [], s, rfl, rfl, allocateImmutableBlock_error hc hp hprev h⟩
    rcases run_bind_error.mp h with h | ⟨rs, s₂, -, h⟩
    · obtain ⟨hm, -⟩ := allocateImmutableBlock_ok hc hp hprev h₁
      obtain ⟨before, last, after, rs, t, rfl, hrun, href⟩ := ih (hm.steps.inv hc)
        (hm.predsLive hp hprev) (fun q hq => Option.some.inj hq ▸ hm.mem) h
      refine ⟨tokenIds :: before, last, after, r :: rs, t, rfl, ?_, ?_⟩
      · rw [allocateImmutableBlocks, run_bind_of_ok h₁, run_bind_of_ok hrun]
        rfl
      · rwa [List.getLast?_cons, Option.some_or, ← Option.or_some]
    · cases h

/-! ## Swapping in -/

/-- A block was not swapped in. -/
def RefusedSwap (s : AllocState H) (r : Ref) (s' : AllocState H) : Prop :=
  if s.isFull r then
    Refused s (s.heap r).prevBlock (s.heap r).tokenIds (s.heap r).cacheNamespace s'
  else Unchanged s s'

theorem RefusedSwap.sameIds {s s' : AllocState H} {r : Ref} (h : RefusedSwap s r s') :
    SameIds s s' := by
  unfold RefusedSwap at h
  split at h
  · exact h.ids
  · exact h.toSameIds

theorem swapInBlock_error (hc : Inv ⟨o, none, s⟩) (hp : s.PredsLive) (hr : r ∈ s.live)
    (h : (swapInBlock r).run s = .error .noFreeBlocksError s') : RefusedSwap s r s' := by
  have hprev : s.PrevLive (s.heap r).prevBlock := hp r hr
  rw [swapInBlock] at h
  rcases run_bind_error.mp h with h | ⟨tmp, s₁, -, h⟩
  · rw [allocateSwapBlock, run_get_bind] at h
    dsimp only at h
    unfold RefusedSwap
    split at h
    · next hfull =>
      rw [if_pos hfull]
      exact allocateImmutableBlock_error hc hp hprev h
    · next hfull =>
      rw [if_neg hfull]
      have hzero : getNumFreeBlocks s = 0 :=
        Nat.lt_one_iff.mp ((allocateMutable_append_costs hc hp hprev).raises s' h)
      have hrefused := allocateMutableBlock_refused (s.heap r).prevBlock
        (s.heap r).cacheNamespace hzero
      rcases run_bind_error.mp h with h | ⟨_, _, h₂, -⟩
      · cases hrefused.symm.trans h
        exact .refl s
      · cases hrefused.symm.trans h₂
  · have hrest : Costs 0 (do
        let blockId := ((← get).heap tmp).blockId
        poolFree tmp
        setBlockId r blockId) s₁ :=
      .get_bind (poolFree_costs.then_of_zero fun _ _ _ => setBlockId_costs)
    exact absurd h (hrest.not_error (Nat.zero_le _) s')

/-- The blocks before the refused one were swapped in. -/
theorem swapIn_error {rs : List Ref} (hc : Inv ⟨o, none, s⟩) (hp : s.PredsLive)
    (hlive : ∀ r ∈ rs, r ∈ s.live ∧ (s.heap r).blockId = none) (hnodup : rs.Nodup)
    (h : (swapIn rs).run s = .error .noFreeBlocksError s') :
    ∃ before r after t, rs = before ++ r :: after ∧ (swapIn before).run s = .ok ⟨⟩ t ∧
      RefusedSwap t r s' := by
  rw [swapIn] at h
  induction rs generalizing s with
  | nil => cases h
  | cons r rest ih =>
    rw [List.forM_cons] at h
    obtain ⟨hr, hnone⟩ := hlive r List.mem_cons_self
    rcases run_bind_error.mp h with h | ⟨_, s₁, h₁, h⟩
    · exact ⟨[], r, rest, s, rfl, rfl, swapInBlock_error hc hp hr h⟩
    · obtain ⟨hsteps, hmoved⟩ := swapInBlock_ok hc hp hr hnone h₁
      obtain ⟨hnr, hnodup⟩ := List.nodup_cons.mp hnodup
      obtain ⟨before, q, after, t, rfl, hrun, href⟩ := ih (hsteps.inv hc) (hmoved.predsLive hp)
        (fun q hq => by
          obtain ⟨hql, hqn⟩ := hlive q (List.mem_cons_of_mem _ hq)
          refine ⟨hmoved.live ▸ hql, (hmoved.blockId_of_not_mem hql ?_).trans hqn⟩
          exact fun hm => hnr (List.mem_singleton.mp hm ▸ hq)) hnodup h
      refine ⟨r :: before, q, after, t, rfl, ?_, href⟩
      rw [swapIn, List.forM_cons, run_bind_of_ok h₁]
      exact hrun

/-! ## Copying on write -/

omit [DecidableEq H] [Sha256 H] in
/-- A shared id loses a reference. -/
theorem decrRefcountHashlessBlock_shared {u : Unit} {id : Nat}
    (hid : (s.heap r).blockId = some id) (hshared : 1 < s.refcounts id)
    (h : (decrRefcountHashlessBlock r).run s = .ok u s') :
    s' = withId (withRefcount s id (s.refcounts id - 1)) r none := by
  rw [decrRefcountHashlessBlock, getBlockId_bind_ok] at h
  obtain ⟨id', hid', h⟩ := h
  obtain rfl := Option.some.inj (hid.symm.trans hid')
  rw [refGet_bind_ok, if_neg (by omega)] at h
  obtain ⟨id', hid', -, rfl⟩ := hashlessFree_ok h.2
  obtain rfl := Option.some.inj (hid.symm.trans hid')
  rw [if_neg (by omega)]
  rfl

omit [Sha256 H] in
/-- The reference to the shared id is gone before the new id is refused. -/
theorem cowBlockIfNotAppendable_error {id : Nat} (hid : (s.heap r).blockId = some id)
    (hshared : 1 < s.refcounts id)
    (h : (cowBlockIfNotAppendable r).run s = .error .noFreeBlocksError s') :
    s' = withId (withRefcount s id (s.refcounts id - 1)) r none := by
  rw [cowBlockIfNotAppendable] at h
  obtain ⟨id', s₁, h₁, h⟩ := (getBlockId_costs (m := getNumFreeBlocks)).error_of_bind h
  obtain ⟨hid', rfl⟩ := getBlockId_ok.mp h₁
  obtain rfl := Option.some.inj (hid.symm.trans hid')
  obtain ⟨n, s₂, h₂, h⟩ := (refGet_costs (m := getNumFreeBlocks)).error_of_bind h
  obtain ⟨rfl, rfl⟩ := refGet_ok h₂
  rw [if_neg (by omega)] at h
  obtain ⟨_, s₃, h₃, h⟩ := decrRefcountHashlessBlock_costs.error_of_bind h
  obtain rfl := decrRefcountHashlessBlock_shared hid hshared h₃
  rcases run_bind_error.mp h with h | ⟨_, _, -, h⟩
  · exact (allocateBlockId_error h).1
  · cases h

omit [Sha256 H] in
/-- The tokens are there, the reference is not. -/
theorem naiveAppendTokenIds_error {tokenIds : List Nat} {id : Nat}
    (hid : (s.heap r).blockId = some id) (hshared : 1 < s.refcounts id)
    (h : (naiveAppendTokenIds r tokenIds).run s = .error .noFreeBlocksError s') :
    ∃ s₁, s₁ = s.updateBlock r (fun b => { b with tokenIds := b.tokenIds ++ tokenIds }) ∧
      s' = withId (withRefcount s₁ id (s.refcounts id - 1)) r none := by
  refine ⟨_, rfl, ?_⟩
  rw [naiveAppendTokenIds, run_get_bind, run_raiseUnless_bind] at h
  split at h
  case isFalse => cases h
  rw [run_set_bind, hid] at h
  rcases run_bind_error.mp h with h | ⟨_, _, -, h⟩
  · refine cowBlockIfNotAppendable_error ?_ hshared h
    rw [AllocState.updateBlock_self]
    exact hid
  · cases h

/-- A reference to a shared id of `r` is gone, and nothing else changed. -/
def LostReference (s : AllocState H) (r : Ref) (s' : AllocState H) : Prop :=
  ∃ id, (s.heap r).blockId = some id ∧ 1 < s.refcounts id ∧
    Unchanged (withRefcount s id (s.refcounts id - 1)) s'

theorem appendTokenIds_error {tokenIds : List Nat} (hc : Inv ⟨o, none, s⟩) (hp : s.PredsLive)
    (hr : r ∈ s.live) (hlast : ∀ q ∈ s.live, (s.heap q).prevBlock = some r → s.isFull q = false)
    (h : (appendTokenIds r tokenIds).run s = .error .noFreeBlocksError s') :
    LostReference s r s' := by
  have hsole : _ → Costs 0 (appendTokenIds r tokenIds) s :=
    (appendTokenIds_costs hc hp hr hlast).2
  obtain ⟨id, hid, hshared⟩ : ∃ id, (s.heap r).blockId = some id ∧ 1 < s.refcounts id := by
    by_contra hno
    exact (hsole fun id hid => Nat.le_of_not_lt fun hlt => hno ⟨id, hid, hlt⟩).not_error (Nat.zero_le _) s' h
  refine ⟨id, hid, hshared, ?_⟩
  rw [appendTokenIds] at h
  obtain ⟨x, s₁, h₁, h⟩ := contentHash_costs.error_of_bind h
  obtain ⟨hsame, hsound, hiff⟩ := contentHash_ok h₁ hc.sound (.live hr)
  rw [run_raiseUnless_bind] at h
  split at h
  case isFalse => cases h
  next hx =>
  rw [run_get_bind, run_raiseIf_bind] at h
  split at h
  · cases h
  split at h
  · cases h
  rcases run_bind_error.mp h with h | ⟨_, s₂, h₂, h⟩
  · obtain ⟨s₂, rfl, rfl⟩ := naiveAppendTokenIds_error (by rw [hsame.block r]; exact hid)
      (by rw [hsame.state]; exact hshared) h
    rw [hsame.state]
    exact ⟨⟨rfl, rfl, rfl, rfl⟩, rfl, rfl⟩
  · -- Nothing after the tokens asks for an id.
    have hno : ∀ y, ¬ HasHash s₁.blockSize s₁.heap r y := fun y hy =>
      absurd ((hiff y).mpr (hsame.hasHash_iff.mp hy)) (by simp [hx])
    exact absurd h ((promoteAppended_costs (hc.hashes hsame hsound)
      (hsame.sameLive.predsLive hp) (hsame.live_eq ▸ hr) hno (lastBlock_of_hashes hsame hlast)
      h₂).not_error (Nat.zero_le _) s')

end Hashing

end PrefixCachingBlockAllocator

/-! ## The calls -/

/-- The calls that take block ids. -/
inductive AllocCall where
  | allocateMutableBlock (prevBlock : Option Ref) (cacheNamespace : Bytes)
  | allocateImmutableBlock (prevBlock : Option Ref) (tokenIds : List Nat) (cacheNamespace : Bytes)
  | allocateImmutableBlocks (prevBlock : Option Ref) (tokens : List (List Nat))
      (cacheNamespace : Bytes)
  | appendTokenIds (r : Ref) (tokenIds : List Nat)
  | swapIn (blocks : List Ref)

variable [DecidableEq H] [Sha256 H]

namespace AllocCall

def run : AllocCall → AllocM H Unit
  | allocateMutableBlock prevBlock ns => do
    let _ ← PrefixCachingBlockAllocator.allocateMutableBlock prevBlock ns
  | allocateImmutableBlock prevBlock tokenIds ns => do
    let _ ← PrefixCachingBlockAllocator.allocateImmutableBlock prevBlock tokenIds ns
  | allocateImmutableBlocks prevBlock tokens ns => do
    let _ ← PrefixCachingBlockAllocator.allocateImmutableBlocks ns prevBlock tokens
  | appendTokenIds r tokenIds => PrefixCachingBlockAllocator.appendTokenIds r tokenIds
  | swapIn blocks => PrefixCachingBlockAllocator.swapIn blocks

omit [DecidableEq H] [Sha256 H] in
/-- How callers use them, as in `AllocOp`. -/
def Allowed (s : AllocState H) : AllocCall → Prop
  | allocateMutableBlock prevBlock _ => s.PredsLive ∧ s.PrevLive prevBlock
  | allocateImmutableBlock prevBlock _ _ => s.PredsLive ∧ s.PrevLive prevBlock
  | allocateImmutableBlocks prevBlock _ _ => s.PredsLive ∧ s.PrevLive prevBlock
  | appendTokenIds r _ => s.PredsLive ∧ r ∈ s.live ∧
      ∀ q ∈ s.live, (s.heap q).prevBlock = some r → s.isFull q = false
  | swapIn blocks => s.PredsLive ∧ (∀ r ∈ blocks, r ∈ s.live ∧ (s.heap r).blockId = none) ∧
      blocks.Nodup

/-- What is left behind. -/
def Failed (s s' : AllocState H) : AllocCall → Prop
  | allocateMutableBlock _ _ => Unchanged s s'
  | allocateImmutableBlock prevBlock tokenIds ns => Refused s prevBlock tokenIds ns s'
  | allocateImmutableBlocks prevBlock tokens ns =>
    ∃ before tokenIds after rs t, tokens = before ++ tokenIds :: after ∧
      (PrefixCachingBlockAllocator.allocateImmutableBlocks ns prevBlock before).run s = .ok rs t ∧
      Refused t (rs.getLast?.or prevBlock) tokenIds ns s' ∧ (SameIds s s' ↔ before = [])
  | appendTokenIds r _ => LostReference s r s'
  | swapIn blocks =>
    ∃ before r after t, blocks = before ++ r :: after ∧
      (PrefixCachingBlockAllocator.swapIn before).run s = .ok ⟨⟩ t ∧ RefusedSwap t r s' ∧
      (SameIds s s' ↔ before = [])

end AllocCall

/-- **What a call leaves behind when no block is free.** The refused request changes nothing; the
blocks before it stay, and an append has dropped its reference to the shared block. -/
theorem failed_calls {s s' : AllocState H} (h : (allocSys H).Reachable s) (call : AllocCall)
    (ha : call.Allowed s) (hr : call.run.run s = .error .noFreeBlocksError s') :
    call.Failed s s' := by
  have hc := inv_of_reachable h
  cases call with
  | allocateMutableBlock prevBlock ns =>
    have hr := (run_bind_error.mp hr).resolve_right fun ⟨_, _, _, h⟩ => nomatch h
    have hzero := Nat.lt_one_iff.mp (allocateMutableBlock_costs.raises s' hr)
    cases (allocateMutableBlock_refused prevBlock ns hzero).symm.trans hr
    exact .refl s
  | allocateImmutableBlock prevBlock tokenIds ns =>
    have hr := (run_bind_error.mp hr).resolve_right fun ⟨_, _, _, h⟩ => nomatch h
    exact allocateImmutableBlock_error hc ha.1 ha.2 hr
  | allocateImmutableBlocks prevBlock tokens ns =>
    have hr := (run_bind_error.mp hr).resolve_right fun ⟨_, _, _, h⟩ => nomatch h
    obtain ⟨before, tokenIds, after, rs, t, htokens, hrun, href⟩ :=
      allocateImmutableBlocks_error hc ha.1 ha.2 hr
    refine ⟨before, tokenIds, after, rs, t, htokens, hrun, href, fun hids => ?_, ?_⟩
    · obtain ⟨hsteps, hnew⟩ := allocateImmutableBlocks_ok hc ha.1 ha.2 hrun
      by_contra hne
      have hrs : rs ≠ [] := by
        rintro rfl
        exact hne hnew.tokens.symm
      exact refcounts_ne_of_newBlocks hc (hsteps.inv hc) hnew hrs
        (href.ids.refcounts.symm.trans hids.refcounts)
    · rintro rfl
      obtain ⟨-, rfl⟩ := run_pure_ok.mp hrun
      exact href.ids
  | appendTokenIds r tokenIds => exact appendTokenIds_error hc ha.1 ha.2.1 ha.2.2 hr
  | swapIn blocks =>
    obtain ⟨hp, hlive, hnodup⟩ := ha
    obtain ⟨before, r, after, t, rfl, hrun, href⟩ := swapIn_error hc hp hlive hnodup hr
    refine ⟨before, r, after, t, rfl, hrun, href, fun hids => ?_, ?_⟩
    · have hlive' : ∀ q ∈ before, q ∈ s.live ∧ (s.heap q).blockId = none := fun q hq =>
        hlive q (List.mem_append_left _ hq)
      obtain ⟨hsteps, hmoved⟩ := swapIn_ok hc hp hlive' (List.nodup_append.mp hnodup).1 hrun
      by_contra hne
      exact refcounts_ne_of_moved hc (hsteps.inv hc) hlive' hmoved hne
        (href.sameIds.refcounts.symm.trans hids.refcounts)
    · rintro rfl
      obtain ⟨-, rfl⟩ := run_pure_ok.mp hrun
      exact href.sameIds

/-- One id of one token, and a CPU tier. -/
def oneBlock (contentCache : Option (CpuKvContentCache PlainDigest)) : AllocState PlainDigest :=
  { PrefixCachingBlockAllocator.init .gpu 1 [0] .lru with
    heap := fun _ => .blank
    contentCache := contentCache
    recursionLimit := 16
    guests := ∅ }

theorem fresh_oneBlock (c : Option (CpuKvContentCache PlainDigest)) : Fresh (oneBlock c) :=
  ⟨.gpu, 1, [0], .lru, fun _ => .blank, c, 16, by decide, rfl⟩

theorem predsLive_oneBlock (c : Option (CpuKvContentCache PlainDigest)) :
    (oneBlock c).PredsLive := by
  intro r hr
  have hempty : (oneBlock c).live = ∅ := by
    ext q
    simp [AllocState.mem_live, AllocState.Own, oneBlock, PrefixCachingBlockAllocator.init]
  exact absurd (hempty ▸ hr) (Finset.notMem_empty r)

theorem prevLive_none (s : AllocState PlainDigest) : s.PrevLive none := fun _ hq => nomatch hq

/-- The only id goes to a mutable block. -/
theorem failed_calls_full : ∃ s s', (allocSys PlainDigest).Reachable s ∧
    (AllocCall.allocateImmutableBlocks none [[1], [2]] []).run.run s =
      .error .noFreeBlocksError s' ∧
    (AllocCall.allocateImmutableBlocks none [[1], [2]] []).Failed s s' := by
  obtain ⟨r, s, hrun, hs⟩ := check_eq_true.mp (show check (allocateMutableBlock none [])
    (oneBlock none) (fun _ s => (decide (∀ r ∈ s.live, (s.heap r).prevBlock = none)) &&
      raisesWith (AllocCall.allocateImmutableBlocks none [[1], [2]] []).run s .noFreeBlocksError
        fun _ => true) = true by decide +kernel)
  obtain ⟨hprev, hraises⟩ := Bool.and_eq_true_iff.mp hs
  obtain ⟨s', hr, -⟩ := raisesWith_eq_true.mp hraises
  have hreach : (allocSys PlainDigest).Reachable s := .step (.init (fresh_oneBlock none))
    (.allocateMutableBlock (predsLive_oneBlock none) (prevLive_none _) hrun)
  refine ⟨s, s', hreach, hr, failed_calls hreach _ ⟨fun q hq p hp => ?_, prevLive_none s⟩ hr⟩
  cases (of_decide_eq_true hprev q hq).symm.trans hp

/-- A CPU tier that has the content of the first block `[1]`, ready to be loaded. -/
def tierOfOne : CpuKvContentCache PlainDigest :=
  { CpuKvContentCache.fresh 1 with
    hashToSlot := (∅ : Dict PlainDigest Nat).set (hashBlockTokens none [1] []) 0
    slotToHash := (∅ : Dict Nat PlainDigest).set 0 (hashBlockTokens none [1] [])
    readySlots := {0}
    lru := (∅ : Dict Nat Unit).set 0 ()
    freeSlots := [] }

/-- A failure of the call changes the allocator. -/
def NotAtomic (call : AllocCall) : Prop :=
  ∃ s s', (allocSys PlainDigest).Reachable s ∧ call.Allowed s ∧
    call.run.run s = .error .noFreeBlocksError s' ∧ ¬ Unchanged s s'

/-- Of two blocks the first one stays. -/
theorem first_block_stays : NotAtomic (.allocateImmutableBlocks none [[1], [2]] []) := by
  obtain ⟨s', hr, hone⟩ := raisesWith_eq_true.mp (show raisesWith
    (AllocCall.allocateImmutableBlocks none [[1], [2]] []).run (oneBlock none)
    .noFreeBlocksError (fun s' => decide (s'.refcounts 0 = 1)) = true by decide +kernel)
  refine ⟨oneBlock none, s', .init (fresh_oneBlock none),
    ⟨predsLive_oneBlock none, prevLive_none _⟩, hr, fun he => ?_⟩
  exact absurd ((congrFun he.refcounts 0).symm.trans (of_decide_eq_true hone)) (by decide)

/-- A copy on write has dropped its reference. -/
theorem append_drops_reference : ∃ r, NotAtomic (.appendTokenIds r [1]) := by
  obtain ⟨r, s, hrun, hs⟩ := check_eq_true.mp (show check (allocateMutableBlock none [])
    (oneBlock none) (fun r s => decide (r ∈ s.live) &&
      (decide (∀ q ∈ s.live, (s.heap q).prevBlock = none) &&
      check (fork r) s fun _ t => decide (r ∈ t.live) &&
        (decide (∀ q ∈ t.live, (t.heap q).prevBlock = none) &&
        (decide (t.refcounts 0 = 2) &&
        raisesWith (AllocCall.appendTokenIds r [1]).run t .noFreeBlocksError
          fun s' => decide (s'.refcounts 0 = 1))))) = true by decide +kernel)
  simp only [Bool.and_eq_true, decide_eq_true_eq, check_eq_true, raisesWith_eq_true] at hs
  obtain ⟨hlive, hprev, rs, t, hfork, hlive', hprev', htwo, s', hr, hone⟩ := hs
  have hnone : ∀ q ∈ t.live, ∀ p, (t.heap q).prevBlock ≠ some p := fun q hq p hp => by
    cases (hprev' q hq).symm.trans hp
  refine ⟨r, t, s', .step (.step (.init (fresh_oneBlock none)) (.allocateMutableBlock
    (predsLive_oneBlock none) (prevLive_none _) hrun)) (.fork (fun q hq p hp => ?_) hlive hfork),
    ⟨fun q hq p hp => absurd hp (hnone q hq p), hlive', fun q hq hp => absurd hp (hnone q hq r)⟩,
    hr, fun he => ?_⟩
  · cases (hprev q hq).symm.trans hp
  · rw [he.refcounts, htwo] at hone
    exact absurd hone (by decide)

/-- The object of a block that the CPU tier has is not returned to the pool. -/
theorem restore_loses_object : NotAtomic (.allocateImmutableBlock none [1] []) := by
  obtain ⟨r, s, hrun, hs⟩ := check_eq_true.mp (show check (allocateMutableBlock none [])
    (oneBlock (some tierOfOne)) (fun _ s =>
      decide (∀ q ∈ s.live, (s.heap q).prevBlock = none) &&
      (decide (s.poolFreeIds.length = 3) &&
      raisesWith (AllocCall.allocateImmutableBlock none [1] []).run s .noFreeBlocksError
        fun s' => decide (s'.poolFreeIds.length = 2))) = true by decide +kernel)
  simp only [Bool.and_eq_true, decide_eq_true_eq, raisesWith_eq_true] at hs
  obtain ⟨hprev, hthree, s', hr, htwo⟩ := hs
  refine ⟨s, s', .step (.init (fresh_oneBlock _)) (.allocateMutableBlock
    (predsLive_oneBlock _) (prevLive_none _) hrun), ⟨fun q hq p hp => ?_, prevLive_none _⟩, hr,
    fun he => ?_⟩
  · cases (hprev q hq).symm.trans hp
  · rw [he.poolFree, hthree] at htwo
    exact absurd htwo (by decide)

/-- Three calls whose failure is not atomic. -/
theorem failure_not_atomic : NotAtomic (.allocateImmutableBlocks none [[1], [2]] []) ∧
    (∃ r, NotAtomic (.appendTokenIds r [1])) ∧ NotAtomic (.allocateImmutableBlock none [1] []) :=
  ⟨first_block_stays, append_drops_reference, restore_loses_object⟩

end Bi100
