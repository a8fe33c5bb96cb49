import Bi100.Block.Blocks
import Bi100.Block.Laws

/-!
# The prefix-caching allocator obeys the laws

What a call uses of the free blocks: a hit on an evictable block and a restored block take one as
much as a new block does, a promotion returns the block's own id before it takes the cached one,
and only `allocateBlockId` raises for want of blocks.

- `allocateImmutableBlock_costs`, `appendTokenIds_costs`: at most one free block.
- `PrefixCachingBlockAllocator.lawful`: the laws, with the invariant of the allocator.
-/

namespace Bi100

open Py AllocState

variable {H : Type}

/-! ## The CPU tier -/

namespace CpuKvContentCache

variable [DecidableEq H] {h : H} {slot block : Nat}

theorem claimLoad_never : Never .noFreeBlocksError (claimLoad h) := by
  intro s
  unfold claimLoad requireStepStarted
  refine .then_of_zero (.get_bind (.raiseIf _ (by decide))) fun _ s _ => .get_bind ?_
  split
  · exact .set_bind .ret (Nat.le_refl _)
  · split
    · exact .set_bind .ret (Nat.le_refl _)
    · refine .raiseIf_bind (fun he => by cases he) fun _ => .set_bind (l := 0) ?_ (Nat.le_refl _)
      exact .modify_bind (l := 0) (.modify_bind (l := 0) .ret (Nat.le_refl _)) (Nat.le_refl _)

theorem cancelLoad_never : Never .noFreeBlocksError (cancelLoad h slot) := by
  intro s
  unfold cancelLoad
  refine .get_bind (.raiseIf_bind nofun fun _ => .raiseIf_bind nofun fun _ =>
    .raiseIf_bind nofun fun _ => .set_bind (l := 0) ?_ (Nat.le_refl _))
  exact .raiseUnless_bind nofun fun _ => .modify (Nat.le_refl _)

theorem stageLoad_never : Never .noFreeBlocksError (stageLoad h slot block) := by
  intro s
  unfold stageLoad
  exact .get_bind (.raiseIf_bind nofun fun _ => .raiseIf_bind nofun fun _ =>
    .raiseIf_bind nofun fun _ => .raiseIf_bind nofun fun _ => .raiseIf_bind nofun fun _ =>
    .raiseIf_bind nofun fun _ => .set (Nat.le_refl _))

theorem commitStore_never : Never .noFreeBlocksError (commitStore h block slot) := by
  intro s
  unfold commitStore evictOldHash
  refine .then_of_zero (.get_bind ?_) fun _ s _ => .get_bind (.raiseIf_bind nofun fun _ =>
    .raiseIf_bind nofun fun _ => .set_bind (l := 0) (.modify_bind (l := 0) (.modify
      (Nat.le_refl _)) (Nat.le_refl _)) (Nat.le_refl _))
  split
  · exact .ret
  · exact .raiseIf_bind nofun fun _ => .raiseUnless_bind nofun fun _ => .set (Nat.le_refl _)

theorem stageStore_never : Never .noFreeBlocksError (stageStore h block) := by
  intro s
  unfold stageStore requireStepStarted
  refine .then_of_zero (.get_bind (.raiseIf _ (by decide))) fun _ s _ => .get_bind ?_
  split
  · refine .then_of_zero (.forM_zero _ fun _ _ _ => .modify (Nat.le_refl _)) fun _ s _ => ?_
    exact .modify_bind (l := 0) .ret (Nat.le_refl _)
  · refine .raiseIf_bind (fun he => by cases he) fun _ => ?_
    split
    · refine .set_bind (l := 0) ?_ (Nat.le_refl _)
      exact .then_of_zero (commitStore_never _) fun _ _ _ => .ret
    · exact .set_bind (l := 0) .ret (Nat.le_refl _)

end CpuKvContentCache

namespace PrefixCachingBlockAllocator

variable {s s' : AllocState H} {r : Ref} {id : Nat}

/-- What a method may use of the free blocks. -/
abbrev Costs {α : Type} (n : Nat) (x : AllocM H α) (s : AllocState H) : Prop :=
  Spends getNumFreeBlocks .noFreeBlocksError n x s

theorem tier_costs {α : Type} {x : EStateM Err (CpuKvContentCache H) α}
    (h : Never .noFreeBlocksError x) : Costs 0 (tier x) s := by
  cases hc : s.contentCache with
  | none =>
    have hrun : (tier x).run s = .error assertion s := by
      unfold tier EStateM.run
      dsimp only
      rw [hc]
    exact .of_run (y := throw assertion) hrun (.throw_ne (by decide)) (Nat.le_refl _)
  | some c =>
    have hnot := h.not_error c
    cases hx : x.run c with
    | ok a c' =>
      have hrun : (tier x).run s =
          (pure a : AllocM H α).run { s with contentCache := some c' } := by
        unfold tier EStateM.run
        dsimp only
        rw [hc]
        dsimp only
        rw [show x c = _ from hx]
        rfl
      exact .of_run hrun .ret (Nat.le_refl _)
    | error e c' =>
      have hrun : (tier x).run s =
          (throw e : AllocM H α).run { s with contentCache := some c' } := by
        unfold tier EStateM.run
        dsimp only
        rw [hc]
        dsimp only
        rw [show x c = _ from hx]
        rfl
      exact .of_run hrun (.throw_ne fun he => hnot c' (he ▸ hx)) (Nat.le_refl _)

/-! ## The parts -/

instance : ByIds (H := H) getNumFreeBlocks where
  eq s t hf he := by rw [getNumFreeBlocks, getNumFreeBlocks, hf, he]

theorem initBlock_costs {prevBlock : Option Ref} {tokenIds : List Nat} {blockId : Option Nat}
    {ns : Bytes} : Costs 0 (initBlock prevBlock tokenIds blockId ns) s := by
  unfold initBlock
  exact poolInit_costs.then_of_zero fun _ _ _ => .get_bind (.raiseIf_bind nofun fun _ =>
    .set_bind .ret (Nat.le_refl _))

section Hashing

variable [Sha256 H]

theorem contentHashRec_costs {fuel : Nat} : Costs 0 (contentHashRec fuel r) s := by
  induction fuel generalizing s r with
  | zero => exact .throw_ne nofun
  | succ fuel ih =>
    rw [contentHashRec]
    refine .get_bind ?_
    dsimp only
    split
    · exact .ret
    · exact .ret
    · exact .modify_bind .ret (Nat.le_refl _)
    · refine ih.then_of_zero fun o _ _ => ?_
      cases o with
      | none => exact .ret
      | some h => exact .modify_bind .ret (Nat.le_refl _)

theorem contentHash_costs : Costs 0 (contentHash r) s := .get_bind contentHashRec_costs

theorem getContentHash_costs : Costs 0 (getContentHash r) s :=
  contentHash_costs.then_of_zero fun _ _ _ => .getOrRaise _ nofun

end Hashing

theorem getPhysicalBlockId_costs : Costs 0 (getPhysicalBlockId id) s :=
  .get_bind (.raiseUnless_bind nofun fun _ => .ret)

/-! ## Taking and dropping ids -/

theorem maybeAllocateHashlessBlockId_costs : Costs 1 (maybeAllocateHashlessBlockId) s := by
  unfold maybeAllocateHashlessBlockId
  refine .get_bind ?_
  split
  · exact .ret
  · next id rest hf =>
    refine .set_bind (l := 0) ?_ ?_
    · exact refIncr_costs.then_of_zero fun _ _ _ => poolInit_costs.then_of_zero fun _ _ _ =>
        poolFree_costs.then_of_zero fun _ _ _ => trackBlockId_costs.then_of_zero fun _ _ _ => .ret
    · simp only [getNumFreeBlocks, hf, List.length_cons]
      omega

theorem maybeAllocateHashlessBlockId_none
    (h : (maybeAllocateHashlessBlockId).run s = .ok none s') :
    s.freeBlockIndices = [] ∧ s' = s := by
  rw [maybeAllocateHashlessBlockId, run_get_bind] at h
  split at h
  · next hf => exact ⟨hf, (run_pure_ok.mp h).2⟩
  · rw [run_set_bind] at h
    obtain ⟨_, _, -, h⟩ := run_bind_ok.mp h
    obtain ⟨_, _, -, h⟩ := run_bind_ok.mp h
    obtain ⟨_, _, -, h⟩ := run_bind_ok.mp h
    obtain ⟨_, _, -, h⟩ := run_bind_ok.mp h
    cases (run_pure_ok.mp h).1

theorem evictor_size {e e' : Evictor H} (h : e'.freeTable = e.freeTable.erase id) :
    e.numBlocks ≤ e'.numBlocks + 1 := by
  rw [Evictor.numBlocks, Evictor.numBlocks, h]
  by_cases hm : id ∈ e.freeTable
  · exact (Dict.size_erase_of_mem hm).ge
  · rw [Dict.erase_of_not_mem hm]
    omega

theorem hashlessFree_costs : Costs 0 (hashlessFree r) s := by
  unfold hashlessFree
  refine getBlockId_costs.then_of_zero fun id _ _ => refDecr_costs.then_of_zero fun n t _ =>
    .modify_bind (l := 0) setBlockId_costs ?_
  split
  · simp only [getNumFreeBlocks, List.length_cons]
    omega
  · exact Nat.le_refl _

theorem decrRefcountHashlessBlock_costs : Costs 0 (decrRefcountHashlessBlock r) s := by
  unfold decrRefcountHashlessBlock
  refine getBlockId_costs.then_of_zero fun id _ _ => refGet_costs.then_of_zero fun n t _ => ?_
  dsimp only
  split
  · exact untrackBlockId_costs.then_of_zero fun _ _ _ => hashlessFree_costs
  · exact hashlessFree_costs

/-- The last reference gives a free block back. -/
theorem decrRefcountHashlessBlock_gain {u : Unit} (hid : (s.heap r).blockId = some id)
    (h1 : s.refcounts id = 1) (h : (decrRefcountHashlessBlock r).run s = .ok u s') :
    getNumFreeBlocks s' = getNumFreeBlocks s + 1 := by
  rw [decrRefcountHashlessBlock, getBlockId_bind_ok] at h
  obtain ⟨id', hid', h⟩ := h
  obtain rfl := Option.some.inj (hid.symm.trans hid')
  rw [refGet_bind_ok] at h
  obtain ⟨-, h⟩ := h
  rw [if_pos h1] at h
  obtain ⟨_, s₁, h₁, h⟩ := run_bind_ok.mp h
  obtain rfl := untrackBlockId_ok h₁
  obtain ⟨id', hid', -, rfl⟩ := hashlessFree_ok h
  obtain rfl := Option.some.inj (hid.symm.trans hid')
  simp only [getNumFreeBlocks, withId, AllocState.updateBlock, h1, Nat.sub_self, if_true,
    List.length_cons]
  omega

variable [DecidableEq H]

theorem stageGpuToCpu_costs {h : H} : Costs 0 (stageGpuToCpu h id) s :=
  getPhysicalBlockId_costs.then_of_zero fun _ _ _ =>
    (tier_costs CpuKvContentCache.stageStore_never).then_of_zero fun _ _ _ => .ret

theorem stageCpuToGpu_costs {h : H} {slot : Nat} : Costs 0 (stageCpuToGpu h slot id) s :=
  getPhysicalBlockId_costs.then_of_zero fun _ _ _ => tier_costs CpuKvContentCache.stageLoad_never

theorem evictBlock_costs : Costs 1 (evictBlock) s := by
  unfold evictBlock
  refine .get_bind (.lift_bind (Evictor.evict_ne _) fun a he => ?_)
  obtain ⟨⟨id, h⟩, e⟩ := a
  dsimp only
  refine .set_bind (l := 0) ?_ ?_
  · refine .getOrRaise_bind nofun fun cached _ => refGet_costs.then_of_zero fun _ _ _ =>
      .raiseUnless_bind nofun fun _ => .raiseUnless_bind nofun fun _ => ?_
    have hrest : ∀ t : AllocState H, Costs 0 (do
        modify fun s => { s with cachedBlocks := s.cachedBlocks.erase h }
        let _ ← refIncr id
        trackBlockId id false
        pure id) t := fun t => .modify_bind (l := 0) (refIncr_costs.then_of_zero fun _ _ _ =>
      trackBlockId_costs.then_of_zero fun _ _ _ => .ret) (Nat.le_refl _)
    split
    · exact stageGpuToCpu_costs.then_of_zero fun _ _ _ => hrest _
    · exact hrest _
  · have := evictor_size (Evictor.evict_ok he).2
    simp only [getNumFreeBlocks]
    omega

theorem maybeAllocateEvictedBlockId_costs : Costs 1 (maybeAllocateEvictedBlockId) s := by
  unfold maybeAllocateEvictedBlockId
  refine .get_bind ?_
  split
  · exact .ret
  · exact .map evictBlock_costs

theorem maybeAllocateEvictedBlockId_none
    (h : (maybeAllocateEvictedBlockId).run s = .ok none s') :
    s.evictor.numBlocks = 0 ∧ s' = s := by
  rw [maybeAllocateEvictedBlockId, run_get_bind] at h
  split at h
  · next hn => exact ⟨hn, (run_pure_ok.mp h).2⟩
  · obtain ⟨_, -, he⟩ := run_map_ok.mp h
    cases he

/-- The only call that raises for want of blocks. -/
theorem allocateBlockId_costs : Costs 1 (allocateBlockId) s := by
  unfold allocateBlockId
  refine maybeAllocateHashlessBlockId_costs.bind_of (Nat.le_refl 1) fun o s₁ h₁ => ?_
  cases o with
  | some id => exact ⟨0, .ret, maybeAllocateHashlessBlockId_costs.ok _ _ h₁⟩
  | none =>
    obtain ⟨hf, rfl⟩ := maybeAllocateHashlessBlockId_none h₁
    refine ⟨1, ?_, Nat.le_refl _⟩
    have hx := maybeAllocateEvictedBlockId_costs (s := s₁)
    refine hx.bind_of (Nat.le_refl 1) fun o s₂ h₂ => ?_
    cases o with
    | some id => exact ⟨0, .ret, hx.ok _ _ h₂⟩
    | none =>
      obtain ⟨hn, rfl⟩ := maybeAllocateEvictedBlockId_none h₂
      refine ⟨1, .throw_empty ?_, Nat.le_refl _⟩
      simp [getNumFreeBlocks, hf, hn]

theorem incrRefcountCachedBlock_costs : Costs 1 (incrRefcountCachedBlock r) s := by
  unfold incrRefcountCachedBlock
  refine .modify_bind (l := 1) ?_ (Nat.le_refl _)
  refine getBlockId_costs.then_of_zero fun id _ _ => refIncr_costs.then_of_zero fun n t _ => ?_
  split
  · refine .get_bind (.lift_bind ?_ fun e he => .set_bind (l := 0) trackBlockId_costs ?_)
    · split
      · exact Evictor.remove_ne _ _
      · exact nofun
    · have hsize : t.evictor.numBlocks ≤ e.numBlocks + 1 := by
        split at he
        · exact evictor_size (Evictor.remove_ok he).2
        · cases he
          omega
      simp only [getNumFreeBlocks]
      omega
  · exact .ret

/-! ## Appending -/

/-- A copy on write takes a block. -/
theorem cowBlockIfNotAppendable_costs : Costs 1 (cowBlockIfNotAppendable r) s ∧
    ((∀ id, (s.heap r).blockId = some id → s.refcounts id ≤ 1) →
      Costs 0 (cowBlockIfNotAppendable r) s) := by
  unfold cowBlockIfNotAppendable
  constructor
  · refine getBlockId_costs.then_of_zero fun id _ _ => refGet_costs.then_of_zero fun n _ _ => ?_
    split
    · exact .ret
    · exact decrRefcountHashlessBlock_costs.then_of_zero fun _ _ _ =>
        allocateBlockId_costs.bind_zero fun _ _ _ => .modify_bind (l := 0) .ret (Nat.le_refl _)
  · intro h1
    refine getBlockId_costs.then_of_zero fun id s₁ h₁ => refGet_costs.then_of_zero fun n _ h₂ => ?_
    obtain ⟨hid, rfl⟩ := getBlockId_ok.mp h₁
    obtain ⟨rfl, rfl⟩ := refGet_ok h₂
    rw [if_pos (h1 id hid)]
    exact .ret

theorem naiveAppendTokenIds_costs {tokenIds : List Nat} :
    Costs 1 (naiveAppendTokenIds r tokenIds) s ∧
      ((∀ id, (s.heap r).blockId = some id → s.refcounts id ≤ 1) →
        Costs 0 (naiveAppendTokenIds r tokenIds) s) := by
  have hself : ((s.updateBlock r fun b => { b with tokenIds := b.tokenIds ++ tokenIds }).heap
      r).blockId = (s.heap r).blockId := by rw [AllocState.updateBlock_self]
  unfold naiveAppendTokenIds
  constructor
  · refine .get_bind (.raiseUnless_bind nofun fun _ => .set_bind (l := 1) ?_ (Nat.le_refl _))
    split
    · exact .ret
    · exact cowBlockIfNotAppendable_costs.1.bind_zero fun _ _ _ => setBlockId_costs
  · intro h1
    refine .get_bind (.raiseUnless_bind nofun fun _ => .set_bind (l := 0) ?_ (Nat.le_refl _))
    split
    · exact .ret
    · refine .then_of_zero (cowBlockIfNotAppendable_costs.2 fun id hid => ?_) fun _ _ _ =>
        setBlockId_costs
      exact h1 id (hself ▸ hid)

section Hashing

variable [Sha256 H] {o : List Nat}

/-- The own id is given back before the cached one is taken. -/
theorem promoteToImmutableBlock_costs (hc : Inv ⟨o, some r, s⟩) (hr : r ∈ s.live)
    (h1 : ∀ id, (s.heap r).blockId = some id → s.refcounts id = 1) :
    Costs 0 (promoteToImmutableBlock r) s := by
  unfold promoteToImmutableBlock
  refine getContentHash_costs.then_of_zero fun x s₁ h₁ => ?_
  obtain ⟨hsame, -, -⟩ := getContentHash_ok hc hr h₁
  refine getBlockId_costs.then_of_zero fun id s₂ h₂ => refGet_costs.then_of_zero fun n s₃ h₃ => ?_
  obtain ⟨hid, rfl⟩ := getBlockId_ok.mp h₂
  obtain ⟨rfl, rfl⟩ := refGet_ok h₃
  refine .raiseUnless_bind nofun fun _ => .get_bind ?_
  split
  · exact .set_bind (l := 0) .ret (Nat.le_refl _)
  · refine decrRefcountHashlessBlock_costs.bind_of (Nat.le_refl 0) fun u s₄ h₄ => ⟨1, ?_, ?_⟩
    · exact setBlockId_costs.then_of_zero fun _ _ _ =>
        incrRefcountCachedBlock_costs.bind_zero fun _ _ _ => .ret
    · have hone : s₃.refcounts id = 1 := by
        rw [hsame.state]
        exact h1 id (by rw [hsame.block r] at hid; exact hid)
      exact (decrRefcountHashlessBlock_gain hid hone h₄).ge

theorem promoteIfHashed_costs (hc : Inv ⟨o, some r, s⟩) (hr : r ∈ s.live)
    (h1 : ∀ id, (s.heap r).blockId = some id → s.refcounts id = 1) :
    Costs 0 (promoteIfHashed r) s := by
  unfold promoteIfHashed
  refine contentHash_costs.then_of_zero fun x s₁ h₁ => ?_
  obtain ⟨hsame, hsound, -⟩ := contentHash_ok h₁ hc.sound (.live hr)
  cases x with
  | none => exact .ret
  | some x =>
    refine .then_of_zero (promoteToImmutableBlock_costs (hc.hashes hsame hsound)
      (hsame.live_eq ▸ hr) fun id hid => ?_) fun _ _ _ => setBlockId_costs
    rw [hsame.state]
    exact h1 id (by rw [hsame.block r] at hid; exact hid)

omit [DecidableEq H] [Sha256 H] in
/-- Kept hashes do not make a block full. -/
theorem lastBlock_of_hashes (hsame : SameButHashes s s')
    (hlast : ∀ q ∈ s.live, (s.heap q).prevBlock = some r → s.isFull q = false) :
    ∀ q ∈ s'.live, (s'.heap q).prevBlock = some r → s'.isFull q = false := by
  intro q hq hprev
  rw [hsame.live_eq] at hq
  rw [(hsame.frame s.live).isFull hq]
  exact hlast q hq ((hsame.sameContent q).prevBlock.trans hprev)

/-- What comes after the tokens. -/
theorem promoteAppended_costs {tokenIds : List Nat} {u : Unit} (hc : Inv ⟨o, none, s⟩)
    (hp : s.PredsLive) (hr : r ∈ s.live) (hno : ∀ x, ¬ HasHash s.blockSize s.heap r x)
    (hlast : ∀ q ∈ s.live, (s.heap q).prevBlock = some r → s.isFull q = false)
    (h : (naiveAppendTokenIds r tokenIds).run s = .ok u s') : Costs 0 (do
      updateNumTokensTotal r
      promoteIfHashed r) s' := by
  obtain ⟨happ, hcount⟩ := naiveAppendTokenIds_ok hc hp hr hno hlast h
  refine .then_of_zero (.modify (Nat.le_refl _)) fun _ s₂ h₂ => ?_
  obtain ⟨happ, hcount⟩ := updateNumTokensTotal_ok happ hr hcount h₂
  exact promoteIfHashed_costs (happ.steps.inv hc) (happ.live ▸ hr) hcount

theorem appendTokenIds_costs {tokenIds : List Nat} (hc : Inv ⟨o, none, s⟩) (hp : s.PredsLive)
    (hr : r ∈ s.live) (hlast : ∀ q ∈ s.live, (s.heap q).prevBlock = some r → s.isFull q = false) :
    Costs 1 (appendTokenIds r tokenIds) s ∧
      ((∀ id, (s.heap r).blockId = some id → s.refcounts id ≤ 1) →
        Costs 0 (appendTokenIds r tokenIds) s) := by
  suffices hs : ∀ n, (∀ t : AllocState H, t.refcounts = s.refcounts →
      (t.heap r).blockId = (s.heap r).blockId → Costs n (naiveAppendTokenIds r tokenIds) t) →
      Costs n (appendTokenIds r tokenIds) s from
    ⟨hs 1 fun t _ _ => naiveAppendTokenIds_costs.1, fun h1 => hs 0 fun t href hid =>
      naiveAppendTokenIds_costs.2 fun id h => href ▸ h1 id (hid ▸ h)⟩
  intro n hn
  unfold appendTokenIds
  refine contentHash_costs.then_of_zero fun x s₁ h₁ => .raiseUnless_bind nofun fun hx =>
    .get_bind (.raiseIf_bind nofun fun _ => ?_)
  split
  · exact .ret
  · obtain ⟨hsame, hsound, hiff⟩ := contentHash_ok h₁ hc.sound (.live hr)
    have hc₁ := hc.hashes hsame hsound
    have hp₁ := hsame.sameLive.predsLive hp
    have hr₁ : r ∈ s₁.live := hsame.live_eq ▸ hr
    have hno : ∀ y, ¬ HasHash s₁.blockSize s₁.heap r y := fun y hy =>
      absurd ((hiff y).mpr (hsame.hasHash_iff.mp hy)) (by simp [hx])
    have hlast₁ := lastBlock_of_hashes hsame hlast
    exact .bind_zero (hn s₁ (by rw [hsame.state]) (by rw [hsame.block r])) fun _ s₂ h₂ =>
      promoteAppended_costs hc₁ hp₁ hr₁ hno hlast₁ h₂

/-! ## Allocating -/

theorem allocateMutableBlock_costs {prevBlock : Option Ref} {ns : Bytes} :
    Costs 1 (allocateMutableBlock prevBlock ns) s := by
  unfold allocateMutableBlock
  exact allocateBlockId_costs.bind_zero fun _ _ _ => initBlock_costs.then_of_zero fun _ _ _ =>
    .get_bind (.raiseIf_bind nofun fun _ => contentHash_costs.then_of_zero fun _ _ _ =>
      .raiseUnless_bind nofun fun _ => .ret)

/-- A mutable block that gets tokens. -/
theorem allocateMutable_append_costs {prevBlock : Option Ref} {tokenIds : List Nat} {ns : Bytes}
    (hc : Inv ⟨o, none, s⟩) (hp : s.PredsLive) (hprev : s.PrevLive prevBlock) :
    Costs 1 (do
      let r ← allocateMutableBlock prevBlock ns
      appendTokenIds r tokenIds
      pure r) s := by
  refine allocateMutableBlock_costs.bind_zero fun r s₁ h₁ => ?_
  obtain ⟨hm, id, hid, hone⟩ := allocateMutableBlock_ok hc hp hprev h₁
  have hlast : ∀ q ∈ s₁.live, (s₁.heap q).prevBlock = some r → s₁.isFull q = false :=
    fun q hq he => absurd he (hm.no_successor hp hprev q hq)
  refine .then_of_zero ((appendTokenIds_costs (hm.steps.inv hc) (hm.predsLive hp hprev) hm.mem
    hlast).2 fun id' hid' => ?_) fun _ _ _ => .ret
  obtain rfl := Option.some.inj (hid.symm.trans hid')
  exact hone.le

omit [Sha256 H] in
/-- What comes after the new id. -/
theorem restoreAllocated_costs {h : H} {slot : Nat} : Costs 0 (do
    setBlockId r (some id)
    tryCatch (stageCpuToGpu h slot id) fun e => do
      decrRefcountHashlessBlock r
      tier (CpuKvContentCache.cancelLoad h slot)
      poolFree r
      throw e
    let s ← get
    raiseIf (h ∈ s.cachedBlocks)
      (.runtimeError "external prefix promotion raced with a GPU cache insert")
    let s := { s with
      cachedBlocks := s.cachedBlocks.set h id
      blockTracker := Function.update s.blockTracker id
        { s.blockTracker id with computed := true } }
    set (s.updateBlock r fun b => { b with computed := true })) s := by
  refine setBlockId_costs.then_of_zero fun _ s₁ _ => .then_of_zero ?_ fun _ _ _ =>
    .get_bind (.raiseIf_bind nofun fun _ => .set (Nat.le_refl _))
  refine stageCpuToGpu_costs.tryCatch_of (Nat.le_refl 0) fun e s₂ h₂ => ⟨0, ?_, ?_⟩
  · have he : e ≠ .noFreeBlocksError := fun he =>
      absurd (stageCpuToGpu_costs.raises s₂ (he ▸ h₂)) (Nat.not_lt_zero _)
    exact decrRefcountHashlessBlock_costs.then_of_zero fun _ _ _ =>
      (tier_costs CpuKvContentCache.cancelLoad_never).then_of_zero fun _ _ _ =>
      poolFree_costs.then_of_zero fun _ _ _ => .throw_ne he
  · exact stageCpuToGpu_costs.error _ _ h₂

omit [Sha256 H] in
theorem restoreClaimed_costs {h : H} {slot : Nat} : Costs 1 (restoreClaimed r h slot) s := by
  unfold restoreClaimed
  exact .bind_zero (.tryCatch_rethrow allocateBlockId_costs fun _ _ =>
    tier_costs CpuKvContentCache.cancelLoad_never) fun id _ _ => restoreAllocated_costs

theorem maybeRestoreExternalCachedBlock_costs :
    Costs 1 (maybeRestoreExternalCachedBlock r) s := by
  unfold maybeRestoreExternalCachedBlock
  refine .get_bind ?_
  split
  · exact .ret
  · refine getContentHash_costs.then_of_zero fun h _ _ => .get_bind (.raiseIf_bind (fun he => by cases he) fun _ =>
      (tier_costs CpuKvContentCache.claimLoad_never).then_of_zero fun o _ _ => ?_)
    cases o with
    | none => exact .ret
    | some slot => exact restoreClaimed_costs.bind_zero fun _ _ _ => .ret

/-- When nothing is restored, nothing is used. -/
theorem maybeRestoreExternalCachedBlock_false
    (h : (maybeRestoreExternalCachedBlock r).run s = .ok false s') :
    getNumFreeBlocks s ≤ getNumFreeBlocks s' := by
  rw [maybeRestoreExternalCachedBlock, run_get_bind] at h
  split at h
  · obtain ⟨-, rfl⟩ := run_pure_ok.mp h
    exact Nat.le_refl _
  · obtain ⟨x, s₁, h₁, h⟩ := run_bind_ok.mp h
    rw [run_get_bind, run_raiseIf_bind_ok] at h
    obtain ⟨o, s₂, h₂, h⟩ := run_bind_ok.mp h.2
    cases o with
    | some slot =>
      obtain ⟨_, s₃, -, h⟩ := run_bind_ok.mp h
      cases (run_pure_ok.mp h).1
    | none =>
      obtain ⟨-, rfl⟩ := run_pure_ok.mp h
      exact (getContentHash_costs.ok _ _ h₁).trans
        ((tier_costs CpuKvContentCache.claimLoad_never).ok _ _ h₂)

theorem allocateImmutableBlock_costs {prevBlock : Option Ref} {tokenIds : List Nat} {ns : Bytes}
    (hc : Inv ⟨o, none, s⟩) (hp : s.PredsLive) (hprev : s.PrevLive prevBlock) :
    Costs 1 (allocateImmutableBlock prevBlock tokenIds ns) s := by
  unfold allocateImmutableBlock
  refine initBlock_costs.then_of_zero fun q s₁ h₁ => ?_
  obtain ⟨hm, hnone⟩ := initBlock_made hc hp hprev h₁
  refine getContentHash_costs.then_of_zero fun x s₂ h₂ => .get_bind ?_
  obtain ⟨hsame, hsound, -⟩ := getContentHash_ok (hm.steps.inv hc) hm.mem h₂
  have hm₂ := hm.trans (AllocStep.steps (.hashes hsame hsound)) hsame.live_eq (hsame.frame _)
    (hsame.sameContent q)
  have hnone₂ : (s₂.heap q).blockId = none := by rw [hsame.block q]; exact hnone
  split
  · exact setBlockId_costs.then_of_zero fun _ _ _ =>
      incrRefcountCachedBlock_costs.bind_zero fun _ _ _ => .ret
  · unfold allocateUncachedBlock
    refine maybeRestoreExternalCachedBlock_costs.bind_of (Nat.le_refl 1) fun b s₃ h₃ => ?_
    rcases maybeRestoreExternalCachedBlock_ok (hm₂.steps.inv hc) (hm₂.predsLive hp hprev) hm₂.mem
      hnone₂ h₃ with ⟨rfl, -, -⟩ | ⟨rfl, hsteps, hlive, hframe⟩
    · exact ⟨0, .ret, maybeRestoreExternalCachedBlock_costs.ok _ _ h₃⟩
    · refine ⟨1, ?_, Nat.add_le_add_right (maybeRestoreExternalCachedBlock_false h₃) 1⟩
      have hm₃ := hm₂.trans hsteps hlive (hframe.mono (Finset.erase_subset _ _))
        (hframe.content hm₂.mem)
      obtain ⟨hsteps₄, hlive₄, hframe₄⟩ := freed_frame hm₃ hc ((hframe.blockId hm₂.mem).trans hnone₂)
      refine .modify_bind (l := 1) ?_ (Nat.le_refl _)
      exact allocateMutable_append_costs (hsteps₄.inv hc)
        ((SameLive.of_frame hframe₄ hlive₄).predsLive hp) fun q hq => hlive₄ ▸ hprev q hq

theorem allocateImmutableBlocks_costs {prevBlock : Option Ref} {tokens : List (List Nat)}
    {ns : Bytes} (hc : Inv ⟨o, none, s⟩) (hp : s.PredsLive) (hprev : s.PrevLive prevBlock) :
    Costs tokens.length (allocateImmutableBlocks ns prevBlock tokens) s := by
  induction tokens generalizing prevBlock s with
  | nil => exact .ret
  | cons tokenIds rest ih =>
    rw [allocateImmutableBlocks, List.length_cons, Nat.add_comm]
    refine (allocateImmutableBlock_costs hc hp hprev).bind fun r s₁ h₁ => ?_
    obtain ⟨hm, -⟩ := allocateImmutableBlock_ok hc hp hprev h₁
    exact (ih (hm.steps.inv hc) (hm.predsLive hp hprev) fun q hq =>
      Option.some.inj hq ▸ hm.mem).bind_zero fun _ _ _ => .ret

omit [DecidableEq H] [Sha256 H] in
theorem forkBlocks_costs {prevBlock : Option Ref} {sources : List Ref} :
    Costs 0 (forkBlocks prevBlock sources) s := by
  induction sources generalizing prevBlock s with
  | nil => exact .ret
  | cons r rest ih =>
    exact getBlockId_costs.then_of_zero fun _ _ _ => refIncr_costs.then_of_zero fun _ _ _ =>
      .raiseIf_bind nofun fun _ => .get_bind (initBlock_costs.then_of_zero fun _ _ _ =>
        ih.then_of_zero fun _ _ _ => .ret)

omit [DecidableEq H] [Sha256 H] in
theorem fork_costs : Costs 0 (fork r) s :=
  .get_bind (.lift_bind getAllBlocksRecursively_ne fun _ _ => forkBlocks_costs)

/-! ## The laws -/

theorem refcounts_eq (hc : Inv ⟨[], none, s⟩) (id : Nat) :
    s.refcounts id = (s.holders id).card := by
  simpa using hc.count id

omit [DecidableEq H] in
theorem isFull_of_hash {x : H} (h : HasHash s.blockSize s.heap r x) : s.isFull r = true :=
  decide_eq_true h.full

/-- A `Sole` block stays so while another block gets tokens. -/
theorem appendTokenIds_sole {tokenIds : List Nat} {q : Ref} (hc : Inv ⟨[], none, s⟩)
    (hp : s.PredsLive) (hr : r ∈ s.live)
    (hlast : ∀ q ∈ s.live, (s.heap q).prevBlock = some r → s.isFull q = false)
    (h : (appendTokenIds r tokenIds).run s = .ok () s') (hq : q ∈ s.live) (hne : q ≠ r)
    (hs : s.Sole q) : s'.Sole q := by
  obtain ⟨ha, hids⟩ := appendTokenIds_ok hc hp hr hlast h
  have hc' := ha.steps.inv hc
  have hqe : q ∈ s.live.erase r := Finset.mem_erase.mpr ⟨hne, hq⟩
  have hroom : s'.isFull q = false := (ha.frame.isFull hqe).trans hs.room
  refine .of_alone (refcounts_eq hc') (ha.live ▸ hq) hroom fun p hpl hpq id hid hpid => ?_
  have hid₀ : (s.heap q).blockId = some id := (ha.frame.blockId hqe).symm.trans hid
  have hpl₀ : p ∈ s.live := ha.live ▸ hpl
  by_cases he : p = r
  · subst he
    rcases hids id hpid with hold | ⟨x, hx⟩ | hone
    · exact hs.alone (refcounts_eq hc) hq hpl₀ hpq hid₀ hold
    · -- The id of a block with a hash is cached, that of `q` is not.
      refine hc'.unhashed q (ha.live ▸ hq) id hid (.inr fun y hy => ?_) x
        (hc'.hashed p hpl id x hpid (by simp) hx)
      exact absurd (isFull_of_hash hy) (by rw [hroom]; simp)
    · refine (Sole.mk (s := s') (r := q) hroom fun id' hid' => ?_).alone (refcounts_eq hc')
        (ha.live ▸ hq) hpl hpq hid hpid
      exact Option.some.inj (hid.symm.trans hid') ▸ hone
  · exact hs.alone (refcounts_eq hc) hq hpl₀ hpq hid₀
      ((ha.frame.blockId (Finset.mem_erase.mpr ⟨he, hpl₀⟩)).symm.trans hpid)

theorem allocateMutableBlock_sole {prevBlock : Option Ref} {ns : Bytes}
    (hc : Inv ⟨[], none, s⟩) (hp : s.PredsLive) (hprev : s.PrevLive prevBlock)
    (hpos : 0 < s.blockSize) (h : (allocateMutableBlock prevBlock ns).run s = .ok r s') :
    s'.Sole r ∧ ∀ q ∈ s.live, s.Sole q → s'.Sole q := by
  obtain ⟨hm, id, hid, hone⟩ := allocateMutableBlock_ok hc hp hprev h
  have hc' := hm.steps.inv hc
  have hr : s'.Sole r := by
    refine ⟨decide_eq_false ?_, fun id' hid' => Option.some.inj (hid.symm.trans hid') ▸ hone⟩
    rw [hm.tokens, hm.frame.blockSize]
    exact hpos.ne'
  refine ⟨hr, fun q hq hs => ?_⟩
  have hql : q ∈ s'.live := hm.live ▸ Finset.mem_insert_of_mem hq
  have hqr : q ≠ r := fun e => hm.new (e ▸ hq)
  refine .of_alone (refcounts_eq hc') hql ((hm.frame.isFull hq).trans hs.room)
    fun p hpl hpq id' hid' hpid => ?_
  rcases Finset.mem_insert.mp (hm.live ▸ hpl) with rfl | hpl₀
  · exact hr.alone (refcounts_eq hc') hpl hql hqr hpid hid'
  · exact hs.alone (refcounts_eq hc) hq hpl₀ hpq ((hm.frame.blockId hq).symm.trans hid')
      ((hm.frame.blockId hpl₀).symm.trans hpid)

theorem lawful : (methods (H := H)).Lawful fun s => Inv ⟨[], none, s⟩ where
  mutable hc hp hprev hpos h := by
    obtain ⟨hm, id, hid, -⟩ := allocateMutableBlock_ok hc hp hprev h
    obtain ⟨hr, hothers⟩ := allocateMutableBlock_sole hc hp hprev hpos h
    exact ⟨hm.steps.inv hc, hm.newBlocks (by rw [hid]; exact Option.some_ne_none id), hr, hothers⟩
  mutable_costs _ _ _ := allocateMutableBlock_costs
  immutable hc hp hprev h := by
    obtain ⟨hsteps, hnew⟩ := allocateImmutableBlocks_ok hc hp hprev h
    exact ⟨hsteps.inv hc, hnew⟩
  immutable_costs hc hp hprev := allocateImmutableBlocks_costs hc hp hprev
  append hc hp hr hlast h := by
    obtain ⟨ha, -⟩ := appendTokenIds_ok hc hp hr hlast h
    refine ⟨ha.steps.inv hc, ⟨ha.live, ha.frame, ha.prevBlock, ha.tokenIds, fun hid => ?_⟩,
      fun q hq hne hs => appendTokenIds_sole hc hp hr hlast h hq hne hs⟩
    obtain ⟨id, hid⟩ := Option.ne_none_iff_exists'.mp hid
    obtain ⟨id', hid'⟩ := ha.blockId id hid
    rw [hid']
    exact Option.some_ne_none id'
  append_costs hc hp hr hlast :=
    ⟨(appendTokenIds_costs hc hp hr hlast).1, fun hs =>
      (appendTokenIds_costs hc hp hr hlast).2 fun id hid => (hs.count id hid).le⟩
  fork hc hp hr h := by
    obtain ⟨hsteps, sources, hsources, hnew⟩ := fork_ok hc hp hr h
    exact ⟨sources, hsources, hsteps.inv hc, hnew⟩
  fork_costs _ _ _ := fork_costs
  free hc hr h := by
    obtain ⟨hsteps, hlive, hframe⟩ := free_ok hc hr h
    exact ⟨hsteps.inv hc, hlive, hframe⟩
  swapOut hc hlive h := by
    obtain ⟨hsteps, hmoved⟩ := swapOut_ok hc hlive h
    exact ⟨hsteps.inv hc, hmoved⟩
  swapIn hc hp hlive hnodup h := by
    obtain ⟨hsteps, hmoved⟩ := swapIn_ok hc hp hlive hnodup h
    exact ⟨hsteps.inv hc, hmoved⟩
  accessed hc h := by
    obtain ⟨hsteps, hlive, hframe⟩ := markBlocksAsAccessed_ok h
    exact ⟨hsteps.inv hc, hlive, hframe⟩
  computed hc h := by
    obtain rfl := run_modify_ok.mp h
    exact ⟨hc.marked, rfl, .of_eq rfl rfl fun _ _ => rfl⟩
  cows l hc := (AllocStep.steps (.cows l)).inv hc
  tier c hc := (AllocStep.steps (.tier c)).inv hc

end Hashing

end PrefixCachingBlockAllocator

end Bi100
