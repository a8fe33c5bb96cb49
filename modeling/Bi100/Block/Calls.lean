import Bi100.Block.Preserve
import Mathlib.Logic.Relation

/-!
# Taking and releasing block ids, call by call

A successful call is a sequence of `AllocStep`s. Each lemma says which id the call took or
released, and which blocks it left alone.

- `allocateBlockId_ok`: a new id has one reference and is not cached.
- `decrRefcountHashlessBlock_ok`, `freeBlockId_ok`: a block drops its id.
- `incrRefcountCachedBlock_ok`: a block gets a cached id.
-/

namespace Bi100

open Py

variable {H : Type}

/-- The blocks of `K` change in nothing but their kept hashes. -/
structure Frame (K : Finset Ref) (s s' : AllocState H) : Prop where
  device : s'.device = s.device
  blockSize : s'.blockSize = s.blockSize
  block : ∀ r ∈ K, s'.heap r =
    { s.heap r with cachedContentHash := (s'.heap r).cachedContentHash }

namespace Frame

variable {K L : Finset Ref} {s s' s'' : AllocState H}

theorem refl (K : Finset Ref) (s : AllocState H) : Frame K s s := ⟨rfl, rfl, fun _ _ => rfl⟩

/-- Blocks that do not change at all. -/
theorem of_eq (hd : s'.device = s.device) (hb : s'.blockSize = s.blockSize)
    (h : ∀ r ∈ K, s'.heap r = s.heap r) : Frame K s s' :=
  ⟨hd, hb, fun r hr => by rw [h r hr]⟩

theorem trans (h : Frame K s s') (h' : Frame L s' s'') (hK : K ⊆ L) : Frame K s s'' := by
  refine ⟨h'.device.trans h.device, h'.blockSize.trans h.blockSize, fun r hr => ?_⟩
  rw [h'.block r (hK hr), h.block r hr]

theorem mono (h : Frame K s s') (hK : L ⊆ K) : Frame L s s' :=
  ⟨h.device, h.blockSize, fun r hr => h.block r (hK hr)⟩

theorem blockId (h : Frame K s s') {r : Ref} (hr : r ∈ K) :
    (s'.heap r).blockId = (s.heap r).blockId := by
  rw [h.block r hr]

theorem content (h : Frame K s s') {r : Ref} (hr : r ∈ K) :
    SameContent (s.heap r) (s'.heap r) := by
  rw [h.block r hr]
  exact ⟨rfl, rfl, rfl⟩

theorem isFull (h : Frame K s s') {r : Ref} (hr : r ∈ K) : s'.isFull r = s.isFull r := by
  rw [AllocState.isFull, AllocState.isFull, h.blockSize, (h.content hr).tokenIds]

end Frame

/-- The same blocks are live, with the same content. -/
structure SameLive (s s' : AllocState H) : Prop where
  blockSize : s'.blockSize = s.blockSize
  live : s'.live = s.live
  content : ∀ r ∈ s.live, SameContent (s.heap r) (s'.heap r)

namespace SameLive

variable {s s' s'' : AllocState H} {r : Ref}

theorem of_frame (h : Frame s.live s s') (hl : s'.live = s.live) : SameLive s s' :=
  ⟨h.blockSize, hl, fun _ hr => h.content hr⟩

theorem of_erase (h : Frame (s.live.erase r) s s') (hl : s'.live = s.live)
    (hr : SameContent (s.heap r) (s'.heap r)) : SameLive s s' := by
  refine ⟨h.blockSize, hl, fun q hq => ?_⟩
  by_cases he : q = r
  · exact he ▸ hr
  · exact h.content (Finset.mem_erase.mpr ⟨he, hq⟩)

theorem trans (h : SameLive s s') (h' : SameLive s' s'') : SameLive s s'' := by
  refine ⟨h'.blockSize.trans h.blockSize, h'.live.trans h.live, fun q hq => ?_⟩
  exact (h.content q hq).trans (h'.content q (h.live ▸ hq))

theorem predsLive (h : SameLive s s') (hs : s.PredsLive) : s'.PredsLive := by
  intro q hq p hp
  rw [h.live] at hq ⊢
  exact hs q hq p ((h.content q hq).prevBlock.trans hp)

theorem hasHash_iff [Sha256 H] (h : SameLive s s') (hp : s.PredsLive) (hr : r ∈ s.live) {x : H} :
    HasHash s'.blockSize s'.heap r x ↔ HasHash s.blockSize s.heap r x := by
  rw [h.blockSize]
  exact (HasHash.congr (K := (· ∈ s.live)) (fun q p hq hqp => hp q hq p hqp) h.content hr).symm

end SameLive

variable [DecidableEq H] [Sha256 H]

/-- Any number of steps. -/
abbrev AllocSteps : AllocConf H → AllocConf H → Prop := Relation.ReflTransGen AllocStep

theorem AllocSteps.inv {c c' : AllocConf H} (h : AllocSteps c c') (hc : Inv c) : Inv c' := by
  induction h with
  | refl => exact hc
  | tail _ hs ih => exact hs.inv ih

theorem AllocStep.steps {c c' : AllocConf H} (h : AllocStep c c') : AllocSteps c c' := .single h

namespace PrefixCachingBlockAllocator

variable {o : List Nat} {p : Option Ref} {s s' : AllocState H} {r : Ref} {id n : Nat}

/-! ## The parts -/

omit [DecidableEq H] [Sha256 H] in
theorem getBlockId_ok : (getBlockId r).run s = .ok id s' ↔
    (s.heap r).blockId = some id ∧ s' = s := by
  rw [getBlockId, run_get_bind, run_getOrRaise_ok]

omit [DecidableEq H] [Sha256 H] in
theorem getBlockId_bind_ok {α : Type} {f : Nat → AllocM H α} {a : α} :
    (getBlockId r >>= f).run s = .ok a s' ↔
      ∃ id, (s.heap r).blockId = some id ∧ (f id).run s = .ok a s' := by
  rw [getBlockId, bind_assoc, run_get_bind, run_getOrRaise_bind_ok]

omit [DecidableEq H] [Sha256 H] in
theorem refIncr_ok : (refIncr id).run s = .ok n s' ↔
    id ∈ s.allBlockIds ∧ n = s.refcounts id + 1 ∧
      s' = withRefcount s id (s.refcounts id + 1) := by
  rw [refIncr, run_get_bind, run_raiseUnless_bind_ok, run_set_bind, run_pure_ok]
  rfl

omit [DecidableEq H] [Sha256 H] in
theorem refDecr_ok : (refDecr id).run s = .ok n s' ↔
    id ∈ s.allBlockIds ∧ 0 < s.refcounts id ∧ n = s.refcounts id - 1 ∧
      s' = withRefcount s id (s.refcounts id - 1) := by
  rw [refDecr, run_get_bind, run_raiseUnless_bind_ok, run_raiseUnless_bind_ok, run_set_bind,
    run_pure_ok]
  rfl

omit [DecidableEq H] [Sha256 H] in
theorem refGet_ok (h : (refGet id).run s = .ok n s') : n = s.refcounts id ∧ s' = s := by
  rw [refGet, run_get_bind, run_raiseUnless_bind_ok, run_pure_ok] at h
  exact h.2

omit [DecidableEq H] [Sha256 H] in
theorem refGet_bind_ok {α : Type} {f : Nat → AllocM H α} {a : α} :
    (refGet id >>= f).run s = .ok a s' ↔
      id ∈ s.allBlockIds ∧ (f (s.refcounts id)).run s = .ok a s' := by
  rw [refGet, bind_assoc, run_get_bind, bind_assoc, run_raiseUnless_bind_ok, pure_bind]

omit [DecidableEq H] [Sha256 H] in
theorem trackBlockId_ok {computed : Bool} {u : Unit} :
    (trackBlockId id computed).run s = .ok u s' →
    s' = { s with blockTracker := Function.update s.blockTracker id (tracked computed) } := by
  rw [trackBlockId, run_get_bind, run_raiseUnless_bind_ok, run_raiseIf_bind_ok, run_set_ok]
  exact fun h => h.2.2

omit [DecidableEq H] [Sha256 H] in
theorem untrackBlockId_ok {u : Unit} :
    (untrackBlockId id).run s = .ok u s' →
    s' = { s with blockTracker := Function.update s.blockTracker id untracked } := by
  rw [untrackBlockId, run_get_bind, run_raiseUnless_bind_ok, run_raiseUnless_bind_ok, run_set_ok]
  exact fun h => h.2.2

omit [DecidableEq H] [Sha256 H] in
theorem setBlockId_ok {blockId : Option Nat} {u : Unit} :
    (setBlockId r blockId).run s = .ok u s' ↔ s' = withId s r blockId :=
  run_modify_ok

omit [DecidableEq H] [Sha256 H] in
theorem poolFree_ok {u : Unit} : (poolFree r).run s = .ok u s' ↔
    s' = { s with poolFreeIds := r.poolId :: s.poolFreeIds } :=
  run_modify_ok

omit [DecidableEq H] [Sha256 H] in
/-- The block that `poolInit` makes. -/
theorem poolInit_ok {prevBlock : Option Ref} {tokenIds : List Nat} {blockId : Option Nat}
    (h : (poolInit prevBlock tokenIds blockId).run s = .ok r s') :
    ∃ size ids b, PoolPop s r size ids ∧ s' = withBlock s r b size ids ∧
      b.prevBlock = prevBlock ∧ b.tokenIds = tokenIds ∧ b.blockId = blockId ∧
      b.cachedContentHash = none ∧ b.computed = false ∧
      b.cacheNamespace = (prevBlock.map fun q => (s.heap q).cacheNamespace).getD [] := by
  rw [poolInit, run_get_bind] at h
  dsimp only at h
  obtain ⟨poolId, s₁, h₁, h⟩ := run_bind_ok.mp h
  obtain ⟨hhead, rfl⟩ := run_getOrRaise_ok.mp h₁
  rw [run_raiseUnless_bind_ok, run_set_bind, run_pure_ok] at h
  obtain ⟨-, rfl, rfl⟩ := h
  refine ⟨_, _, _, ⟨rfl, ?_⟩, rfl, rfl, rfl, rfl, rfl, rfl, rfl⟩
  have hcons := List.cons_head?_tail hhead
  by_cases hf : s₁.poolFreeIds = []
  · rw [if_pos hf] at hcons ⊢
    exact .inr ⟨hf, if_pos hf, hcons.symm⟩
  · rw [if_neg hf] at hcons ⊢
    exact .inl ⟨hcons.symm, if_neg hf⟩

omit [DecidableEq H] [Sha256 H] in
/-- The block that `initBlock` makes. -/
theorem initBlock_ok {prevBlock : Option Ref} {tokenIds : List Nat} {blockId : Option Nat}
    {ns : Bytes} (h : (initBlock prevBlock tokenIds blockId ns).run s = .ok r s') :
    ∃ size ids b, PoolPop s r size ids ∧ s' = withBlock s r b size ids ∧
      b.prevBlock = prevBlock ∧ b.tokenIds = tokenIds ∧ b.blockId = blockId ∧
      b.cachedContentHash = none ∧ b.computed = false ∧
      (prevBlock = none → b.cacheNamespace = ns) := by
  rw [initBlock] at h
  obtain ⟨r', s₁, h₁, h⟩ := run_bind_ok.mp h
  obtain ⟨size, ids, b, hpop, rfl, hprev, htok, hid, hkept, hcomp, hns⟩ := poolInit_ok h₁
  rw [run_get_bind] at h
  dsimp only at h
  rw [run_raiseIf_bind_ok, run_set_bind, run_pure_ok] at h
  obtain ⟨-, rfl, rfl⟩ := h
  refine ⟨size, ids, { b with cacheNamespace := if ns = [] then
    (prevBlock.map fun q => ((withBlock s r b size ids).heap q).cacheNamespace).getD [] else ns },
    hpop, ?_, hprev, htok, hid, hkept, hcomp, ?_⟩
  · simp only [AllocState.updateBlock, withBlock, Function.update_self, Function.update_idem]
  · rintro rfl
    dsimp only
    split
    · next he => exact he.symm
    · rfl

omit [DecidableEq H] [Sha256 H] in
/-- A callback changes nothing but the CPU tier. -/
theorem tier_ok {α : Type} {x : EStateM Err (CpuKvContentCache H) α} {a : α}
    (h : (tier x).run s = .ok a s') : ∃ c, s' = { s with contentCache := c } := by
  simp only [EStateM.run, tier] at h
  split at h
  · cases h
  · split at h
    · cases h
      exact ⟨_, rfl⟩
    · cases h

omit [DecidableEq H] [Sha256 H] in
theorem getPhysicalBlockId_ok (h : (getPhysicalBlockId id).run s = .ok n s') : s' = s := by
  rw [getPhysicalBlockId, run_get_bind, run_raiseUnless_bind_ok, run_pure_ok] at h
  exact h.2.2

omit [Sha256 H] in
theorem stageGpuToCpu_ok {x : H} {u : Unit} (h : (stageGpuToCpu x id).run s = .ok u s') :
    ∃ c, s' = { s with contentCache := c } := by
  rw [stageGpuToCpu] at h
  obtain ⟨_, s₁, h₁, hrest⟩ := run_bind_ok.mp h
  obtain ⟨_, s₂, h₂, hret⟩ := run_bind_ok.mp hrest
  obtain ⟨c, hs₂⟩ := tier_ok h₂
  exact ⟨c, (run_pure_ok.mp hret).2.trans (getPhysicalBlockId_ok h₁ ▸ hs₂)⟩

omit [Sha256 H] in
theorem stageCpuToGpu_ok {x : H} {cpuSlot : Nat} {u : Unit}
    (h : (stageCpuToGpu x cpuSlot id).run s = .ok u s') :
    ∃ c, s' = { s with contentCache := c } := by
  rw [stageCpuToGpu] at h
  obtain ⟨_, s₁, h₁, hrest⟩ := run_bind_ok.mp h
  exact getPhysicalBlockId_ok h₁ ▸ tier_ok hrest

/-! ## Taking an id -/

/-- `id` was taken, and is owed. -/
structure Took (o : List Nat) (p : Option Ref) (s : AllocState H) (id : Nat)
    (s' : AllocState H) : Prop where
  steps : AllocSteps ⟨o, p, s⟩ ⟨id :: o, p, s'⟩
  live : s'.live = s.live
  frame : Frame s.live s s'
  count : s'.refcounts id = 1
  uncached : ∀ h, s'.cachedBlocks.get? h ≠ some id

theorem maybeAllocateHashlessBlockId_ok {x : Option Nat} (hc : Inv ⟨o, p, s⟩)
    (hp : s.PredsLive) (h : (maybeAllocateHashlessBlockId).run s = .ok x s') :
    (x = none ∧ s' = s) ∨ ∃ id, x = some id ∧ Took o p s id s' := by
  rw [maybeAllocateHashlessBlockId, run_get_bind] at h
  split at h
  · exact .inl (run_pure_ok.mp h)
  · next id rest hf =>
    rw [run_set_bind] at h
    obtain ⟨n, s₁, h₁, h⟩ := run_bind_ok.mp h
    obtain ⟨-, -, rfl⟩ := refIncr_ok.mp h₁
    obtain ⟨r, s₂, h₂, h⟩ := run_bind_ok.mp h
    obtain ⟨size, ids, b, hpop, rfl, -⟩ := poolInit_ok h₂
    obtain ⟨_, s₃, h₃, h⟩ := run_bind_ok.mp h
    obtain rfl := poolFree_ok.mp h₃
    obtain ⟨_, s₄, h₄, h⟩ := run_bind_ok.mp h
    obtain rfl := trackBlockId_ok h₄
    obtain ⟨rfl, rfl⟩ := run_pure_ok.mp h
    have hpop : PoolPop s r size ids := hpop
    obtain ⟨-, h0, -, hun⟩ := hc.ids.free id (hf ▸ List.mem_cons_self)
    have hr := (hpop.pool_ok hc.pool).2.2
    refine .inr ⟨id, rfl, ?_, hpop.live_scratch (b := b), .of_eq rfl rfl fun q hq => ?_, ?_, hun⟩
    · have h₁ : AllocStep ⟨o, p, s⟩ ⟨o, p, withBlock s r b size (r.poolId :: ids)⟩ :=
        .scratch hpop hp b
      exact h₁.steps.tail (.takeFree hf)
    · exact Function.update_of_ne (ne_of_mem_of_not_mem hq hr) _ _
    · dsimp only at h0
      simp [withRefcount, withBlock, h0]

theorem evictBlock_ok (hc : Inv ⟨o, p, s⟩) (h : (evictBlock).run s = .ok id s') :
    Took o p s id s' := by
  rw [evictBlock, run_get_bind, run_lift_bind_ok] at h
  obtain ⟨⟨⟨id', x⟩, e⟩, he, h⟩ := h
  dsimp only at h
  rw [run_set_bind] at h
  rw [run_getOrRaise_bind_ok] at h
  obtain ⟨cached, -, h⟩ := h
  rw [refGet_bind_ok, run_raiseUnless_bind_ok, run_raiseUnless_bind_ok] at h
  obtain ⟨-, -, -, h⟩ := h
  -- The external cache may keep the victim's content.
  obtain ⟨c, h⟩ : ∃ c, (do
      let _ ← refIncr id'
      trackBlockId id' false
      pure id' : AllocM H Nat).run
        { s with evictor := e, contentCache := c, cachedBlocks := s.cachedBlocks.erase x } =
      .ok id s' := by
    split at h
    · obtain ⟨_, s₃, h₃, h⟩ := run_bind_ok.mp h
      obtain ⟨c, rfl⟩ := stageGpuToCpu_ok h₃
      exact ⟨c, h⟩
    · exact ⟨s.contentCache, h⟩
  obtain ⟨m, s₄, h₄, h⟩ := run_bind_ok.mp h
  obtain ⟨-, -, rfl⟩ := refIncr_ok.mp h₄
  obtain ⟨_, s₅, h₅, h⟩ := run_bind_ok.mp h
  obtain rfl := trackBlockId_ok h₅
  obtain ⟨rfl, rfl⟩ := run_pure_ok.mp h
  have h₁ : AllocStep ⟨o, p, s⟩ ⟨o, p, { s with contentCache := c }⟩ := .tier c
  have hsteps := h₁.steps.tail (.takeEvicted he)
  have hinv := AllocSteps.inv hsteps hc
  obtain ⟨m', hm', rfl⟩ := (Evictor.evict_ok he).1
  have h0 := (hc.ids.evictable id m' hm').2
  dsimp only at h0
  refine ⟨hsteps, rfl, ⟨rfl, rfl, fun _ _ => rfl⟩, ?_, fun y hy => ?_⟩
  · simp [withRefcount, h0.1]
  · -- The only hash of the id was erased.
    have hy : (s.cachedBlocks.erase m'.contentHash).get? y = some id := hy
    rw [Dict.get?_erase] at hy
    split at hy
    · cases hy
    · next hne => exact hne (hc.ids.cached_inj _ _ id hy h0.2)

theorem allocateBlockId_ok (hc : Inv ⟨o, p, s⟩) (hp : s.PredsLive)
    (h : (allocateBlockId).run s = .ok id s') : Took o p s id s' := by
  rw [allocateBlockId] at h
  obtain ⟨x, s₁, h₁, hrest⟩ := run_bind_ok.mp h
  rcases maybeAllocateHashlessBlockId_ok hc hp h₁ with ⟨rfl, rfl⟩ | ⟨id', rfl, htook⟩
  · obtain ⟨y, s₂, h₂, hret⟩ := run_bind_ok.mp hrest
    obtain ⟨rfl, rfl⟩ := run_getOrRaise_ok.mp hret
    rw [maybeAllocateEvictedBlockId, run_get_bind] at h₂
    split at h₂
    · obtain ⟨he, -⟩ := run_pure_ok.mp h₂
      cases he
    · rw [map_eq_pure_bind] at h₂
      obtain ⟨id', s₃, h₃, hret⟩ := run_bind_ok.mp h₂
      obtain ⟨he, rfl⟩ := run_pure_ok.mp hret
      obtain rfl := Option.some.inj he
      exact evictBlock_ok hc h₃
  · obtain ⟨rfl, rfl⟩ := run_pure_ok.mp hrest
    exact htook

/-! ## Dropping an id -/

/-- `r` dropped its id. -/
structure Dropped (o : List Nat) (p : Option Ref) (s : AllocState H) (r : Ref)
    (s' : AllocState H) : Prop where
  steps : AllocSteps ⟨o, p, s⟩ ⟨o, p, s'⟩
  live : s'.live = s.live
  frame : Frame (s.live.erase r) s s'
  content : SameContent (s.heap r) (s'.heap r)
  blockId : (s'.heap r).blockId = none
  cached : s'.cachedBlocks = s.cachedBlocks

omit [DecidableEq H] [Sha256 H] in
theorem withId_frame (s : AllocState H) (r : Ref) (blockId : Option Nat) :
    Frame (s.live.erase r) s (withId s r blockId) :=
  .of_eq rfl rfl fun _ hq => Function.update_of_ne (Finset.ne_of_mem_erase hq) _ _

omit [DecidableEq H] [Sha256 H] in
@[simp] theorem withId_self (s : AllocState H) (r : Ref) (blockId : Option Nat) :
    (withId s r blockId).heap r = { s.heap r with blockId := blockId } :=
  Function.update_self _ _ _

omit [DecidableEq H] [Sha256 H] in
theorem withId_same (h : (s.heap r).blockId = some id) : withId s r (some id) = s := by
  have : { s.heap r with blockId := some id } = s.heap r := by rw [← h]
  rw [withId, AllocState.updateBlock, this, Function.update_eq_self]

/-- The last step of a release: the block's id is cleared. -/
theorem Dropped.of_step {s₁ : AllocState H} (hstep : AllocStep ⟨o, p, s⟩ ⟨o, p, withId s₁ r none⟩)
    (hlive : s₁.live = s.live) (hdev : s₁.device = s.device) (hbs : s₁.blockSize = s.blockSize)
    (hheap : s₁.heap = s.heap) (hcached : s₁.cachedBlocks = s.cachedBlocks) :
    Dropped o p s r (withId s₁ r none) := by
  refine ⟨hstep.steps, hlive, ?_, ?_, ?_, hcached⟩
  · refine .of_eq hdev hbs fun q hq => ?_
    show Function.update s₁.heap r _ q = _
    rw [Function.update_of_ne (Finset.ne_of_mem_erase hq), hheap]
  · rw [withId_self, hheap]
    exact ⟨rfl, rfl, rfl⟩
  · rw [withId_self]

omit [DecidableEq H] [Sha256 H] in
theorem hashlessFree_ok {u : Unit} (h : (hashlessFree r).run s = .ok u s') :
    ∃ id, (s.heap r).blockId = some id ∧ 0 < s.refcounts id ∧
      s' = withId { s with
        refcounts := Function.update s.refcounts id (s.refcounts id - 1)
        freeBlockIndices := if s.refcounts id - 1 = 0 then id :: s.freeBlockIndices
          else s.freeBlockIndices } r none := by
  rw [hashlessFree, getBlockId_bind_ok] at h
  obtain ⟨id, hid, h⟩ := h
  obtain ⟨n, s₁, h₁, h⟩ := run_bind_ok.mp h
  obtain ⟨-, hpos, rfl, rfl⟩ := refDecr_ok.mp h₁
  rw [run_modify_bind] at h
  obtain rfl := setBlockId_ok.mp h
  refine ⟨id, hid, hpos, ?_⟩
  split <;> rfl

theorem decrRefcountHashlessBlock_ok {u : Unit} (hr : r ∈ s.live)
    (hhash : p = some r ∨ ∀ h, ¬ HasHash s.blockSize s.heap r h)
    (h : (decrRefcountHashlessBlock r).run s = .ok u s') : Dropped o p s r s' := by
  rw [decrRefcountHashlessBlock, getBlockId_bind_ok] at h
  obtain ⟨id, hid, h⟩ := h
  rw [refGet_bind_ok] at h
  obtain ⟨-, h⟩ := h
  dsimp only at h
  split at h
  · next h1 =>
    obtain ⟨_, s₁, h₁, h⟩ := run_bind_ok.mp h
    obtain rfl := untrackBlockId_ok h₁
    obtain ⟨id', hid', -, rfl⟩ := hashlessFree_ok h
    obtain rfl := Option.some.inj (hid.symm.trans hid')
    simp only [h1, Nat.sub_self, if_true]
    exact .of_step (.releaseFree hr hid h1 hhash) rfl rfl rfl rfl rfl
  · next h1 =>
    obtain ⟨id', hid', hpos, rfl⟩ := hashlessFree_ok h
    obtain rfl := Option.some.inj (hid.symm.trans hid')
    rw [if_neg (by omega)]
    exact .of_step (.releaseShared hr hid (by omega)) rfl rfl rfl rfl rfl

/-- A content hash is asked for, and exists. -/
theorem getContentHash_ok {x : H} (hc : Inv ⟨o, p, s⟩) (hr : r ∈ s.live)
    (h : (getContentHash r).run s = .ok x s') :
    SameButHashes s s' ∧ s'.Sound ∧ HasHash s.blockSize s.heap r x := by
  rw [getContentHash] at h
  obtain ⟨y, s₁, h₁, h⟩ := run_bind_ok.mp h
  obtain ⟨rfl, rfl⟩ := run_getOrRaise_ok.mp h
  obtain ⟨hsame, hsound, hiff⟩ := contentHash_ok h₁ hc.sound (.live hr)
  exact ⟨hsame, hsound, (hiff x).mp rfl⟩

omit [DecidableEq H] [Sha256 H] in
theorem SameButHashes.frame (h : SameButHashes s s') (K : Finset Ref) : Frame K s s' :=
  ⟨by rw [h.state], by rw [h.state], fun r _ => h.block r⟩

omit [DecidableEq H] [Sha256 H] in
theorem SameButHashes.sameLive (h : SameButHashes s s') : SameLive s s' :=
  .of_frame (h.frame _) h.live_eq

/-- Hashes were kept before the release. -/
theorem Dropped.of_hashes {s₁ : AllocState H} (h : SameButHashes s s₁) (hs : s₁.Sound)
    (hd : Dropped o p s₁ r s') : Dropped o p s r s' := by
  have hl := h.live_eq
  refine ⟨.head (.hashes h hs) hd.steps, hd.live.trans hl, ?_, ?_, hd.blockId,
    hd.cached.trans (by rw [h.state])⟩
  · exact (h.frame _).trans hd.frame (by rw [hl])
  · exact (h.sameContent r).trans hd.content

theorem decrRefcountCachedBlock_ok {u : Unit} (hc : Inv ⟨o, p, s⟩) (hr : r ∈ s.live)
    (hp : p ≠ some r) (h : (decrRefcountCachedBlock r).run s = .ok u s') :
    Dropped o p s r s' := by
  rw [decrRefcountCachedBlock] at h
  obtain ⟨x, s₁, h₁, h⟩ := run_bind_ok.mp h
  obtain ⟨hsame, hsound, hx⟩ := getContentHash_ok hc hr h₁
  refine .of_hashes hsame hsound ?_
  have hr : r ∈ s₁.live := hsame.live_eq ▸ hr
  have hx : HasHash s₁.blockSize s₁.heap r x := hsame.hasHash_iff.mpr hx
  rw [getBlockId_bind_ok] at h
  obtain ⟨id, hid, h⟩ := h
  obtain ⟨n, s₂, h₂, h⟩ := run_bind_ok.mp h
  obtain ⟨-, hpos, rfl, rfl⟩ := refDecr_ok.mp h₂
  dsimp only at h
  split at h
  · next h1 =>
    obtain rfl := setBlockId_ok.mp h
    exact .of_step (.releaseShared hr hid (by omega)) rfl rfl rfl rfl rfl
  · next h1 =>
    have h1 : s₁.refcounts id = 1 := by omega
    rw [makeEvictable] at h
    obtain ⟨_, s₃, h₃, h⟩ := run_bind_ok.mp h
    rw [run_get_bind, run_raiseUnless_bind_ok, run_set_bind] at h₃
    obtain rfl := untrackBlockId_ok h₃.2
    obtain rfl := setBlockId_ok.mp h
    simp only [withRefcount, h1, Nat.sub_self]
    exact .of_step (.releaseCached hr hid h1 hp hx _ _) rfl rfl rfl rfl rfl

theorem freeBlockId_ok {u : Unit} (hc : Inv ⟨o, none, s⟩) (hr : r ∈ s.live)
    (h : (freeBlockId r).run s = .ok u s') : Dropped o none s r s' := by
  rw [freeBlockId, getBlockId_bind_ok] at h
  obtain ⟨id, -, h⟩ := h
  obtain ⟨x, s₁, h₁, h⟩ := run_bind_ok.mp h
  obtain ⟨hsame, hsound, hiff⟩ := contentHash_ok h₁ hc.sound (.live hr)
  have hr' : r ∈ s₁.live := hsame.live_eq ▸ hr
  refine .of_hashes hsame hsound ?_
  cases x with
  | some x => exact decrRefcountCachedBlock_ok (hc.hashes hsame hsound) hr' (by simp) h
  | none =>
    refine decrRefcountHashlessBlock_ok hr' (.inr fun x hx => ?_) h
    exact absurd ((hiff x).mpr (hsame.hasHash_iff.mp hx)) (by simp)

/-! ## Getting a cached id -/

/-- `r` got the id `id`, and is computed. -/
structure Acquired (o : List Nat) (p : Option Ref) (s : AllocState H) (r : Ref) (id : Nat)
    (s' : AllocState H) : Prop where
  steps : AllocSteps ⟨o, p, s⟩ ⟨o, none, s'⟩
  live : s'.live = s.live
  frame : Frame (s.live.erase r) s s'
  content : SameContent (s.heap r) (s'.heap r)
  blockId : (s'.heap r).blockId = some id

theorem Acquired.of_step {s₁ : AllocState H}
    (hstep : AllocStep ⟨o, p, s⟩ ⟨o, none, withComputed s₁ r id⟩) (hlive : s₁.live = s.live)
    (hdev : s₁.device = s.device) (hbs : s₁.blockSize = s.blockSize) (hheap : s₁.heap = s.heap) :
    Acquired o p s r id (withComputed s₁ r id) := by
  refine ⟨hstep.steps, hlive, .of_eq hdev hbs fun q hq => ?_, ?_, ?_⟩
  · show Function.update s₁.heap r _ q = _
    rw [Function.update_of_ne (Finset.ne_of_mem_erase hq), hheap]
  · simp only [withComputed, AllocState.updateBlock, Function.update_self, hheap]
    exact ⟨rfl, rfl, rfl⟩
  · simp only [withComputed, AllocState.updateBlock, Function.update_self]

theorem incrRefcountCachedBlock_ok {x : H} {u : Unit} (hc : Inv ⟨o, p, s⟩) (hr : r ∈ s.live)
    (hnone : (s.heap r).blockId = none) (hx : HasHash s.blockSize s.heap r x)
    (hget : s.cachedBlocks.get? x = some id) (hp : p = none ∨ p = some r)
    (h : (incrRefcountCachedBlock r).run (withId s r (some id)) = .ok u s') :
    Acquired o p s r id s' := by
  have hcomp : ((withId s r (some id)).updateBlock r fun b => { b with computed := true }) =
      withComputed s r id := by
    simp only [withId, withComputed, AllocState.updateBlock, Function.update_self,
      Function.update_idem]
  rw [incrRefcountCachedBlock, run_modify_bind, hcomp, getBlockId_bind_ok] at h
  obtain ⟨id', hid', h⟩ := h
  simp only [withComputed, AllocState.updateBlock, Function.update_self, Option.some.injEq] at hid'
  subst hid'
  obtain ⟨n, s₁, h₁, h⟩ := run_bind_ok.mp h
  obtain ⟨-, rfl, rfl⟩ := refIncr_ok.mp h₁
  split at h
  · next h1 =>
    have h0 : s.refcounts id = 0 := Nat.succ.inj h1
    -- A cached id that nobody uses is in the evictor.
    obtain ⟨m, hm, -⟩ := hc.ids.evictable_of_cached hget h0
    rw [run_get_bind, run_lift_bind_ok] at h
    obtain ⟨e, he, h⟩ := h
    have hmem : id ∈ s.evictor.freeTable := Dict.mem_of_get? hm
    have he : s.evictor.remove id = .ok e := (if_pos hmem).symm.trans he
    rw [run_set_bind] at h
    obtain rfl := trackBlockId_ok h
    exact .of_step (.acquireEvicted hr hnone hx hget h0 (Evictor.remove_ok he).2 hp)
      rfl rfl rfl rfl
  · next h1 =>
    obtain ⟨-, rfl⟩ := run_pure_ok.mp h
    have hpos : 0 < s.refcounts id := Nat.pos_of_ne_zero fun h0 => h1 (congrArg (· + 1) h0)
    exact .of_step (.acquireUsed hr hnone hx hget hpos hp) rfl rfl rfl rfl

end PrefixCachingBlockAllocator

end Bi100
