import Bi100.Block.Laws

/-!
# The naive allocator obeys the laws

`NaiveInv`: the reference count of an id is the number of live blocks that hold it, plus what a
local variable of a method owns (`o`), and free ids have no references.

- `allocateMutableBlock_ok`, `appendTokenIds_ok`, `swapInBlock_ok`: what the methods do.
- `NaiveBlockAllocator.lawful`: the laws.
-/

namespace Bi100

open Py AllocState

variable {H : Type}

/-- The blocks and their ids agree. -/
structure NaiveInv (o : List Nat) (s : AllocState H) : Prop where
  pool : PoolInv s
  nodup : s.freeBlockIndices.Nodup
  unused : ∀ id ∈ s.freeBlockIndices, s.refcounts id = 0
  count : ∀ id, s.refcounts id = (s.holders id).card + o.count id

namespace NaiveInv

variable {o o' : List Nat} {s s' : AllocState H} {r : Ref} {id : Nat}

/-! ## What a method does to ids -/

theorem perm (hc : NaiveInv o s) (h : o.Perm o') : NaiveInv o' s :=
  ⟨hc.pool, hc.nodup, hc.unused, fun id => h.count_eq id ▸ hc.count id⟩

theorem of_same (hc : NaiveInv o s) (hpool : SamePool s s')
    (hfree : s'.freeBlockIndices = s.freeBlockIndices) (href : s'.refcounts = s.refcounts)
    (hids : ∀ q ∈ s.live, (s'.heap q).blockId = (s.heap q).blockId) : NaiveInv o s' := by
  refine ⟨hpool.pool hc.pool, hfree ▸ hc.nodup, ?_, fun id => ?_⟩
  · rw [hfree, href]
    exact hc.unused
  · rw [href, holders_eq hpool.live_eq hids]
    exact hc.count id

/-- A live block has a used id. -/
theorem used (hc : NaiveInv o s) (hr : r ∈ s.live) (hid : (s.heap r).blockId = some id) :
    0 < s.refcounts id := refcount_pos hc.count hr hid

theorem not_free (hc : NaiveInv o s) (h : 0 < s.refcounts id) : id ∉ s.freeBlockIndices :=
  fun hf => h.ne' (hc.unused id hf)

theorem take {rest : List Nat} (hc : NaiveInv o s) (hf : s.freeBlockIndices = id :: rest) :
    NaiveInv (id :: o)
      (withRefcount { s with freeBlockIndices := rest } id (s.refcounts id + 1)) := by
  have hnd := hc.nodup
  rw [hf] at hnd
  obtain ⟨hid, hrest⟩ := List.nodup_cons.mp hnd
  refine ⟨⟨hc.pool.nodup, hc.pool.lt, hc.pool.guests⟩, hrest, fun x hx => ?_, fun x => ?_⟩
  · show Function.update s.refcounts id _ x = 0
    rw [Function.update_of_ne (ne_of_mem_of_not_mem hx hid)]
    exact hc.unused x (hf ▸ List.mem_cons_of_mem id hx)
  · have := hc.count x
    show Function.update s.refcounts id _ x = (s.holders x).card + (id :: o).count x
    rw [Function.update_apply, List.count_cons]
    by_cases he : x = id
    · subst he
      simp only [if_true, beq_self_eq_true]
      omega
    · simp only [he, if_false, beq_iff_eq, Ne.symm he]
      omega

theorem share (hc : NaiveInv o s) (h : 0 < s.refcounts id) :
    NaiveInv (id :: o) (withRefcount s id (s.refcounts id + 1)) := by
  refine ⟨⟨hc.pool.nodup, hc.pool.lt, hc.pool.guests⟩, hc.nodup, fun x hx => ?_, fun x => ?_⟩
  · show Function.update s.refcounts id _ x = 0
    rw [Function.update_of_ne (ne_of_mem_of_not_mem hx (hc.not_free h))]
    exact hc.unused x hx
  · have := hc.count x
    show Function.update s.refcounts id _ x = (s.holders x).card + (id :: o).count x
    rw [Function.update_apply, List.count_cons]
    by_cases he : x = id
    · subst he
      simp only [if_true, beq_self_eq_true]
      omega
    · simp only [he, if_false, beq_iff_eq, Ne.symm he]
      omega

/-- A block is made with an owed id. -/
theorem newBlock {size : Nat} {freeIds : List Nat} {b : PrefixCachingBlock H} (hc : NaiveInv o s)
    (hpop : PoolPop s r size freeIds) (hb : b.blockId = some id) (howed : id ∈ o) :
    NaiveInv (o.erase id) (withBlock s r b size freeIds) := by
  obtain ⟨-, -, hnew⟩ := hpop.pool_ok hc.pool
  refine ⟨hpop.pool_insert hc.pool, hc.nodup, hc.unused, fun x => ?_⟩
  have h₁ := hc.count x
  have h₂ := count_erase_add howed x
  have h₃ := card_holders_insert (hpop.live_insert hc.pool (b := b)) hnew
    (fun q hq => by
      show (Function.update s.heap r b q).blockId = _
      rw [Function.update_of_ne (ne_of_mem_of_not_mem hq hnew)]) x
  have hself : (withBlock s r b size freeIds).heap r = b := Function.update_self _ _ _
  rw [hself, hb] at h₃
  show s.refcounts x = _
  omega

/-- The id of a block becomes owed. -/
theorem disown (hc : NaiveInv o s) (hr : r ∈ s.live) (hid : (s.heap r).blockId = some id) :
    NaiveInv (id :: o) (withId s r none) := by
  refine ⟨⟨hc.pool.nodup, hc.pool.lt, hc.pool.guests⟩, hc.nodup, hc.unused, fun x => ?_⟩
  have h₁ := hc.count x
  have h₂ := card_holders_update (s := s) (t := withId s r none) rfl hr
    (fun q _ hq => by simp only [withId, AllocState.updateBlock, Function.update_of_ne hq]) x
  rw [PrefixCachingBlockAllocator.withId_self, hid] at h₂
  show s.refcounts x = _
  rw [List.count_cons]
  simp only [reduceCtorEq, if_false, Option.some.injEq] at h₂
  simp only [beq_iff_eq]
  omega

/-- A block without an id gets an owed one. -/
theorem assign (hc : NaiveInv o s) (hr : r ∈ s.live) (hnone : (s.heap r).blockId = none)
    (howed : id ∈ o) : NaiveInv (o.erase id) (withId s r (some id)) := by
  refine ⟨⟨hc.pool.nodup, hc.pool.lt, hc.pool.guests⟩, hc.nodup, hc.unused, fun x => ?_⟩
  have h₁ := hc.count x
  have h₂ := count_erase_add howed x
  have h₃ := card_holders_update (s := s) (t := withId s r (some id)) rfl hr
    (fun q _ hq => by simp only [withId, AllocState.updateBlock, Function.update_of_ne hq]) x
  rw [PrefixCachingBlockAllocator.withId_self, hnone] at h₃
  show s.refcounts x = _
  simp only [reduceCtorEq, if_false] at h₃
  omega

/-- A reference that is owed is given up. -/
theorem drop (hc : NaiveInv (id :: o) s) : NaiveInv o { s with
    refcounts := Function.update s.refcounts id (s.refcounts id - 1)
    freeBlockIndices := if s.refcounts id - 1 = 0 then id :: s.freeBlockIndices
      else s.freeBlockIndices } := by
  have hpos : 0 < s.refcounts id := by
    have := hc.count id
    rw [List.count_cons_self] at this
    omega
  have hfree := hc.not_free hpos
  refine ⟨⟨hc.pool.nodup, hc.pool.lt, hc.pool.guests⟩, ?_, fun x hx => ?_, fun x => ?_⟩
  · dsimp only
    split
    · exact List.nodup_cons.mpr ⟨hfree, hc.nodup⟩
    · exact hc.nodup
  · dsimp only at hx ⊢
    rw [Function.update_apply]
    by_cases he : x = id
    · subst he
      rw [if_pos rfl]
      by_contra hne
      rw [if_neg hne] at hx
      exact hfree hx
    · rw [if_neg he]
      refine hc.unused x ?_
      split at hx
      · exact (List.mem_cons.mp hx).resolve_left he
      · exact hx
  · have := hc.count x
    show Function.update s.refcounts id _ x = (s.holders x).card + o.count x
    rw [List.count_cons] at this
    rw [Function.update_apply]
    by_cases he : x = id
    · subst he
      simp only [beq_self_eq_true, if_true] at this
      rw [if_pos rfl]
      omega
    · simp only [beq_iff_eq, Ne.symm he, if_false] at this
      rw [if_neg he]
      omega

/-- A block object without an id goes back to the pool. -/
theorem freeObject (hc : NaiveInv o s) (hr : s.Own r) (hnone : (s.heap r).blockId = none) :
    NaiveInv o { s with poolFreeIds := r.poolId :: s.poolFreeIds } := by
  refine ⟨hr.pool_free hc.pool, hc.nodup, hc.unused, fun x => ?_⟩
  have h₁ := hc.count x
  have hlive := hr.live_free hc.pool
  have h₂ := card_holders_insert (s := { s with poolFreeIds := r.poolId :: s.poolFreeIds })
    (t := s) (r := r) (by rw [hlive, Finset.insert_erase hr.live])
    (by rw [hlive]; exact Finset.notMem_erase r _) (fun _ _ => rfl) x
  rw [if_neg (by rw [hnone]; simp)] at h₂
  show s.refcounts x = _
  omega

end NaiveInv

namespace NaiveBlockAllocator

open PrefixCachingBlockAllocator (getBlockId_ok getBlockId_bind_ok refGet_bind_ok refIncr_ok
  hashlessFree_ok setBlockId_ok poolFree_ok poolInit_ok withId_self getAllBlocksRecursively Chain)

variable {o : List Nat} {s s' : AllocState H} {r : Ref} {id : Nat}

/-! ## Ids -/

theorem allocateBlockId_ok (h : (allocateBlockId).run s = .ok id s') :
    ∃ rest, s.freeBlockIndices = id :: rest ∧
      s' = withRefcount { s with freeBlockIndices := rest } id (s.refcounts id + 1) := by
  rw [allocateBlockId, run_get_bind] at h
  split at h
  · cases run_throw_ok.mp h
  · next blockId rest hf =>
    rw [run_set_bind] at h
    obtain ⟨_, s₁, h₁, h⟩ := run_bind_ok.mp h
    obtain ⟨-, -, rfl⟩ := refIncr_ok.mp h₁
    obtain ⟨rfl, rfl⟩ := run_pure_ok.mp h
    exact ⟨rest, hf, rfl⟩

theorem freeBlockId_ok {u : Unit} (hc : NaiveInv o s) (hr : r ∈ s.live)
    (h : (freeBlockId r).run s = .ok u s') : NaiveInv o s' ∧ Moved s [r] false s' := by
  obtain ⟨id, hid, -, rfl⟩ := hashlessFree_ok h
  refine ⟨(hc.disown hr hid).drop, .single rfl ?_ ?_ ?_⟩
  · exact .of_eq rfl rfl fun q hq => Function.update_of_ne (Finset.ne_of_mem_erase hq) _ _
  · rw [withId_self]
    exact ⟨rfl, rfl, rfl⟩
  · rw [withId_self]
    rfl

/-! ## New blocks -/

theorem poolInit_new {prevBlock : Option Ref} {tokenIds : List Nat} (hc : NaiveInv o s)
    (howed : id ∈ o) (h : (PrefixCachingBlockAllocator.poolInit prevBlock tokenIds (some id)).run s =
      .ok r s') :
    NaiveInv (o.erase id) s' ∧ NewBlocks s prevBlock [tokenIds] [r] s' ∧
      (s'.heap r).blockId = some id ∧ s'.refcounts = s.refcounts := by
  obtain ⟨size, ids, b, hpop, rfl, hprev, htok, hid, -⟩ := poolInit_ok h
  obtain ⟨-, -, hnew⟩ := hpop.pool_ok hc.pool
  have hself : (withBlock s r b size ids).heap r = b := Function.update_self _ _ _
  have hlive := hpop.live_insert hc.pool (b := b)
  refine ⟨hc.newBlock hpop hid howed, ⟨List.nodup_singleton r, ?_, fun q => ?_, ?_, ?_, ?_, ?_, ?_⟩,
    by rw [hself, hid], rfl⟩
  · exact fun q hq => List.mem_singleton.mp hq ▸ hnew
  · rw [hlive, Finset.mem_insert, List.mem_singleton, or_comm]
  · exact fun q hq => List.mem_singleton.mp hq ▸ hpop.1
  · exact .of_eq rfl rfl fun q hq => Function.update_of_ne (ne_of_mem_of_not_mem hq hnew) _ _
  · exact ⟨by rw [hself, hprev], trivial⟩
  · rw [List.map_singleton, hself, htok]
  · intro q hq
    obtain rfl := List.mem_singleton.mp hq
    rw [hself, hid]
    exact Option.some_ne_none id

theorem allocateMutableBlock_ok {prevBlock : Option Ref} (hc : NaiveInv o s)
    (h : (allocateMutableBlock prevBlock).run s = .ok r s') :
    NaiveInv o s' ∧ NewBlocks s prevBlock [[]] [r] s' ∧ ∃ id, (s'.heap r).blockId = some id ∧
      s.refcounts id = 0 ∧ s'.refcounts = Function.update s.refcounts id 1 := by
  rw [allocateMutableBlock] at h
  obtain ⟨id, s₁, h₁, h⟩ := run_bind_ok.mp h
  obtain ⟨rest, hf, rfl⟩ := allocateBlockId_ok h₁
  have h0 : s.refcounts id = 0 := hc.unused id (hf ▸ List.mem_cons_self)
  obtain ⟨hc', hnew, hid, href⟩ := poolInit_new (hc.take hf) List.mem_cons_self h
  rw [List.erase_cons_head] at hc'
  refine ⟨hc', hnew.of_start rfl (.of_eq rfl rfl fun _ _ => rfl), id, hid, h0, ?_⟩
  rw [href, h0]
  rfl

/-! ## Appending -/

/-- The block keeps its id, or moves to a free one. -/
theorem cowBlockIfNotAppendable_ok {s₁ : AllocState H} (hc : NaiveInv o s) (hr : r ∈ s.live)
    (h : (cowBlockIfNotAppendable r).run s = .ok id s₁) (h' : s' = withId s₁ r (some id)) :
    NaiveInv o s' ∧ Moved s [r] true s' ∧ ∀ x, s.refcounts x = 1 →
      (s.heap r).blockId ≠ some x → s'.refcounts x = 1 := by
  rw [cowBlockIfNotAppendable, getBlockId_bind_ok] at h
  obtain ⟨src, hsrc, h⟩ := h
  rw [refGet_bind_ok] at h
  obtain ⟨-, h⟩ := h
  split at h
  · obtain ⟨rfl, rfl⟩ := run_pure_ok.mp h
    rw [PrefixCachingBlockAllocator.withId_same hsrc] at h'
    subst h'
    exact ⟨hc, .single rfl (.refl _ _) (.refl _) (by rw [hsrc]; rfl), fun x h1 _ => h1⟩
  · obtain ⟨_, s₂, h₂, h⟩ := run_bind_ok.mp h
    obtain ⟨hc₂, hmoved₂⟩ := freeBlockId_ok hc hr h₂
    obtain ⟨src', hsrc', -, hs₂⟩ := hashlessFree_ok h₂
    obtain rfl := Option.some.inj (hsrc.symm.trans hsrc')
    obtain ⟨trg, s₃, h₃, h⟩ := run_bind_ok.mp h
    obtain ⟨rest, hf, rfl⟩ := allocateBlockId_ok h₃
    rw [run_modify_bind] at h
    obtain ⟨rfl, rfl⟩ := run_pure_ok.mp h
    subst h'
    have hr₂ : r ∈ s₂.live := hmoved₂.live ▸ hr
    have hnone : (s₂.heap r).blockId = none := by
      have := hmoved₂.blockId r (List.mem_singleton_self r)
      simpa using this
    have hassign := (hc₂.take hf).assign (r := r) hr₂ hnone List.mem_cons_self
    rw [List.erase_cons_head] at hassign
    refine ⟨⟨⟨hassign.pool.nodup, hassign.pool.lt, hassign.pool.guests⟩, hassign.nodup,
      hassign.unused, hassign.count⟩, .single hmoved₂.live ?_ ?_ ?_, fun x h1 hx => ?_⟩
    · refine (hmoved₂.frame.mono (fun q hq => ?_)).trans (L := s.live.erase r) ?_
        (Finset.Subset.refl _)
      · obtain ⟨hne, hq⟩ := Finset.mem_erase.mp hq
        exact Finset.mem_sdiff.mpr ⟨hq, by simpa using hne⟩
      · exact .of_eq rfl rfl fun q hq => Function.update_of_ne (Finset.ne_of_mem_erase hq) _ _
    · rw [withId_self]
      exact (hmoved₂.content r (List.mem_singleton_self r)).trans ⟨rfl, rfl, rfl⟩
    · rw [withId_self]
      rfl
    · have hne : x ≠ src := fun e => hx (e ▸ hsrc)
      have h₂x : s₂.refcounts x = 1 := by
        rw [hs₂]
        show Function.update s.refcounts src _ x = 1
        rw [Function.update_of_ne hne, h1]
      have hnf : x ≠ id := by
        rintro rfl
        have := hc₂.unused x (hf ▸ List.mem_cons_self)
        omega
      show Function.update s₂.refcounts id _ x = 1
      rw [Function.update_of_ne hnf, h₂x]

theorem appendTokenIds_ok {tokenIds : List Nat} {u : Unit} (hc : NaiveInv o s) (hr : r ∈ s.live)
    (h : (appendTokenIds r tokenIds).run s = .ok u s') :
    NaiveInv o s' ∧ Extended s r tokenIds s' ∧ ∀ x, s.refcounts x = 1 →
      (s.heap r).blockId ≠ some x → s'.refcounts x = 1 := by
  rw [appendTokenIds, run_get_bind, run_raiseUnless_bind_ok, run_set_bind] at h
  obtain ⟨-, h⟩ := h
  obtain ⟨s₁, hs₁⟩ : ∃ s₁, s₁ =
    s.updateBlock r fun b => { b with tokenIds := b.tokenIds ++ tokenIds } := ⟨_, rfl⟩
  have hself : s₁.heap r = { s.heap r with tokenIds := (s.heap r).tokenIds ++ tokenIds } := by
    rw [hs₁]
    exact Function.update_self _ _ _
  have hother : ∀ q, q ≠ r → s₁.heap q = s.heap q := fun q hq => by
    rw [hs₁]
    exact Function.update_of_ne hq _ _
  rw [← hs₁] at h
  have hc₁ : NaiveInv o s₁ := by
    refine hc.of_same ?_ (by rw [hs₁]; rfl) (by rw [hs₁]; rfl) fun q _ => ?_
    · rw [hs₁]
      exact ⟨rfl, rfl, rfl, rfl⟩
    · by_cases he : q = r
      · rw [he, hself]
      · rw [hother q he]
  have hlive₁ : s₁.live = s.live := by rw [hs₁]; rfl
  have hframe₁ : Frame (s.live.erase r) s s₁ := by
    refine .of_eq (by rw [hs₁]; rfl) (by rw [hs₁]; rfl) fun q hq => ?_
    exact hother q (Finset.ne_of_mem_erase hq)
  have hid₁ : (s₁.heap r).blockId = (s.heap r).blockId := by rw [hself]
  have href₁ : s₁.refcounts = s.refcounts := by rw [hs₁]; rfl
  split at h
  · next hnone =>
    obtain ⟨-, rfl⟩ := run_pure_ok.mp h
    exact ⟨hc₁, ⟨hlive₁, hframe₁, by rw [hself], by rw [hself], fun hne => absurd hnone hne⟩,
      fun x h1 _ => href₁ ▸ h1⟩
  · obtain ⟨trg, s₂, h₂, h⟩ := run_bind_ok.mp h
    obtain ⟨hc', hmoved, hone⟩ := cowBlockIfNotAppendable_ok hc₁ (hlive₁ ▸ hr) h₂ (setBlockId_ok.mp h)
    have hcont := hmoved.content r (List.mem_singleton_self r)
    refine ⟨hc', ⟨hmoved.live.trans hlive₁, ?_, ?_, ?_, fun _ => ?_⟩, fun x h1 hx => ?_⟩
    · refine hframe₁.trans hmoved.frame fun q hq => ?_
      obtain ⟨hne, hq⟩ := Finset.mem_erase.mp hq
      exact Finset.mem_sdiff.mpr ⟨hlive₁ ▸ hq, by simpa using hne⟩
    · rw [← hcont.prevBlock, hself]
    · rw [← hcont.tokenIds, hself]
    · exact Option.isSome_iff_ne_none.mp (hmoved.blockId r (List.mem_singleton_self r))
    · exact hone x (href₁ ▸ h1) (hid₁ ▸ hx)

/-! ## Several blocks -/

theorem allocateBlockIds_ok {n : Nat} {ids : List Nat} (hc : NaiveInv o s)
    (h : (allocateBlockIds n).run s = .ok ids s') :
    NaiveInv (ids ++ o) s' ∧ ids.length = n ∧ s'.live = s.live ∧ Frame s.live s s' := by
  induction n generalizing ids o s with
  | zero =>
    obtain ⟨rfl, rfl⟩ := run_pure_ok.mp h
    exact ⟨hc, rfl, rfl, .refl _ _⟩
  | succ n ih =>
    rw [allocateBlockIds] at h
    obtain ⟨id, s₁, h₁, h⟩ := run_bind_ok.mp h
    obtain ⟨rest, hf, rfl⟩ := allocateBlockId_ok h₁
    obtain ⟨ids', s₂, h₂, h⟩ := run_bind_ok.mp h
    obtain ⟨rfl, rfl⟩ := run_pure_ok.mp h
    obtain ⟨hc', hlen, hlive, hframe⟩ := ih (hc.take hf) h₂
    refine ⟨hc'.perm List.perm_middle, by rw [List.length_cons, hlen], hlive, ?_⟩
    exact ⟨hframe.device, hframe.blockSize, hframe.block⟩

theorem initBlocks_ok {prevBlock : Option Ref} {l : List (List Nat × Nat)} {rs : List Ref}
    (hc : NaiveInv (l.map Prod.snd ++ o) s) (h : (initBlocks prevBlock l).run s = .ok rs s') :
    NaiveInv o s' ∧ NewBlocks s prevBlock (l.map Prod.fst) rs s' := by
  induction l generalizing prevBlock rs s with
  | nil =>
    obtain ⟨rfl, rfl⟩ := run_pure_ok.mp h
    exact ⟨hc, .nil⟩
  | cons x rest ih =>
    obtain ⟨tokenIds, id⟩ := x
    rw [initBlocks] at h
    obtain ⟨r, s₁, h₁, h⟩ := run_bind_ok.mp h
    obtain ⟨rs', s₂, h₂, h⟩ := run_bind_ok.mp h
    obtain ⟨rfl, rfl⟩ := run_pure_ok.mp h
    obtain ⟨hc₁, hnew₁, -⟩ := poolInit_new hc List.mem_cons_self h₁
    rw [List.map_cons, List.cons_append, List.erase_cons_head] at hc₁
    obtain ⟨hc', hnew⟩ := ih hc₁ h₂
    exact ⟨hc', hnew₁.cons hnew⟩

theorem allocateImmutableBlocks_ok {prevBlock : Option Ref} {tokens : List (List Nat)}
    {rs : List Ref} (hc : NaiveInv o s)
    (h : (allocateImmutableBlocks prevBlock tokens).run s = .ok rs s') :
    NaiveInv o s' ∧ NewBlocks s prevBlock tokens rs s' := by
  rw [allocateImmutableBlocks] at h
  obtain ⟨ids, s₁, h₁, h⟩ := run_bind_ok.mp h
  obtain ⟨hc₁, hlen, hlive, hframe⟩ := allocateBlockIds_ok hc h₁
  have hfst : (tokens.zip ids).map Prod.fst = tokens := List.map_fst_zip hlen.ge
  have hsnd : (tokens.zip ids).map Prod.snd = ids := List.map_snd_zip hlen.le
  obtain ⟨hc', hnew⟩ := initBlocks_ok (hsnd.symm ▸ hc₁) h
  exact ⟨hc', (hfst ▸ hnew).of_start hlive hframe⟩

theorem forkBlocks_ok {prevBlock : Option Ref} {sources rs : List Ref} (hc : NaiveInv o s)
    (hlive : ∀ r ∈ sources, r ∈ s.live) (h : (forkBlocks prevBlock sources).run s = .ok rs s') :
    NaiveInv o s' ∧ NewBlocks s prevBlock (sources.map fun r => (s.heap r).tokenIds) rs s' := by
  induction sources generalizing prevBlock rs s with
  | nil =>
    obtain ⟨rfl, rfl⟩ := run_pure_ok.mp h
    exact ⟨hc, .nil⟩
  | cons src rest ih =>
    rw [forkBlocks, getBlockId_bind_ok] at h
    obtain ⟨id, hid, h⟩ := h
    obtain ⟨n, s₁, h₁, h⟩ := run_bind_ok.mp h
    obtain ⟨-, rfl, rfl⟩ := refIncr_ok.mp h₁
    rw [run_raiseIf_bind_ok, run_get_bind] at h
    obtain ⟨-, h⟩ := h
    obtain ⟨r, s₂, h₂, h⟩ := run_bind_ok.mp h
    obtain ⟨rs', s₃, h₃, h⟩ := run_bind_ok.mp h
    obtain ⟨rfl, rfl⟩ := run_pure_ok.mp h
    have hsrc := hlive src List.mem_cons_self
    obtain ⟨hc₂, hnew₂, -⟩ := poolInit_new (hc.share (hc.used hsrc hid)) List.mem_cons_self h₂
    rw [List.erase_cons_head] at hc₂
    have hnew₂ : NewBlocks s prevBlock [(s.heap src).tokenIds] [r] s₂ :=
      hnew₂.of_start rfl (.of_eq rfl rfl fun _ _ => rfl)
    have hrest : ∀ q ∈ rest, q ∈ s.live := fun q hq => hlive q (List.mem_cons_of_mem _ hq)
    obtain ⟨hc', hnew⟩ := ih hc₂ (fun q hq => hnew₂.subset (hrest q hq)) h₃
    have htok : (rest.map fun q => (s₂.heap q).tokenIds) = rest.map fun q => (s.heap q).tokenIds :=
      List.map_congr_left fun q hq => (hnew₂.frame.content (hrest q hq)).tokenIds.symm
    exact ⟨hc', hnew₂.cons (htok ▸ hnew)⟩

theorem allocateImmutableBlock_ok {prevBlock : Option Ref} {tokenIds : List Nat}
    (hc : NaiveInv o s) (h : (allocateImmutableBlock prevBlock tokenIds).run s = .ok r s') :
    NaiveInv o s' ∧ NewBlocks s prevBlock [tokenIds] [r] s' := by
  rw [allocateImmutableBlock] at h
  obtain ⟨r', s₁, h₁, h⟩ := run_bind_ok.mp h
  obtain ⟨_, s₂, h₂, h⟩ := run_bind_ok.mp h
  obtain ⟨rfl, rfl⟩ := run_pure_ok.mp h
  obtain ⟨hc₁, hnew, -⟩ := allocateMutableBlock_ok hc h₁
  obtain ⟨hc', hext, -⟩ := appendTokenIds_ok hc₁ (hnew.mem (List.mem_singleton_self _)) h₂
  exact ⟨hc', hnew.extend hext⟩

/-! ## Freeing and swapping -/

theorem own_of_moved {held : Bool} (hr : s.Own r) (hc : PoolInv s') (h : Moved s [r] held s') :
    s'.Own r := own_of_live hc (h.live ▸ hr.live) (hr.1.trans h.frame.device.symm)

theorem free_ok {u : Unit} (hc : NaiveInv o s) (hr : s.Own r) (h : (free r).run s = .ok u s') :
    NaiveInv o s' ∧ s'.live = s.live.erase r ∧ Frame (s.live.erase r) s s' := by
  rw [free] at h
  obtain ⟨_, s₁, h₁, h⟩ := run_bind_ok.mp h
  obtain rfl := poolFree_ok.mp h
  obtain ⟨hc₁, hmoved⟩ := freeBlockId_ok hc hr.live h₁
  have hown := own_of_moved hr hc₁.pool hmoved
  have hnone : (s₁.heap r).blockId = none := by
    simpa using hmoved.blockId r (List.mem_singleton_self r)
  refine ⟨hc₁.freeObject hown hnone, ?_, ?_⟩
  · rw [hown.live_free hc₁.pool, hmoved.live]
  · refine (hmoved.frame.mono fun q hq => ?_).trans (L := s.live.erase r) (.of_eq rfl rfl
      fun _ _ => rfl) (Finset.Subset.refl _)
    obtain ⟨hne, hq⟩ := Finset.mem_erase.mp hq
    exact Finset.mem_sdiff.mpr ⟨hq, by simpa using hne⟩

theorem swapOut_ok {rs : List Ref} {u : PUnit} (hc : NaiveInv o s) (hlive : ∀ r ∈ rs, r ∈ s.live)
    (h : (swapOut rs).run s = .ok u s') : NaiveInv o s' ∧ Moved s rs false s' := by
  rw [swapOut] at h
  induction rs generalizing s with
  | nil =>
    rw [List.forM_nil] at h
    obtain ⟨-, rfl⟩ := run_pure_ok.mp h
    exact ⟨hc, .nil⟩
  | cons r rest ih =>
    rw [List.forM_cons] at h
    obtain ⟨_, s₁, h₁, h⟩ := run_bind_ok.mp h
    have hr := hlive r List.mem_cons_self
    have hrest : ∀ q ∈ rest, q ∈ s.live := fun q hq => hlive q (List.mem_cons_of_mem _ hq)
    obtain ⟨hc₁, hmoved⟩ := freeBlockId_ok hc hr h₁
    obtain ⟨hc', hmoved'⟩ := ih hc₁ (fun q hq => hmoved.live ▸ hrest q hq) h
    exact ⟨hc', hmoved.cons hmoved' hr hrest⟩

/-- The id of the temporary block is handed over. -/
theorem swapInBlock_ok {u : Unit} (hc : NaiveInv o s) (hr : r ∈ s.live)
    (hnone : (s.heap r).blockId = none) (h : (swapInBlock r).run s = .ok u s') :
    NaiveInv o s' ∧ Moved s [r] true s' := by
  -- A block that is not full gets its tokens in the same way.
  have hrun : (swapInBlock r).run s = (do
      let tmp ← allocateImmutableBlock (s.heap r).prevBlock (s.heap r).tokenIds
      let blockId := ((← get).heap tmp).blockId
      PrefixCachingBlockAllocator.setBlockId tmp none
      PrefixCachingBlockAllocator.poolFree tmp
      PrefixCachingBlockAllocator.setBlockId r blockId : AllocM H Unit).run s := by
    rw [swapInBlock, run_get_bind]
    dsimp only
    split
    · rfl
    · simp only [allocateImmutableBlock, bind_assoc, pure_bind]
  rw [hrun] at h
  obtain ⟨tmp, s₁, h₁, h⟩ := run_bind_ok.mp h
  obtain ⟨hc₁, hnew⟩ := allocateImmutableBlock_ok hc h₁
  have htmp := List.mem_singleton_self tmp
  have hown : s₁.Own tmp := own_of_live hc₁.pool (hnew.mem htmp) (hnew.pool tmp htmp)
  obtain ⟨id, hid⟩ := Option.ne_none_iff_exists'.mp (hnew.blockId tmp htmp)
  have hne : r ≠ tmp := fun e => hnew.new tmp htmp (e ▸ hr)
  rw [run_get_bind, hid] at h
  obtain ⟨_, s₂, h₂, h⟩ := run_bind_ok.mp h
  obtain rfl := setBlockId_ok.mp h₂
  obtain ⟨_, s₃, h₃, h⟩ := run_bind_ok.mp h
  obtain rfl := poolFree_ok.mp h₃
  obtain rfl := setBlockId_ok.mp h
  have hown₂ : (withId s₁ tmp none).Own tmp := hown
  have hc₂ := (hc₁.disown hown.live hid).freeObject hown₂ (by rw [withId_self])
  have hlive₂ := hown₂.live_free (hc₁.disown hown.live hid).pool
  have hlive : (withId s₁ tmp none).live.erase tmp = s.live := by
    ext q
    rw [Finset.mem_erase]
    show q ≠ tmp ∧ q ∈ s₁.live ↔ _
    rw [hnew.live, List.mem_singleton]
    constructor
    · rintro ⟨hq, hs | he⟩
      · exact hs
      · exact absurd he hq
    · exact fun hq => ⟨fun e => hnew.new tmp htmp (e ▸ hq), .inl hq⟩
  have hother : ∀ q, q ≠ tmp → (withId s₁ tmp none).heap q = s₁.heap q := fun q hq =>
    Function.update_of_ne hq _ _
  have hassign := hc₂.assign (r := r) (by rw [hlive₂, hlive]; exact hr)
    (by
      show ((withId s₁ tmp none).heap r).blockId = none
      rw [hother r hne, hnew.frame.blockId hr, hnone]) List.mem_cons_self
  rw [List.erase_cons_head] at hassign
  refine ⟨hassign, .single (hlive₂.trans hlive) ?_ ?_ ?_⟩
  · refine (hnew.frame.mono (Finset.erase_subset r _)).trans (L := s.live.erase r)
      (.of_eq rfl rfl fun q hq => ?_) (Finset.Subset.refl _)
    obtain ⟨hqr, hq⟩ := Finset.mem_erase.mp hq
    show Function.update (withId s₁ tmp none).heap r _ q = _
    rw [Function.update_of_ne hqr, hother q fun e => hnew.new tmp htmp (e ▸ hq)]
  · rw [withId_self]
    show SameContent (s.heap r) { (withId s₁ tmp none).heap r with blockId := some id }
    rw [hother r hne]
    exact (hnew.frame.content hr).trans ⟨rfl, rfl, rfl⟩
  · rw [withId_self]
    rfl

theorem swapIn_ok {rs : List Ref} {u : PUnit} (hc : NaiveInv o s)
    (hlive : ∀ r ∈ rs, r ∈ s.live ∧ (s.heap r).blockId = none) (hnodup : rs.Nodup)
    (h : (swapIn rs).run s = .ok u s') : NaiveInv o s' ∧ Moved s rs true s' := by
  rw [swapIn] at h
  induction rs generalizing s with
  | nil =>
    rw [List.forM_nil] at h
    obtain ⟨-, rfl⟩ := run_pure_ok.mp h
    exact ⟨hc, .nil⟩
  | cons r rest ih =>
    rw [List.forM_cons] at h
    obtain ⟨_, s₁, h₁, h⟩ := run_bind_ok.mp h
    obtain ⟨hr, hnone⟩ := hlive r List.mem_cons_self
    obtain ⟨hnr, hnodup⟩ := List.nodup_cons.mp hnodup
    obtain ⟨hc₁, hmoved⟩ := swapInBlock_ok hc hr hnone h₁
    obtain ⟨hc', hmoved'⟩ := ih hc₁ (fun q hq => by
      obtain ⟨hql, hqn⟩ := hlive q (List.mem_cons_of_mem _ hq)
      refine ⟨hmoved.live ▸ hql, (hmoved.blockId_of_not_mem hql ?_).trans hqn⟩
      exact fun hm => hnr (List.mem_singleton.mp hm ▸ hq)) hnodup h
    exact ⟨hc', hmoved.cons hmoved' hr fun q hq => (hlive q (List.mem_cons_of_mem _ hq)).1⟩

/-! ## What the methods use -/

instance : ByIds (H := H) fun s => s.freeBlockIndices.length where
  eq s t hf _ := by rw [hf]

/-- What a method may use of the free blocks. -/
abbrev Costs {α : Type} (n : Nat) (x : AllocM H α) (s : AllocState H) : Prop :=
  Spends (fun s => s.freeBlockIndices.length) .noFreeBlocksError n x s

open PrefixCachingBlockAllocator (getBlockId_costs refGet_costs refIncr_costs refDecr_costs
  setBlockId_costs poolFree_costs poolInit_costs getAllBlocksRecursively_ne)

theorem allocateBlockId_costs : Costs 1 (allocateBlockId) s := by
  unfold allocateBlockId
  refine .get_bind ?_
  split
  · next hf => exact .throw_empty (by simp [hf])
  · next id rest hf =>
    refine .set_bind (l := 0) (refIncr_costs.then_of_zero fun _ _ _ => .ret) ?_
    simp [hf]

theorem freeBlockId_costs : Costs 0 (freeBlockId r) s := by
  unfold freeBlockId PrefixCachingBlockAllocator.hashlessFree
  refine getBlockId_costs.then_of_zero fun id _ _ => refDecr_costs.then_of_zero fun n t _ =>
    .modify_bind (l := 0) setBlockId_costs ?_
  split
  · simp
  · simp

theorem allocateMutableBlock_costs {prevBlock : Option Ref} :
    Costs 1 (allocateMutableBlock prevBlock) s :=
  allocateBlockId_costs.bind_zero fun _ _ _ => poolInit_costs

theorem cowBlockIfNotAppendable_costs : Costs 1 (cowBlockIfNotAppendable r) s ∧
    ((∀ id, (s.heap r).blockId = some id → s.refcounts id ≤ 1) →
      Costs 0 (cowBlockIfNotAppendable r) s) := by
  unfold cowBlockIfNotAppendable
  constructor
  · refine getBlockId_costs.then_of_zero fun id _ _ => refGet_costs.then_of_zero fun n _ _ => ?_
    split
    · exact .ret
    · exact freeBlockId_costs.then_of_zero fun _ _ _ => allocateBlockId_costs.bind_zero fun _ _ _ =>
        .modify_bind (l := 0) .ret (Nat.le_refl _)
  · intro h1
    refine getBlockId_costs.then_of_zero fun id s₁ h₁ => refGet_costs.then_of_zero fun n _ h₂ => ?_
    obtain ⟨hid, rfl⟩ := getBlockId_ok.mp h₁
    obtain ⟨rfl, rfl⟩ := PrefixCachingBlockAllocator.refGet_ok h₂
    rw [if_pos (h1 id hid)]
    exact .ret

theorem appendTokenIds_costs {tokenIds : List Nat} : Costs 1 (appendTokenIds r tokenIds) s ∧
    ((∀ id, (s.heap r).blockId = some id → s.refcounts id ≤ 1) →
      Costs 0 (appendTokenIds r tokenIds) s) := by
  have hself : ((s.updateBlock r fun b => { b with tokenIds := b.tokenIds ++ tokenIds }).heap
      r).blockId = (s.heap r).blockId := by rw [AllocState.updateBlock_self]
  unfold appendTokenIds
  constructor
  · refine .get_bind (.raiseUnless_bind nofun fun _ => .set_bind (l := 1) ?_ (Nat.le_refl _))
    split
    · exact .ret
    · exact cowBlockIfNotAppendable_costs.1.bind_zero fun _ _ _ => setBlockId_costs
  · intro h1
    refine .get_bind (.raiseUnless_bind nofun fun _ => .set_bind (l := 0) ?_ (Nat.le_refl _))
    split
    · exact .ret
    · refine .then_of_zero (cowBlockIfNotAppendable_costs.2 fun id hid => ?_) fun _ _ _ =>
        setBlockId_costs
      exact h1 id (hself ▸ hid)

theorem allocateBlockIds_costs {n : Nat} : Costs n (allocateBlockIds n) s := by
  induction n generalizing s with
  | zero => exact .ret
  | succ n ih =>
    rw [allocateBlockIds, Nat.add_comm]
    exact allocateBlockId_costs.bind fun _ _ _ => ih.bind_zero fun _ _ _ => .ret

theorem initBlocks_costs {prevBlock : Option Ref} {l : List (List Nat × Nat)} :
    Costs 0 (initBlocks prevBlock l) s := by
  induction l generalizing prevBlock s with
  | nil => exact .ret
  | cons x rest ih =>
    exact poolInit_costs.then_of_zero fun _ _ _ => ih.then_of_zero fun _ _ _ => .ret

theorem forkBlocks_costs {m : AllocState H → Nat} [ByIds m] {prevBlock : Option Ref}
    {sources : List Ref} : Spends m .noFreeBlocksError 0 (forkBlocks prevBlock sources) s := by
  induction sources generalizing prevBlock s with
  | nil => exact .ret
  | cons r rest ih =>
    exact getBlockId_costs.then_of_zero fun _ _ _ => refIncr_costs.then_of_zero fun _ _ _ =>
      .raiseIf_bind nofun fun _ => .get_bind (poolInit_costs.then_of_zero fun _ _ _ =>
        ih.then_of_zero fun _ _ _ => .ret)

theorem fork_costs {m : AllocState H → Nat} [ByIds m] :
    Spends m .noFreeBlocksError 0 (fork r) s :=
  .get_bind (.lift_bind getAllBlocksRecursively_ne fun _ _ => forkBlocks_costs)

/-! ## The laws -/

theorem lawful : (methods (H := H)).Lawful (NaiveInv []) where
  mutable hc hp hprev hpos h := by
    obtain ⟨hc', hnew, id, hid, h0, href⟩ := allocateMutableBlock_ok hc h
    refine ⟨hc', hnew, ⟨decide_eq_false ?_, fun id' hid' => ?_⟩, fun q hq hs => ⟨?_, fun x hx => ?_⟩⟩
    · rw [hnew.tokenIds_eq, hnew.frame.blockSize]
      exact hpos.ne'
    · obtain rfl := Option.some.inj (hid.symm.trans hid')
      rw [href, Function.update_self]
    · exact (hnew.frame.isFull hq).trans hs.room
    · have h1 := hs.count x ((hnew.frame.blockId hq).symm.trans hx)
      rw [href, Function.update_of_ne, h1]
      rintro rfl
      omega
  mutable_costs _ _ _ := allocateMutableBlock_costs
  immutable hc _ _ h := allocateImmutableBlocks_ok hc h
  immutable_costs _ _ _ := allocateBlockIds_costs.bind_zero fun _ _ _ => initBlocks_costs
  append hc hp hr hlast h := by
    obtain ⟨hc', hext, hone⟩ := appendTokenIds_ok hc hr h
    refine ⟨hc', hext, fun q hq hne hs => ⟨?_, fun x hx => ?_⟩⟩
    · exact (hext.frame.isFull (Finset.mem_erase.mpr ⟨hne, hq⟩)).trans hs.room
    · have hx : (_ : Option Nat) = some x :=
        (hext.frame.blockId (Finset.mem_erase.mpr ⟨hne, hq⟩)).symm.trans hx
      refine hone x (hs.count x hx) ?_
      exact hs.alone (by simpa using hc.count) hq hr (Ne.symm hne) hx
  append_costs _ _ _ _ :=
    ⟨appendTokenIds_costs.1, fun hs => appendTokenIds_costs.2 fun id hid => (hs.count id hid).le⟩
  fork hc hp hr h := by
    have h : (fork _).run _ = _ := h
    rw [fork, run_get_bind, run_lift_bind_ok] at h
    obtain ⟨sources, hs, h⟩ := h
    obtain ⟨-, -, hlive⟩ := PrefixCachingBlockAllocator.getAllBlocksRecursively_ok hp hr hs
    exact ⟨sources, hs, forkBlocks_ok hc hlive h⟩
  fork_costs _ _ _ := fork_costs (m := fun s => s.freeBlockIndices.length)
  free hc hr h := free_ok hc hr h
  swapOut hc hlive h := swapOut_ok hc hlive h
  swapIn hc _ hlive hnodup h := swapIn_ok hc hlive hnodup h
  accessed hc h := by
    obtain ⟨-, rfl⟩ := run_pure_ok.mp h
    exact ⟨hc, rfl, .refl _ _⟩
  computed hc h := by
    obtain ⟨-, rfl⟩ := run_pure_ok.mp h
    exact ⟨hc, rfl, .refl _ _⟩
  cows l hc := ⟨⟨hc.pool.nodup, hc.pool.lt, hc.pool.guests⟩, hc.nodup, hc.unused, hc.count⟩
  tier c hc := ⟨⟨hc.pool.nodup, hc.pool.lt, hc.pool.guests⟩, hc.nodup, hc.unused, hc.count⟩

end NaiveBlockAllocator

end Bi100
