import Bi100.Block.Steps

/-!
# The steps of the allocator keep its invariant

- `SameBlocks`: the live blocks, and what they refer to, keep their content.
- `Inv.of_same`: the rule for the steps that keep the content of the blocks.
- `PoolPop.live_insert`, `Inv.of_insert`: the rule for a new block object.
- `AllocStep.inv`: every step keeps the invariant.
-/

namespace Bi100

open Py PrefixCachingBlockAllocator

variable {H : Type}

/-! ## Content that does not change -/

/-- The live blocks of `s` are live in `s'`, and no block that they refer to changes its
content. -/
structure SameBlocks (s s' : AllocState H) : Prop where
  blockSize : s'.blockSize = s.blockSize
  live : s'.live = s.live
  content : ∀ r, s.Reach r → SameContent (s.heap r) (s'.heap r)

namespace SameBlocks

variable {s s' : AllocState H}

theorem reach (h : SameBlocks s s') {r : Ref} (hr : s'.Reach r) : s.Reach r := by
  induction hr with
  | live hl => exact .live (h.live ▸ hl)
  | prev _ hp ih => exact .prev ih ((h.content _ ih).prevBlock.trans hp)

/-- A change that keeps the content of every block. -/
theorem of_heap (hbs : s'.blockSize = s.blockSize) (hlive : s'.live = s.live)
    (h : ∀ r, SameContent (s.heap r) (s'.heap r)) : SameBlocks s s' :=
  ⟨hbs, hlive, fun r _ => h r⟩

/-- A change of a block's other fields. -/
theorem of_update (hbs : s'.blockSize = s.blockSize) (hlive : s'.live = s.live) {r : Ref}
    {b : PrefixCachingBlock H} (hb : SameContent (s.heap r) b)
    (h : s'.heap = Function.update s.heap r b) : SameBlocks s s' := by
  refine of_heap hbs hlive fun q => ?_
  rw [h, Function.update_apply]
  split
  · next hq => exact hq ▸ hb
  · exact .refl _

variable [Sha256 H]

theorem hasHash_iff (h : SameBlocks s s') {r : Ref} (hr : s.Reach r) {x : H} :
    HasHash s'.blockSize s'.heap r x ↔ HasHash s.blockSize s.heap r x := by
  rw [h.blockSize]
  exact (HasHash.congr (K := s.Reach) (fun _ _ => .prev) h.content hr).symm

/-- Kept hashes that are right stay right. -/
theorem sound (h : SameBlocks s s') (hs : s.Sound)
    (hkept : ∀ r, s.Reach r → (s'.heap r).cachedContentHash = (s.heap r).cachedContentHash) :
    s'.Sound := by
  intro r hr x hx
  have hr' := h.reach hr
  exact (h.hasHash_iff hr').mpr (hs r hr' x (hkept r hr' ▸ hx))

end SameBlocks

theorem PrefixCachingBlockAllocator.SameButHashes.sameBlocks {s s' : AllocState H}
    (h : SameButHashes s s') : SameBlocks s s' :=
  .of_heap (by rw [h.state]) h.live_eq h.sameContent

/-! ## Counting holders -/

section Count

variable {s t : AllocState H} {r : Ref}

theorem card_filter_insert (live : Finset Ref) (hr : r ∉ live) (p : Ref → Prop)
    [DecidablePred p] :
    ((insert r live).filter p).card = (live.filter p).card + if p r then 1 else 0 := by
  rw [Finset.filter_insert]
  split
  · rw [Finset.card_insert_of_notMem fun h => hr (Finset.mem_filter.mp h).1]
  · rfl

/-- A new live block holds its id. -/
theorem card_holders_insert (hlive : t.live = insert r s.live) (hr : r ∉ s.live)
    (hsame : ∀ q ∈ s.live, (t.heap q).blockId = (s.heap q).blockId) (id : Nat) :
    (t.holders id).card =
      (s.holders id).card + if (t.heap r).blockId = some id then 1 else 0 := by
  rw [AllocState.holders, hlive, card_filter_insert _ hr, AllocState.holders]
  congr 2
  refine Finset.filter_congr fun q hq => ?_
  rw [hsame q hq]

/-- One live block changes its id. -/
theorem card_holders_update (hlive : t.live = s.live) (hr : r ∈ s.live)
    (hsame : ∀ q ∈ s.live, q ≠ r → (t.heap q).blockId = (s.heap q).blockId) (id : Nat) :
    (t.holders id).card + (if (s.heap r).blockId = some id then 1 else 0) =
      (s.holders id).card + if (t.heap r).blockId = some id then 1 else 0 := by
  have hnot : r ∉ s.live.erase r := Finset.notMem_erase r _
  have hfilter : (s.live.erase r).filter (fun q => (t.heap q).blockId = some id) =
      (s.live.erase r).filter fun q => (s.heap q).blockId = some id := by
    refine Finset.filter_congr fun q hq => ?_
    rw [hsame q (Finset.mem_of_mem_erase hq) (Finset.ne_of_mem_erase hq)]
  rw [AllocState.holders, AllocState.holders, hlive, ← Finset.insert_erase hr,
    card_filter_insert _ hnot, card_filter_insert _ hnot, hfilter]
  omega

theorem holders_eq (hlive : t.live = s.live)
    (hsame : ∀ q ∈ s.live, (t.heap q).blockId = (s.heap q).blockId) (id : Nat) :
    t.holders id = s.holders id := by
  rw [AllocState.holders, AllocState.holders, hlive]
  refine Finset.filter_congr fun q hq => ?_
  rw [hsame q hq]

end Count

/-! ## The pool -/

namespace PoolPop

variable {s : AllocState H} {r : Ref} {size : Nat} {freeIds : List Nat}

/-- The popped object was not live, and the free objects are still a list without repetition. -/
theorem pool_ok (h : PoolPop s r size freeIds) (hp : PoolInv s) :
    (r.poolId :: freeIds).Nodup ∧ (∀ i ∈ r.poolId :: freeIds, i < size) ∧ r ∉ s.live := by
  have hguest : r ∉ s.guests := fun hg => hp.guests r hg h.1
  rcases h with ⟨-, ⟨hf, rfl⟩ | ⟨hf, rfl, hrange⟩⟩
  · rw [← hf]
    refine ⟨hp.nodup, hp.lt, fun hl => ?_⟩
    have hown := (AllocState.mem_live.mp hl).resolve_right hguest
    exact hown.2.2 (hf ▸ List.mem_cons_self)
  · rw [← hrange]
    refine ⟨List.nodup_range', fun i hi => ?_, fun hl => ?_⟩
    · have := List.mem_range'_1.mp hi
      omega
    · have hr : r.poolId ∈ List.range' s.poolSize s.poolSize := hrange ▸ List.mem_cons_self
      have := ((AllocState.mem_live.mp hl).resolve_right hguest).2.1
      have := List.mem_range'_1.mp hr
      omega

theorem pool_scratch (h : PoolPop s r size freeIds) (hp : PoolInv s)
    {b : PrefixCachingBlock H} : PoolInv (withBlock s r b size (r.poolId :: freeIds)) := by
  obtain ⟨hnd, hlt, -⟩ := h.pool_ok hp
  exact ⟨hnd, hlt, hp.guests⟩

theorem pool_insert (h : PoolPop s r size freeIds) (hp : PoolInv s)
    {b : PrefixCachingBlock H} : PoolInv (withBlock s r b size freeIds) := by
  obtain ⟨hnd, hlt, -⟩ := h.pool_ok hp
  exact ⟨(List.nodup_cons.mp hnd).2, fun i hi => hlt i (List.mem_cons_of_mem _ hi), hp.guests⟩

/-- The objects of the larger pool that are not free were not free before. -/
theorem live_scratch (h : PoolPop s r size freeIds) {b : PrefixCachingBlock H} :
    (withBlock s r b size (r.poolId :: freeIds)).live = s.live := by
  ext q
  rw [AllocState.mem_live, AllocState.mem_live]
  refine or_congr_left ?_
  show q.pool = s.device ∧ q.poolId < size ∧ q.poolId ∉ r.poolId :: freeIds ↔
    q.pool = s.device ∧ q.poolId < s.poolSize ∧ q.poolId ∉ s.poolFreeIds
  rcases h with ⟨-, ⟨hf, rfl⟩ | ⟨hf, rfl, hrange⟩⟩
  · rw [hf]
  · rw [← hrange, hf, List.mem_range'_1]
    simp only [List.not_mem_nil, not_false_eq_true, and_true]
    refine and_congr_right fun _ => ?_
    omega

/-- The popped object is the one new live block. -/
theorem live_insert (h : PoolPop s r size freeIds) (hp : PoolInv s)
    {b : PrefixCachingBlock H} :
    (withBlock s r b size freeIds).live = insert r s.live := by
  obtain ⟨hnd, hsize, -⟩ := h.pool_ok hp
  obtain ⟨hnr, -⟩ := List.nodup_cons.mp hnd
  ext q
  rw [Finset.mem_insert, ← h.live_scratch (b := b), AllocState.mem_live, AllocState.mem_live,
    ← or_assoc]
  refine or_congr_left ?_
  show q.pool = s.device ∧ q.poolId < size ∧ q.poolId ∉ freeIds ↔
    q = r ∨ q.pool = s.device ∧ q.poolId < size ∧ q.poolId ∉ r.poolId :: freeIds
  constructor
  · rintro ⟨hd, hi, hf⟩
    by_cases he : q.poolId = r.poolId
    · refine .inl ?_
      cases q
      cases r
      simp_all [PoolPop]
    · exact .inr ⟨hd, hi, fun hm => (List.mem_cons.mp hm).elim he hf⟩
  · rintro (rfl | ⟨hd, hi, hf⟩)
    · exact ⟨h.1, hsize _ List.mem_cons_self, hnr⟩
    · exact ⟨hd, hi, fun hm => hf (List.mem_cons_of_mem _ hm)⟩

end PoolPop

/-- The pool and the guests stay. -/
structure SamePool (s s' : AllocState H) : Prop where
  device : s'.device = s.device
  size : s'.poolSize = s.poolSize
  freeIds : s'.poolFreeIds = s.poolFreeIds
  guests : s'.guests = s.guests

namespace SamePool

variable {s s' : AllocState H}

theorem live_eq (h : SamePool s s') : s'.live = s.live := by
  rw [AllocState.live, AllocState.live, h.device, h.size, h.freeIds, h.guests]

theorem pool (h : SamePool s s') (hs : PoolInv s) : PoolInv s' := by
  refine ⟨?_, ?_, ?_⟩
  · rw [h.freeIds]
    exact hs.nodup
  · rw [h.freeIds, h.size]
    exact hs.lt
  · rw [h.guests, h.device]
    exact hs.guests

end SamePool

namespace AllocState

variable {s : AllocState H} {r : Ref}

theorem Own.live (h : s.Own r) : r ∈ s.live := mem_live.mpr (.inl h)

/-- A live object of the own pool is not a guest. -/
theorem own_of_live (hpool : PoolInv s) (hr : r ∈ s.live) (hd : r.pool = s.device) : s.Own r :=
  (mem_live.mp hr).resolve_right fun hg => hpool.guests r hg hd

/-- A freed object was the one that is no longer live. -/
theorem Own.live_free (h : s.Own r) (hp : PoolInv s) :
    ({ s with poolFreeIds := r.poolId :: s.poolFreeIds } : AllocState H).live =
      s.live.erase r := by
  ext q
  rw [Finset.mem_erase, mem_live, mem_live]
  show (q.pool = s.device ∧ q.poolId < s.poolSize ∧ q.poolId ∉ r.poolId :: s.poolFreeIds) ∨
    q ∈ s.guests ↔ _
  by_cases hg : q ∈ s.guests
  · have hne : q ≠ r := by
      rintro rfl
      exact hp.guests q hg h.1
    simp only [hg, or_true, hne, ne_eq, not_false_eq_true, and_self]
  · simp only [hg, or_false, Own, List.mem_cons, not_or]
    constructor
    · rintro ⟨hd, hlt, hne, hf⟩
      exact ⟨fun he => hne (he ▸ rfl), hd, hlt, hf⟩
    · rintro ⟨hne, hd, hlt, hf⟩
      refine ⟨hd, hlt, fun he => hne ?_, hf⟩
      obtain ⟨hrd, -⟩ := h
      cases q
      cases r
      simp_all

theorem Own.pool_free (h : s.Own r) (hp : PoolInv s) :
    PoolInv ({ s with poolFreeIds := r.poolId :: s.poolFreeIds } : AllocState H) := by
  refine ⟨List.nodup_cons.mpr ⟨h.2.2, hp.nodup⟩, fun i hi => ?_, hp.guests⟩
  rcases List.mem_cons.mp hi with rfl | hi
  · exact h.2.1
  · exact hp.lt i hi

end AllocState

/-! ## The rules -/

variable [DecidableEq H] [Sha256 H]

/-- The rule for steps that keep the content of the blocks. Of the id that a live block has after
the step, the cache says the same as before, or the step shows what it says. -/
theorem Inv.of_same {c c' : AllocConf H} (hc : Inv c) (hids : IdInv c'.st)
    (hpool : PoolInv c'.st)
    (hsame : SameBlocks c.st c'.st) (hsound : c'.st.Sound)
    (hcount : ∀ id, c'.st.refcounts id = (c'.st.holders id).card + c'.owed.count id)
    (hnew : ∀ q ∈ c.st.live, ∀ id, (c'.st.heap q).blockId = some id →
      ((c.st.heap q).blockId = some id ∧ (c'.pend = some q ↔ c.pend = some q) ∧
        ∀ h, c'.st.cachedBlocks.get? h = some id ↔ c.st.cachedBlocks.get? h = some id) ∨
      (c'.pend ≠ some q ∧ ∃ h, HasHash c.st.blockSize c.st.heap q h ∧
        c'.st.cachedBlocks.get? h = some id) ∨
      ((c'.pend = some q ∨ ∀ h, ¬ HasHash c.st.blockSize c.st.heap q h) ∧
        ∀ h, c'.st.cachedBlocks.get? h ≠ some id)) : Inv c' := by
  refine ⟨hids, hpool, hcount, hsound, fun q hq id h hid hp hh => ?_,
    fun q hq id hid hno h => ?_⟩
  · rw [hsame.live] at hq
    rw [hsame.hasHash_iff (.live hq)] at hh
    rcases hnew q hq id hid with ⟨hold, hpend, hget⟩ | ⟨-, h', hh', hget⟩ | ⟨hno, -⟩
    · exact (hget h).mpr (hc.hashed q hq id h hold (fun he => hp (hpend.mpr he)) hh)
    · exact hh.unique hh' ▸ hget
    · exact absurd hh (hno.resolve_left hp h)
  · rw [hsame.live] at hq
    rcases hnew q hq id hid with ⟨hold, hpend, hget⟩ | ⟨hpend, h', hh', -⟩ | ⟨-, hun⟩
    · rw [Ne, hget]
      refine hc.unhashed q hq id hold (hno.imp hpend.mp fun hn x hx => ?_) h
      exact hn x ((hsame.hasHash_iff (.live hq)).mpr hx)
    · rcases hno with he | hn
      · exact absurd he hpend
      · exact absurd ((hsame.hasHash_iff (.live hq)).mpr hh') (hn h')
    · exact hun h

/-- The rule for a new live block. -/
theorem Inv.of_insert {o o' : List Nat} {p p' : Option Ref} {s s' : AllocState H} {r : Ref}
    {b : PrefixCachingBlock H} (hc : Inv ⟨o, p, s⟩) (hids : IdInv s') (hpool : PoolInv s')
    (hbs : s'.blockSize = s.blockSize) (href : s'.refcounts = s.refcounts)
    (hcached : s'.cachedBlocks = s.cachedBlocks)
    (hheap : s'.heap = Function.update s.heap r b) (hlive : s'.live = insert r s.live)
    (hr : r ∉ s.live) (hpreds : s.PredsLive)
    (hkept : ∀ h, b.cachedContentHash = some h →
      HasHash s.blockSize (Function.update s.heap r b) r h)
    (hprev : ∀ q, b.prevBlock = some q → q ∈ s.live)
    (howed : ∀ id, o.count id = o'.count id + if b.blockId = some id then 1 else 0)
    (hpend : ∀ q ∈ s.live, p' = some q ↔ p = some q)
    (hhashed : ∀ id h, b.blockId = some id → p' ≠ some r →
      HasHash s.blockSize (Function.update s.heap r b) r h → s.cachedBlocks.get? h = some id)
    (hunhashed : ∀ id, b.blockId = some id →
      (p' = some r ∨ ∀ h, ¬ HasHash s.blockSize (Function.update s.heap r b) r h) →
      ∀ h, s.cachedBlocks.get? h ≠ some id) :
    Inv ⟨o', p', s'⟩ := by
  have hne : ∀ {q}, q ∈ s.live → q ≠ r := fun hq => ne_of_mem_of_not_mem hq hr
  have hother : ∀ q ∈ s.live, s'.heap q = s.heap q := fun q hq => by
    rw [hheap, Function.update_of_ne (hne hq)]
  have hself : s'.heap r = b := by rw [hheap, Function.update_self]
  -- The chains of the old live blocks stay among them.
  have hiff : ∀ q ∈ s.live, ∀ h, HasHash s.blockSize (Function.update s.heap r b) q h ↔
      HasHash s.blockSize s.heap q h := fun q hq h =>
    (HasHash.congr (K := (· ∈ s.live)) (fun q q' hq hp => hpreds q hq q' hp)
      (fun q hq => by rw [Function.update_of_ne (hne hq)]; exact .refl _) hq).symm
  have hreach : ∀ q, s'.Reach q → q = r ∨ q ∈ s.live := by
    intro q hq
    induction hq with
    | live h => exact Finset.mem_insert.mp (hlive ▸ h)
    | prev _ hp ih =>
      rcases ih with rfl | ih
      · exact .inr (hprev _ (hself ▸ hp))
      · exact .inr (hpreds _ ih _ (hother _ ih ▸ hp))
  refine ⟨hids, hpool, fun id => ?_, fun q hq h hh => ?_, fun q hq id h hid hp hh => ?_,
    fun q hq id hid hno => ?_⟩
  · have hcard := card_holders_insert hlive hr (fun q hq => by rw [hother q hq]) id
    rw [hself] at hcard
    have hcount := hc.count id
    have := howed id
    dsimp only at hcount ⊢
    rw [href]
    omega
  · dsimp only
    rw [hbs, hheap]
    rcases hreach q hq with rfl | hq
    · exact hkept h (hself ▸ hh)
    · rw [hother q hq] at hh
      exact (hiff q hq h).mpr (hc.sound q (.live hq) h hh)
  · dsimp only at hq hid hp hh ⊢
    rw [hbs, hheap] at hh
    rw [hcached]
    rcases Finset.mem_insert.mp (hlive ▸ hq) with rfl | hq
    · exact hhashed id h (hself ▸ hid) hp hh
    · refine hc.hashed q hq id h (hother q hq ▸ hid) (fun he => hp ((hpend q hq).mpr he)) ?_
      exact (hiff q hq h).mp hh
  · dsimp only at hq hid hno ⊢
    rw [hbs, hheap] at hno
    rw [hcached]
    rcases Finset.mem_insert.mp (hlive ▸ hq) with rfl | hq
    · exact hunhashed id (hself ▸ hid) hno
    · refine hc.unhashed q hq id (hother q hq ▸ hid) (hno.imp (hpend q hq).mp fun hn h hh => ?_)
      exact hn h ((hiff q hq h).mpr hh)

/-! ## Steps that keep the blocks -/

section Frame

variable {o : List Nat} {p : Option Ref} {s s' : AllocState H}

omit [Sha256 H] in
/-- Only the tracker's other fields change. -/
theorem IdInv.of_tracker (hs : IdInv s) {t : Nat → BlockTracker} {l : Finset Nat}
    (ht : ∀ id, (t id).active = (s.blockTracker id).active) :
    IdInv { s with blockTracker := t, touchedBlocks := l } :=
  ⟨hs.free_nodup, hs.free, hs.evictable, hs.used, fun id hid => by
    show (t id).active = true ↔ _
    rw [ht]
    exact hs.active id hid, hs.cover, hs.cached_inj, hs.cached_mem⟩

omit [Sha256 H] in
/-- An evictable block is accessed. -/
theorem IdInv.of_evictor_update (hs : IdInv s) {e : Evictor H} {id : Nat} {t : Int}
    (he : s.evictor.update id t = .ok e) : IdInv { s with evictor := e } := by
  obtain ⟨m, hm, htab⟩ := Evictor.update_ok he
  have hmem : ∀ x, x ∈ e.freeTable ↔ x ∈ s.evictor.freeTable := by
    intro x
    rw [htab, Dict.mem_set]
    exact ⟨fun h => h.elim (fun h => h ▸ Dict.mem_of_get? hm) (fun h => h), .inr⟩
  refine ⟨hs.free_nodup, fun x hx => ?_, fun x m' hm' => ?_, hs.used, hs.active,
    fun x hx h0 => ?_, hs.cached_inj, hs.cached_mem⟩
  · obtain ⟨h₁, h₂, h₃, h₄⟩ := hs.free x hx
    exact ⟨h₁, h₂, fun h => h₃ ((hmem x).mp h), h₄⟩
  · dsimp only at hm'
    rw [htab, Dict.get?_set] at hm'
    split at hm'
    · next hxe =>
      obtain rfl := Option.some.inj hm'
      subst hxe
      exact hs.evictable x m hm
    · exact hs.evictable x m' hm'
  · exact (hs.cover x hx h0).imp_right (hmem x).mpr

/-- A content hash is kept. -/
theorem Inv.hashes (hc : Inv ⟨o, p, s⟩) (h : SameButHashes s s') (hs : s'.Sound) :
    Inv ⟨o, p, s'⟩ := by
  have hids : IdInv s' := by
    rw [h.state]
    exact hc.ids.congr rfl rfl rfl rfl rfl rfl
  have hid : ∀ q, (s'.heap q).blockId = (s.heap q).blockId := fun q => by rw [h.block q]
  refine hc.of_same hids ?_ h.sameBlocks hs ?_ ?_
  · dsimp only
    rw [h.state]
    exact ⟨hc.pool.nodup, hc.pool.lt, hc.pool.guests⟩
  · intro id
    dsimp only
    rw [holders_eq h.live_eq (fun q _ => hid q)]
    rw [h.state]
    exact hc.count id
  · intro q hq id hq'
    exact .inl ⟨(hid q).symm.trans hq', Iff.rfl, fun x => by dsimp only; rw [h.state]⟩

/-- An object that is not live is overwritten. -/
theorem Inv.scratch (hc : Inv ⟨o, p, s⟩) {r : Ref} {size : Nat} {freeIds : List Nat}
    (hpop : PoolPop s r size freeIds) (hpreds : s.PredsLive) (b : PrefixCachingBlock H) :
    Inv ⟨o, p, withBlock s r b size (r.poolId :: freeIds)⟩ := by
  have hr := (hpop.pool_ok hc.pool).2.2
  have hheap : ∀ q ∈ s.live, (withBlock s r b size (r.poolId :: freeIds)).heap q = s.heap q :=
    fun q hq => Function.update_of_ne (ne_of_mem_of_not_mem hq hr) _ _
  have hsame : SameBlocks s (withBlock s r b size (r.poolId :: freeIds)) :=
    ⟨rfl, hpop.live_scratch, fun q hq => by
      rw [hheap q (hpreds.reach hq)]
      exact .refl _⟩
  refine hc.of_same ?_ (hpop.pool_scratch hc.pool) hsame ?_ ?_ ?_
  · exact hc.ids.congr rfl rfl rfl rfl rfl rfl
  · exact hsame.sound hc.sound fun q hq => by rw [hheap q (hpreds.reach hq)]
  · intro id
    dsimp only
    rw [holders_eq hpop.live_scratch (fun q hq => by rw [hheap q hq])]
    exact hc.count id
  · intro q hq id hid
    exact .inl ⟨hheap q hq ▸ hid, Iff.rfl, fun _ => Iff.rfl⟩

end Frame

/-! ## Steps that move an id -/

section Move

variable {o o' : List Nat} {p p' : Option Ref} {s s' : AllocState H} {r : Ref}

omit [DecidableEq H] [Sha256 H] in
/-- An id that a live block holds is in use. -/
theorem refcount_pos (hcount : ∀ id, s.refcounts id = (s.holders id).card + o.count id)
    {id : Nat} (hr : r ∈ s.live) (hid : (s.heap r).blockId = some id) : 0 < s.refcounts id := by
  have : 0 < (s.holders id).card :=
    Finset.card_pos.mpr ⟨r, AllocState.mem_holders.mpr ⟨hr, hid⟩⟩
  have := hcount id
  omega

/-- What the invariant says of the id of a live block. -/
theorem Inv.known (hc : Inv ⟨o, p, s⟩) (hr : r ∈ s.live) {id : Nat}
    (hid : (s.heap r).blockId = some id) :
    (p ≠ some r ∧ ∃ h, HasHash s.blockSize s.heap r h ∧ s.cachedBlocks.get? h = some id) ∨
    ((p = some r ∨ ∀ h, ¬ HasHash s.blockSize s.heap r h) ∧
      ∀ h, s.cachedBlocks.get? h ≠ some id) := by
  by_cases hp : p = some r
  · exact .inr ⟨.inl hp, hc.unhashed r hr id hid (.inl hp)⟩
  · by_cases hh : ∃ h, HasHash s.blockSize s.heap r h
    · obtain ⟨h, hh⟩ := hh
      exact .inl ⟨hp, h, hh, hc.hashed r hr id h hid hp hh⟩
    · have hn : ∀ h, ¬ HasHash s.blockSize s.heap r h := fun h hh' => hh ⟨h, hh'⟩
      exact .inr ⟨.inr hn, hc.unhashed r hr id hid (.inr hn)⟩

/-- A block that holds an id with one reference is its only holder. -/
theorem Inv.sole_holder (hc : Inv ⟨o, p, s⟩) {id : Nat} (h1 : s.refcounts id = 1)
    (hr : r ∈ s.live) (hid : (s.heap r).blockId = some id) {q : Ref} (hq : q ∈ s.live)
    (hqid : (s.heap q).blockId = some id) : q = r := by
  have hcount := hc.count id
  dsimp only at hcount
  have hle : (s.holders id).card ≤ 1 := by omega
  exact Finset.card_le_one.mp hle q (AllocState.mem_holders.mpr ⟨hq, hqid⟩) r
    (AllocState.mem_holders.mpr ⟨hr, hid⟩)

/-- Only the counts and what is owed change. -/
theorem Inv.of_counts (hc : Inv ⟨o, p, s⟩) (hids : IdInv s') (hpool : SamePool s s')
    (hbs : s'.blockSize = s.blockSize) (hheap : s'.heap = s.heap)
    (href : ∀ id, s'.refcounts id + o.count id = s.refcounts id + o'.count id)
    (hcached : ∀ id, 0 < s.refcounts id → ∀ h, s'.cachedBlocks.get? h = some id ↔
      s.cachedBlocks.get? h = some id) : Inv ⟨o', p, s'⟩ := by
  have hlive := hpool.live_eq
  have hsame : SameBlocks s s' := .of_heap hbs hlive fun r => by rw [hheap]; exact .refl _
  refine hc.of_same hids (hpool.pool hc.pool) hsame ?_ ?_ ?_
  · exact hsame.sound hc.sound fun r _ => by rw [hheap]
  · intro id
    have h₁ := hc.count id
    have h₂ := href id
    dsimp only at h₁ ⊢
    rw [holders_eq hlive (fun q _ => by rw [hheap])]
    omega
  · intro q hq id hid
    have hid : (s.heap q).blockId = some id := hheap ▸ hid
    exact .inl ⟨hid, Iff.rfl, hcached id (refcount_pos hc.count hq hid)⟩

/-- The block `r` changes its id. -/
theorem Inv.of_rename (hc : Inv ⟨o, p, s⟩) (hids : IdInv s') (hpool : SamePool s s')
    (hbs : s'.blockSize = s.blockSize) (hr : r ∈ s.live) {b : PrefixCachingBlock H}
    (hheap : s'.heap = Function.update s.heap r b) (hb : SameContent (s.heap r) b)
    (hkept : b.cachedContentHash = (s.heap r).cachedContentHash)
    (href : ∀ id, s'.refcounts id + o.count id + (if (s.heap r).blockId = some id then 1 else 0) =
      s.refcounts id + o'.count id + if b.blockId = some id then 1 else 0)
    (hcached : ∀ q ∈ s.live, q ≠ r → ∀ id, (s.heap q).blockId = some id →
      ∀ h, s'.cachedBlocks.get? h = some id ↔ s.cachedBlocks.get? h = some id)
    (hpend : ∀ q, q ≠ r → (p' = some q ↔ p = some q))
    (hnew : ∀ id, b.blockId = some id →
      (p' ≠ some r ∧ ∃ h, HasHash s.blockSize s.heap r h ∧ s'.cachedBlocks.get? h = some id) ∨
      ((p' = some r ∨ ∀ h, ¬ HasHash s.blockSize s.heap r h) ∧
        ∀ h, s'.cachedBlocks.get? h ≠ some id)) : Inv ⟨o', p', s'⟩ := by
  have hlive := hpool.live_eq
  have hself : s'.heap r = b := by rw [hheap, Function.update_self]
  have hother : ∀ q, q ≠ r → s'.heap q = s.heap q := fun q hq => by
    rw [hheap, Function.update_of_ne hq]
  have hsame : SameBlocks s s' := .of_update hbs hlive hb hheap
  refine hc.of_same hids (hpool.pool hc.pool) hsame ?_ ?_ ?_
  · refine hsame.sound hc.sound fun q _ => ?_
    by_cases hq : q = r
    · rw [hq, hself, hkept]
    · rw [hother q hq]
  · intro id
    have h₁ := hc.count id
    have h₂ := href id
    have h₃ := card_holders_update hlive hr (fun q _ hq => by rw [hother q hq]) id
    rw [hself] at h₃
    dsimp only at h₁ ⊢
    omega
  · intro q hq id hid
    by_cases he : q = r
    · subst he
      exact .inr (hnew id (hself ▸ hid))
    · have hid : (s.heap q).blockId = some id := hother q he ▸ hid
      exact .inl ⟨hid, hpend q he, hcached q hq he id hid⟩

end Move

/-! ## Objects that are freed -/

section Free

variable {o : List Nat} {p : Option Ref} {s : AllocState H} {r : Ref}

/-- Fewer objects are live, and the others keep their content. -/
theorem Inv.of_erase {s' : AllocState H} (hc : Inv ⟨o, p, s⟩) (hids : IdInv s')
    (hpool : PoolInv s') (hbs : s'.blockSize = s.blockSize) (hlive : s'.live = s.live.erase r)
    (hcontent : ∀ q, SameContent (s.heap q) (s'.heap q))
    (hkept : ∀ q, (s'.heap q).cachedContentHash = (s.heap q).cachedContentHash)
    (hcount : ∀ id, s'.refcounts id = (s'.holders id).card + o.count id)
    (hcached : s'.cachedBlocks = s.cachedBlocks)
    (hnew : ∀ q ∈ s'.live, ∀ id, (s'.heap q).blockId = some id →
      (s.heap q).blockId = some id ∨
      (p = none ∧ ∃ q' ∈ s.live, (s.heap q').blockId = some id ∧
        ∀ h, HasHash s.blockSize s.heap q h ↔ HasHash s.blockSize s.heap q' h)) :
    Inv ⟨o, p, s'⟩ := by
  have hmem : ∀ q ∈ s'.live, q ∈ s.live := fun q hq => Finset.mem_of_mem_erase (hlive ▸ hq)
  have hiff : ∀ q h, HasHash s'.blockSize s'.heap q h ↔ HasHash s.blockSize s.heap q h := by
    intro q h
    rw [hbs]
    exact (HasHash.congr (K := fun _ => True) (fun _ _ _ _ => trivial)
      (fun r _ => hcontent r) trivial).symm
  constructor
  · exact hids
  · exact hpool
  · exact hcount
  · intro q hq h hh
    have hreach : s.Reach q := .mono (fun q hq => hmem q hq)
      (fun q => (hcontent q).prevBlock.symm) hq
    exact (hiff q h).mpr (hc.sound q hreach h (hkept q ▸ hh))
  · intro q hq id h hid hp hh
    dsimp only at hq hid hp hh ⊢
    rw [hiff] at hh
    rw [hcached]
    rcases hnew q hq id hid with hold | ⟨rfl, q', hq', hid', hsame⟩
    · exact hc.hashed q (hmem q hq) id h hold hp hh
    · exact hc.hashed q' hq' id h hid' (by simp) ((hsame h).mp hh)
  · intro q hq id hid hno h
    dsimp only at hq hid hno ⊢
    rw [hcached]
    simp only [hiff] at hno
    rcases hnew q hq id hid with hold | ⟨rfl, q', hq', hid', hsame⟩
    · exact hc.unhashed q (hmem q hq) id hold hno h
    · refine hc.unhashed q' hq' id hid' (.inr fun x hx => ?_) h
      exact hno.resolve_left (by simp) x ((hsame x).mpr hx)

/-- The freed block held no id. -/
theorem Inv.count_erase {s' : AllocState H} (hc : Inv ⟨o, p, s⟩)
    (hlive : s'.live = s.live.erase r) (hr : r ∈ s.live) (hid : (s.heap r).blockId = none)
    (hheap : s'.heap = s.heap) (href : s'.refcounts = s.refcounts) (id : Nat) :
    s'.refcounts id = (s'.holders id).card + o.count id := by
  have h₁ := hc.count id
  have h₂ := card_holders_insert (s := s') (t := s) (r := r)
    (by rw [hlive, Finset.insert_erase hr]) (by rw [hlive]; exact Finset.notMem_erase r _)
    (fun _ _ => by rw [hheap]) id
  rw [if_neg (by rw [hid]; simp)] at h₂
  dsimp only at h₁
  rw [href]
  omega

theorem Inv.freeObject (hc : Inv ⟨o, p, s⟩) (hr : s.Own r)
    (hid : (s.heap r).blockId = none) :
    Inv ⟨o, p, { s with poolFreeIds := r.poolId :: s.poolFreeIds }⟩ := by
  have hlive := hr.live_free hc.pool
  exact hc.of_erase (hc.ids.congr rfl rfl rfl rfl rfl rfl) (hr.pool_free hc.pool) rfl hlive
    (fun _ => .refl _) (fun _ => rfl) (hc.count_erase hlive hr.live hid rfl rfl) rfl
    fun q _ id hq => .inl hq

theorem Inv.guestLeft (hc : Inv ⟨o, p, s⟩) (hr : r ∈ s.guests)
    (hid : (s.heap r).blockId = none) :
    Inv ⟨o, p, { s with guests := s.guests.erase r }⟩ := by
  have hlive : ({ s with guests := s.guests.erase r } : AllocState H).live = s.live.erase r := by
    ext q
    rw [Finset.mem_erase, AllocState.mem_live, AllocState.mem_live]
    show s.Own q ∨ q ∈ s.guests.erase r ↔ _
    rw [Finset.mem_erase, and_or_left]
    refine or_congr_left ⟨fun h => ⟨?_, h⟩, fun h => h.2⟩
    rintro rfl
    exact hc.pool.guests q hr h.1
  refine hc.of_erase (hc.ids.congr rfl rfl rfl rfl rfl rfl) ⟨hc.pool.nodup, hc.pool.lt,
    fun q hq => hc.pool.guests q (Finset.mem_of_mem_erase hq)⟩ rfl hlive (fun _ => .refl _)
    (fun _ => rfl) (hc.count_erase hlive (AllocState.mem_live.mpr (.inr hr)) hid rfl rfl) rfl
    fun q _ id hq => .inl hq

theorem Inv.handover {tmp : Ref} {id : Nat} (hc : Inv ⟨o, none, s⟩) (htmp : s.Own tmp)
    (hid : (s.heap tmp).blockId = some id) (hr : r ∈ s.live) (hne : r ≠ tmp)
    (hnone : (s.heap r).blockId = none)
    (hhash : ∀ h, HasHash s.blockSize s.heap r h ↔ HasHash s.blockSize s.heap tmp h) :
    Inv ⟨o, none, withId { s with poolFreeIds := tmp.poolId :: s.poolFreeIds } r (some id)⟩ := by
  have hlive := htmp.live_free hc.pool
  have hpool := htmp.pool_free hc.pool
  have hother : ∀ q, q ≠ r → Function.update s.heap r { s.heap r with blockId := some id } q =
      s.heap q := fun q hq => Function.update_of_ne hq _ _
  refine hc.of_erase ?_ ⟨hpool.nodup, hpool.lt, hpool.guests⟩ rfl hlive (fun q => ?_) (fun q => ?_) ?_ rfl ?_
  · exact hc.ids.congr rfl rfl rfl rfl rfl rfl
  · by_cases hq : q = r
    · subst hq
      simp only [withId, AllocState.updateBlock, Function.update_self]
      exact ⟨rfl, rfl, rfl⟩
    · simp only [withId, AllocState.updateBlock, Function.update_of_ne hq]
      exact .refl _
  · by_cases hq : q = r
    · subst hq
      simp only [withId, AllocState.updateBlock, Function.update_self]
    · simp only [withId, AllocState.updateBlock, Function.update_of_ne hq]
  · intro x
    -- First the object is freed with its id, then `r` gets the id.
    have h₁ := hc.count x
    have h₂ := card_holders_insert (s := { s with poolFreeIds := tmp.poolId :: s.poolFreeIds })
      (t := s) (r := tmp) (by rw [hlive, Finset.insert_erase htmp.live])
      (by rw [hlive]; exact Finset.notMem_erase tmp _) (fun _ _ => rfl) x
    have h₃ := card_holders_update (s := { s with poolFreeIds := tmp.poolId :: s.poolFreeIds })
      (t := withId { s with poolFreeIds := tmp.poolId :: s.poolFreeIds } r (some id)) (r := r)
      rfl (by rw [hlive]; exact Finset.mem_erase.mpr ⟨hne, hr⟩) (fun q _ hq => by
        simp only [withId, AllocState.updateBlock, Function.update_of_ne hq]) x
    simp only [withId, AllocState.updateBlock, Function.update_self, hid, hnone] at h₁ h₂ h₃ ⊢
    simp only [reduceCtorEq, if_false] at h₃
    omega
  · intro q hq x hx
    by_cases he : q = r
    · subst he
      simp only [withId, AllocState.updateBlock, Function.update_self, Option.some.injEq] at hx
      subst hx
      exact .inr ⟨rfl, tmp, htmp.live, hid, hhash⟩
    · simp only [withId, AllocState.updateBlock, Function.update_of_ne he] at hx
      exact .inl hx

end Free

/-! ## Appending tokens -/

section Extend

variable {o : List Nat} {s : AllocState H} {r : Ref}

/-- The block's tokens change; no other live block gets a hash by it. -/
theorem Inv.extend (hc : Inv ⟨o, none, s⟩) (hpreds : s.PredsLive)
    (hhash : ∀ h, ¬ HasHash s.blockSize s.heap r h)
    (hlast : ∀ q ∈ s.live, (s.heap q).prevBlock = some r → s.isFull q = false)
    (tokens : List Nat) :
    Inv ⟨o, some r, s.updateBlock r fun b => { b with tokenIds := b.tokenIds ++ tokens }⟩ := by
  obtain ⟨s', hs'⟩ : ∃ s', s' =
    s.updateBlock r fun b => { b with tokenIds := b.tokenIds ++ tokens } := ⟨_, rfl⟩
  rw [← hs']
  have hlive : s'.live = s.live := by rw [hs']; rfl
  have hbs : s'.blockSize = s.blockSize := by rw [hs']; rfl
  have hother : ∀ q, q ≠ r → s'.heap q = s.heap q := fun q hq => by
    rw [hs']
    exact Function.update_of_ne hq _ _
  have hfields : ∀ q, (s'.heap q).blockId = (s.heap q).blockId ∧
      (s'.heap q).prevBlock = (s.heap q).prevBlock ∧
      (s'.heap q).cachedContentHash = (s.heap q).cachedContentHash := by
    intro q
    by_cases hq : q = r
    · subst hq
      simp [hs', AllocState.updateBlock]
    · rw [hother q hq]
      exact ⟨rfl, rfl, rfl⟩
  -- A block with a hash does not have `r` in its chain.
  have hto : ∀ q h, HasHash s.blockSize s.heap q h → HasHash s'.blockSize s'.heap q h := by
    intro q h hh
    rw [hbs]
    refine HasHash.mono (K := fun q => ∃ h, HasHash s.blockSize s.heap q h)
      (fun q q' hx hp => hx.elim fun _ hx => hx.prev hp) (fun q hx => ?_) ⟨h, hh⟩ hh
    obtain ⟨x, hx⟩ := hx
    rw [hother q fun he => hhash x (he ▸ hx)]
    exact .refl _
  have hfrom : ∀ q h, HasHash s'.blockSize s'.heap q h → q ∈ s.live → q ≠ r →
      HasHash s.blockSize s.heap q h := by
    intro q h hh
    rw [hbs] at hh
    induction hh with
    | @first q full hprev =>
      intro _ hne
      rw [hother q hne] at full hprev ⊢
      exact .first full hprev
    | @next q q' x full hprev _ ih =>
      intro hq hne
      rw [hother q hne] at full hprev ⊢
      have hne' : q' ≠ r := by
        rintro rfl
        exact absurd full (of_decide_eq_false (hlast q hq hprev))
      exact .next full hprev (ih (hpreds q hq q' hprev) hne')
  constructor
  · rw [hs']
    exact hc.ids.congr rfl rfl rfl rfl rfl rfl
  · rw [hs']
    exact ⟨hc.pool.nodup, hc.pool.lt, hc.pool.guests⟩
  · intro id
    show s'.refcounts id = _
    rw [holders_eq hlive (fun q _ => (hfields q).1), hs']
    exact hc.count id
  · intro q hq h hh
    have hreach : s.Reach q := .mono (fun q hq => hlive ▸ hq) (fun q => (hfields q).2.1) hq
    exact hto q h (hc.sound q hreach h ((hfields q).2.2 ▸ hh))
  · intro q hq id h hid hp hh
    have hne : q ≠ r := fun he => hp (congrArg some he.symm)
    have hq : q ∈ s.live := hlive ▸ hq
    have := hc.hashed q hq id h ((hfields q).1 ▸ hid) (by simp) (hfrom q h hh hq hne)
    rw [hs']
    exact this
  · intro q hq id hid hno
    have hq : q ∈ s.live := hlive ▸ hq
    have := hc.unhashed q hq id ((hfields q).1 ▸ hid) (.inr fun h hh => ?_)
    · rw [hs']
      exact this
    · by_cases he : q = r
      · exact hhash h (he ▸ hh)
      · refine hno.elim (fun hp => he (Option.some.inj hp).symm) fun hn => hn h (hto q h hh)

end Extend

/-! ## Caching a block -/

/-- The block whose tokens changed is cached under its hash. -/
theorem Inv.cache {o : List Nat} {s s' : AllocState H} {r : Ref} {id : Nat} {h : H}
    (hc : Inv ⟨o, some r, s⟩) (hr : r ∈ s.live) (hid : (s.heap r).blockId = some id)
    (hh : HasHash s.blockSize s.heap r h) (hnone : s.cachedBlocks.get? h = none)
    (h1 : s.refcounts id = 1) (hids : IdInv s') (hpool : SamePool s s')
    (hbs : s'.blockSize = s.blockSize) (href : s'.refcounts = s.refcounts)
    {b : PrefixCachingBlock H} (hheap : s'.heap = Function.update s.heap r b)
    (hb : SameContent (s.heap r) b) (hkept : b.cachedContentHash = (s.heap r).cachedContentHash)
    (hblockId : b.blockId = some id) (hcached : s'.cachedBlocks = s.cachedBlocks.set h id) :
    Inv ⟨o, none, s'⟩ := by
  refine hc.of_rename hids hpool hbs hr hheap hb hkept (fun x => ?_)
    (fun q hq hne x hx h' => ?_) (fun q hne => ?_) fun x hx => ?_
  · rw [href, hblockId, hid]
  · have hxid : x ≠ id := by
      rintro rfl
      exact hne (hc.sole_holder h1 hr hid hq hx)
    rw [hcached, Dict.get?_set]
    split
    · next he =>
      subst he
      rw [hnone]
      exact ⟨fun he => absurd (Option.some.inj he).symm hxid, fun he => (by cases he)⟩
    · rfl
  · exact ⟨fun he => (by cases he), fun he => absurd (Option.some.inj he).symm hne⟩
  · rw [hblockId] at hx
    obtain rfl := Option.some.inj hx
    refine .inl ⟨by simp, h, hh, ?_⟩
    rw [hcached, Dict.get?_set_self]

/-! ## Every step -/

theorem count_erase_add {o : List Nat} {id : Nat} (h : id ∈ o) (x : Nat) :
    o.count x = (o.erase id).count x + if some id = some x then 1 else 0 := by
  rw [List.count_erase]
  by_cases hx : id = x
  · subst hx
    have := List.count_pos_iff.mpr h
    simp only [beq_self_eq_true, if_true]
    omega
  · simp [hx]

theorem pend_iff {p p' : Option Ref} {r : Ref} (hp : p = none ∨ p = some r)
    (hp' : p' = none ∨ p' = some r) (q : Ref) (hne : q ≠ r) : p' = some q ↔ p = some q := by
  have hr : some r ≠ some q := fun he => hne (Option.some.inj he).symm
  rcases hp with rfl | rfl <;> rcases hp' with rfl | rfl <;> simp [hr]

theorem AllocStep.inv {c c' : AllocConf H} (h : AllocStep c c') (hc : Inv c) : Inv c' := by
  cases h with
  | hashes same sound => exact hc.hashes same sound
  | tier cc =>
    refine hc.of_counts ?_ ⟨rfl, rfl, rfl, rfl⟩ rfl rfl (fun _ => rfl) fun _ _ _ => Iff.rfl
    exact hc.ids.congr rfl rfl rfl rfl rfl rfl
  | scratch pop preds b => exact hc.scratch pop preds b
  | @takeFree o p s id rest free =>
    refine hc.of_counts (hc.ids.takeFree free _ rfl) ⟨rfl, rfl, rfl, rfl⟩ rfl rfl (fun x => ?_)
      fun _ _ _ => Iff.rfl
    simp only [IdInv.withCount, Function.update_apply, List.count_cons, beq_iff_eq,
      eq_comm (a := id)]
    split
    · next he =>
      subst he
      omega
    · omega
  | @takeEvicted o p s id x e evict =>
    obtain ⟨hids, hget⟩ := hc.ids.takeEvicted evict (tracked false) rfl
    refine hc.of_counts hids ⟨rfl, rfl, rfl, rfl⟩ rfl rfl (fun y => ?_) fun y hy z => ?_
    · simp only [IdInv.withCount, Function.update_apply, List.count_cons, beq_iff_eq,
        eq_comm (a := id)]
      split
      · next he =>
        subst he
        omega
      · omega
    · dsimp only [IdInv.withCount] at hy ⊢
      rw [Dict.get?_erase]
      split
      · next he =>
        subst he
        -- The evicted id has no holder.
        obtain ⟨m, hm, rfl⟩ := (Evictor.evict_ok evict).1
        have h0 := (hc.ids.evictable id m hm).2.1
        dsimp only at h0
        refine ⟨fun h => (by cases h), fun h => ?_⟩
        rw [hget] at h
        obtain rfl := Option.some.inj h
        omega
      · rfl
  | newBlock pop preds blockId fresh prev =>
    refine hc.of_insert (hc.ids.congr rfl rfl rfl rfl rfl rfl) (pop.pool_insert hc.pool) rfl rfl
      rfl rfl (pop.live_insert hc.pool) (pop.pool_ok hc.pool).2.2 preds
      (fun h hh => by rw [fresh] at hh; cases hh) prev (fun x => ?_) (fun _ _ => Iff.rfl)
      (fun id h hid => ?_) fun id hid => ?_
    · rw [blockId]
      simp
    · rw [blockId] at hid
      cases hid
    · rw [blockId] at hid
      cases hid
  | @newOwned o s r size ids id b pop preds blockId fresh prev owed uncached =>
    have hr := (pop.pool_ok hc.pool).2.2
    refine hc.of_insert (hc.ids.congr rfl rfl rfl rfl rfl rfl) (pop.pool_insert hc.pool) rfl rfl
      rfl rfl (pop.live_insert hc.pool) hr preds
      (fun h hh => by rw [fresh] at hh; cases hh) prev (fun x => ?_) (fun q hq => ?_)
      (fun x h hx hp => absurd rfl hp) fun x hx _ h => ?_
    · rw [blockId]
      exact count_erase_add owed x
    · exact ⟨fun he => absurd (Option.some.inj he ▸ hq) hr, fun he => (by cases he)⟩
    · rw [blockId] at hx
      obtain rfl := Option.some.inj hx
      exact uncached h
  | @newForked o s r size ids id src b pop preds blockId fresh prev owed src_live src_id src_hash =>
    refine hc.of_insert (hc.ids.congr rfl rfl rfl rfl rfl rfl) (pop.pool_insert hc.pool) rfl rfl
      rfl rfl (pop.live_insert hc.pool) (pop.pool_ok hc.pool).2.2 preds
      (fun h hh => by rw [fresh] at hh; cases hh) prev (fun x => ?_) (fun _ _ => Iff.rfl)
      (fun x h hx _ hh => ?_) fun x hx hno h => ?_
    · rw [blockId]
      exact count_erase_add owed x
    · rw [blockId] at hx
      obtain rfl := Option.some.inj hx
      exact hc.hashed src src_live id h src_id (by simp) ((src_hash h).mp hh)
    · rw [blockId] at hx
      obtain rfl := Option.some.inj hx
      refine hc.unhashed src src_live id src_id (.inr fun y hy => ?_) h
      exact hno.resolve_left (by simp) y ((src_hash y).mpr hy)
  | @share o p s id used =>
    refine hc.of_counts (hc.ids.recount used (Nat.succ_pos _)) ⟨rfl, rfl, rfl, rfl⟩ rfl rfl (fun x => ?_)
      fun _ _ _ => Iff.rfl
    simp only [withRefcount, Function.update_apply, List.count_cons, beq_iff_eq,
      eq_comm (a := id)]
    split
    · next he =>
      subst he
      omega
    · omega
  | freeObject own blockId => exact hc.freeObject own blockId
  | handover own tmp_id live ne blockId hash =>
    exact hc.handover own tmp_id live ne blockId hash
  | extend live preds hash last tokens => exact hc.extend preds hash last tokens
  | @acquireUsed o p s r id x live blockId hash cached used pend =>
    refine hc.of_rename (r := r)
      ((hc.ids.recount used (Nat.succ_pos _)).congr rfl rfl rfl rfl rfl rfl)
      ⟨rfl, rfl, rfl, rfl⟩ rfl live rfl ⟨rfl, rfl, rfl⟩ rfl (fun y => ?_) (fun _ _ _ _ _ _ => Iff.rfl)
      (pend_iff pend (.inl rfl)) fun y hy => ?_
    · simp only [withComputed, withRefcount, AllocState.updateBlock, Function.update_apply,
        blockId, Option.some.injEq, eq_comm (a := id), reduceCtorEq, if_false]
      split
      · next he =>
        subst he
        omega
      · omega
    · obtain rfl := Option.some.inj hy
      exact .inl ⟨by simp, x, hash, cached⟩
  | @acquireEvicted o p s r id x e live blockId hash cached unused evictor pend =>
    refine hc.of_rename (r := r)
      ((hc.ids.acquireEvicted cached unused evictor _ rfl).congr rfl rfl rfl rfl rfl rfl)
      ⟨rfl, rfl, rfl, rfl⟩ rfl live rfl ⟨rfl, rfl, rfl⟩ rfl (fun y => ?_) (fun _ _ _ _ _ _ => Iff.rfl)
      (pend_iff pend (.inl rfl)) fun y hy => ?_
    · simp only [withComputed, IdInv.withCount, AllocState.updateBlock, Function.update_apply,
        blockId, Option.some.injEq, eq_comm (a := id), reduceCtorEq, if_false]
      split
      · next he =>
        subst he
        omega
      · omega
    · obtain rfl := Option.some.inj hy
      exact .inl ⟨by simp, x, hash, cached⟩
  | @releaseShared o p s r id live blockId shared =>
    refine hc.of_rename (r := r)
      ((hc.ids.recount (n := s.refcounts id - 1) (by dsimp only; omega) (by omega)).congr
        rfl rfl rfl rfl rfl rfl)
      ⟨rfl, rfl, rfl, rfl⟩ rfl live rfl ⟨rfl, rfl, rfl⟩ rfl (fun y => ?_) (fun _ _ _ _ _ _ => Iff.rfl)
      (fun _ _ => Iff.rfl) fun y hy => by cases hy
    simp only [withId, withRefcount, AllocState.updateBlock, Function.update_apply,
      blockId, Option.some.injEq, eq_comm (a := id), reduceCtorEq, if_false]
    split
    · next he =>
      subst he
      omega
    · omega
  | @releaseCached o p s r id x live blockId last pend hash n t =>
    have hget := hc.hashed r live id x blockId pend hash
    refine hc.of_rename (r := r)
      ((hc.ids.releaseCached hget last n t untracked rfl).congr rfl rfl rfl rfl rfl rfl)
      ⟨rfl, rfl, rfl, rfl⟩ rfl live rfl ⟨rfl, rfl, rfl⟩ rfl (fun y => ?_) (fun _ _ _ _ _ _ => Iff.rfl)
      (fun _ _ => Iff.rfl) fun y hy => by cases hy
    simp only [withId, IdInv.withCount, AllocState.updateBlock, Function.update_apply,
      blockId, Option.some.injEq, eq_comm (a := id), reduceCtorEq, if_false]
    split
    · next he =>
      subst he
      omega
    · omega
  | @releaseFree o p s r id live blockId last hash =>
    have hun := hc.unhashed r live id blockId hash
    refine hc.of_rename (r := r)
      ((hc.ids.releaseFree hun last untracked rfl).congr rfl rfl rfl rfl rfl rfl)
      ⟨rfl, rfl, rfl, rfl⟩ rfl live rfl ⟨rfl, rfl, rfl⟩ rfl (fun y => ?_) (fun _ _ _ _ _ _ => Iff.rfl)
      (fun _ _ => Iff.rfl) fun y hy => by cases hy
    simp only [withId, IdInv.withCount, AllocState.updateBlock, Function.update_apply,
      blockId, Option.some.injEq, eq_comm (a := id), reduceCtorEq, if_false]
    split
    · next he =>
      subst he
      omega
    · omega
  | @assign o p s r id live blockId pend owed uncached =>
    refine hc.of_rename (r := r) (hc.ids.congr rfl rfl rfl rfl rfl rfl)
      ⟨rfl, rfl, rfl, rfl⟩ rfl live rfl ⟨rfl, rfl, rfl⟩ rfl (fun y => ?_) (fun _ _ _ _ _ _ => Iff.rfl)
      (pend_iff pend (.inr rfl)) fun y hy => ?_
    · have := count_erase_add owed y
      dsimp only [withId, AllocState.updateBlock]
      rw [blockId]
      simp only [reduceCtorEq, if_false]
      omega
    · obtain rfl := Option.some.inj hy
      exact .inr ⟨.inl rfl, uncached⟩
  | @promote o s r id x live blockId hash uncached last =>
    have hun := hc.unhashed r live id blockId (.inl rfl)
    have hpos : 0 < s.refcounts id := by omega
    exact hc.cache live blockId hash uncached last
      ((hc.ids.cache hun uncached hpos).congr rfl rfl rfl rfl rfl rfl)
      ⟨rfl, rfl, rfl, rfl⟩ rfl rfl (Function.update_eq_self r _).symm (.refl _) rfl blockId rfl
  | @restore o s r id x live blockId hash uncached last =>
    have hun := hc.unhashed r live id blockId (.inl rfl)
    have hpos : 0 < s.refcounts id := by omega
    refine hc.cache live blockId hash uncached last ?_
      ⟨rfl, rfl, rfl, rfl⟩ rfl rfl rfl ⟨rfl, rfl, rfl⟩ rfl rfl rfl
    refine ((hc.ids.cache hun uncached hpos).of_tracker (l := s.touchedBlocks) fun y => ?_).congr
      rfl rfl rfl rfl rfl rfl
    dsimp only
    rw [Function.update_apply]
    split
    · next he => rw [he]
    · rfl
  | @settle o s r live hash =>
    refine hc.of_rename (r := r) hc.ids ⟨rfl, rfl, rfl, rfl⟩ rfl live (Function.update_eq_self r _).symm
      (.refl _) rfl (fun _ => rfl) (fun _ _ _ _ _ _ => Iff.rfl)
      (pend_iff (.inr rfl) (.inl rfl)) fun x hx => ?_
    exact .inr ⟨.inr hash, hc.unhashed r live x hx (.inl rfl)⟩
  | @updateTotal o p s r live n =>
    refine hc.of_rename (r := r) (hc.ids.congr rfl rfl rfl rfl rfl rfl)
      ⟨rfl, rfl, rfl, rfl⟩ rfl live rfl ⟨rfl, rfl, rfl⟩ rfl (fun _ => rfl) (fun _ _ _ _ _ _ => Iff.rfl)
      (fun _ _ => Iff.rfl) fun x hx => hc.known live hx
  | @guestCame o p s r b pool new preds blockId kept prev =>
    refine hc.of_insert (hc.ids.congr rfl rfl rfl rfl rfl rfl)
      ⟨hc.pool.nodup, hc.pool.lt, fun q hq => ?_⟩ rfl rfl rfl rfl ?_ new preds kept prev
      (fun x => ?_) (fun _ _ => Iff.rfl) (fun id h hid => ?_) fun id hid => ?_
    · rcases Finset.mem_insert.mp hq with rfl | hq
      · exact pool
      · exact hc.pool.guests q hq
    · rw [AllocState.live, AllocState.live, Finset.union_insert]
    · rw [blockId]
      simp
    · rw [blockId] at hid
      cases hid
    · rw [blockId] at hid
      cases hid
  | guestLeft guest blockId => exact hc.guestLeft guest blockId
  | cows l =>
    exact hc.of_counts (hc.ids.congr rfl rfl rfl rfl rfl rfl) ⟨rfl, rfl, rfl, rfl⟩ rfl rfl (fun _ => rfl)
      fun _ _ _ => Iff.rfl
  | @accessUsed o p s id t =>
    refine hc.of_counts ((hc.ids.of_tracker (l := s.touchedBlocks) fun y => ?_)) ⟨rfl, rfl, rfl, rfl⟩
      rfl rfl (fun _ => rfl) fun _ _ _ => Iff.rfl
    rw [Function.update_apply]
    split
    · next he => rw [he]
    · rfl
  | accessEvictable update =>
    exact hc.of_counts (hc.ids.of_evictor_update update) ⟨rfl, rfl, rfl, rfl⟩ rfl rfl (fun _ => rfl)
      fun _ _ _ => Iff.rfl

/-- Marking the touched ids is no step: it says nothing about the blocks. -/
theorem Inv.marked {o : List Nat} {p : Option Ref} {s : AllocState H} (hc : Inv ⟨o, p, s⟩) :
    Inv ⟨o, p, s.marked⟩ := by
  refine hc.of_counts (hc.ids.of_tracker fun y => ?_) ⟨rfl, rfl, rfl, rfl⟩ rfl rfl (fun _ => rfl)
    fun _ _ _ => Iff.rfl
  dsimp only
  split <;> rfl

end Bi100
