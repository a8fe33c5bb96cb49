import Bi100.Block.Effects
import Bi100.Block.Naive
import Bi100.Lib.Budget

/-!
# What block tables rely on

The laws that both allocators obey (`BlockAllocator.Lawful`), whatever invariant each of them needs:
what a method does to the blocks in use, and how many free blocks it uses up.

- `NewBlocks`: some new blocks, one behind the other; the old ones stay.
- `Extended`: tokens were appended to one block.
- `Sole`: a block that tokens can be appended to without a copy on write.
-/

namespace Bi100

open Py
open PrefixCachingBlockAllocator (getAllBlocksRecursively)

variable {H : Type}

namespace AllocState

variable {s : AllocState H} {q : Ref}

/-- Other live blocks do not hold the id of a `Sole` block. -/
theorem Sole.alone (h : s.Sole q) (hcount : ∀ id, s.refcounts id = (s.holders id).card)
    (hq : q ∈ s.live) {p : Ref} (hp : p ∈ s.live) (hne : p ≠ q) {id : Nat}
    (hid : (s.heap q).blockId = some id) : (s.heap p).blockId ≠ some id := by
  intro hpid
  have hcard : (s.holders id).card = 1 := (hcount id).symm.trans (h.count id hid)
  obtain ⟨x, hx⟩ := Finset.card_eq_one.mp hcard
  have hqx : q ∈ s.holders id := mem_holders.mpr ⟨hq, hid⟩
  have hpx : p ∈ s.holders id := mem_holders.mpr ⟨hp, hpid⟩
  rw [hx, Finset.mem_singleton] at hqx hpx
  exact hne (hpx.trans hqx.symm)

theorem Sole.of_alone (hcount : ∀ id, s.refcounts id = (s.holders id).card) (hq : q ∈ s.live)
    (hroom : s.isFull q = false) (h : ∀ p ∈ s.live, p ≠ q → ∀ id, (s.heap q).blockId = some id →
      (s.heap p).blockId ≠ some id) : s.Sole q := by
  refine ⟨hroom, fun id hid => ?_⟩
  rw [hcount, Finset.card_eq_one]
  refine ⟨q, Finset.eq_singleton_iff_unique_mem.mpr ⟨mem_holders.mpr ⟨hq, hid⟩, fun p hp => ?_⟩⟩
  obtain ⟨hpl, hpid⟩ := mem_holders.mp hp
  by_contra hne
  exact h p hpl hne id hid hpid

end AllocState

open AllocState

/-- What a method may use of the free blocks. -/
abbrev BlockAllocator.Costs {α : Type} (a : BlockAllocator H) (n : Nat) (x : AllocM H α)
    (s : AllocState H) : Prop :=
  Spends a.getNumFreeBlocks .noFreeBlocksError n x s

/-- A measure of the free ids. -/
class ByIds (m : AllocState H → Nat) : Prop where
  eq : ∀ s t : AllocState H, s.freeBlockIndices = t.freeBlockIndices → s.evictor = t.evictor →
    m s = m t

theorem ByIds.le {m : AllocState H → Nat} [ByIds m] {s t : AllocState H}
    (hf : s.freeBlockIndices = t.freeBlockIndices) (he : s.evictor = t.evictor) : m s ≤ m t + 0 :=
  (ByIds.eq s t hf he).le

namespace PrefixCachingBlockAllocator

variable {m : AllocState H → Nat} [ByIds m] {s : AllocState H} {r : Ref} {id : Nat}

/-! ## The parts use nothing -/

omit [ByIds m] in
theorem getBlockId_costs : Spends m .noFreeBlocksError 0 (getBlockId r) s :=
  .get_bind (.getOrRaise _ nofun)

omit [ByIds m] in
theorem refGet_costs : Spends m .noFreeBlocksError 0 (refGet id) s :=
  .get_bind (.raiseUnless_bind nofun fun _ => .ret)

theorem refIncr_costs : Spends m .noFreeBlocksError 0 (refIncr id) s :=
  .get_bind (.raiseUnless_bind nofun fun _ => .set_bind (l := 0) .ret (ByIds.le rfl rfl))

theorem refDecr_costs : Spends m .noFreeBlocksError 0 (refDecr id) s :=
  .get_bind (.raiseUnless_bind nofun fun _ => .raiseUnless_bind nofun fun _ =>
    .set_bind (l := 0) .ret (ByIds.le rfl rfl))

theorem trackBlockId_costs {computed : Bool} :
    Spends m .noFreeBlocksError 0 (trackBlockId id computed) s :=
  .get_bind (.raiseUnless_bind nofun fun _ => .raiseIf_bind nofun fun _ =>
    .set (ByIds.le rfl rfl))

theorem untrackBlockId_costs : Spends m .noFreeBlocksError 0 (untrackBlockId id) s :=
  .get_bind (.raiseUnless_bind nofun fun _ => .raiseUnless_bind nofun fun _ =>
    .set (ByIds.le rfl rfl))

theorem setBlockId_costs {blockId : Option Nat} :
    Spends m .noFreeBlocksError 0 (setBlockId r blockId) s := .modify (ByIds.le rfl rfl)

theorem poolFree_costs : Spends m .noFreeBlocksError 0 (poolFree r) s :=
  .modify (ByIds.le rfl rfl)

theorem poolInit_costs {prevBlock : Option Ref} {tokenIds : List Nat} {blockId : Option Nat} :
    Spends m .noFreeBlocksError 0 (poolInit prevBlock tokenIds blockId) s :=
  .get_bind (.getOrRaise_bind nofun fun _ _ => .raiseUnless_bind nofun fun _ =>
    .set_bind (l := 0) .ret (ByIds.le rfl rfl))

theorem clearCopyOnWrites_costs : Spends m .noFreeBlocksError 0 clearCopyOnWrites s :=
  .get_bind (.set_bind (l := 0) .ret (ByIds.le rfl rfl))

theorem getAllBlocksRecursively_ne {heap : Ref → PrefixCachingBlock H} {fuel : Nat} :
    getAllBlocksRecursively heap fuel r ≠ .error .noFreeBlocksError := by
  induction fuel generalizing r with
  | zero =>
    intro h
    cases h
  | succ fuel ih =>
    rw [getAllBlocksRecursively]
    split
    · intro h
      cases h
    · next p _ =>
      intro h
      cases hp : getAllBlocksRecursively heap fuel p with
      | ok blocks =>
        rw [hp] at h
        cases h
      | error e =>
        rw [hp] at h
        cases h
        exact ih hp

end PrefixCachingBlockAllocator

/-- The laws of an allocator with the invariant `inv`. -/
structure BlockAllocator.Lawful (a : BlockAllocator H) (inv : AllocState H → Prop) : Prop where
  mutable {s s' : AllocState H} {prevBlock : Option Ref} {ns : Bytes} {r : Ref} :
    inv s → s.PredsLive → s.PrevLive prevBlock → 0 < s.blockSize →
    (a.allocateMutableBlock prevBlock ns).run s = .ok r s' →
    inv s' ∧ NewBlocks s prevBlock [[]] [r] s' ∧ s'.Sole r ∧
      ∀ q ∈ s.live, s.Sole q → s'.Sole q
  mutable_costs {s : AllocState H} {prevBlock : Option Ref} {ns : Bytes} :
    inv s → s.PredsLive → s.PrevLive prevBlock →
    a.Costs 1 (a.allocateMutableBlock prevBlock ns) s
  immutable {s s' : AllocState H} {prevBlock : Option Ref} {ns : Bytes}
      {tokens : List (List Nat)} {rs : List Ref} :
    inv s → s.PredsLive → s.PrevLive prevBlock →
    (a.allocateImmutableBlocks ns prevBlock tokens).run s = .ok rs s' →
    inv s' ∧ NewBlocks s prevBlock tokens rs s'
  immutable_costs {s : AllocState H} {prevBlock : Option Ref} {ns : Bytes}
      {tokens : List (List Nat)} :
    inv s → s.PredsLive → s.PrevLive prevBlock →
    a.Costs tokens.length (a.allocateImmutableBlocks ns prevBlock tokens) s
  append {s s' : AllocState H} {r : Ref} {tokenIds : List Nat} :
    inv s → s.PredsLive → r ∈ s.live →
    (∀ q ∈ s.live, (s.heap q).prevBlock = some r → s.isFull q = false) →
    (a.appendTokenIds r tokenIds).run s = .ok () s' →
    inv s' ∧ Extended s r tokenIds s' ∧ ∀ q ∈ s.live, q ≠ r → s.Sole q → s'.Sole q
  append_costs {s : AllocState H} {r : Ref} {tokenIds : List Nat} :
    inv s → s.PredsLive → r ∈ s.live →
    (∀ q ∈ s.live, (s.heap q).prevBlock = some r → s.isFull q = false) →
    a.Costs 1 (a.appendTokenIds r tokenIds) s ∧
      (s.Sole r → a.Costs 0 (a.appendTokenIds r tokenIds) s)
  fork {s s' : AllocState H} {r : Ref} {rs : List Ref} :
    inv s → s.PredsLive → r ∈ s.live → (a.fork r).run s = .ok rs s' →
    ∃ sources, getAllBlocksRecursively s.heap s.recursionLimit r = .ok sources ∧ inv s' ∧
      NewBlocks s none (sources.map fun q => (s.heap q).tokenIds) rs s'
  fork_costs {s : AllocState H} {r : Ref} :
    inv s → s.PredsLive → r ∈ s.live → a.Costs 0 (a.fork r) s
  free {s s' : AllocState H} {r : Ref} :
    inv s → s.Own r → (a.free r).run s = .ok () s' →
    inv s' ∧ s'.live = s.live.erase r ∧ Frame (s.live.erase r) s s'
  swapOut {s s' : AllocState H} {rs : List Ref} :
    inv s → (∀ r ∈ rs, r ∈ s.live) → (a.swapOut rs).run s = .ok () s' →
    inv s' ∧ Moved s rs false s'
  swapIn {s s' : AllocState H} {rs : List Ref} :
    inv s → s.PredsLive → (∀ r ∈ rs, r ∈ s.live ∧ (s.heap r).blockId = none) → rs.Nodup →
    (a.swapIn rs).run s = .ok () s' → inv s' ∧ Moved s rs true s'
  accessed {s s' : AllocState H} {ids : List Nat} {now : Int} :
    inv s → (a.markBlocksAsAccessed ids now).run s = .ok () s' →
    inv s' ∧ s'.live = s.live ∧ Frame s.live s s'
  computed {s s' : AllocState H} :
    inv s → (a.markBlocksAsComputed).run s = .ok () s' →
    inv s' ∧ s'.live = s.live ∧ Frame s.live s s'
  cows {s : AllocState H} (l : List (Nat × Nat)) : inv s → inv { s with copyOnWrites := l }
  tier {s : AllocState H} (c : Option (CpuKvContentCache H)) :
    inv s → inv { s with contentCache := c }

end Bi100
