import Bi100.Block.Chunks
import Bi100.Block.CachingLaws
import Bi100.Block.NaiveLaws

/-!
# The blocks of a table

- `TableBlocks`: the blocks of a table form a chain, each of them but the last one is full, and no
  block outside the table follows one of them.
- `Local`: an operation on the blocks of one table. The blocks of the other tables stay as they
  were (`Local.keep`).
-/

namespace Bi100

open Py AllocState
open PrefixCachingBlockAllocator (Chain getAllBlocksRecursively)

variable {H : Type}

namespace PrefixCachingBlockAllocator.Chain

variable {heap : Ref → PrefixCachingBlock H} {prevBlock : Option Ref} {blocks : List Ref}
  {p q r : Ref} {i j : Nat}

theorem getElem_succ (h : Chain heap prevBlock blocks) (hq : blocks[i + 1]? = some q) :
    (heap q).prevBlock = blocks[i]? := by
  induction blocks generalizing prevBlock i with
  | nil => cases hq
  | cons x rest ih =>
    cases i with
    | zero =>
      cases rest with
      | nil => cases hq
      | cons y rest =>
        obtain rfl := Option.some.inj hq
        exact h.2.1
    | succ i => exact ih h.2 hq

theorem getElem_zero (h : Chain heap prevBlock blocks) (hq : blocks[0]? = some q) :
    (heap q).prevBlock = prevBlock := by
  cases blocks with
  | nil => cases hq
  | cons x rest =>
    obtain rfl := Option.some.inj hq
    exact h.1

/-- A block of a table follows the one before it. -/
theorem index_succ (h : Chain heap none blocks) (hnodup : blocks.Nodup) (hp : blocks[i]? = some p)
    (hq : blocks[j]? = some q) (hprev : (heap q).prevBlock = some p) : j = i + 1 := by
  cases j with
  | zero =>
    rw [h.getElem_zero hq] at hprev
    cases hprev
  | succ j =>
    rw [h.getElem_succ hq] at hprev
    obtain ⟨hj, hjp⟩ := List.getElem?_eq_some_iff.mp hprev
    obtain ⟨hi, hip⟩ := List.getElem?_eq_some_iff.mp hp
    rw [(List.Nodup.getElem_inj_iff hnodup).mp (hip.trans hjp.symm)]

theorem of_concat (h : Chain heap prevBlock (blocks ++ [r])) :
    Chain heap prevBlock blocks ∧ (heap r).prevBlock = blocks.getLast?.or prevBlock := by
  induction blocks generalizing prevBlock with
  | nil => exact ⟨trivial, h.1⟩
  | cons x rest ih =>
    obtain ⟨hrest, hr⟩ := ih h.2
    refine ⟨⟨h.1, hrest⟩, hr.trans ?_⟩
    rw [List.getLast?_cons, Option.some_or, Option.or_some]

/-- The blocks of a table are found from the last one. -/
theorem getAllBlocks_eq {fuel : Nat} {sources : List Ref} (h : Chain heap none blocks)
    (hlast : blocks.getLast? = some r) (hall : getAllBlocksRecursively heap fuel r = .ok sources) :
    sources = blocks := by
  induction fuel generalizing blocks r sources with
  | zero => cases hall
  | succ fuel ih =>
    obtain ⟨front, rfl⟩ := List.getLast?_eq_some_iff.mp hlast
    obtain ⟨hfront, hr⟩ := h.of_concat
    rw [Option.or_none] at hr
    rw [getAllBlocksRecursively] at hall
    split at hall
    · next hnone =>
      obtain rfl := pure_eq_ok.mp hall
      rw [hnone] at hr
      rw [List.getLast?_eq_none_iff.mp hr.symm, List.nil_append]
    · next p hp =>
      obtain ⟨l, hl, hall⟩ := bind_eq_ok.mp hall
      obtain rfl := pure_eq_ok.mp hall
      rw [ih hfront (hr.symm.trans hp) hl]

end PrefixCachingBlockAllocator.Chain

/-- The blocks of a table with `n` tokens. -/
structure TableBlocks (s : AllocState H) (blocks : List Ref) (n : Nat) : Prop where
  nodup : blocks.Nodup
  live : ∀ r ∈ blocks, r ∈ s.live ∧ r.pool = s.device
  chain : Chain s.heap none blocks
  filled : ∀ i r, blocks[i]? = some r → (s.heap r).tokenIds.length = tokensIn s.blockSize n i
  fits : n ≤ blocks.length * s.blockSize
  next : ∀ q ∈ s.live, ∀ p ∈ blocks, (s.heap q).prevBlock = some p → q ∈ blocks
  /-- A block that follows a block with an id has one. -/
  resident : ∀ q ∈ blocks, ∀ p, (s.heap q).prevBlock = some p → (s.heap p).blockId ≠ none →
    (s.heap q).blockId ≠ none

/-- The live blocks outside a table. -/
def others (s : AllocState H) (blocks : List Ref) : Finset Ref := s.live \ blocks.toFinset

theorem mem_others {s : AllocState H} {blocks : List Ref} {q : Ref} :
    q ∈ others s blocks ↔ q ∈ s.live ∧ q ∉ blocks := by
  rw [others, Finset.mem_sdiff, List.mem_toFinset]

/-- An operation on the blocks of a table, which then has the blocks `blocks'`. -/
structure Local (s : AllocState H) (blocks : List Ref) (s' : AllocState H) (blocks' : List Ref) :
    Prop where
  frame : Frame (others s blocks) s s'
  live : others s blocks ⊆ s'.live
  new : ∀ r ∈ blocks', r ∉ others s blocks
  prev : ∀ q ∈ s'.live, q ∉ others s blocks → ∀ p, (s'.heap q).prevBlock = some p →
    p ∉ others s blocks

variable {s s' s'' : AllocState H} {blocks blocks' blocks'' : List Ref} {n : Nat} {r : Ref}

theorem TableBlocks.prev_mem (h : TableBlocks s blocks n) {q p : Ref} (hq : q ∈ blocks)
    (hp : (s.heap q).prevBlock = some p) : p ∈ blocks :=
  (h.chain.prev_mem hq hp).resolve_left (by simp)

namespace Local

/-- No predecessor of a block of the table is outside of it. -/
theorem refl (h : ∀ q ∈ blocks, ∀ p, (s.heap q).prevBlock = some p → p ∈ blocks) :
    Local s blocks s blocks := by
  refine ⟨.refl _ _, Finset.sdiff_subset, fun r hr ho => (mem_others.mp ho).2 hr,
    fun q hq hno p hp ho => ?_⟩
  have hq : q ∈ blocks := by
    by_contra hn
    exact hno (mem_others.mpr ⟨hq, hn⟩)
  exact (mem_others.mp ho).2 (h q hq p hp)

theorem shrink (h : Local s blocks s' blocks') (hsub : blocks'' ⊆ blocks') :
    Local s blocks s' blocks'' := ⟨h.frame, h.live, fun r hr => h.new r (hsub hr), h.prev⟩

theorem others_subset (h : Local s blocks s' blocks') : others s blocks ⊆ others s' blocks' :=
  fun _ hq => mem_others.mpr ⟨h.live hq, fun hm => h.new _ hm hq⟩

theorem trans (h : Local s blocks s' blocks') (h' : Local s' blocks' s'' blocks'') :
    Local s blocks s'' blocks'' := by
  have hsub := h.others_subset
  refine ⟨h.frame.trans h'.frame hsub, fun q hq => h'.live (hsub hq),
    fun r hr ho => h'.new r hr (hsub ho), fun q hq hno p hp ho => ?_⟩
  by_cases hm : q ∈ others s' blocks'
  · have hp' : (s'.heap q).prevBlock = some p := (h'.frame.content hm).prevBlock.trans hp
    exact h.prev q (mem_others.mp hm).1 hno p hp' ho
  · exact h'.prev q hq hm p hp (hsub ho)

/-- The blocks of another table stay as they were. -/
theorem keep (h : Local s blocks s' blocks') {bs : List Ref} (ht : TableBlocks s bs n)
    (hd : bs.Disjoint blocks) : TableBlocks s' bs n ∧ bs.Disjoint blocks' := by
  have ho : ∀ r ∈ bs, r ∈ others s blocks := fun r hr =>
    mem_others.mpr ⟨(ht.live r hr).1, fun hb => hd hr hb⟩
  refine ⟨⟨ht.nodup, fun r hr => ?_, ?_, fun i r hr => ?_, ?_, fun q hq p hp hqp => ?_,
    fun q hq p hqp hid => ?_⟩, fun r hr hb => h.new r hb (ho r hr)⟩
  · exact ⟨h.live (ho r hr), (ht.live r hr).2.trans h.frame.device.symm⟩
  · exact ht.chain.congr fun q hq => (h.frame.content (ho q hq)).prevBlock.symm
  · rw [h.frame.blockSize, ← (h.frame.content (ho r (List.mem_of_getElem? hr))).tokenIds]
    exact ht.filled i r hr
  · rw [h.frame.blockSize]
    exact ht.fits
  · by_cases hm : q ∈ others s blocks
    · exact ht.next q (mem_others.mp hm).1 p hp ((h.frame.content hm).prevBlock.trans hqp)
    · exact absurd (ho p hp) (h.prev q hq hm p hqp)
  · have hqp := (h.frame.content (ho q hq)).prevBlock.trans hqp
    rw [h.frame.blockId (ho q hq)]
    rw [h.frame.blockId (ho p (ht.prev_mem hq hqp))] at hid
    exact ht.resident q hq p hqp hid

/-- New blocks at the end of the table. -/
theorem of_new {prevBlock : Option Ref} {tokens : List (List Nat)} {rs : List Ref}
    (h : NewBlocks s prevBlock tokens rs s')
    (hclosed : ∀ q ∈ blocks, ∀ p, (s.heap q).prevBlock = some p → p ∈ blocks)
    (hprev : ∀ q, prevBlock = some q → q ∈ blocks) : Local s blocks s' (blocks ++ rs) := by
  have hnew : ∀ q ∈ rs, q ∉ others s blocks := fun q hq ho => h.new q hq (mem_others.mp ho).1
  refine ⟨h.frame.mono Finset.sdiff_subset, fun q hq => h.subset (mem_others.mp hq).1,
    fun r hr ho => ?_, fun q hq hno p hp ho => ?_⟩
  · rcases List.mem_append.mp hr with hr | hr
    · exact (mem_others.mp ho).2 hr
    · exact hnew r hr ho
  · rcases (h.live q).mp hq with hs | hn
    · have hb : q ∈ blocks := by
        by_contra hn
        exact hno (mem_others.mpr ⟨hs, hn⟩)
      exact (mem_others.mp ho).2 (hclosed q hb p ((h.frame.content hs).prevBlock.trans hp))
    · rcases h.prev_mem hn hp with he | hm
      · exact (mem_others.mp ho).2 (hprev p he)
      · exact hnew p hm ho

/-- The same blocks are live, and the blocks of the table keep their predecessors. -/
theorem of_live (hlive : s'.live = s.live) (hframe : Frame (others s blocks) s s')
    (hclosed : ∀ q ∈ blocks, ∀ p, (s'.heap q).prevBlock = some p → p ∈ blocks) :
    Local s blocks s' blocks := by
  refine ⟨hframe, fun q hq => hlive ▸ (mem_others.mp hq).1,
    fun r hr ho => (mem_others.mp ho).2 hr, fun q hq hno p hp ho => ?_⟩
  have hb : q ∈ blocks := by
    by_contra hn
    exact hno (mem_others.mpr ⟨hlive ▸ hq, hn⟩)
  exact (mem_others.mp ho).2 (hclosed q hb p hp)

end Local

/-! ## Growing and filling -/

namespace TableBlocks

/-- The blocks of a new table. -/
theorem of_new {tokens : List (List Nat)} (hp : s.PredsLive)
    (h : NewBlocks s none tokens blocks s')
    (hlen : ∀ i c, tokens[i]? = some c → c.length = tokensIn s.blockSize n i)
    (hfits : n ≤ tokens.length * s.blockSize) : TableBlocks s' blocks n := by
  have hcount : tokens.length = blocks.length := by rw [← h.tokens, List.length_map]
  refine ⟨h.nodup, fun r hr => ⟨h.mem hr, h.pool r hr⟩, h.chain, fun i r hr => ?_, ?_,
    fun q hq p hb hqp => ?_, fun q hq p _ _ => h.blockId q hq⟩
  · rw [h.frame.blockSize]
    refine hlen i _ ?_
    rw [← h.tokens, List.getElem?_map, hr]
    rfl
  · rw [h.frame.blockSize, ← hcount]
    exact hfits
  · rcases (h.live q).mp hq with hs | hn
    · exact absurd (hp q hs p ((h.frame.content hs).prevBlock.trans hqp)) (h.new p hb)
    · exact hn

/-- One more empty block. -/
theorem grow (ht : TableBlocks s blocks n) (hp : s.PredsLive) {last : Ref}
    (hlast : blocks.getLast? = some last) (h : NewBlocks s (some last) [[]] [r] s') :
    TableBlocks s' (blocks ++ [r]) n := by
  have hr := List.mem_singleton_self r
  have hnot : r ∉ blocks := fun hb => h.new r hr (ht.live r hb).1
  refine ⟨?_, fun q hq => ?_, ?_, fun i q hq => ?_, ?_, fun q hq p hb hqp => ?_,
    fun q hq p hqp hid => ?_⟩
  · exact List.nodup_append.mpr ⟨ht.nodup, List.nodup_singleton r,
      fun a ha b hb hab => hnot (List.mem_singleton.mp hb ▸ hab ▸ ha)⟩
  · rcases List.mem_append.mp hq with hq | hq
    · exact ⟨h.subset (ht.live q hq).1, (ht.live q hq).2.trans h.frame.device.symm⟩
    · exact ⟨h.mem hq, h.pool q hq⟩
  · refine Chain.concat (ht.chain.congr fun q hq => ?_) (by rw [hlast]; exact h.chain)
    exact (h.frame.content (ht.live q hq).1).prevBlock.symm
  · rw [h.frame.blockSize]
    by_cases hi : i < blocks.length
    · rw [List.getElem?_append_left hi] at hq
      rw [← (h.frame.content (ht.live q (List.mem_of_getElem? hq)).1).tokenIds]
      exact ht.filled i q hq
    · rw [List.getElem?_append_right (by omega), List.getElem?_singleton] at hq
      split at hq
      · next h0 =>
        obtain rfl := Option.some.inj hq
        rw [h.tokenIds_eq, List.length_nil, tokensIn]
        have : blocks.length * s.blockSize ≤ i * s.blockSize :=
          Nat.mul_le_mul_right _ (Nat.le_of_not_lt hi)
        have := ht.fits
        omega
      · cases hq
  · rw [h.frame.blockSize, List.length_append, List.length_singleton, Nat.succ_mul]
    have := ht.fits
    omega
  · rw [List.mem_append] at hb ⊢
    rcases (h.live q).mp hq with hs | hn
    · have hqs : (s.heap q).prevBlock = some p := (h.frame.content hs).prevBlock.trans hqp
      rcases hb with hb | hb
      · exact .inl (ht.next q hs p hb hqs)
      · exact absurd (hp q hs p hqs) (h.new p hb)
    · exact .inr hn
  · rcases List.mem_append.mp hq with hq | hq
    · have hql := (ht.live q hq).1
      have hqs : (s.heap q).prevBlock = some p := (h.frame.content hql).prevBlock.trans hqp
      rw [h.frame.blockId hql]
      rw [h.frame.blockId (ht.live p (ht.prev_mem hq hqs)).1] at hid
      exact ht.resident q hq p hqs hid
    · exact h.blockId q hq

/-- The block that the next tokens go to, which no full block follows. -/
theorem successor_room (ht : TableBlocks s blocks n) (hpos : 0 < s.blockSize)
    (hr : blocks[n / s.blockSize]? = some r) :
    ∀ q ∈ s.live, (s.heap q).prevBlock = some r → s.isFull q = false := by
  intro q hq hqr
  obtain ⟨j, hj⟩ := List.mem_iff_getElem?.mp (ht.next q hq r (List.mem_of_getElem? hr) hqr)
  obtain rfl := ht.chain.index_succ ht.nodup hr hj hqr
  refine decide_eq_false ?_
  rw [ht.filled _ q hj, tokensIn]
  have hdiv := Nat.div_add_mod n s.blockSize
  have hmod := Nat.mod_lt n hpos
  rw [Nat.succ_mul, Nat.mul_comm]
  omega

/-- Tokens are appended to the block that the next tokens go to. -/
theorem extend (ht : TableBlocks s blocks n) {tokenIds : List Nat} (hpos : 0 < s.blockSize)
    (hr : blocks[n / s.blockSize]? = some r) (hrid : (s.heap r).blockId ≠ none)
    (hroom : n % s.blockSize + tokenIds.length ≤ s.blockSize)
    (h : Extended s r tokenIds s') : TableBlocks s' blocks (n + tokenIds.length) := by
  have hmem : ∀ q ∈ blocks, q ≠ r → q ∈ s.live.erase r := fun q hq hne =>
    Finset.mem_erase.mpr ⟨hne, (ht.live q hq).1⟩
  have hprev : ∀ q ∈ s.live, (s'.heap q).prevBlock = (s.heap q).prevBlock := fun q hq => by
    by_cases he : q = r
    · rw [he, h.prevBlock]
    · exact (h.frame.content (Finset.mem_erase.mpr ⟨he, hq⟩)).prevBlock.symm
  have hdiv := Nat.div_add_mod n s.blockSize
  have hlt : n / s.blockSize < blocks.length := (List.getElem?_eq_some_iff.mp hr).1
  refine ⟨ht.nodup, fun q hq => ?_, ht.chain.congr fun q hq => hprev q (ht.live q hq).1,
    fun i q hq => ?_, ?_, fun q hq p hb hqp => ?_, fun q hq p hqp hid => ?_⟩
  · exact ⟨h.live ▸ (ht.live q hq).1, (ht.live q hq).2.trans h.frame.device.symm⟩
  · rw [h.frame.blockSize]
    by_cases he : q = r
    · subst he
      have hi : i = n / s.blockSize := by
        obtain ⟨hi, hiq⟩ := List.getElem?_eq_some_iff.mp hq
        obtain ⟨hk, hkq⟩ := List.getElem?_eq_some_iff.mp hr
        exact (List.Nodup.getElem_inj_iff ht.nodup).mp (hiq.trans hkq.symm)
      subst hi
      rw [h.tokenIds, List.length_append, ht.filled _ q hr, tokensIn, tokensIn, Nat.mul_comm]
      omega
    · rw [← (h.frame.content (hmem q (List.mem_of_getElem? hq) he)).tokenIds, ht.filled i q hq,
        tokensIn, tokensIn]
      have hne : i ≠ n / s.blockSize := by
        rintro rfl
        exact he (Option.some.inj (hq.symm.trans hr))
      rcases Nat.lt_or_gt_of_ne hne with hlt | hgt
      · have := Nat.mul_le_mul_right s.blockSize (Nat.succ_le_of_lt hlt)
        rw [Nat.succ_mul, Nat.mul_comm (n / _)] at this
        omega
      · have := Nat.mul_le_mul_right s.blockSize (Nat.succ_le_of_lt hgt)
        rw [Nat.succ_mul, Nat.mul_comm (n / _)] at this
        omega
  · rw [h.frame.blockSize]
    have := Nat.mul_le_mul_right s.blockSize (Nat.succ_le_of_lt hlt)
    rw [Nat.succ_mul, Nat.mul_comm (n / _)] at this
    omega
  · rw [h.live] at hq
    exact ht.next q hq p hb (hprev q hq ▸ hqp)
  · have hqs : (s.heap q).prevBlock = some p := hprev q (ht.live q hq).1 ▸ hqp
    have hpm := ht.prev_mem hq hqs
    have hids : ∀ x ∈ blocks, (s.heap x).blockId ≠ none → (s'.heap x).blockId ≠ none := by
      intro x hx hid
      by_cases he : x = r
      · exact he ▸ h.blockId (he ▸ hid)
      · rw [h.frame.blockId (hmem x hx he)]
        exact hid
    refine hids q hq (ht.resident q hq p hqs ?_)
    by_cases he : p = r
    · exact he ▸ hrid
    · rwa [h.frame.blockId (hmem p hpm he)] at hid

/-- The blocks of the table move to another device, or back. -/
theorem moved (ht : TableBlocks s blocks n) {held : Bool} (h : Moved s blocks held s') :
    TableBlocks s' blocks n := by
  have hcont : ∀ q ∈ s.live, SameContent (s.heap q) (s'.heap q) := fun q hq => h.sameContent hq
  refine ⟨ht.nodup, fun q hq => ?_, ht.chain.congr fun q hq => ?_, fun i q hq => ?_, ?_,
    fun q hq p hb hqp => ?_, fun q hq p hqp hid => ?_⟩
  · exact ⟨h.live ▸ (ht.live q hq).1, (ht.live q hq).2.trans h.frame.device.symm⟩
  · exact (hcont q (ht.live q hq).1).prevBlock.symm
  · rw [h.frame.blockSize, ← (hcont q (ht.live q (List.mem_of_getElem? hq)).1).tokenIds]
    exact ht.filled i q hq
  · rw [h.frame.blockSize]
    exact ht.fits
  · rw [h.live] at hq
    exact ht.next q hq p hb ((hcont q hq).prevBlock.trans hqp)
  · have hp := ht.prev_mem hq ((hcont q (ht.live q hq).1).prevBlock.trans hqp)
    rw [← Option.isSome_iff_ne_none, h.blockId p hp] at hid
    rw [← Option.isSome_iff_ne_none, h.blockId q hq]
    exact hid

/-- No predecessor of a block of the table is outside of it. -/
theorem closed (ht : TableBlocks s blocks n) :
    ∀ q ∈ blocks, ∀ p, (s.heap q).prevBlock = some p → p ∈ blocks :=
  fun _ hq _ hp => ht.prev_mem hq hp

end TableBlocks

end Bi100
