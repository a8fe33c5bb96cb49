import Bi100.Block.Calls

/-!
# What methods do to blocks

The effect of a method on the blocks in use, without the steps it takes:

- `NewBlocks`: there are new blocks, one behind the other (`Chain`);
- `Extended`: tokens were appended to one block;
- `Moved`: some blocks got or lost their ids.

A block is `Sole` if tokens can be appended to it without a copy on write.
-/

namespace Bi100

open Py

variable {H : Type}

namespace PrefixCachingBlockAllocator

/-- Consecutive blocks, the first of which follows `prevBlock`. -/
def Chain (heap : Ref → PrefixCachingBlock H) : Option Ref → List Ref → Prop
  | _, [] => True
  | prevBlock, r :: rest => (heap r).prevBlock = prevBlock ∧ Chain heap (some r) rest

theorem Chain.append {heap : Ref → PrefixCachingBlock H} {prevBlock : Option Ref}
    {rs : List Ref} {q r : Ref} (h : Chain heap prevBlock rs)
    (hr : (heap r).prevBlock = some q) (hlast : rs.getLast? = some q) :
    Chain heap prevBlock (rs ++ [r]) := by
  induction rs generalizing prevBlock with
  | nil => cases hlast
  | cons x rest ih =>
    refine ⟨h.1, ?_⟩
    cases rest with
    | nil =>
      obtain rfl := Option.some.inj hlast
      exact ⟨hr, trivial⟩
    | cons y rest => exact ih h.2 (by simpa using hlast)

theorem Chain.concat {heap : Ref → PrefixCachingBlock H} {prevBlock : Option Ref}
    {rs rs' : List Ref} (h : Chain heap prevBlock rs)
    (h' : Chain heap (rs.getLast?.or prevBlock) rs') : Chain heap prevBlock (rs ++ rs') := by
  induction rs generalizing prevBlock with
  | nil => exact h'
  | cons x rest ih =>
    refine ⟨h.1, ih h.2 ?_⟩
    rwa [List.getLast?_cons, Option.some_or, ← Option.or_some] at h'

/-- The predecessor of a block of a chain is in the chain, or before it. -/
theorem Chain.prev_mem {heap : Ref → PrefixCachingBlock H} {prevBlock : Option Ref}
    {rs : List Ref} (h : Chain heap prevBlock rs) {q p : Ref} (hq : q ∈ rs)
    (hp : (heap q).prevBlock = some p) : prevBlock = some p ∨ p ∈ rs := by
  induction rs generalizing prevBlock with
  | nil => exact absurd hq List.not_mem_nil
  | cons x rest ih =>
    rcases List.mem_cons.mp hq with rfl | hq
    · exact .inl (h.1.symm.trans hp)
    · rcases ih h.2 hq with he | hm
      · exact .inr (Option.some.inj he ▸ List.mem_cons_self)
      · exact .inr (List.mem_cons_of_mem _ hm)

theorem Chain.congr {heap heap' : Ref → PrefixCachingBlock H} {prevBlock : Option Ref}
    {rs : List Ref} (h : Chain heap prevBlock rs)
    (hsame : ∀ q ∈ rs, (heap' q).prevBlock = (heap q).prevBlock) : Chain heap' prevBlock rs := by
  induction rs generalizing prevBlock with
  | nil => trivial
  | cons q rest ih =>
    exact ⟨(hsame q List.mem_cons_self).trans h.1,
      ih h.2 fun x hx => hsame x (List.mem_cons_of_mem _ hx)⟩

theorem getAllBlocksRecursively_ok {s : AllocState H} {r : Ref} {fuel : Nat}
    {rs : List Ref} (hp : s.PredsLive) (hr : r ∈ s.live)
    (h : getAllBlocksRecursively s.heap fuel r = .ok rs) :
    Chain s.heap none rs ∧ rs.getLast? = some r ∧ ∀ q ∈ rs, q ∈ s.live := by
  induction fuel generalizing r rs with
  | zero => cases h
  | succ fuel ih =>
    rw [getAllBlocksRecursively] at h
    split at h
    · next hprev =>
      obtain rfl := pure_eq_ok.mp h
      exact ⟨⟨hprev, trivial⟩, rfl, fun q hq => List.mem_singleton.mp hq ▸ hr⟩
    · next p hprev =>
      obtain ⟨blocks, hb, h⟩ := bind_eq_ok.mp h
      obtain rfl := pure_eq_ok.mp h
      obtain ⟨hchain, hlast, hlive⟩ := ih (hp r hr p hprev) hb
      refine ⟨hchain.append hprev hlast, List.getLast?_concat .., fun q hq => ?_⟩
      rcases List.mem_append.mp hq with hq | hq
      · exact hlive q hq
      · exact List.mem_singleton.mp hq ▸ hr

end PrefixCachingBlockAllocator

open PrefixCachingBlockAllocator (Chain)

namespace AllocState

/-- `r` is not full, and nobody else holds its id. -/
structure Sole (s : AllocState H) (r : Ref) : Prop where
  room : s.isFull r = false
  count : ∀ id, (s.heap r).blockId = some id → s.refcounts id = 1

/-- The blocks `rs` with these tokens are new, the first of them follows `prevBlock`, and the live
blocks stay as they were. -/
structure NewBlocks (s : AllocState H) (prevBlock : Option Ref) (tokens : List (List Nat))
    (rs : List Ref) (s' : AllocState H) : Prop where
  nodup : rs.Nodup
  new : ∀ r ∈ rs, r ∉ s.live
  live : ∀ q, q ∈ s'.live ↔ q ∈ s.live ∨ q ∈ rs
  pool : ∀ r ∈ rs, r.pool = s'.device
  frame : Frame s.live s s'
  chain : Chain s'.heap prevBlock rs
  tokens : rs.map (fun r => (s'.heap r).tokenIds) = tokens
  blockId : ∀ r ∈ rs, (s'.heap r).blockId ≠ none

/-- Tokens were appended to `r`, and the other live blocks stay as they were. -/
structure Extended (s : AllocState H) (r : Ref) (tokenIds : List Nat) (s' : AllocState H) :
    Prop where
  live : s'.live = s.live
  frame : Frame (s.live.erase r) s s'
  prevBlock : (s'.heap r).prevBlock = (s.heap r).prevBlock
  tokenIds : (s'.heap r).tokenIds = (s.heap r).tokenIds ++ tokenIds
  blockId : (s.heap r).blockId ≠ none → (s'.heap r).blockId ≠ none

/-- The blocks `rs` got an id or lost theirs, as `held` says, and kept their content; the other live
blocks stay as they were. -/
structure Moved (s : AllocState H) (rs : List Ref) (held : Bool) (s' : AllocState H) : Prop where
  live : s'.live = s.live
  frame : Frame (s.live \ rs.toFinset) s s'
  content : ∀ r ∈ rs, SameContent (s.heap r) (s'.heap r)
  blockId : ∀ r ∈ rs, (s'.heap r).blockId.isSome = held

/-- The predecessor that a new block would have is live. -/
def PrevLive (s : AllocState H) (prevBlock : Option Ref) : Prop :=
  ∀ q, prevBlock = some q → q ∈ s.live

variable {s s' s'' : AllocState H} {r : Ref} {prevBlock : Option Ref}

namespace NewBlocks

variable {tokens tokens' : List (List Nat)} {rs rs' : List Ref}

theorem nil : NewBlocks s prevBlock [] [] s :=
  ⟨.nil, fun r hr => absurd hr List.not_mem_nil, fun q => by simp, fun r hr => absurd hr
    List.not_mem_nil, .refl _ _, trivial, rfl, fun r hr => absurd hr List.not_mem_nil⟩

theorem mem (h : NewBlocks s prevBlock tokens rs s') {q : Ref} (hq : q ∈ rs) : q ∈ s'.live :=
  (h.live q).mpr (.inr hq)

theorem subset (h : NewBlocks s prevBlock tokens rs s') : s.live ⊆ s'.live := fun q hq =>
  (h.live q).mpr (.inl hq)

theorem tokenIds_eq {tokenIds : List Nat} (h : NewBlocks s prevBlock [tokenIds] [r] s') :
    (s'.heap r).tokenIds = tokenIds := List.singleton_inj.mp h.tokens

/-- The live blocks stayed as they were before. -/
theorem of_start {s₁ : AllocState H} (h : NewBlocks s₁ prevBlock tokens rs s')
    (hlive : s₁.live = s.live) (hframe : Frame s.live s s₁) :
    NewBlocks s prevBlock tokens rs s' :=
  ⟨h.nodup, hlive ▸ h.new, hlive ▸ h.live, h.pool, hframe.trans h.frame hlive.ge, h.chain, h.tokens,
    h.blockId⟩

/-- More new blocks behind the last one. -/
theorem append (h : NewBlocks s prevBlock tokens rs s')
    (h' : NewBlocks s' (rs.getLast?.or prevBlock) tokens' rs' s'') :
    NewBlocks s prevBlock (tokens ++ tokens') (rs ++ rs') s'' := by
  have hkeep : ∀ q ∈ rs, s''.heap q =
      { s'.heap q with cachedContentHash := (s''.heap q).cachedContentHash } := fun q hq =>
    h'.frame.block q (h.mem hq)
  refine ⟨?_, ?_, fun q => ?_, ?_, h.frame.trans h'.frame h.subset, ?_, ?_, ?_⟩
  · rw [List.nodup_append]
    refine ⟨h.nodup, h'.nodup, fun a ha b hb hab => ?_⟩
    exact h'.new b hb (hab ▸ h.mem ha)
  · intro q hq hs
    rcases List.mem_append.mp hq with hq | hq
    · exact h.new q hq hs
    · exact h'.new q hq (h.subset hs)
  · rw [h'.live, h.live, List.mem_append, or_assoc]
  · intro q hq
    rcases List.mem_append.mp hq with hq | hq
    · exact (h.pool q hq).trans h'.frame.device.symm
    · exact h'.pool q hq
  · refine Chain.concat (h.chain.congr fun q hq => ?_) h'.chain
    rw [hkeep q hq]
  · rw [List.map_append, h'.tokens, ← h.tokens]
    congr 1
    refine List.map_congr_left fun q hq => ?_
    rw [hkeep q hq]
  · intro q hq
    rcases List.mem_append.mp hq with hq | hq
    · rw [hkeep q hq]
      exact h.blockId q hq
    · exact h'.blockId q hq

theorem cons {tokenIds : List Nat} (h : NewBlocks s prevBlock [tokenIds] [r] s')
    (h' : NewBlocks s' (some r) tokens' rs' s'') :
    NewBlocks s prevBlock (tokenIds :: tokens') (r :: rs') s'' := h.append h'

/-- The predecessor of a new block is the one before it, or `prevBlock`. -/
theorem prev_mem (h : NewBlocks s prevBlock tokens rs s') {q p : Ref} (hq : q ∈ rs)
    (hp : (s'.heap q).prevBlock = some p) : prevBlock = some p ∨ p ∈ rs :=
  h.chain.prev_mem hq hp

theorem predsLive (h : NewBlocks s prevBlock tokens rs s') (hp : s.PredsLive)
    (hprev : s.PrevLive prevBlock) : s'.PredsLive := by
  intro q hq p hqp
  rcases (h.live q).mp hq with hs | hn
  · exact h.subset (hp q hs p ((h.frame.content hs).prevBlock.trans hqp))
  · rcases h.prev_mem hn hqp with he | hm
    · exact h.subset (hprev p he)
    · exact h.mem hm

/-- No live block follows the last new block. -/
theorem no_successor {tokenIds : List Nat} (h : NewBlocks s prevBlock [tokenIds] [r] s')
    (hp : s.PredsLive) (hprev : s.PrevLive prevBlock) :
    ∀ q ∈ s'.live, (s'.heap q).prevBlock ≠ some r := by
  intro q hq hqr
  refine h.new r (List.mem_singleton_self r) ?_
  rcases (h.live q).mp hq with hs | hn
  · exact hp q hs r ((h.frame.content hs).prevBlock.trans hqr)
  · obtain rfl := List.mem_singleton.mp hn
    exact hprev q (h.chain.1.symm.trans hqr)

/-- Tokens are appended to a new block. -/
theorem extend {tokenIds more : List Nat} (h : NewBlocks s prevBlock [tokenIds] [r] s')
    (he : Extended s' r more s'') : NewBlocks s prevBlock [tokenIds ++ more] [r] s'' := by
  have hr := List.mem_singleton_self r
  refine ⟨h.nodup, h.new, fun q => ?_, ?_, ?_, ?_, ?_, ?_⟩
  · rw [he.live]
    exact h.live q
  · intro q hq
    exact (h.pool q hq).trans he.frame.device.symm
  · refine h.frame.trans he.frame fun q hq => ?_
    exact Finset.mem_erase.mpr ⟨fun e => h.new r hr (e ▸ hq), h.subset hq⟩
  · exact ⟨he.prevBlock.trans h.chain.1, trivial⟩
  · rw [List.map_singleton, he.tokenIds, h.tokenIds_eq]
  · intro q hq
    obtain rfl := List.mem_singleton.mp hq
    exact he.blockId (h.blockId q hr)

end NewBlocks

theorem Extended.predsLive {tokenIds : List Nat} (h : Extended s r tokenIds s')
    (hp : s.PredsLive) : s'.PredsLive := by
  intro q hq p hqp
  rw [h.live] at hq ⊢
  by_cases he : q = r
  · subst he
    exact hp q hq p (h.prevBlock.symm.trans hqp)
  · exact hp q hq p ((h.frame.content (Finset.mem_erase.mpr ⟨he, hq⟩)).prevBlock.trans hqp)

namespace Moved

variable {rs : List Ref} {held : Bool}

theorem nil : Moved s [] held s :=
  ⟨rfl, .refl _ _, fun r hr => absurd hr List.not_mem_nil, fun r hr => absurd hr List.not_mem_nil⟩

theorem single (hlive : s'.live = s.live) (hframe : Frame (s.live.erase r) s s')
    (hcont : SameContent (s.heap r) (s'.heap r)) (hid : (s'.heap r).blockId.isSome = held) :
    Moved s [r] held s' := by
  refine ⟨hlive, hframe.mono fun q hq => ?_, ?_, ?_⟩
  · obtain ⟨hq, hne⟩ := Finset.mem_sdiff.mp hq
    exact Finset.mem_erase.mpr ⟨fun e => hne (by simp [e]), hq⟩
  · exact fun q hq => List.mem_singleton.mp hq ▸ hcont
  · exact fun q hq => List.mem_singleton.mp hq ▸ hid

theorem block_of_not_mem (h : Moved s rs held s') {q : Ref} (hq : q ∈ s.live) (hn : q ∉ rs) :
    s'.heap q = { s.heap q with cachedContentHash := (s'.heap q).cachedContentHash } :=
  h.frame.block q (Finset.mem_sdiff.mpr ⟨hq, fun hr => hn (List.mem_toFinset.mp hr)⟩)

theorem blockId_of_not_mem (h : Moved s rs held s') {q : Ref} (hq : q ∈ s.live) (hn : q ∉ rs) :
    (s'.heap q).blockId = (s.heap q).blockId := by
  rw [h.block_of_not_mem hq hn]

/-- A moved block keeps its content, and so does any other. -/
theorem sameContent (h : Moved s rs held s') {q : Ref} (hq : q ∈ s.live) :
    SameContent (s.heap q) (s'.heap q) := by
  by_cases hm : q ∈ rs
  · exact h.content q hm
  · rw [h.block_of_not_mem hq hm]
    exact ⟨rfl, rfl, rfl⟩

theorem predsLive (h : Moved s rs held s') (hp : s.PredsLive) : s'.PredsLive := by
  intro q hq p hqp
  rw [h.live] at hq ⊢
  exact hp q hq p ((h.sameContent hq).prevBlock.trans hqp)

theorem cons (h : Moved s [r] held s') (h' : Moved s' rs held s'') (hr : r ∈ s.live)
    (hrs : ∀ q ∈ rs, q ∈ s.live) : Moved s (r :: rs) held s'' := by
  refine ⟨h'.live.trans h.live, ?_, fun q hq => ?_, fun q hq => ?_⟩
  · refine (h.frame.mono fun q hq => ?_).trans (h'.frame.mono fun q hq => ?_)
      (Finset.Subset.refl _)
    · simp only [List.toFinset_cons, Finset.mem_sdiff, Finset.mem_insert, not_or] at hq
      simpa using ⟨hq.1, hq.2.1⟩
    · simp only [List.toFinset_cons, Finset.mem_sdiff, Finset.mem_insert, not_or] at hq
      exact Finset.mem_sdiff.mpr ⟨h.live ▸ hq.1, hq.2.2⟩
  · have hq : q ∈ s.live := (List.mem_cons.mp hq).elim (fun e => e ▸ hr) (hrs q)
    exact (h.sameContent hq).trans (h'.sameContent (h.live ▸ hq))
  · by_cases hm : q ∈ rs
    · exact h'.blockId q hm
    · obtain rfl := (List.mem_cons.mp hq).resolve_right hm
      rw [h'.blockId_of_not_mem (h.live ▸ hr) hm]
      exact h.blockId q (List.mem_singleton_self q)

end Moved

end AllocState

end Bi100
