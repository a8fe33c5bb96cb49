import Bi100.Block.Effects

/-!
# Making, appending to and swapping blocks

- `appendTokenIds_ok`: tokens are appended to a block that no live full block follows; the block
  may move to another id (copy on write, or a cached block with the same content).
- `allocateMutableBlock_ok`, `allocateImmutableBlock_ok`: one new live block.
- `forkBlocks_ok`, `swapInBlock_ok`: the loop bodies of `fork` and `swap_in`.
-/

namespace Bi100

open Py AllocState

variable {H : Type} [DecidableEq H] [Sha256 H]

namespace PrefixCachingBlockAllocator

variable {o : List Nat} {p : Option Ref} {s s' : AllocState H} {r : Ref}

/-! ## Appending -/

/-- `r` stays live, with the same tokens, and holds an id if it did; nothing is pending. -/
structure Settled (o : List Nat) (p : Option Ref) (s : AllocState H) (r : Ref)
    (s' : AllocState H) : Prop where
  steps : AllocSteps ⟨o, p, s⟩ ⟨o, none, s'⟩
  live : s'.live = s.live
  frame : Frame (s.live.erase r) s s'
  content : SameContent (s.heap r) (s'.heap r)
  blockId : ∀ id, (s.heap r).blockId = some id → ∃ id', (s'.heap r).blockId = some id'

theorem Settled.of_hashes {s₁ : AllocState H} (h : SameButHashes s s₁) (hs : s₁.Sound)
    (hd : Settled o p s₁ r s') : Settled o p s r s' := by
  have hl := h.live_eq
  refine ⟨.head (.hashes h hs) hd.steps, hd.live.trans hl, ?_, ?_, fun id hid => ?_⟩
  · exact (h.frame _).trans hd.frame (by rw [hl])
  · exact (h.sameContent r).trans hd.content
  · exact hd.blockId id (by rw [h.block r]; exact hid)

theorem promoteToImmutableBlock_ok {id' : Nat} (hc : Inv ⟨o, some r, s⟩) (hp : s.PredsLive)
    (hr : r ∈ s.live) (h1 : ∀ id, (s.heap r).blockId = some id → s.refcounts id = 1)
    (h : (promoteToImmutableBlock r).run s = .ok id' s') :
    Settled o (some r) s r s' ∧ (s'.heap r).blockId = some id' := by
  rw [promoteToImmutableBlock] at h
  obtain ⟨x, s₁, h₁, h⟩ := run_bind_ok.mp h
  obtain ⟨hsame, hsound, hx⟩ := getContentHash_ok hc hr h₁
  have hc := hc.hashes hsame hsound
  have hp := hsame.sameLive.predsLive hp
  have hr : r ∈ s₁.live := hsame.live_eq ▸ hr
  have hx : HasHash s₁.blockSize s₁.heap r x := hsame.hasHash_iff.mpr hx
  have h1 : ∀ id, (s₁.heap r).blockId = some id → s₁.refcounts id = 1 := fun id hid => by
    rw [hsame.state]
    exact h1 id (by rw [hsame.block r] at hid; exact hid)
  suffices Settled o (some r) s₁ r s' ∧ (s'.heap r).blockId = some id' from
    ⟨this.1.of_hashes hsame hsound, this.2⟩
  rw [getBlockId_bind_ok] at h
  obtain ⟨id, hid, h⟩ := h
  rw [refGet_bind_ok, run_raiseUnless_bind_ok, run_get_bind] at h
  obtain ⟨-, -, h⟩ := h
  split at h
  · next hget =>
    rw [run_set_bind] at h
    obtain ⟨rfl, rfl⟩ := run_pure_ok.mp h
    refine ⟨⟨AllocStep.steps (.promote hr hid hx hget (h1 _ hid)), rfl, .of_eq rfl rfl
      fun _ _ => rfl, .refl _, fun y hy => ⟨y, hy⟩⟩, hid⟩
  · next cached hget =>
    obtain ⟨_, s₂, h₂, h⟩ := run_bind_ok.mp h
    have hd := decrRefcountHashlessBlock_ok (o := o) hr (.inl rfl) h₂
    have hsame' := SameLive.of_erase hd.frame hd.live hd.content
    obtain ⟨_, s₃, h₃, h⟩ := run_bind_ok.mp h
    obtain rfl := setBlockId_ok.mp h₃
    obtain ⟨_, s₄, h₄, h⟩ := run_bind_ok.mp h
    obtain ⟨rfl, rfl⟩ := run_pure_ok.mp h
    have ha := incrRefcountCachedBlock_ok (hd.steps.inv hc) (hd.live ▸ hr) hd.blockId
      ((hsame'.hasHash_iff hp hr).mpr hx) (hd.cached ▸ hget) (.inr rfl) h₄
    refine ⟨⟨hd.steps.trans ha.steps, ha.live.trans hd.live, ?_, ?_, fun _ _ => ⟨_, ha.blockId⟩⟩,
      ha.blockId⟩
    · exact hd.frame.trans ha.frame (by rw [hd.live])
    · exact hd.content.trans ha.content

/-- Afterwards the block has a hash, or it still is the only one to hold its id. -/
theorem promoteIfHashed_ok {u : Unit} (hc : Inv ⟨o, some r, s⟩) (hp : s.PredsLive)
    (hr : r ∈ s.live) (h1 : ∀ id, (s.heap r).blockId = some id → s.refcounts id = 1)
    (h : (promoteIfHashed r).run s = .ok u s') : Settled o (some r) s r s' ∧
      ∀ id, (s'.heap r).blockId = some id →
        (∃ x, HasHash s'.blockSize s'.heap r x) ∨ s'.refcounts id = 1 := by
  rw [promoteIfHashed] at h
  obtain ⟨x, s₁, h₁, h⟩ := run_bind_ok.mp h
  obtain ⟨hsame, hsound, hiff⟩ := contentHash_ok h₁ hc.sound (.live hr)
  have hc := hc.hashes hsame hsound
  have hr' : r ∈ s₁.live := hsame.live_eq ▸ hr
  have h1 : ∀ id, (s₁.heap r).blockId = some id → s₁.refcounts id = 1 := fun id hid => by
    rw [hsame.state]
    exact h1 id (by rw [hsame.block r] at hid; exact hid)
  refine and_imp.mpr (fun hs ho => ⟨.of_hashes hsame hsound hs, ho⟩) ?_
  cases x with
  | none =>
    obtain ⟨-, rfl⟩ := run_pure_ok.mp h
    have hno : ∀ y, ¬ HasHash s'.blockSize s'.heap r y := fun y hy =>
      absurd ((hiff y).mpr (hsame.hasHash_iff.mp hy)) (by simp)
    exact ⟨⟨AllocStep.steps (.settle hr' hno), rfl, .refl _ _, .refl _, fun id hid => ⟨id, hid⟩⟩,
      fun id hid => .inr (h1 id hid)⟩
  | some x =>
    obtain ⟨id', s₂, h₂, h⟩ := run_bind_ok.mp h
    have hp₁ := hsame.sameLive.predsLive hp
    obtain ⟨hset, hid'⟩ := promoteToImmutableBlock_ok hc hp₁ hr' h1 h₂
    obtain rfl := setBlockId_ok.mp h
    rw [withId_same hid']
    have hx : HasHash s₁.blockSize s₁.heap r x := hsame.hasHash_iff.mpr ((hiff x).mp rfl)
    have hkeep := SameLive.of_erase hset.frame hset.live hset.content
    exact ⟨hset, fun _ _ => .inl ⟨x, (hkeep.hasHash_iff hp₁ hr').mpr hx⟩⟩

/-- After `r` took an id that nobody else holds, or kept its own. -/
structure Private (o : List Nat) (s : AllocState H) (r : Ref) (s' : AllocState H) : Prop where
  steps : AllocSteps ⟨o, some r, s⟩ ⟨o, some r, s'⟩
  live : s'.live = s.live
  frame : Frame (s.live.erase r) s s'
  content : SameContent (s.heap r) (s'.heap r)
  blockId : ∀ id, (s.heap r).blockId = some id → ∃ id', (s'.heap r).blockId = some id'
  count : ∀ id, (s'.heap r).blockId = some id → s'.refcounts id = 1

/-- `cow_block_if_not_appendable`, and the assignment of the id that it returns. -/
theorem cowBlockIfNotAppendable_ok {id : Nat} {s₁ : AllocState H} (hc : Inv ⟨o, some r, s⟩)
    (hp : s.PredsLive) (hr : r ∈ s.live)
    (h : (cowBlockIfNotAppendable r).run s = .ok id s₁)
    (h' : s' = withId s₁ r (some id)) : Private o s r s' := by
  rw [cowBlockIfNotAppendable, getBlockId_bind_ok] at h
  obtain ⟨src, hsrc, h⟩ := h
  rw [refGet_bind_ok] at h
  obtain ⟨-, h⟩ := h
  split at h
  · next hle =>
    obtain ⟨rfl, rfl⟩ := run_pure_ok.mp h
    rw [withId_same hsrc] at h'
    subst h'
    refine ⟨.refl, rfl, .refl _ _, .refl _, fun x hx => ⟨x, hx⟩, fun x hx => ?_⟩
    obtain rfl := Option.some.inj (hsrc.symm.trans hx)
    have := refcount_pos hc.count hr hsrc
    dsimp only at this
    omega
  · obtain ⟨_, s₂, h₂, h⟩ := run_bind_ok.mp h
    have hd := decrRefcountHashlessBlock_ok (o := o) hr (.inl rfl) h₂
    have hp₂ := (SameLive.of_erase hd.frame hd.live hd.content).predsLive hp
    obtain ⟨trg, s₃, h₃, h⟩ := run_bind_ok.mp h
    have ht := allocateBlockId_ok (hd.steps.inv hc) hp₂ h₃
    rw [run_modify_bind] at h
    obtain ⟨rfl, rfl⟩ := run_pure_ok.mp h
    have hr₃ : r ∈ s₂.live := hd.live ▸ hr
    have hnone : (s₃.heap r).blockId = none := (ht.frame.blockId hr₃).trans hd.blockId
    subst h'
    refine ⟨?_, ht.live.trans hd.live, ?_, ?_, fun _ _ => ⟨_, by rw [withId_self]⟩, fun x hx => ?_⟩
    · refine (hd.steps.trans ht.steps).trans ?_
      refine Relation.ReflTransGen.tail (.single (.cows (s₃.copyOnWrites ++ [(src, id)]))) ?_
      have hstep := AllocStep.assign (o := id :: o) (p := some r) (s := { s₃ with
        copyOnWrites := s₃.copyOnWrites ++ [(src, id)] }) (ht.live ▸ hr₃) hnone (.inr rfl)
        List.mem_cons_self ht.uncached
      rw [List.erase_cons_head] at hstep
      exact hstep
    · have hsub : s.live.erase r ⊆ s₂.live := by
        rw [hd.live]
        exact Finset.erase_subset _ _
      refine (hd.frame.trans ht.frame hsub).trans (L := s.live.erase r) ?_ (Finset.Subset.refl _)
      exact .of_eq rfl rfl fun q hq => Function.update_of_ne (Finset.ne_of_mem_erase hq) _ _
    · rw [withId_self]
      exact (hd.content.trans (ht.frame.content hr₃)).trans ⟨rfl, rfl, rfl⟩
    · rw [withId_self] at hx
      obtain rfl := Option.some.inj hx
      exact ht.count

/-- Tokens were appended to `r`. -/
structure Appended (o : List Nat) (p' : Option Ref) (s : AllocState H) (r : Ref)
    (tokenIds : List Nat) (s' : AllocState H) : Prop where
  steps : AllocSteps ⟨o, none, s⟩ ⟨o, p', s'⟩
  live : s'.live = s.live
  frame : Frame (s.live.erase r) s s'
  prevBlock : (s'.heap r).prevBlock = (s.heap r).prevBlock
  cacheNamespace : (s'.heap r).cacheNamespace = (s.heap r).cacheNamespace
  tokenIds : (s'.heap r).tokenIds = (s.heap r).tokenIds ++ tokenIds
  blockId : ∀ id, (s.heap r).blockId = some id → ∃ id', (s'.heap r).blockId = some id'

omit [DecidableEq H] [Sha256 H] in
/-- Predecessors stay live when the live blocks keep their predecessors. -/
theorem predsLive_of_erase (hlive : s'.live = s.live) (hframe : Frame (s.live.erase r) s s')
    (hprev : (s'.heap r).prevBlock = (s.heap r).prevBlock) (hp : s.PredsLive) :
    s'.PredsLive := by
  intro q hq q' hq'
  rw [hlive] at hq ⊢
  by_cases he : q = r
  · subst he
    exact hp q hq q' (hprev ▸ hq')
  · have := (hframe.content (Finset.mem_erase.mpr ⟨he, hq⟩)).prevBlock
    exact hp q hq q' (this.trans hq')

theorem naiveAppendTokenIds_ok {tokenIds : List Nat} {u : Unit} (hc : Inv ⟨o, none, s⟩)
    (hp : s.PredsLive) (hr : r ∈ s.live) (hno : ∀ x, ¬ HasHash s.blockSize s.heap r x)
    (hlast : ∀ q ∈ s.live, (s.heap q).prevBlock = some r → s.isFull q = false)
    (h : (naiveAppendTokenIds r tokenIds).run s = .ok u s') :
    Appended o (some r) s r tokenIds s' ∧
      ∀ id, (s'.heap r).blockId = some id → s'.refcounts id = 1 := by
  rw [naiveAppendTokenIds, run_get_bind, run_raiseUnless_bind_ok, run_set_bind] at h
  obtain ⟨-, h⟩ := h
  have hext := AllocStep.extend (o := o) hr hp hno hlast tokenIds
  obtain ⟨s₁, hs₁⟩ : ∃ s₁, s₁ =
    s.updateBlock r fun b => { b with tokenIds := b.tokenIds ++ tokenIds } := ⟨_, rfl⟩
  have hself : s₁.heap r = { s.heap r with tokenIds := (s.heap r).tokenIds ++ tokenIds } := by
    rw [hs₁]
    exact Function.update_self _ _ _
  have hlive : s₁.live = s.live := by rw [hs₁]; rfl
  have hframe : Frame (s.live.erase r) s s₁ := by
    rw [hs₁]
    exact .of_eq rfl rfl fun q hq => Function.update_of_ne (Finset.ne_of_mem_erase hq) _ _
  rw [← hs₁] at hext h
  have happ : Appended o (some r) s r tokenIds s₁ :=
    ⟨hext.steps, hlive, hframe, by rw [hself], by rw [hself], by rw [hself],
      fun id hid => ⟨id, by rw [hself]; exact hid⟩⟩
  split at h
  · next hnone =>
    obtain ⟨-, rfl⟩ := run_pure_ok.mp h
    refine ⟨happ, fun id hid => ?_⟩
    rw [hself] at hid
    exact absurd (hnone.symm.trans hid) (by simp)
  · next id hid =>
    obtain ⟨trg, s₂, h₂, h⟩ := run_bind_ok.mp h
    have hpriv := cowBlockIfNotAppendable_ok (hext.inv hc)
      (predsLive_of_erase hlive hframe (by rw [hself]) hp) (hlive ▸ hr) h₂ (setBlockId_ok.mp h)
    refine ⟨⟨happ.steps.trans hpriv.steps, hpriv.live.trans hlive, ?_, ?_, ?_, ?_, ?_⟩,
      hpriv.count⟩
    · exact hframe.trans hpriv.frame (by rw [hlive])
    · exact hpriv.content.prevBlock.symm.trans happ.prevBlock
    · exact hpriv.content.cacheNamespace.symm.trans happ.cacheNamespace
    · exact hpriv.content.tokenIds.symm.trans happ.tokenIds
    · intro x hx
      obtain ⟨y, hy⟩ := happ.blockId x hx
      exact hpriv.blockId y hy

theorem Appended.predsLive {o' : List Nat} {tokenIds : List Nat} {p' : Option Ref}
    (h : Appended o' p' s r tokenIds s') (hp : s.PredsLive) : s'.PredsLive :=
  predsLive_of_erase h.live h.frame h.prevBlock hp

theorem updateNumTokensTotal_ok {tokenIds : List Nat} {s₁ : AllocState H} {u : PUnit}
    (happ : Appended o (some r) s r tokenIds s₁) (hr : r ∈ s.live)
    (hcount : ∀ id, (s₁.heap r).blockId = some id → s₁.refcounts id = 1)
    (h : (updateNumTokensTotal r).run s₁ = .ok u s') :
    Appended o (some r) s r tokenIds s' ∧
      ∀ id, (s'.heap r).blockId = some id → s'.refcounts id = 1 := by
  obtain rfl := run_modify_ok.mp h
  have hself := AllocState.updateBlock_self s₁ r fun b => { b with
    numTokensTotal := (b.prevBlock.map fun q => (s₁.heap q).numTokensTotal).getD 0 +
      b.tokenIds.length }
  refine ⟨⟨happ.steps.tail (.updateTotal (happ.live ▸ hr) _), happ.live, ?_, ?_, ?_, ?_, ?_⟩, ?_⟩
  · refine happ.frame.trans (L := s.live.erase r) ?_ (Finset.Subset.refl _)
    exact .of_eq rfl rfl fun q hq => Function.update_of_ne (Finset.ne_of_mem_erase hq) _ _
  all_goals rw [hself]
  · exact happ.prevBlock
  · exact happ.cacheNamespace
  · exact happ.tokenIds
  · exact happ.blockId
  · exact hcount

/-- Afterwards the block has its old id, or it has a hash, or it is the only one to hold its id. -/
theorem appendTokenIds_ok {tokenIds : List Nat} {u : Unit} (hc : Inv ⟨o, none, s⟩)
    (hp : s.PredsLive) (hr : r ∈ s.live)
    (hlast : ∀ q ∈ s.live, (s.heap q).prevBlock = some r → s.isFull q = false)
    (h : (appendTokenIds r tokenIds).run s = .ok u s') :
    Appended o none s r tokenIds s' ∧ ∀ id, (s'.heap r).blockId = some id →
      (s.heap r).blockId = some id ∨ (∃ x, HasHash s'.blockSize s'.heap r x) ∨
        s'.refcounts id = 1 := by
  rw [appendTokenIds] at h
  obtain ⟨x, s₁, h₁, h⟩ := run_bind_ok.mp h
  obtain ⟨hsame, hsound, hiff⟩ := contentHash_ok h₁ hc.sound (.live hr)
  rw [run_raiseUnless_bind_ok] at h
  obtain ⟨rfl, h⟩ := h
  rw [run_get_bind, run_raiseIf_bind_ok] at h
  obtain ⟨-, h⟩ := h
  have hc₁ := hc.hashes hsame hsound
  have hp₁ := hsame.sameLive.predsLive hp
  have hr₁ : r ∈ s₁.live := hsame.live_eq ▸ hr
  have hfr := hsame.frame s.live
  suffices hs : Appended o none s₁ r tokenIds s' ∧ ∀ id, (s'.heap r).blockId = some id →
      (s₁.heap r).blockId = some id ∨ (∃ x, HasHash s'.blockSize s'.heap r x) ∨
        s'.refcounts id = 1 by
    obtain ⟨hs, hid⟩ := hs
    rw [hsame.block r] at hid
    refine ⟨⟨.head (.hashes hsame hsound) hs.steps, hs.live.trans hsame.live_eq, ?_, ?_, ?_, ?_, ?_⟩,
      hid⟩
    · exact (hsame.frame _).trans hs.frame (by rw [hsame.live_eq])
    · exact hs.prevBlock.trans (hsame.sameContent r).prevBlock.symm
    · exact hs.cacheNamespace.trans (hsame.sameContent r).cacheNamespace.symm
    · rw [hs.tokenIds, (hsame.sameContent r).tokenIds]
    · exact fun id hid => hs.blockId id (by rw [hsame.block r]; exact hid)
  split at h
  · next hnil =>
    obtain ⟨-, rfl⟩ := run_pure_ok.mp h
    rw [hnil]
    exact ⟨⟨.refl, rfl, .refl _ _, rfl, rfl, (List.append_nil _).symm, fun id hid => ⟨id, hid⟩⟩,
      fun id hid => .inl hid⟩
  · obtain ⟨_, s₂, h₂, h⟩ := run_bind_ok.mp h
    have hno : ∀ y, ¬ HasHash s₁.blockSize s₁.heap r y := fun y hy =>
      absurd ((hiff y).mpr (hsame.hasHash_iff.mp hy)) (by simp)
    have hlast₁ : ∀ q ∈ s₁.live, (s₁.heap q).prevBlock = some r → s₁.isFull q = false := by
      intro q hq hprev
      rw [hsame.live_eq] at hq
      rw [hfr.isFull hq]
      exact hlast q hq ((hsame.sameContent q).prevBlock.trans hprev)
    obtain ⟨happ, hcount⟩ := naiveAppendTokenIds_ok hc₁ hp₁ hr₁ hno hlast₁ h₂
    obtain ⟨_, s₃, h₃, h⟩ := run_bind_ok.mp h
    obtain ⟨happ, hcount⟩ := updateNumTokensTotal_ok happ hr₁ hcount h₃
    obtain ⟨hset, hids⟩ := promoteIfHashed_ok (happ.steps.inv hc₁) (happ.predsLive hp₁)
      (happ.live ▸ hr₁) hcount h
    refine ⟨⟨happ.steps.trans hset.steps, hset.live.trans happ.live, ?_,
      hset.content.prevBlock.symm.trans happ.prevBlock,
      hset.content.cacheNamespace.symm.trans happ.cacheNamespace,
      hset.content.tokenIds.symm.trans happ.tokenIds, fun x hx => ?_⟩, fun id hid => .inr (hids id hid)⟩
    · exact happ.frame.trans hset.frame (by rw [happ.live])
    · obtain ⟨y, hy⟩ := happ.blockId x hx
      exact hset.blockId y hy

/-! ## New blocks -/

/-- `r` is a new live block with this content, and the other blocks keep theirs. -/
structure Made (o : List Nat) (p : Option Ref) (s : AllocState H) (r : Ref)
    (prevBlock : Option Ref) (tokenIds : List Nat) (cacheNamespace : Bytes) (o' : List Nat)
    (p' : Option Ref) (s' : AllocState H) : Prop where
  steps : AllocSteps ⟨o, p, s⟩ ⟨o', p', s'⟩
  live : s'.live = insert r s.live
  new : r ∉ s.live
  pool : r.pool = s'.device
  frame : Frame s.live s s'
  prev : (s'.heap r).prevBlock = prevBlock
  tokens : (s'.heap r).tokenIds = tokenIds
  ns : prevBlock = none → (s'.heap r).cacheNamespace = cacheNamespace

namespace Made

variable {prevBlock : Option Ref} {tokenIds : List Nat} {ns : Bytes} {o' o'' : List Nat}
  {p' p'' : Option Ref} {s'' : AllocState H}

theorem mem (h : Made o p s r prevBlock tokenIds ns o' p' s') : r ∈ s'.live :=
  h.live ▸ Finset.mem_insert_self r _

theorem predsLive (h : Made o p s r prevBlock tokenIds ns o' p' s') (hp : s.PredsLive)
    (hprev : ∀ q, prevBlock = some q → q ∈ s.live) : s'.PredsLive := by
  intro q hq q' hq'
  rw [h.live] at hq ⊢
  refine Finset.mem_insert_of_mem ?_
  rcases Finset.mem_insert.mp hq with rfl | hq
  · exact hprev q' (h.prev.symm.trans hq')
  · exact hp q hq q' ((h.frame.content hq).prevBlock.trans hq')

/-- No live block follows a new block. -/
theorem no_successor (h : Made o p s r prevBlock tokenIds ns o' p' s') (hp : s.PredsLive)
    (hprev : ∀ q, prevBlock = some q → q ∈ s.live) :
    ∀ q ∈ s'.live, (s'.heap q).prevBlock ≠ some r := by
  intro q hq hq'
  refine h.new ?_
  rw [h.live] at hq
  rcases Finset.mem_insert.mp hq with rfl | hq
  · exact hprev q (h.prev.symm.trans hq')
  · exact hp q hq r ((h.frame.content hq).prevBlock.trans hq')

/-- More steps that keep the blocks, but for other fields of the new one. -/
theorem trans (h : Made o p s r prevBlock tokenIds ns o' p' s')
    (hsteps : AllocSteps ⟨o', p', s'⟩ ⟨o'', p'', s''⟩) (hlive : s''.live = s'.live)
    (hframe : Frame (s'.live.erase r) s' s'') (hcont : SameContent (s'.heap r) (s''.heap r)) :
    Made o p s r prevBlock tokenIds ns o'' p'' s'' := by
  have hsub : s.live ⊆ s'.live.erase r := by
    rw [h.live, Finset.erase_insert h.new]
  exact ⟨h.steps.trans hsteps, hlive.trans h.live, h.new, h.pool.trans hframe.device.symm,
    h.frame.trans hframe hsub, hcont.prevBlock.symm.trans h.prev,
    hcont.tokenIds.symm.trans h.tokens,
    fun hn => hcont.cacheNamespace.symm.trans (h.ns hn)⟩

/-- Steps before, that keep the blocks. -/
theorem of_frame {s₀ : AllocState H} {o₀ : List Nat} {p₀ : Option Ref}
    (hsteps : AllocSteps ⟨o₀, p₀, s₀⟩ ⟨o, p, s⟩) (hlive : s.live = s₀.live)
    (hframe : Frame s₀.live s₀ s) (h : Made o p s r prevBlock tokenIds ns o' p' s') :
    Made o₀ p₀ s₀ r prevBlock tokenIds ns o' p' s' :=
  ⟨hsteps.trans h.steps, h.live.trans (by rw [hlive]), hlive ▸ h.new, h.pool,
    hframe.trans h.frame (by rw [hlive]), h.prev, h.tokens, h.ns⟩

end Made

/-- The block of `initBlock`, without an id. -/
theorem initBlock_made {prevBlock : Option Ref} {tokenIds : List Nat} {ns : Bytes}
    (hc : Inv ⟨o, p, s⟩) (hp : s.PredsLive) (hprev : ∀ q, prevBlock = some q → q ∈ s.live)
    (h : (initBlock prevBlock tokenIds none ns).run s = .ok r s') :
    Made o p s r prevBlock tokenIds ns o p s' ∧ (s'.heap r).blockId = none := by
  obtain ⟨size, ids, b, hpop, rfl, rfl, rfl, hid, hkept, -, hns⟩ := initBlock_ok h
  have hself : (withBlock s r b size ids).heap r = b := Function.update_self _ _ _
  have hr := (hpop.pool_ok hc.pool).2.2
  refine ⟨⟨AllocStep.steps (.newBlock hpop hp hid hkept hprev), hpop.live_insert hc.pool, hr,
    hpop.1, ?_, by rw [hself], by rw [hself], fun hn => by rw [hself]; exact hns hn⟩,
    by rw [hself]; exact hid⟩
  exact .of_eq rfl rfl fun q hq => Function.update_of_ne (ne_of_mem_of_not_mem hq hr) _ _

/-- The block of `initBlock`, with an owed id. -/
theorem initBlock_made_owed {prevBlock : Option Ref} {tokenIds : List Nat} {ns : Bytes} {id : Nat}
    (hc : Inv ⟨id :: o, none, s⟩) (hp : s.PredsLive)
    (hprev : ∀ q, prevBlock = some q → q ∈ s.live)
    (huncached : ∀ h, s.cachedBlocks.get? h ≠ some id)
    (h : (initBlock prevBlock tokenIds (some id) ns).run s = .ok r s') :
    Made (id :: o) none s r prevBlock tokenIds ns o (some r) s' ∧
      (s'.heap r).blockId = some id ∧ s'.refcounts = s.refcounts := by
  obtain ⟨size, ids, b, hpop, rfl, rfl, rfl, hid, hkept, -, hns⟩ := initBlock_ok h
  have hself : (withBlock s r b size ids).heap r = b := Function.update_self _ _ _
  have hr := (hpop.pool_ok hc.pool).2.2
  have hstep := AllocStep.newOwned (o := id :: o) hpop hp hid hkept hprev List.mem_cons_self huncached
  rw [List.erase_cons_head] at hstep
  refine ⟨⟨hstep.steps, hpop.live_insert hc.pool, hr, hpop.1, ?_, by rw [hself], by rw [hself],
    fun hn => by rw [hself]; exact hns hn⟩, by rw [hself]; exact hid, rfl⟩
  exact .of_eq rfl rfl fun q hq => Function.update_of_ne (ne_of_mem_of_not_mem hq hr) _ _

theorem allocateMutableBlock_ok {prevBlock : Option Ref} {ns : Bytes} (hc : Inv ⟨o, none, s⟩)
    (hp : s.PredsLive) (hprev : ∀ q, prevBlock = some q → q ∈ s.live)
    (h : (allocateMutableBlock prevBlock ns).run s = .ok r s') :
    Made o none s r prevBlock [] ns o none s' ∧
      ∃ id, (s'.heap r).blockId = some id ∧ s'.refcounts id = 1 := by
  rw [allocateMutableBlock] at h
  obtain ⟨id, s₁, h₁, h⟩ := run_bind_ok.mp h
  have ht := allocateBlockId_ok hc hp h₁
  have hsame := SameLive.of_frame ht.frame ht.live
  obtain ⟨r', s₂, h₂, h⟩ := run_bind_ok.mp h
  have hc₁ := ht.steps.inv hc
  obtain ⟨hm, hid, hcount⟩ := initBlock_made_owed hc₁ (hsame.predsLive hp)
    (fun q hq => ht.live ▸ hprev q hq) ht.uncached h₂
  rw [run_get_bind, run_raiseIf_bind_ok] at h
  obtain ⟨x, s₃, h₃, h⟩ := run_bind_ok.mp h.2
  rw [run_raiseUnless_bind_ok] at h
  obtain ⟨rfl, h⟩ := h
  obtain ⟨rfl, rfl⟩ := run_pure_ok.mp h
  have hc₂ := hm.steps.inv hc₁
  obtain ⟨hs, hsound, hiff⟩ := contentHash_ok h₃ hc₂.sound (.live hm.mem)
  have hno : ∀ y, ¬ HasHash s'.blockSize s'.heap r y := fun y hy =>
    absurd ((hiff y).mpr (hs.hasHash_iff.mp hy)) (by simp)
  have hlast : AllocSteps ⟨o, some r, s₂⟩ ⟨o, none, s'⟩ :=
    .tail (AllocStep.steps (.hashes hs hsound)) (.settle (hs.live_eq ▸ hm.mem) hno)
  refine ⟨.of_frame ht.steps ht.live ht.frame
    (hm.trans hlast hs.live_eq (hs.frame _) (hs.sameContent r)), id, by rw [hs.block r]; exact hid,
    ?_⟩
  rw [hs.state]
  exact (congrFun hcount id).trans ht.count

/-- A mutable block that gets tokens. -/
theorem allocateMutable_append_ok {prevBlock : Option Ref} {tokenIds : List Nat} {ns : Bytes}
    {s₁ : AllocState H} {u : Unit} (hc : Inv ⟨o, none, s⟩) (hp : s.PredsLive)
    (hprev : ∀ q, prevBlock = some q → q ∈ s.live)
    (h₁ : (allocateMutableBlock prevBlock ns).run s = .ok r s₁)
    (h₂ : (appendTokenIds r tokenIds).run s₁ = .ok u s') :
    Made o none s r prevBlock tokenIds ns o none s' ∧ ∃ id, (s'.heap r).blockId = some id := by
  obtain ⟨hm, id, hid, -⟩ := allocateMutableBlock_ok hc hp hprev h₁
  obtain ⟨ha, -⟩ := appendTokenIds_ok (hm.steps.inv hc) (hm.predsLive hp hprev) hm.mem
    (fun q hq he => absurd he (hm.no_successor hp hprev q hq)) h₂
  have hsub : s.live ⊆ s₁.live.erase r := by
    rw [hm.live, Finset.erase_insert hm.new]
  refine ⟨⟨hm.steps.trans ha.steps, ha.live.trans hm.live, hm.new,
    hm.pool.trans ha.frame.device.symm, hm.frame.trans ha.frame hsub,
    ha.prevBlock.trans hm.prev, ?_, fun hn => ha.cacheNamespace.trans (hm.ns hn)⟩,
    ha.blockId id hid⟩
  rw [ha.tokenIds, hm.tokens, List.nil_append]

/-! ## Restoring from the CPU tier -/

omit [Sha256 H] in
/-- The handler of a failed restore raises. -/
theorem cancel_raises {α : Type} {x : AllocM H Unit} (e : Err) (s₁ : AllocState H) (b : α)
    (s₂ : AllocState H) : (do x; throw e : AllocM H α).run s₁ ≠ .ok b s₂ := by
  intro h
  obtain ⟨_, s₃, -, h⟩ := run_bind_ok.mp h
  exact run_throw_ok.mp h

theorem restoreClaimed_ok {x : H} {cpuSlot : Nat} {u : Unit} (hc : Inv ⟨o, none, s⟩)
    (hp : s.PredsLive) (hr : r ∈ s.live) (hnone : (s.heap r).blockId = none)
    (hx : HasHash s.blockSize s.heap r x) (h : (restoreClaimed r x cpuSlot).run s = .ok u s') :
    Settled o none s r s' ∧ ∃ id, (s'.heap r).blockId = some id := by
  rw [restoreClaimed] at h
  obtain ⟨id, s₁, h₁, h⟩ := run_bind_ok.mp h
  rw [run_tryCatch_ok fun e s₁ b s₂ => cancel_raises e s₁ b s₂] at h₁
  have ht := allocateBlockId_ok hc hp h₁
  have hr₁ : r ∈ s₁.live := ht.live ▸ hr
  have hnone₁ : (s₁.heap r).blockId = none := (ht.frame.blockId hr).trans hnone
  have hx₁ : HasHash s₁.blockSize s₁.heap r x :=
    ((SameLive.of_frame ht.frame ht.live).hasHash_iff hp hr).mpr hx
  obtain ⟨_, s₂, h₂, h⟩ := run_bind_ok.mp h
  obtain rfl := setBlockId_ok.mp h₂
  have hassign := AllocStep.assign (o := id :: o) (p := none) hr₁ hnone₁ (.inl rfl)
    List.mem_cons_self ht.uncached
  rw [List.erase_cons_head] at hassign
  obtain ⟨_, s₃, h₃, h⟩ := run_bind_ok.mp h
  rw [run_tryCatch_ok fun e s₁ b s₂ h => by
    obtain ⟨_, s₄, -, h⟩ := run_bind_ok.mp h
    obtain ⟨_, s₅, -, h⟩ := run_bind_ok.mp h
    exact cancel_raises e s₅ b s₂ h] at h₃
  obtain ⟨c, rfl⟩ := stageCpuToGpu_ok h₃
  rw [run_get_bind, run_raiseIf_bind_ok] at h
  obtain ⟨hget, h⟩ := h
  obtain rfl := run_set_ok.mp h
  have hget : s₁.cachedBlocks.get? x = none := Dict.get?_eq_none.mpr hget
  have hsame : SameLive s₁ (withId s₁ r (some id)) :=
    .of_erase (withId_frame _ _ _) rfl (by rw [withId_self]; exact ⟨rfl, rfl, rfl⟩)
  have hx₂ := (hsame.hasHash_iff ((SameLive.of_frame ht.frame ht.live).predsLive hp) hr₁).mpr hx₁
  have htier : AllocStep ⟨o, some r, withId s₁ r (some id)⟩ ⟨o, some r,
    { withId s₁ r (some id) with contentCache := c }⟩ := .tier c
  have hrest := AllocStep.restore (o := o) (s := { withId s₁ r (some id) with contentCache := c })
    (r := r) hr₁ (show ((withId s₁ r (some id)).heap r).blockId = some id by simp) hx₂ hget
    ht.count
  have hend : withComputed
      { ({ withId s₁ r (some id) with contentCache := c } : AllocState H) with
        cachedBlocks := s₁.cachedBlocks.set x id
        blockTracker := Function.update s₁.blockTracker id
          { s₁.blockTracker id with computed := true } } r id =
      AllocState.updateBlock
        { ({ withId s₁ r (some id) with contentCache := c } : AllocState H) with
          cachedBlocks := s₁.cachedBlocks.set x id
          blockTracker := Function.update s₁.blockTracker id
            { s₁.blockTracker id with computed := true } } r
        fun b => { b with computed := true } := by
    simp [withComputed, withId, AllocState.updateBlock]
  have hsteps := (congrArg (fun t => AllocSteps ⟨o, none, s⟩ ⟨o, none, t⟩) hend).mp
    (((ht.steps.tail hassign).tail htier).tail hrest)
  refine ⟨⟨hsteps, ht.live, ?_, ?_, fun _ _ => ⟨id, ?_⟩⟩, id, ?_⟩
  · refine (ht.frame.mono (Finset.erase_subset _ _)).trans (L := s.live.erase r) ?_
      (Finset.Subset.refl _)
    refine .of_eq rfl rfl fun q hq => ?_
    have hne := Finset.ne_of_mem_erase hq
    simp only [AllocState.updateBlock, withId, Function.update_of_ne hne]
  · rw [AllocState.updateBlock_self]
    exact (ht.frame.content hr).trans (by rw [withId_self]; exact ⟨rfl, rfl, rfl⟩)
  · rw [AllocState.updateBlock_self, withId_self]
  · rw [AllocState.updateBlock_self, withId_self]

/-- Either the block got an id, or it has none and no block changed. -/
theorem maybeRestoreExternalCachedBlock_ok {b : Bool} (hc : Inv ⟨o, none, s⟩)
    (hp : s.PredsLive) (hr : r ∈ s.live) (hnone : (s.heap r).blockId = none)
    (h : (maybeRestoreExternalCachedBlock r).run s = .ok b s') :
    (b = true ∧ Settled o none s r s' ∧ ∃ id, (s'.heap r).blockId = some id) ∨
    (b = false ∧ AllocSteps ⟨o, none, s⟩ ⟨o, none, s'⟩ ∧ s'.live = s.live ∧
      Frame s.live s s') := by
  rw [maybeRestoreExternalCachedBlock, run_get_bind] at h
  split at h
  · obtain ⟨rfl, rfl⟩ := run_pure_ok.mp h
    exact .inr ⟨rfl, .refl, rfl, .refl _ _⟩
  · obtain ⟨x, s₁, h₁, h⟩ := run_bind_ok.mp h
    obtain ⟨hsame, hsound, hx⟩ := getContentHash_ok hc hr h₁
    rw [run_get_bind, run_raiseIf_bind_ok] at h
    obtain ⟨claim, s₂, h₂, h⟩ := run_bind_ok.mp h.2
    obtain ⟨c, rfl⟩ := tier_ok h₂
    have hsteps : AllocSteps ⟨o, none, s⟩ ⟨o, none, { s₁ with contentCache := c }⟩ :=
      .tail (AllocStep.steps (.hashes hsame hsound)) (.tier c)
    have hframe : Frame s.live s { s₁ with contentCache := c } :=
      ⟨(hsame.frame s.live).device, (hsame.frame s.live).blockSize, fun q _ => hsame.block q⟩
    have hlive : ({ s₁ with contentCache := c } : AllocState H).live = s.live := hsame.live_eq
    cases claim with
    | none =>
      obtain ⟨rfl, rfl⟩ := run_pure_ok.mp h
      exact .inr ⟨rfl, hsteps, hlive, hframe⟩
    | some cpuSlot =>
      obtain ⟨_, s₃, h₃, h⟩ := run_bind_ok.mp h
      obtain ⟨rfl, rfl⟩ := run_pure_ok.mp h
      have hp₁ : s₁.PredsLive := hsame.sameLive.predsLive hp
      have hnone₁ : (s₁.heap r).blockId = none := by rw [hsame.block r]; exact hnone
      have hx₁ : HasHash s₁.blockSize s₁.heap r x := hsame.hasHash_iff.mpr hx
      obtain ⟨hset, hid⟩ := restoreClaimed_ok (s := { s₁ with contentCache := c })
        (hsteps.inv hc) hp₁ (hlive ▸ hr) hnone₁ hx₁ h₃
      refine .inl ⟨rfl, ⟨hsteps.trans hset.steps, hset.live.trans hlive, ?_,
        (hsame.sameContent r).trans hset.content, fun _ _ => hid⟩, hid⟩
      exact (hframe.mono (Finset.erase_subset _ _)).trans hset.frame (by rw [hlive])

/-- A new block that turned out not to be needed goes back to the pool. -/
theorem freed_frame {prevBlock : Option Ref} {tokenIds : List Nat} {ns : Bytes}
    (hm : Made o none s r prevBlock tokenIds ns o none s') (hc : Inv ⟨o, none, s⟩)
    (hnone : (s'.heap r).blockId = none) :
    AllocSteps ⟨o, none, s⟩ ⟨o, none, { s' with poolFreeIds := r.poolId :: s'.poolFreeIds }⟩ ∧
      ({ s' with poolFreeIds := r.poolId :: s'.poolFreeIds } : AllocState H).live = s.live ∧
      Frame s.live s { s' with poolFreeIds := r.poolId :: s'.poolFreeIds } := by
  have hc' := hm.steps.inv hc
  have hown := own_of_live hc'.pool hm.mem hm.pool
  refine ⟨hm.steps.tail (.freeObject hown hnone), ?_, hm.frame.device, hm.frame.blockSize,
    hm.frame.block⟩
  rw [hown.live_free hc'.pool, hm.live, Finset.erase_insert hm.new]

theorem allocateImmutableBlock_ok {prevBlock : Option Ref} {tokenIds : List Nat} {ns : Bytes}
    (hc : Inv ⟨o, none, s⟩) (hp : s.PredsLive) (hprev : ∀ q, prevBlock = some q → q ∈ s.live)
    (h : (allocateImmutableBlock prevBlock tokenIds ns).run s = .ok r s') :
    Made o none s r prevBlock tokenIds ns o none s' ∧ ∃ id, (s'.heap r).blockId = some id := by
  rw [allocateImmutableBlock] at h
  obtain ⟨q, s₁, h₁, h⟩ := run_bind_ok.mp h
  obtain ⟨hm, hnone⟩ := initBlock_made hc hp hprev h₁
  have hc₁ := hm.steps.inv hc
  obtain ⟨x, s₂, h₂, h⟩ := run_bind_ok.mp h
  obtain ⟨hsame, hsound, hx⟩ := getContentHash_ok hc₁ hm.mem h₂
  have hm₂ := hm.trans (AllocStep.steps (.hashes hsame hsound)) hsame.live_eq (hsame.frame _)
    (hsame.sameContent q)
  have hc₂ := hm₂.steps.inv hc
  have hp₂ := hm₂.predsLive hp hprev
  have hx₂ : HasHash s₂.blockSize s₂.heap q x := hsame.hasHash_iff.mpr hx
  have hnone₂ : (s₂.heap q).blockId = none := by rw [hsame.block q]; exact hnone
  rw [run_get_bind] at h
  split at h
  · next cached hget =>
    obtain ⟨_, s₃, h₃, h⟩ := run_bind_ok.mp h
    obtain rfl := setBlockId_ok.mp h₃
    obtain ⟨_, s₄, h₄, h⟩ := run_bind_ok.mp h
    obtain ⟨rfl, rfl⟩ := run_pure_ok.mp h
    have ha := incrRefcountCachedBlock_ok hc₂ hm₂.mem hnone₂ hx₂ hget (.inl rfl) h₄
    exact ⟨hm₂.trans ha.steps ha.live ha.frame ha.content, cached, ha.blockId⟩
  · rw [allocateUncachedBlock] at h
    obtain ⟨b, s₃, h₃, h⟩ := run_bind_ok.mp h
    rcases maybeRestoreExternalCachedBlock_ok hc₂ hp₂ hm₂.mem hnone₂ h₃ with
      ⟨rfl, hset, hid⟩ | ⟨rfl, hsteps, hlive, hframe⟩
    · obtain ⟨rfl, rfl⟩ := run_pure_ok.mp h
      exact ⟨hm₂.trans hset.steps hset.live hset.frame hset.content, hid⟩
    · have hm₃ := hm₂.trans hsteps hlive (hframe.mono (Finset.erase_subset _ _))
        (hframe.content hm₂.mem)
      have hnone₃ : (s₃.heap q).blockId = none := (hframe.blockId hm₂.mem).trans hnone₂
      obtain ⟨hsteps₄, hlive₄, hframe₄⟩ := freed_frame hm₃ hc hnone₃
      obtain ⟨_, s₄, h₄, h⟩ := run_bind_ok.mp h
      obtain rfl := poolFree_ok.mp h₄
      obtain ⟨r', s₅, h₅, h⟩ := run_bind_ok.mp h
      obtain ⟨_, s₆, h₆, h⟩ := run_bind_ok.mp h
      obtain ⟨rfl, rfl⟩ := run_pure_ok.mp h
      obtain ⟨hm', hid⟩ := allocateMutable_append_ok (hsteps₄.inv hc)
        ((SameLive.of_frame hframe₄ hlive₄).predsLive hp) (fun q hq => hlive₄ ▸ hprev q hq) h₅ h₆
      exact ⟨.of_frame hsteps₄ hlive₄ hframe₄ hm', hid⟩

/-! ## Several blocks -/

theorem Made.newBlocks {prevBlock : Option Ref} {tokenIds : List Nat} {ns : Bytes} {o' : List Nat}
    {p' : Option Ref} (h : Made o p s r prevBlock tokenIds ns o' p' s')
    (hid : (s'.heap r).blockId ≠ none) : s.NewBlocks prevBlock [tokenIds] [r] s' := by
  refine ⟨List.nodup_singleton r, ?_, fun q => ?_, ?_, h.frame, ⟨h.prev, trivial⟩, ?_, ?_⟩
  · exact fun q hq => List.mem_singleton.mp hq ▸ h.new
  · rw [h.live, Finset.mem_insert, List.mem_singleton, or_comm]
  · exact fun q hq => List.mem_singleton.mp hq ▸ h.pool
  · rw [List.map_singleton, h.tokens]
  · exact fun q hq => List.mem_singleton.mp hq ▸ hid

theorem allocateImmutableBlocks_ok {ns : Bytes} {prevBlock : Option Ref}
    {tokens : List (List Nat)} {rs : List Ref} (hc : Inv ⟨o, none, s⟩) (hp : s.PredsLive)
    (hprev : s.PrevLive prevBlock)
    (h : (allocateImmutableBlocks ns prevBlock tokens).run s = .ok rs s') :
    AllocSteps ⟨o, none, s⟩ ⟨o, none, s'⟩ ∧ s.NewBlocks prevBlock tokens rs s' := by
  induction tokens generalizing prevBlock rs s with
  | nil =>
    obtain ⟨rfl, rfl⟩ := run_pure_ok.mp h
    exact ⟨.refl, .nil⟩
  | cons tokenIds rest ih =>
    rw [allocateImmutableBlocks] at h
    obtain ⟨r, s₁, h₁, h⟩ := run_bind_ok.mp h
    obtain ⟨rs', s₂, h₂, h⟩ := run_bind_ok.mp h
    obtain ⟨rfl, rfl⟩ := run_pure_ok.mp h
    obtain ⟨hm, id, hid⟩ := allocateImmutableBlock_ok hc hp hprev h₁
    obtain ⟨hsteps, hnew⟩ := ih (hm.steps.inv hc) (hm.predsLive hp hprev)
      (fun q hq => Option.some.inj hq ▸ hm.mem) h₂
    exact ⟨hm.steps.trans hsteps, (hm.newBlocks (by rw [hid]; exact Option.some_ne_none id)).cons hnew⟩

/-! ## Forking -/

/-- The copy `p` of the source block `q`, both of which may be absent. -/
def Copied (s : AllocState H) (q p : Option Ref) : Prop :=
  (q = none ∧ p = none) ∨ ∃ q' p', q = some q' ∧ p = some p' ∧ q' ∈ s.live ∧ p' ∈ s.live ∧
    ∀ h, HasHash s.blockSize s.heap p' h ↔ HasHash s.blockSize s.heap q' h

omit [DecidableEq H] in
/-- Two blocks with the same content have the same hash, if their predecessors have. -/
theorem hasHash_of_copied {q p : Option Ref} {src : Ref} {heap' : Ref → PrefixCachingBlock H}
    (hcopy : (q = none ∧ p = none) ∨ ∃ q' p', q = some q' ∧ p = some p' ∧
      ∀ h, HasHash s.blockSize heap' p' h ↔ HasHash s.blockSize s.heap q' h)
    (hsrc : (s.heap src).prevBlock = q) (hprev : (heap' r).prevBlock = p)
    (htok : (heap' r).tokenIds = (s.heap src).tokenIds)
    (hns : p = none → (heap' r).cacheNamespace = (s.heap src).cacheNamespace) (h : H) :
    HasHash s.blockSize heap' r h ↔ HasHash s.blockSize s.heap src h := by
  rw [HasHash.iff_prev, HasHash.iff_prev, htok, hprev, hsrc]
  refine and_congr_right fun _ => ?_
  rcases hcopy with ⟨rfl, rfl⟩ | ⟨q', p', rfl, rfl, hiff⟩
  · simp only [hns rfl, reduceCtorEq, false_and, exists_false, or_false]
  · constructor
    · rintro (⟨hn, -⟩ | ⟨x, y, hx, hy, rfl⟩)
      · cases hn
      · obtain rfl := Option.some.inj hx
        exact .inr ⟨q', y, rfl, (hiff y).mp hy, rfl⟩
    · rintro (⟨hn, -⟩ | ⟨x, y, hx, hy, rfl⟩)
      · cases hn
      · obtain rfl := Option.some.inj hx
        exact .inr ⟨p', y, rfl, (hiff y).mpr hy, rfl⟩

theorem forkBlocks_ok {prevBlock q : Option Ref} {sources rs : List Ref}
    (hc : Inv ⟨o, none, s⟩) (hp : s.PredsLive) (hcopy : Copied s q prevBlock)
    (hchain : Chain s.heap q sources) (hlive : ∀ r ∈ sources, r ∈ s.live)
    (h : (forkBlocks prevBlock sources).run s = .ok rs s') :
    AllocSteps ⟨o, none, s⟩ ⟨o, none, s'⟩ ∧
      s.NewBlocks prevBlock (sources.map fun r => (s.heap r).tokenIds) rs s' := by
  induction sources generalizing prevBlock q rs s with
  | nil =>
    obtain ⟨rfl, rfl⟩ := run_pure_ok.mp h
    exact ⟨.refl, .nil⟩
  | cons src rest ih =>
    rw [forkBlocks, getBlockId_bind_ok] at h
    obtain ⟨id, hid, h⟩ := h
    obtain ⟨n, s₁, h₁, h⟩ := run_bind_ok.mp h
    obtain ⟨-, rfl, rfl⟩ := refIncr_ok.mp h₁
    rw [run_raiseIf_bind_ok, run_get_bind] at h
    obtain ⟨h1, h⟩ := h
    obtain ⟨r, s₂, h₂, h⟩ := run_bind_ok.mp h
    obtain ⟨rs', s₃, h₃, h⟩ := run_bind_ok.mp h
    obtain ⟨rfl, rfl⟩ := run_pure_ok.mp h
    have hsrc := hlive src List.mem_cons_self
    have hpos : 0 < s.refcounts id := refcount_pos hc.count hsrc hid
    have hshare : AllocStep ⟨o, none, s⟩ ⟨id :: o, none, _⟩ := .share hpos
    obtain ⟨size, ids, b, hpop, rfl, rfl, htok, hbid, hkept, -, hns⟩ := initBlock_ok h₂
    have htok : b.tokenIds = (s.heap src).tokenIds := htok
    have hc₁ := hshare.inv hc
    have hr := (hpop.pool_ok hc₁.pool).2.2
    have hprev : ∀ x, b.prevBlock = some x → x ∈ s.live := by
      intro x hx
      rcases hcopy with ⟨-, hn⟩ | ⟨q', p', -, hp', -, hl, -⟩
      · exact absurd (hn.symm.trans hx) (by simp)
      · exact Option.some.inj (hp'.symm.trans hx) ▸ hl
    have hself : Function.update s.heap r b r = b := Function.update_self _ _ _
    have hframe : Frame s.live s (withBlock (withRefcount s id (s.refcounts id + 1)) r b size ids) :=
      .of_eq rfl rfl fun x hx => Function.update_of_ne (ne_of_mem_of_not_mem hx hr) _ _
    -- Old blocks keep their hashes, and the copy has the hash of its source.
    have hold : ∀ x ∈ s.live, ∀ y, HasHash s.blockSize (Function.update s.heap r b) x y ↔
        HasHash s.blockSize s.heap x y := fun x hx y =>
      (HasHash.congr (K := (· ∈ s.live)) (fun a c ha hac => hp a ha c hac)
        (fun a ha => by rw [Function.update_of_ne (ne_of_mem_of_not_mem ha hr)]; exact .refl _)
        hx).symm
    have hhash : ∀ y, HasHash s.blockSize (Function.update s.heap r b) r y ↔
        HasHash s.blockSize s.heap src y := by
      intro y
      refine hasHash_of_copied (q := q) (p := b.prevBlock) ?_ hchain.1 (by rw [hself])
        (by rw [hself]; exact htok) (fun hn => by rw [hself]; exact hns hn) y
      refine hcopy.imp_right ?_
      rintro ⟨q', p', hq', hp', -, hl, hiff⟩
      exact ⟨q', p', hq', hp', fun x => (hold p' hl x).trans (hiff x)⟩
    have hnew := AllocStep.newForked (o := id :: o) hpop hp hbid hkept hprev List.mem_cons_self hsrc
      hid hhash
    rw [List.erase_cons_head] at hnew
    have hm : Made o none s r b.prevBlock b.tokenIds b.cacheNamespace o none _ :=
      ⟨hshare.steps.tail hnew, hpop.live_insert hc₁.pool, hr, hpop.1, hframe,
        congrArg PrefixCachingBlock.prevBlock hself, congrArg PrefixCachingBlock.tokenIds hself,
        fun _ => congrArg PrefixCachingBlock.cacheNamespace hself⟩
    have hnewBlock := hm.newBlocks (by
      show (Function.update s.heap r b r).blockId ≠ none
      rw [hself, hbid]
      exact Option.some_ne_none id)
    have hchain' : Chain (Function.update s.heap r b) (some src) rest :=
      hchain.2.congr fun x hx => by
        have hx := hlive x (List.mem_cons_of_mem _ hx)
        rw [Function.update_of_ne (ne_of_mem_of_not_mem hx hr)]
    obtain ⟨hsteps, hrs⟩ := ih (q := some src) (hm.steps.inv hc) (hm.predsLive hp hprev)
      (.inr ⟨src, r, rfl, rfl, hnewBlock.subset hsrc, hm.mem,
        fun y => (hhash y).trans (hold src hsrc y).symm⟩)
      hchain' (fun x hx => hnewBlock.subset (hlive x (List.mem_cons_of_mem _ hx))) h₃
    refine ⟨hm.steps.trans hsteps, ?_⟩
    rw [htok] at hnewBlock
    have htoks : (rest.map fun x => (Function.update s.heap r b x).tokenIds) =
        rest.map fun x => (s.heap x).tokenIds :=
      List.map_congr_left fun x hx => by
        have hx := hlive x (List.mem_cons_of_mem _ hx)
        rw [Function.update_of_ne (ne_of_mem_of_not_mem hx hr)]
    have hrs : NewBlocks _ (some r) (rest.map fun x => (s.heap x).tokenIds) rs' _ := htoks ▸ hrs
    exact hnewBlock.cons hrs

theorem fork_ok {rs : List Ref} (hc : Inv ⟨o, none, s⟩) (hp : s.PredsLive) (hr : r ∈ s.live)
    (h : (fork r).run s = .ok rs s') : AllocSteps ⟨o, none, s⟩ ⟨o, none, s'⟩ ∧
      ∃ sources, getAllBlocksRecursively s.heap s.recursionLimit r = .ok sources ∧
        s.NewBlocks none (sources.map fun q => (s.heap q).tokenIds) rs s' := by
  rw [fork, run_get_bind, run_lift_bind_ok] at h
  obtain ⟨sources, hs, h⟩ := h
  obtain ⟨hchain, -, hlive⟩ := getAllBlocksRecursively_ok hp hr hs
  obtain ⟨hsteps, hnew⟩ := forkBlocks_ok hc hp (.inl ⟨rfl, rfl⟩) hchain hlive h
  exact ⟨hsteps, sources, hs, hnew⟩

/-! ## Swapping -/

theorem allocateSwapBlock_ok {tmp : Ref} (hc : Inv ⟨o, none, s⟩) (hp : s.PredsLive)
    (hr : r ∈ s.live) (h : (allocateSwapBlock r).run s = .ok tmp s') :
    Made o none s tmp (s.heap r).prevBlock (s.heap r).tokenIds (s.heap r).cacheNamespace o none s' ∧
      ∃ id, (s'.heap tmp).blockId = some id := by
  have hprev : ∀ q, (s.heap r).prevBlock = some q → q ∈ s.live := hp r hr
  rw [allocateSwapBlock, run_get_bind] at h
  dsimp only at h
  split at h
  · exact allocateImmutableBlock_ok hc hp hprev h
  · obtain ⟨tmp', s₁, h₁, h⟩ := run_bind_ok.mp h
    obtain ⟨_, s₂, h₂, h⟩ := run_bind_ok.mp h
    obtain ⟨rfl, rfl⟩ := run_pure_ok.mp h
    exact allocateMutable_append_ok hc hp hprev h₁ h₂

theorem swapInBlock_ok {u : Unit} (hc : Inv ⟨o, none, s⟩) (hp : s.PredsLive) (hr : r ∈ s.live)
    (hnone : (s.heap r).blockId = none) (h : (swapInBlock r).run s = .ok u s') :
    AllocSteps ⟨o, none, s⟩ ⟨o, none, s'⟩ ∧ s.Moved [r] true s' := by
  rw [swapInBlock] at h
  obtain ⟨tmp, s₁, h₁, h⟩ := run_bind_ok.mp h
  obtain ⟨hm, id, hid⟩ := allocateSwapBlock_ok hc hp hr h₁
  rw [run_get_bind] at h
  dsimp only at h
  rw [hid] at h
  obtain ⟨_, s₂, h₂, h⟩ := run_bind_ok.mp h
  obtain rfl := poolFree_ok.mp h₂
  obtain rfl := setBlockId_ok.mp h
  have hc₁ := hm.steps.inv hc
  have hown := own_of_live hc₁.pool hm.mem hm.pool
  have hne : r ≠ tmp := ne_of_mem_of_not_mem hr hm.new
  have hr₁ : r ∈ s₁.live := hm.live ▸ Finset.mem_insert_of_mem hr
  have hnone₁ : (s₁.heap r).blockId = none := (hm.frame.blockId hr).trans hnone
  have hcont := hm.frame.content hr
  -- The temporary block has the content of `r`, so it has its hash.
  have hhash : ∀ y, HasHash s₁.blockSize s₁.heap r y ↔ HasHash s₁.blockSize s₁.heap tmp y := by
    intro y
    refine hasHash_of_copied (q := (s₁.heap tmp).prevBlock) (p := (s₁.heap r).prevBlock) ?_ rfl rfl
      (hcont.tokenIds.symm.trans hm.tokens.symm) (fun hn => ?_) y
    · rw [← hcont.prevBlock, hm.prev]
      cases (s.heap r).prevBlock with
      | none => exact .inl ⟨rfl, rfl⟩
      | some q => exact .inr ⟨q, q, rfl, rfl, fun _ => Iff.rfl⟩
    · rw [hm.ns (hcont.prevBlock.trans hn)]
      exact hcont.cacheNamespace.symm
  have hlive : (withId { s₁ with poolFreeIds := tmp.poolId :: s₁.poolFreeIds } r (some id)).live =
      s.live := by
    have := hown.live_free hc₁.pool
    rw [hm.live, Finset.erase_insert hm.new] at this
    exact this
  refine ⟨hm.steps.tail (.handover hown hid hr₁ hne hnone₁ hhash), .single hlive ?_ ?_ ?_⟩
  · refine (hm.frame.mono (Finset.erase_subset _ _)).trans (L := s.live.erase r) ?_
      (Finset.Subset.refl _)
    exact .of_eq rfl rfl fun q hq => Function.update_of_ne (Finset.ne_of_mem_erase hq) _ _
  · rw [withId_self]
    exact hcont.trans ⟨rfl, rfl, rfl⟩
  · rw [withId_self]
    rfl

theorem swapIn_ok {rs : List Ref} {u : PUnit} (hc : Inv ⟨o, none, s⟩) (hp : s.PredsLive)
    (hlive : ∀ r ∈ rs, r ∈ s.live ∧ (s.heap r).blockId = none) (hnodup : rs.Nodup)
    (h : (swapIn rs).run s = .ok u s') :
    AllocSteps ⟨o, none, s⟩ ⟨o, none, s'⟩ ∧ s.Moved rs true s' := by
  rw [swapIn] at h
  induction rs generalizing s with
  | nil =>
    rw [List.forM_nil] at h
    obtain ⟨-, rfl⟩ := run_pure_ok.mp h
    exact ⟨.refl, .nil⟩
  | cons r rest ih =>
    rw [List.forM_cons] at h
    obtain ⟨_, s₁, h₁, h⟩ := run_bind_ok.mp h
    obtain ⟨hr, hnone⟩ := hlive r List.mem_cons_self
    obtain ⟨hsteps, hmoved⟩ := swapInBlock_ok hc hp hr hnone h₁
    obtain ⟨hnr, hnodup⟩ := List.nodup_cons.mp hnodup
    obtain ⟨hsteps', hmoved'⟩ := ih (hsteps.inv hc) (hmoved.predsLive hp) (fun q hq => by
      obtain ⟨hql, hqn⟩ := hlive q (List.mem_cons_of_mem _ hq)
      refine ⟨hmoved.live ▸ hql, (hmoved.blockId_of_not_mem hql ?_).trans hqn⟩
      exact fun hm => hnr (List.mem_singleton.mp hm ▸ hq)) hnodup h
    exact ⟨hsteps.trans hsteps', hmoved.cons hmoved' hr fun q hq => (hlive q (List.mem_cons_of_mem _ hq)).1⟩

theorem swapOut_ok {rs : List Ref} {u : PUnit} (hc : Inv ⟨o, none, s⟩)
    (hlive : ∀ r ∈ rs, r ∈ s.live) (h : (swapOut rs).run s = .ok u s') :
    AllocSteps ⟨o, none, s⟩ ⟨o, none, s'⟩ ∧ s.Moved rs false s' := by
  rw [swapOut] at h
  induction rs generalizing s with
  | nil =>
    rw [List.forM_nil] at h
    obtain ⟨-, rfl⟩ := run_pure_ok.mp h
    exact ⟨.refl, .nil⟩
  | cons r rest ih =>
    rw [List.forM_cons] at h
    obtain ⟨_, s₁, h₁, h⟩ := run_bind_ok.mp h
    have hr := hlive r List.mem_cons_self
    have hd := freeBlockId_ok hc hr h₁
    have hmoved : s.Moved [r] false s₁ := .single hd.live hd.frame hd.content (by rw [hd.blockId]; rfl)
    have hlive' : ∀ q ∈ rest, q ∈ s.live := fun q hq => hlive q (List.mem_cons_of_mem _ hq)
    obtain ⟨hsteps', hmoved'⟩ := ih (hd.steps.inv hc) (fun q hq => hd.live ▸ hlive' q hq) h
    exact ⟨hd.steps.trans hsteps', hmoved.cons hmoved' hr hlive'⟩

/-! ## Freeing and marking -/

theorem free_ok {u : Unit} (hc : Inv ⟨o, none, s⟩) (hr : s.Own r)
    (h : (free r).run s = .ok u s') : AllocSteps ⟨o, none, s⟩ ⟨o, none, s'⟩ ∧
      s'.live = s.live.erase r ∧ Frame (s.live.erase r) s s' := by
  rw [free] at h
  obtain ⟨_, s₁, h₁, h⟩ := run_bind_ok.mp h
  obtain rfl := poolFree_ok.mp h
  have hd := freeBlockId_ok hc hr.live h₁
  have hc₁ := hd.steps.inv hc
  have hown := own_of_live hc₁.pool (hd.live ▸ hr.live) (hr.1.trans hd.frame.device.symm)
  refine ⟨hd.steps.tail (.freeObject hown hd.blockId), ?_, hd.frame.device, hd.frame.blockSize,
    hd.frame.block⟩
  rw [hown.live_free hc₁.pool, hd.live]

theorem markBlockAsAccessed_ok {now : Int} {id : Nat} {u : Unit}
    (h : (markBlockAsAccessed now id).run s = .ok u s') :
    AllocSteps ⟨o, p, s⟩ ⟨o, p, s'⟩ ∧ s'.live = s.live ∧ Frame s.live s s' := by
  rw [markBlockAsAccessed, run_get_bind, run_raiseUnless_bind_ok] at h
  obtain ⟨-, h⟩ := h
  split at h
  · obtain rfl := run_set_ok.mp h
    exact ⟨AllocStep.steps (.accessUsed id now), rfl, .of_eq rfl rfl fun _ _ => rfl⟩
  · rw [run_raiseUnless_bind_ok, run_lift_bind_ok] at h
    obtain ⟨-, e, he, h⟩ := h
    obtain rfl := run_set_ok.mp h
    exact ⟨AllocStep.steps (.accessEvictable he), rfl, .of_eq rfl rfl fun _ _ => rfl⟩

theorem markBlocksAsAccessed_ok {now : Int} {ids : List Nat} {u : PUnit}
    (h : (markBlocksAsAccessed ids now).run s = .ok u s') :
    AllocSteps ⟨o, p, s⟩ ⟨o, p, s'⟩ ∧ s'.live = s.live ∧ Frame s.live s s' := by
  rw [markBlocksAsAccessed] at h
  induction ids generalizing s with
  | nil =>
    rw [List.forM_nil] at h
    obtain ⟨-, rfl⟩ := run_pure_ok.mp h
    exact ⟨.refl, rfl, .refl _ _⟩
  | cons id rest ih =>
    rw [List.forM_cons] at h
    obtain ⟨_, s₁, h₁, h⟩ := run_bind_ok.mp h
    obtain ⟨hsteps, hlive, hframe⟩ := markBlockAsAccessed_ok h₁
    obtain ⟨hsteps', hlive', hframe'⟩ := ih h
    exact ⟨hsteps.trans hsteps', hlive'.trans hlive, hframe.trans hframe' (by rw [hlive])⟩

end PrefixCachingBlockAllocator

end Bi100
