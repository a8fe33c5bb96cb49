import Bi100.Block.Allocator
import Bi100.Lib.Except
import Mathlib.Data.Finset.Card
import Mathlib.Data.Finset.Image

/-!
# What a block's content hash is

`content_hash` is computed when it is first asked for and then kept in the object. `HasHash` says
what it is without the kept value: a full block has a hash if it is the first of its chain or if
its predecessor has one.

- `contentHash_ok`: as long as the kept hashes are right, `content_hash` returns `HasHash`.
- `HasHash.congr`: the hash depends only on the content of the blocks of the chain.
- `live`: the block objects in use. A chain may still refer to a freed object; `Reach` are the
  objects that live blocks refer to.
-/

namespace Bi100

open Py

variable {H : Type} [Sha256 H]

/-- The content hash of a block, by its chain. -/
inductive HasHash (blockSize : Nat) (heap : Ref → PrefixCachingBlock H) : Ref → H → Prop where
  | first {r : Ref} (full : blockSize - (heap r).tokenIds.length = 0)
      (hprev : (heap r).prevBlock = none) :
    HasHash blockSize heap r
      (hashBlockTokens none (heap r).tokenIds (heap r).cacheNamespace)
  | next {r p : Ref} {h : H} (full : blockSize - (heap r).tokenIds.length = 0)
      (hprev : (heap r).prevBlock = some p) (hp : HasHash blockSize heap p h) :
    HasHash blockSize heap r
      (hashBlockTokens (some h) (heap r).tokenIds (heap r).cacheNamespace)

/-- The parts of a block that its hash depends on. -/
structure SameContent (b b' : PrefixCachingBlock H) : Prop where
  prevBlock : b.prevBlock = b'.prevBlock
  tokenIds : b.tokenIds = b'.tokenIds
  cacheNamespace : b.cacheNamespace = b'.cacheNamespace

namespace HasHash

variable {blockSize : Nat} {heap heap' : Ref → PrefixCachingBlock H} {r : Ref} {h h' : H}

theorem full (hr : HasHash blockSize heap r h) : blockSize - (heap r).tokenIds.length = 0 := by
  cases hr <;> assumption

/-- A block has one hash. -/
theorem unique (hr : HasHash blockSize heap r h) (hr' : HasHash blockSize heap r h') : h = h' := by
  induction hr generalizing h' with
  | first _ hprev =>
    cases hr' with
    | first => rfl
    | next _ hprev' => rw [hprev] at hprev'; cases hprev'
  | next _ hprev _ ih =>
    cases hr' with
    | first _ hprev' => rw [hprev] at hprev'; cases hprev'
    | next _ hprev' hp' =>
      rw [hprev] at hprev'
      cases hprev'
      rw [ih hp']

/-- The predecessor of a block with a hash has one. -/
theorem prev (hr : HasHash blockSize heap r h) {p : Ref} (hp : (heap r).prevBlock = some p) :
    ∃ h', HasHash blockSize heap p h' := by
  cases hr with
  | first _ hprev => rw [hprev] at hp; cases hp
  | next _ hprev hp' =>
    rw [hprev] at hp
    cases hp
    exact ⟨_, hp'⟩

/-- A hash, by the predecessor. -/
theorem iff_prev : HasHash blockSize heap r h ↔ blockSize - (heap r).tokenIds.length = 0 ∧
    (((heap r).prevBlock = none ∧
        h = hashBlockTokens none (heap r).tokenIds (heap r).cacheNamespace) ∨
      ∃ p h', (heap r).prevBlock = some p ∧ HasHash blockSize heap p h' ∧
        h = hashBlockTokens (some h') (heap r).tokenIds (heap r).cacheNamespace) := by
  constructor
  · intro hr
    cases hr with
    | first full hprev => exact ⟨full, .inl ⟨hprev, rfl⟩⟩
    | next full hprev hp => exact ⟨full, .inr ⟨_, _, hprev, hp, rfl⟩⟩
  · rintro ⟨full, ⟨hprev, rfl⟩ | ⟨p, h', hprev, hp, rfl⟩⟩
    · exact .first full hprev
    · exact .next full hprev hp

theorem of_first (full : blockSize - (heap r).tokenIds.length = 0)
    (hprev : (heap r).prevBlock = none)
    (hh : h = hashBlockTokens none (heap r).tokenIds (heap r).cacheNamespace) :
    HasHash blockSize heap r h :=
  hh ▸ .first full hprev

theorem of_next {p : Ref} (full : blockSize - (heap r).tokenIds.length = 0)
    (hprev : (heap r).prevBlock = some p) (hp : HasHash blockSize heap p h')
    (hh : h = hashBlockTokens (some h') (heap r).tokenIds (heap r).cacheNamespace) :
    HasHash blockSize heap r h :=
  hh ▸ .next full hprev hp

/-- The hash carries over to a heap with the same content on a set that is closed under
predecessors. -/
theorem mono {K : Ref → Prop} (hclosed : ∀ r p, K r → (heap r).prevBlock = some p → K p)
    (hsame : ∀ r, K r → SameContent (heap r) (heap' r)) (hK : K r)
    (hr : HasHash blockSize heap r h) : HasHash blockSize heap' r h := by
  induction hr with
  | first full hprev =>
    obtain ⟨h₁, h₂, h₃⟩ := hsame _ hK
    exact of_first (h₂ ▸ full) (h₁ ▸ hprev) (by rw [h₂, h₃])
  | next full hprev _ ih =>
    obtain ⟨h₁, h₂, h₃⟩ := hsame _ hK
    exact of_next (h₂ ▸ full) (h₁ ▸ hprev) (ih (hclosed _ _ hK hprev)) (by rw [h₂, h₃])

theorem congr {K : Ref → Prop} (hclosed : ∀ r p, K r → (heap r).prevBlock = some p → K p)
    (hsame : ∀ r, K r → SameContent (heap r) (heap' r)) (hK : K r) :
    HasHash blockSize heap r h ↔ HasHash blockSize heap' r h := by
  refine ⟨mono hclosed hsame hK, mono (K := K) ?_ ?_ hK⟩
  · intro q p hq hp
    exact hclosed q p hq ((hsame q hq).prevBlock ▸ hp)
  · intro q hq
    obtain ⟨h₁, h₂, h₃⟩ := hsame q hq
    exact ⟨h₁.symm, h₂.symm, h₃.symm⟩

end HasHash

omit [Sha256 H] in
theorem SameContent.refl (b : PrefixCachingBlock H) : SameContent b b := ⟨rfl, rfl, rfl⟩

omit [Sha256 H] in
theorem SameContent.trans {b b' b'' : PrefixCachingBlock H} (h : SameContent b b')
    (h' : SameContent b' b'') : SameContent b b'' :=
  ⟨h.prevBlock.trans h'.prevBlock, h.tokenIds.trans h'.tokenIds,
    h.cacheNamespace.trans h'.cacheNamespace⟩

/-! ## Block objects in use -/

namespace AllocState

variable (s : AllocState H)

/-- The block objects that are not in the pool's free list, and the guests. -/
def live : Finset Ref :=
  ((Finset.range s.poolSize).filter (· ∉ s.poolFreeIds)).image (Ref.mk s.device) ∪ s.guests

/-- The live blocks that hold a block id. -/
def holders (blockId : Nat) : Finset Ref :=
  s.live.filter fun r => (s.heap r).blockId = some blockId

/-- The objects that live blocks are, or refer to as predecessors. -/
inductive Reach : Ref → Prop where
  | live {r : Ref} (h : r ∈ s.live) : Reach r
  | prev {r p : Ref} (h : Reach r) (hp : (s.heap r).prevBlock = some p) : Reach p

/-- No live block refers to a freed object. -/
def PredsLive : Prop := ∀ r ∈ s.live, ∀ p, (s.heap r).prevBlock = some p → p ∈ s.live

/-- The kept hashes are right. -/
def Sound : Prop := ∀ r, s.Reach r → ∀ h, (s.heap r).cachedContentHash = some h →
  HasHash s.blockSize s.heap r h

variable {s}

/-- `r` is an object of the own pool and not free. -/
def Own (s : AllocState H) (r : Ref) : Prop := r.pool = s.device ∧ r.poolId < s.poolSize ∧ r.poolId ∉ s.poolFreeIds

omit [Sha256 H] in
theorem mem_live {r : Ref} : r ∈ s.live ↔ s.Own r ∨ r ∈ s.guests := by
  simp only [live, Own, Finset.mem_union, Finset.mem_image, Finset.mem_filter, Finset.mem_range]
  refine or_congr_left ?_
  constructor
  · rintro ⟨i, ⟨hi, hf⟩, rfl⟩
    exact ⟨rfl, hi, hf⟩
  · rintro ⟨hd, hi, hf⟩
    exact ⟨r.poolId, ⟨hi, hf⟩, by rw [← hd]⟩

omit [Sha256 H] in
theorem mem_holders {r : Ref} {id : Nat} :
    r ∈ s.holders id ↔ r ∈ s.live ∧ (s.heap r).blockId = some id := by
  rw [holders, Finset.mem_filter]

omit [Sha256 H] in
theorem PredsLive.reach (h : s.PredsLive) {r : Ref} (hr : s.Reach r) : r ∈ s.live := by
  induction hr with
  | live h => exact h
  | prev _ hp ih => exact h _ ih _ hp

omit [Sha256 H] in
/-- Fewer live blocks with the same predecessors reach fewer objects. -/
theorem Reach.mono {s' : AllocState H} (hlive : s'.live ⊆ s.live)
    (hprev : ∀ r, (s'.heap r).prevBlock = (s.heap r).prevBlock) {r : Ref} (hr : s'.Reach r) :
    s.Reach r := by
  induction hr with
  | live h => exact .live (hlive h)
  | prev _ hp ih => exact .prev ih (hprev _ ▸ hp)

end AllocState

/-! ## `content_hash` -/

namespace PrefixCachingBlockAllocator

/-- Two states that differ only in kept hashes. -/
structure SameButHashes (s s' : AllocState H) : Prop where
  state : s' = { s with heap := s'.heap }
  block : ∀ r, s'.heap r =
    { s.heap r with cachedContentHash := (s'.heap r).cachedContentHash }

namespace SameButHashes

variable {s s' s'' : AllocState H}

omit [Sha256 H] in
theorem refl (s : AllocState H) : SameButHashes s s := ⟨rfl, fun _ => rfl⟩

omit [Sha256 H] in
theorem trans (h : SameButHashes s s') (h' : SameButHashes s' s'') : SameButHashes s s'' := by
  refine ⟨?_, fun r => ?_⟩
  · rw [h'.state, h.state]
  · rw [h'.block r, h.block r]

omit [Sha256 H] in
theorem sameContent (h : SameButHashes s s') (r : Ref) :
    SameContent (s.heap r) (s'.heap r) := by
  constructor <;> rw [h.block r]

omit [Sha256 H] in
theorem live_eq (h : SameButHashes s s') : s'.live = s.live := by
  rw [h.state]
  rfl

theorem hasHash_iff (h : SameButHashes s s') {r : Ref} {x : H} :
    HasHash s'.blockSize s'.heap r x ↔ HasHash s.blockSize s.heap r x := by
  have hbs : s'.blockSize = s.blockSize := by rw [h.state]
  rw [hbs]
  exact (HasHash.congr (K := fun _ => True) (fun _ _ _ _ => trivial)
    (fun r _ => h.sameContent r) trivial).symm

omit [Sha256 H] in
theorem reach_iff (h : SameButHashes s s') {r : Ref} : s'.Reach r ↔ s.Reach r :=
  ⟨.mono (h.live_eq ▸ Finset.Subset.refl _) fun q => (h.sameContent q).prevBlock.symm,
    .mono (h.live_eq ▸ Finset.Subset.refl _) fun q => (h.sameContent q).prevBlock⟩

end SameButHashes

theorem cacheContentHash_ok {s s' : AllocState H} {r : Ref} {h : H} {o : Option H}
    (hr : (cacheContentHash r h).run s = .ok o s') (hs : s.Sound)
    (hh : HasHash s.blockSize s.heap r h) :
    o = some h ∧ SameButHashes s s' ∧ s'.Sound := by
  rw [cacheContentHash, run_modify_bind, run_pure_ok] at hr
  obtain ⟨rfl, rfl⟩ := hr
  have hsame : SameButHashes s
      (s.updateBlock r fun b => { b with cachedContentHash := some h }) := by
    refine ⟨rfl, fun q => ?_⟩
    simp only [AllocState.updateBlock, Function.update_apply]
    split
    · next hq => rw [hq]
    · rfl
  refine ⟨rfl, hsame, fun q hq x hx => ?_⟩
  rw [hsame.hasHash_iff]
  simp only [AllocState.updateBlock, Function.update_apply] at hx
  split at hx
  · next he =>
    obtain rfl := Option.some.inj hx
    exact he ▸ hh
  · exact hs q (hsame.reach_iff.mp hq) x hx

/-- While the kept hashes are right, `content_hash` returns the hash that the block has, and
changes nothing but kept hashes. -/
theorem contentHashRec_ok {fuel : Nat} {s s' : AllocState H} {r : Ref} {o : Option H}
    (hr : (contentHashRec fuel r).run s = .ok o s') (hs : s.Sound) (hreach : s.Reach r) :
    SameButHashes s s' ∧ s'.Sound ∧ ∀ h, o = some h ↔ HasHash s.blockSize s.heap r h := by
  induction fuel generalizing r s' o with
  | zero => simp [contentHashRec, run_throw_ok] at hr
  | succ fuel ih =>
    rw [contentHashRec, run_get_bind] at hr
    dsimp only at hr
    split at hr
    · next h hc =>
      obtain ⟨rfl, rfl⟩ := run_pure_ok.mp hr
      have hh := hs r hreach h hc
      refine ⟨.refl _, hs, fun x => ⟨fun hx => Option.some.inj hx ▸ hh, fun hx => ?_⟩⟩
      rw [hh.unique hx]
    · next hfull =>
      obtain ⟨rfl, rfl⟩ := run_pure_ok.mp hr
      refine ⟨.refl _, hs, fun x => ⟨fun hx => (nomatch hx), fun hx => ?_⟩⟩
      exact absurd hx.full (of_decide_eq_false hfull)
    · next hfull hprev =>
      have hh := HasHash.first (of_decide_eq_true hfull) hprev
      obtain ⟨rfl, hsame, hs'⟩ := cacheContentHash_ok hr hs hh
      exact ⟨hsame, hs', fun x => ⟨fun hx => Option.some.inj hx ▸ hh,
        fun hx => congrArg some (hh.unique hx)⟩⟩
    · next p _ hfull hprev =>
      rw [run_bind_ok] at hr
      obtain ⟨o₁, s₁, h₁, hr⟩ := hr
      obtain ⟨hsame₁, hs₁, ho₁⟩ := ih h₁ (.prev hreach hprev)
      cases o₁ with
      | none =>
        obtain ⟨rfl, rfl⟩ := run_pure_ok.mp hr
        refine ⟨hsame₁, hs₁, fun x => ⟨fun hx => (nomatch hx), fun hx => ?_⟩⟩
        obtain ⟨y, hy⟩ := hx.prev hprev
        exact absurd ((ho₁ y).mpr hy) (by simp)
      | some h₀ =>
        have hh := HasHash.next (of_decide_eq_true hfull) hprev ((ho₁ h₀).mp rfl)
        obtain ⟨rfl, hsame, hs'⟩ := cacheContentHash_ok hr hs₁ (hsame₁.hasHash_iff.mpr hh)
        exact ⟨hsame₁.trans hsame, hs', fun x => ⟨fun hx => Option.some.inj hx ▸ hh,
          fun hx => congrArg some (hh.unique hx)⟩⟩

theorem contentHash_ok {s s' : AllocState H} {r : Ref} {o : Option H}
    (hr : (contentHash r).run s = .ok o s') (hs : s.Sound) (hreach : s.Reach r) :
    SameButHashes s s' ∧ s'.Sound ∧ ∀ h, o = some h ↔ HasHash s.blockSize s.heap r h := by
  rw [contentHash, run_get_bind] at hr
  exact contentHashRec_ok hr hs hreach

end PrefixCachingBlockAllocator

end Bi100
