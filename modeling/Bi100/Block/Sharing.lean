import Bi100.Block.Contents
import Bi100.Namespace.Isolation

/-!
# Blocks that share an id

A block with a hash shares its id with the blocks that have the same hash. Any other block shares
it only with the copies that `fork` made of it.

- `Alike`: two blocks at the same place of their chains, in one namespace. If they have tokens,
  their chains have the same tokens.
- `Sharing`: live blocks without a hash that hold one id are `Alike`.
- `Apart`: a block with a hash, or the only one that holds its id.
- `Sharing.of_apart`: blocks that are `Apart` do not matter for `Sharing`. The rules for new blocks,
  for appended tokens and for blocks that move are instances.
-/

namespace Bi100

open Py AllocState PrefixCachingBlockAllocator

variable {H : Type}

/-! ## Chains -/

namespace Chain

variable {heap heap' : Ref → PrefixCachingBlock H} {r p : Ref} {ns ns' : Bytes}
  {tokens tokens' : List (List Nat)}

theorem of_first (hprev : (heap r).prevBlock = none) (hns : (heap r).cacheNamespace = ns)
    (htok : [(heap r).tokenIds] = tokens) : Chain heap r ns tokens := by
  subst hns htok
  exact .first hprev

theorem of_next (hprev : (heap r).prevBlock = some p) (hp : Chain heap p ns tokens)
    (htok : tokens ++ [(heap r).tokenIds] = tokens') : Chain heap r ns tokens' := by
  subst htok
  exact .next hprev hp

/-- A block has one chain. -/
theorem unique (h : Chain heap r ns tokens) (h' : Chain heap r ns' tokens') :
    ns = ns' ∧ tokens = tokens' := by
  induction h generalizing tokens' with
  | first hprev =>
    cases h' with
    | first => exact ⟨rfl, rfl⟩
    | next hprev' =>
      rw [hprev] at hprev'
      cases hprev'
  | next hprev _ ih =>
    cases h' with
    | first hprev' =>
      rw [hprev] at hprev'
      cases hprev'
    | next hprev' hp' =>
      rw [hprev] at hprev'
      obtain rfl := Option.some.inj hprev'
      obtain ⟨hns, htok⟩ := ih hp'
      exact ⟨hns, by rw [htok]⟩

/-- The chain carries over to a heap with the same content on a set that is closed under
predecessors. -/
theorem mono {K : Ref → Prop} (hclosed : ∀ q p, K q → (heap q).prevBlock = some p → K p)
    (hsame : ∀ q, K q → SameContent (heap q) (heap' q)) (hK : K r) (h : Chain heap r ns tokens) :
    Chain heap' r ns tokens := by
  induction h with
  | first hprev =>
    obtain ⟨h₁, h₂, h₃⟩ := hsame _ hK
    exact of_first (h₁ ▸ hprev) h₃.symm (by rw [h₂])
  | next hprev _ ih =>
    obtain ⟨h₁, h₂, -⟩ := hsame _ hK
    exact of_next (h₁ ▸ hprev) (ih (hclosed _ _ hK hprev)) (by rw [h₂])

/-- The chain of a block of a table: the blocks up to and including it. -/
theorem of_table {blocks : List Ref} {first : Ref} {i : Nat}
    (h : PrefixCachingBlockAllocator.Chain heap none blocks) (hfirst : blocks[0]? = some first)
    (hr : blocks[i]? = some r) : Chain heap r (heap first).cacheNamespace
      ((blocks.take (i + 1)).map fun q => (heap q).tokenIds) := by
  induction i generalizing r with
  | zero =>
    obtain rfl := Option.some.inj (hfirst.symm.trans hr)
    refine of_first (h.getElem_zero hr) rfl ?_
    rw [List.take_add_one, hr, List.take_zero]
    rfl
  | succ i ih =>
    have hlt := (List.getElem?_eq_some_iff.mp hr).1
    obtain ⟨p, hp⟩ : ∃ p, blocks[i]? = some p :=
      ⟨blocks[i], List.getElem?_eq_getElem (by omega)⟩
    refine of_next ((h.getElem_succ hr).trans hp) (ih hp) ?_
    rw [List.take_add_one (i := i + 1), hr, List.map_append]
    rfl

end Chain

/-! ## Alike blocks -/

/-- Two blocks at the same place of their chains, in one namespace and with the same tokens. If they
have tokens, then so have their chains. -/
def Alike (heap : Ref → PrefixCachingBlock H) (r q : Ref) : Prop :=
  ∃ ns tokens tokens', Chain heap r ns tokens ∧ Chain heap q ns tokens' ∧
    tokens.length = tokens'.length ∧ (heap r).tokenIds = (heap q).tokenIds ∧
    ((heap r).tokenIds ≠ [] → tokens = tokens')

namespace Alike

variable {heap heap' : Ref → PrefixCachingBlock H} {r q p : Ref}

theorem symm (h : Alike heap r q) : Alike heap q r := by
  obtain ⟨ns, tokens, tokens', hr, hq, hlen, htok, heq⟩ := h
  exact ⟨ns, tokens', tokens, hq, hr, hlen.symm, htok.symm, fun hne => (heq (htok ▸ hne)).symm⟩

theorem trans (h : Alike heap r q) (h' : Alike heap q p) : Alike heap r p := by
  obtain ⟨ns, tokens, tokens', hr, hq, hlen, htok, heq⟩ := h
  obtain ⟨ns', tokens₁, tokens₂, hq', hp, hlen', htok', heq'⟩ := h'
  obtain ⟨rfl, rfl⟩ := hq.unique hq'
  exact ⟨ns, tokens, tokens₂, hr, hp, hlen.trans hlen', htok.trans htok', fun hne =>
    (heq hne).trans (heq' (htok ▸ hne))⟩

theorem mono {K : Ref → Prop} (hclosed : ∀ q p, K q → (heap q).prevBlock = some p → K p)
    (hsame : ∀ q, K q → SameContent (heap q) (heap' q)) (hr : K r) (hq : K q)
    (h : Alike heap r q) : Alike heap' r q := by
  obtain ⟨ns, tokens, tokens', hcr, hcq, hlen, htok, heq⟩ := h
  have h₂ := (hsame r hr).tokenIds
  refine ⟨ns, tokens, tokens', hcr.mono hclosed hsame hr, hcq.mono hclosed hsame hq, hlen, ?_, ?_⟩
  · rw [← h₂, ← (hsame q hq).tokenIds, htok]
  · exact fun hne => heq (h₂ ▸ hne)

/-- Blocks at the same place of two tables with the same tokens. -/
theorem of_tables {blocks blocks' : List Ref} {first first' : Ref} {i : Nat}
    (h : PrefixCachingBlockAllocator.Chain heap none blocks)
    (h' : PrefixCachingBlockAllocator.Chain heap none blocks')
    (hfirst : blocks[0]? = some first) (hfirst' : blocks'[0]? = some first')
    (hns : (heap first).cacheNamespace = (heap first').cacheNamespace)
    (htok : (blocks.map fun q => (heap q).tokenIds) = blocks'.map fun q => (heap q).tokenIds)
    (hr : blocks[i]? = some r) (hq : blocks'[i]? = some q) : Alike heap r q := by
  have htake : ((blocks.take (i + 1)).map fun q => (heap q).tokenIds) =
      (blocks'.take (i + 1)).map fun q => (heap q).tokenIds := by
    rw [List.map_take, List.map_take, htok]
  have hone := congrArg (·[i]?) htok
  simp only [List.getElem?_map, hr, hq, Option.map_some, Option.some.injEq] at hone
  refine ⟨_, _, _, Chain.of_table h hfirst hr, ?_, rfl, hone, fun _ => rfl⟩
  rw [hns, htake]
  exact Chain.of_table h' hfirst' hq

end Alike

/-! ## The invariant -/

variable [DecidableEq H] [Sha256 H]

omit [DecidableEq H] in
/-- A block with a hash, or the only one that holds its id. -/
def AllocState.Apart (s : AllocState H) (r : Ref) : Prop :=
  (∃ h, HasHash s.blockSize s.heap r h) ∨
    ∀ id, (s.heap r).blockId = some id → s.refcounts id = 1

omit [DecidableEq H] in
/-- Live blocks without a hash that hold one id are `Alike`. -/
def AllocState.Sharing (s : AllocState H) : Prop :=
  ∀ r ∈ s.live, ∀ q ∈ s.live, r ≠ q → ∀ id, (s.heap r).blockId = some id →
    (s.heap q).blockId = some id → (∀ h, ¬ HasHash s.blockSize s.heap r h) → Alike s.heap r q

variable {s s' : AllocState H} {r q : Ref} {id : Nat} {K : Ref → Prop}

/-- Blocks that hold one id both have a hash, or both have none. -/
theorem Inv.no_hash (hc : Inv ⟨[], none, s⟩) (hr : r ∈ s.live) (hq : q ∈ s.live)
    (hid : (s.heap r).blockId = some id) (hid' : (s.heap q).blockId = some id)
    (hno : ∀ h, ¬ HasHash s.blockSize s.heap r h) (h : H) : ¬ HasHash s.blockSize s.heap q h :=
  fun hh => hc.unhashed r hr id hid (.inr hno) h (hc.hashed q hq id h hid' (by simp) hh)

/-- Two blocks without a hash that share an id are not `Apart`. -/
theorem not_apart (hc : Inv ⟨[], none, s⟩) (hr : r ∈ s.live) (hq : q ∈ s.live) (hne : r ≠ q)
    (hid : (s.heap r).blockId = some id) (hid' : (s.heap q).blockId = some id)
    (hno : ∀ h, ¬ HasHash s.blockSize s.heap r h) : ¬ s.Apart r := by
  rintro (⟨h, hh⟩ | hone)
  · exact hno h hh
  · have hcard : (s.holders id).card = 1 := (refcounts_eq hc id).symm.trans (hone id hid)
    obtain ⟨x, hx⟩ := Finset.card_eq_one.mp hcard
    have hrx : r ∈ s.holders id := mem_holders.mpr ⟨hr, hid⟩
    have hqx : q ∈ s.holders id := mem_holders.mpr ⟨hq, hid'⟩
    rw [hx, Finset.mem_singleton] at hrx hqx
    exact hne (hrx.trans hqx.symm)

namespace AllocState.Sharing

/-- What is new is `Apart`, and what is old stays as it was. -/
theorem of_apart (hs : s.Sharing) (hc : Inv ⟨[], none, s'⟩)
    (hold : ∀ r ∈ s'.live, ¬ s'.Apart r →
      K r ∧ r ∈ s.live ∧ (s'.heap r).blockId = (s.heap r).blockId)
    (halike : ∀ r q, K r → K q → Alike s.heap r q → Alike s'.heap r q)
    (hhash : ∀ r, K r → ∀ h, HasHash s.blockSize s.heap r h → HasHash s'.blockSize s'.heap r h) :
    s'.Sharing := by
  intro r hr q hq hne id hid hid' hno
  obtain ⟨hKr, hrs, hidr⟩ := hold r hr (not_apart hc hr hq hne hid hid' hno)
  obtain ⟨hKq, hqs, hidq⟩ := hold q hq
    (not_apart hc hq hr hne.symm hid' hid (hc.no_hash hr hq hid hid' hno))
  refine halike r q hKr hKq (hs r hrs q hqs hne id ?_ ?_ fun h hh => hno h (hhash r hKr h hh))
  · exact hidr.symm.trans hid
  · exact hidq.symm.trans hid'

/-- The same, where a closed set of blocks keeps its content. -/
theorem of_closed (hs : s.Sharing) (hc : Inv ⟨[], none, s'⟩) (hbs : s'.blockSize = s.blockSize)
    (hclosed : ∀ q p, K q → (s.heap q).prevBlock = some p → K p)
    (hsame : ∀ q, K q → SameContent (s.heap q) (s'.heap q))
    (hold : ∀ r ∈ s'.live, ¬ s'.Apart r →
      K r ∧ r ∈ s.live ∧ (s'.heap r).blockId = (s.heap r).blockId) : s'.Sharing := by
  refine hs.of_apart hc hold (fun r q hr hq h => h.mono hclosed hsame hr hq) fun r hr h hh => ?_
  rw [hbs]
  exact hh.mono hclosed hsame hr

/-- No live block changed. -/
theorem of_frame (hs : s.Sharing) (hc : Inv ⟨[], none, s'⟩) (hp : s.PredsLive)
    (hlive : s'.live = s.live) (h : Frame s.live s s') : s'.Sharing :=
  hs.of_closed (K := (· ∈ s.live)) hc h.blockSize (fun q p hq hqp => hp q hq p hqp)
    (fun _ hq => h.content hq) fun _ hr _ => ⟨hlive ▸ hr, hlive ▸ hr, h.blockId (hlive ▸ hr)⟩

/-- There are new blocks. -/
theorem of_new {prevBlock : Option Ref} {tokens : List (List Nat)} {rs : List Ref}
    (hs : s.Sharing) (hc : Inv ⟨[], none, s'⟩) (hp : s.PredsLive)
    (h : NewBlocks s prevBlock tokens rs s') (hnew : ∀ r ∈ rs, s'.Apart r) : s'.Sharing := by
  refine hs.of_closed (K := (· ∈ s.live)) hc h.frame.blockSize (fun q p hq hqp => hp q hq p hqp)
    (fun _ hq => h.frame.content hq) fun r hr hap => ?_
  rcases (h.live r).mp hr with hr | hr
  · exact ⟨hr, hr, h.frame.blockId hr⟩
  · exact absurd (hnew r hr) hap

/-- Some blocks moved. -/
theorem of_moved {rs : List Ref} {held : Bool} (hs : s.Sharing) (hc : Inv ⟨[], none, s'⟩)
    (hp : s.PredsLive) (h : Moved s rs held s') (hrs : ∀ r ∈ rs, s'.Apart r) : s'.Sharing := by
  refine hs.of_closed (K := (· ∈ s.live)) hc h.frame.blockSize (fun q p hq hqp => hp q hq p hqp)
    (fun _ hq => h.sameContent hq) fun r hr hap => ?_
  rw [h.live] at hr
  exact ⟨hr, hr, h.blockId_of_not_mem hr fun hm => hap (hrs r hm)⟩

/-- The blocks of a table were freed, or have no id. -/
theorem of_freed {blocks blocks' : List Ref} {n : Nat} (hs : s.Sharing)
    (hc : Inv ⟨[], none, s'⟩) (hp : s.PredsLive) (ht : TableBlocks s blocks n)
    (h : Local s blocks s' blocks') (hown : ∀ r ∈ s'.live, r ∉ others s blocks → s'.Apart r) :
    s'.Sharing := by
  refine hs.of_closed (K := (· ∈ others s blocks)) hc h.frame.blockSize (fun q p hq hqp => ?_)
    (fun _ hq => h.frame.content hq) fun r hr hap => ?_
  · obtain ⟨hql, hqb⟩ := mem_others.mp hq
    exact mem_others.mpr ⟨hp q hql p hqp, fun hpb => hqb (ht.next q hql p hpb hqp)⟩
  · have ho : r ∈ others s blocks := by
      by_contra hno
      exact hap (hown r hr hno)
    exact ⟨ho, (mem_others.mp ho).1, h.frame.blockId ho⟩

end AllocState.Sharing

/-! ## Appended tokens -/

omit [DecidableEq H] [Sha256 H] in
/-- The chain of a block keeps its namespace and its length. -/
theorem Chain.extended {tokenIds : List Nat} {ns : Bytes} {tokens : List (List Nat)}
    (hp : s.PredsLive) (he : Extended s r tokenIds s')
    (hns : (s'.heap r).cacheNamespace = (s.heap r).cacheNamespace) (hq : q ∈ s.live)
    (h : Chain s.heap q ns tokens) :
    ∃ tokens', Chain s'.heap q ns tokens' ∧ tokens'.length = tokens.length := by
  have hkeep : ∀ x ∈ s.live, (s'.heap x).prevBlock = (s.heap x).prevBlock ∧
      (s'.heap x).cacheNamespace = (s.heap x).cacheNamespace := by
    intro x hx
    by_cases hxr : x = r
    · subst hxr
      exact ⟨he.prevBlock, hns⟩
    · have hc := he.frame.content (Finset.mem_erase.mpr ⟨hxr, hx⟩)
      exact ⟨hc.prevBlock.symm, hc.cacheNamespace.symm⟩
  induction h with
  | first hprev =>
    obtain ⟨h₁, h₂⟩ := hkeep _ hq
    exact ⟨_, .of_first (h₁.trans hprev) h₂ rfl, rfl⟩
  | next hprev _ ih =>
    obtain ⟨tokens', hc, hlen⟩ := ih (hp _ hq _ hprev)
    refine ⟨_, .of_next ((hkeep _ hq).1.trans hprev) hc rfl, ?_⟩
    rw [List.length_append, List.length_append, hlen]
    rfl

/-- Tokens are appended to a block that no block with tokens comes after. -/
theorem AllocState.Sharing.of_extended {tokenIds : List Nat} (hs : s.Sharing)
    (hc : Inv ⟨[], none, s'⟩) (hp : s.PredsLive) (hpos : 0 < s.blockSize)
    (he : Extended s r tokenIds s')
    (hns : (s'.heap r).cacheNamespace = (s.heap r).cacheNamespace) (hap : s'.Apart r)
    (hclosed : ∀ q p, K q → (s.heap q).prevBlock = some p → K p)
    (hK : ∀ q, K q → q ∈ s.live ∧ q ≠ r)
    (hempty : ∀ q ∈ s.live, q ≠ r → (s.heap q).tokenIds ≠ [] → K q) : s'.Sharing := by
  have hcont : ∀ q ∈ s.live, q ≠ r → SameContent (s.heap q) (s'.heap q) := fun q hq hne =>
    he.frame.content (Finset.mem_erase.mpr ⟨hne, hq⟩)
  have hsame : ∀ q, K q → SameContent (s.heap q) (s'.heap q) := fun q hq =>
    hcont q (hK q hq).1 (hK q hq).2
  refine hs.of_apart (K := fun q => q ∈ s.live ∧ q ≠ r) hc (fun q hq hno => ?_)
    (fun p q hpr hqr h => ?_) fun q hqr h hh => ?_
  · rw [he.live] at hq
    have hne : q ≠ r := fun e => hno (e ▸ hap)
    exact ⟨⟨hq, hne⟩, hq, he.frame.blockId (Finset.mem_erase.mpr ⟨hne, hq⟩)⟩
  · have htp := (hcont p hpr.1 hpr.2).tokenIds
    have htq := (hcont q hqr.1 hqr.2).tokenIds
    obtain ⟨ns, tokens, tokens', hcp, hcq, hlen, htok, heq⟩ := h
    by_cases hnil : (s.heap p).tokenIds = []
    · obtain ⟨tokens₁, hcp', hlen₁⟩ := hcp.extended hp he hns hpr.1
      obtain ⟨tokens₂, hcq', hlen₂⟩ := hcq.extended hp he hns hqr.1
      exact ⟨ns, tokens₁, tokens₂, hcp', hcq', hlen₁.trans (hlen.trans hlen₂.symm),
        by rw [← htp, ← htq, htok], fun hne => absurd (htp ▸ hnil) hne⟩
    · -- The chains of blocks with tokens do not go through `r`.
      have hKp := hempty p hpr.1 hpr.2 hnil
      have hKq := hempty q hqr.1 hqr.2 (htok ▸ hnil)
      exact ⟨ns, tokens, tokens', hcp.mono hclosed hsame hKp, hcq.mono hclosed hsame hKq, hlen,
        by rw [← htp, ← htq, htok], fun _ => heq hnil⟩
  · have hKq : K q := hempty q hqr.1 hqr.2 fun hnil => by
      have hfull := hh.full
      rw [hnil, List.length_nil] at hfull
      omega
    rw [he.frame.blockSize]
    exact hh.mono hclosed hsame hKq

end Bi100
