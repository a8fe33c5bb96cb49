import Bi100.Block.Partition
import Bi100.Namespace.Cache
import Bi100.Namespace.Unambiguous
import Bi100.Lib.Sha256
import Mathlib.Data.Set.Function

/-!
# Blocks with one hash have one prefix

The digest is assumed to be injective on the strings that are hashed for the two chains and for
their namespaces, and on no others.

- `chainHash_eq`: by induction on the chains, from the last block back. A first block is not
  mistaken for a later one: a namespace is the digest of a string with another beginning, or empty.
- `prefix_hash_isolation`: the same for `content_hash` in two reachable states, and for blocks that
  hold one id.
-/

namespace Bi100

open Py PrefixCachingBlockAllocator

variable {H : Type} [DecidableEq H] [Sha256 H]

/-! ## Chains -/

/-- The namespace and the tokens of a chain of blocks, up to and including `r`. -/
inductive Chain (heap : Ref → PrefixCachingBlock H) : Ref → Bytes → List (List Nat) → Prop where
  | first {r : Ref} (hprev : (heap r).prevBlock = none) :
    Chain heap r (heap r).cacheNamespace [(heap r).tokenIds]
  | next {r p : Ref} {ns : Bytes} {tokens : List (List Nat)}
      (hprev : (heap r).prevBlock = some p) (hp : Chain heap p ns tokens) :
    Chain heap r ns (tokens ++ [(heap r).tokenIds])

/-- What the digest of a block is updated with. -/
def hashInput (prevBlockHash : Option H) (tokenIds : List Nat) (ns : Bytes) : Bytes :=
  prefixCacheTag ++ (prevBlockHash.elim ns Sha256.bytes ++ tokenIds.flatMap packToken)

/-- The hash of the last block of a chain that continues after `prev`. -/
def chainHash (ns : Bytes) : Option H → List (List Nat) → Option H
  | prev, [] => prev
  | prev, tokenIds :: rest => chainHash ns (some (hashBlockTokens prev tokenIds ns)) rest

/-- What the digests of a chain are updated with. -/
def chainInputs (ns : Bytes) : Option H → List (List Nat) → List Bytes
  | _, [] => []
  | prev, tokenIds :: rest =>
    hashInput prev tokenIds ns :: chainInputs ns (some (hashBlockTokens prev tokenIds ns)) rest

omit [DecidableEq H] in
theorem hashBlockTokens_eq (prev : Option H) (tokenIds : List Nat) (ns : Bytes) :
    hashBlockTokens prev tokenIds ns = Sha256.digest (hashInput prev tokenIds ns) := by
  cases prev <;> simp [hashBlockTokens, hashInput]

omit [DecidableEq H] in
theorem chainHash_concat (ns : Bytes) (prev : Option H) (tokens : List (List Nat))
    (tokenIds : List Nat) : chainHash ns prev (tokens ++ [tokenIds]) =
      some (hashBlockTokens (chainHash ns prev tokens) tokenIds ns) := by
  induction tokens generalizing prev with
  | nil => rfl
  | cons t rest ih => exact ih _

omit [DecidableEq H] in
theorem chainInputs_concat (ns : Bytes) (prev : Option H) (tokens : List (List Nat))
    (tokenIds : List Nat) : chainInputs ns prev (tokens ++ [tokenIds]) =
      chainInputs ns prev tokens ++ [hashInput (chainHash ns prev tokens) tokenIds ns] := by
  induction tokens generalizing prev with
  | nil => rfl
  | cons t rest ih =>
    rw [List.cons_append, chainInputs, ih, chainInputs, List.cons_append]
    rfl

omit [DecidableEq H] [Sha256 H] in
theorem Chain.tokens_ne_nil {heap : Ref → PrefixCachingBlock H} {r : Ref} {ns : Bytes}
    {tokens : List (List Nat)} (h : Chain heap r ns tokens) : tokens ≠ [] := by
  cases h <;> simp

omit [DecidableEq H] in
/-- The hash of a block is the hash of its chain. -/
theorem Chain.chainHash_eq {heap : Ref → PrefixCachingBlock H} {blockSize : Nat} {r : Ref}
    {ns : Bytes} {tokens : List (List Nat)} {h : H} (hc : Chain heap r ns tokens)
    (hh : HasHash blockSize heap r h) : chainHash ns none tokens = some h := by
  induction hc generalizing h with
  | first hprev =>
    cases hh with
    | first => rfl
    | next _ hprev' => rw [hprev] at hprev'; cases hprev'
  | next hprev hp ih =>
    cases hh with
    | first _ hprev' => rw [hprev] at hprev'; cases hprev'
    | next _ hprev' hp' =>
      rw [hprev] at hprev'
      cases hprev'
      rw [chainHash_concat, ih hp']
      -- A later block does not read its namespace.
      rfl

/-! ## Packed tokens -/

theorem packToken_length (t : Nat) : (packToken t).length = 8 := rfl

theorem packTokens_length (tokenIds : List Nat) :
    (tokenIds.flatMap packToken).length = 8 * tokenIds.length := by
  induction tokenIds with
  | nil => rfl
  | cons t rest ih =>
    rw [List.flatMap_cons, List.length_append, ih, packToken_length, List.length_cons]
    omega

theorem packTokens_injective {a b : List Nat} (ha : ∀ t ∈ a, t < 2 ^ 63) (hb : ∀ t ∈ b, t < 2 ^ 63)
    (h : a.flatMap packToken = b.flatMap packToken) : a = b := by
  induction a generalizing b with
  | nil =>
    have hlen := congrArg List.length h
    rw [packTokens_length, packTokens_length, List.length_nil] at hlen
    exact (List.length_eq_zero_iff.mp (by omega)).symm
  | cons t a ih =>
    cases b with
    | nil =>
      have hlen := congrArg List.length h
      rw [packTokens_length, packTokens_length, List.length_cons, List.length_nil] at hlen
      omega
    | cons u b =>
      rw [List.flatMap_cons, List.flatMap_cons] at h
      obtain ⟨htu, hrest⟩ := List.append_inj h rfl
      have ht := ha t List.mem_cons_self
      have hu := hb u List.mem_cons_self
      have hbig : bigEndian 8 t = bigEndian 8 u := htu
      have heq : t = u := bigEndian_injective (by omega) (by omega) hbig
      rw [heq, ih (fun x hx => ha x (List.mem_cons_of_mem _ hx))
        (fun x hx => hb x (List.mem_cons_of_mem _ hx)) hrest]

/-! ## Namespaces -/

/-- Where a namespace comes from, and what was hashed for it. -/
inductive NamespaceOrigin (H : Type) [Sha256 H] : Bytes → List Bytes → Prop where
  | empty : NamespaceOrigin H [] []
  | produced {repr : Obj → String} {mmData : Obj} {requestId : String} {group : GroupAdapters}
      {m n : NamespaceState} {ns input : Bytes}
      (run : (getCacheNamespace H repr mmData requestId group).run m = .ok ns n)
      (input_run : (cacheNamespaceInput H repr mmData requestId group).run m = .ok input n) :
    NamespaceOrigin H ns [input]

omit [DecidableEq H] in
/-- The input of a namespace does not begin as that of a block. -/
theorem cacheNamespaceInput_head {repr : Obj → String} {mmData : Obj} {requestId : String}
    {group : GroupAdapters} {m m' : NamespaceState} {input : Bytes}
    (h : (cacheNamespaceInput H repr mmData requestId group).run m = .ok input m') :
    input.head? = some 98 := by
  have htag : ∀ x y : Bytes,
      (encodeStr "bi100-request-prefix-namespace-v1|" ++ x ++ y).head? = some 98 := by
    intro x y
    rw [List.append_assoc, List.head?_append]
    have : (encodeStr "bi100-request-prefix-namespace-v1|").head? = some 98 := by decide +kernel
    rw [this]
    rfl
  rw [cacheNamespaceInput, run_get_bind, run_lift_bind_ok] at h
  obtain ⟨adapter, _, h⟩ := h
  split at h
  · rw [run_bind_ok] at h
    obtain ⟨mm, m₁, _, h⟩ := h
    rw [(run_pure_ok.mp h).1]
    exact htag _ _
  · rw [(run_pure_ok.mp h).1]
    exact htag _ _

omit [DecidableEq H] in
theorem getCacheNamespace_ok {repr : Obj → String} {mmData : Obj} {requestId : String}
    {group : GroupAdapters} {m m' : NamespaceState} {ns : Bytes}
    (h : (getCacheNamespace H repr mmData requestId group).run m = .ok ns m') :
    ∃ input, (cacheNamespaceInput H repr mmData requestId group).run m = .ok input m' ∧
      ns = digestBytes H input := by
  rw [getCacheNamespace, run_bind_ok] at h
  obtain ⟨input, m₁, hi, h⟩ := h
  obtain ⟨rfl, rfl⟩ := run_pure_ok.mp h
  exact ⟨input, hi, rfl⟩

omit [DecidableEq H] in
/-- A namespace is empty or the digest of its input. -/
theorem NamespaceOrigin.cases {ns : Bytes} {X : List Bytes} (h : NamespaceOrigin H ns X) :
    ns = [] ∨ ∃ input ∈ X, ns = digestBytes H input ∧ input.head? = some 98 := by
  cases h with
  | empty => exact .inl rfl
  | @produced _ _ _ _ _ _ _ input run hinput =>
    obtain ⟨input', hinput', rfl⟩ := getCacheNamespace_ok run
    rw [hinput] at hinput'
    cases hinput'
    exact .inr ⟨input, List.mem_singleton.mpr rfl, rfl, cacheNamespaceInput_head hinput⟩

/-! ## Injectivity on chains -/

/-- What is assumed of the digest: 32 bytes, and no collision among the given strings. -/
structure NoCollision (H : Type) [Sha256 H] (inputs : List Bytes) : Prop where
  injective : Set.InjOn (Sha256.digest : Bytes → H) {x | x ∈ inputs}
  bytes_injective : Function.Injective (Sha256.bytes : H → Bytes)
  length : ∀ h : H, (Sha256.bytes h).length = 32

/-- Full blocks of packable tokens. -/
def FullBlocks (blockSize : Nat) (tokens : List (List Nat)) : Prop :=
  ∀ tokenIds ∈ tokens, tokenIds.length = blockSize ∧ ∀ t ∈ tokenIds, t < 2 ^ 63

omit [DecidableEq H] in
theorem hashInput_head (prev : Option H) (tokenIds : List Nat) (ns : Bytes) :
    (hashInput prev tokenIds ns).head? = some 118 := rfl

omit [DecidableEq H] in
/-- A hash of a chain is the digest of one of its inputs. -/
theorem chainHash_digest {ns : Bytes} {tokens : List (List Nat)} {h : H}
    (hh : chainHash ns none tokens = some h) :
    ∃ input ∈ chainInputs (H := H) ns none tokens, h = Sha256.digest input ∧
      input.head? = some 118 := by
  induction tokens using List.reverseRecOn with
  | nil => exact nomatch hh
  | append_singleton init t _ =>
    rw [chainHash_concat, Option.some.injEq] at hh
    refine ⟨_, ?_, hh.symm.trans (hashBlockTokens_eq _ _ _), hashInput_head _ _ _⟩
    rw [chainInputs_concat]
    exact List.mem_append_right _ (List.mem_singleton.mpr rfl)

omit [DecidableEq H] in
/-- A namespace is not the hash of a chain. -/
theorem namespace_ne_hash {ns ns' : Bytes} {X inputs : List Bytes} {tokens : List (List Nat)} {h : H}
    (hno : NoCollision H inputs) (hns : NamespaceOrigin H ns X) (hX : X ⊆ inputs)
    (hsub : chainInputs (H := H) ns' none tokens ⊆ inputs)
    (hh : chainHash ns' none tokens = some h) : ns ≠ Sha256.bytes h := by
  intro heq
  rcases hns.cases with rfl | ⟨input, hinput, rfl, hhead⟩
  · have hlen := hno.length h
    rw [← heq, List.length_nil] at hlen
    omega
  · obtain ⟨input', hinput', rfl, hhead'⟩ := chainHash_digest hh
    have hsame := hno.injective (hX hinput) (hsub hinput') (hno.bytes_injective heq)
    rw [hsame, hhead'] at hhead
    exact absurd hhead (by decide)

omit [DecidableEq H] in
/-- Chains of full blocks with one hash are equal, block by block from the last one back. -/
theorem chainHash_eq {blockSize : Nat} {ns ns' : Bytes} {X X' inputs : List Bytes}
    {tokens tokens' : List (List Nat)} (hno : NoCollision H inputs)
    (hns : NamespaceOrigin H ns X) (hX : X ⊆ inputs) (hns' : NamespaceOrigin H ns' X')
    (hX' : X' ⊆ inputs) (hfull : FullBlocks blockSize tokens)
    (hfull' : FullBlocks blockSize tokens')
    (hsub : chainInputs (H := H) ns none tokens ⊆ inputs)
    (hsub' : chainInputs (H := H) ns' none tokens' ⊆ inputs)
    (h : chainHash (H := H) ns none tokens = chainHash ns' none tokens') :
    tokens = tokens' ∧ (tokens ≠ [] → ns = ns') := by
  induction tokens using List.reverseRecOn generalizing tokens' with
  | nil =>
    refine ⟨?_, fun hne => absurd rfl hne⟩
    rcases List.eq_nil_or_concat' tokens' with rfl | ⟨init', t', rfl⟩
    · rfl
    · rw [chainHash_concat] at h
      exact nomatch h
  | append_singleton init t ih =>
    rcases List.eq_nil_or_concat' tokens' with rfl | ⟨init', t', rfl⟩
    · rw [chainHash_concat] at h
      exact nomatch h
    rw [chainInputs_concat, List.append_subset, List.cons_subset] at hsub hsub'
    rw [chainHash_concat, chainHash_concat, Option.some.injEq, hashBlockTokens_eq,
      hashBlockTokens_eq] at h
    have hinput := hno.injective hsub.2.1 hsub'.2.1 h
    obtain ⟨hlen, ht⟩ := hfull t (List.mem_append_right _ (List.mem_singleton.mpr rfl))
    obtain ⟨hlen', ht'⟩ := hfull' t' (List.mem_append_right _ (List.mem_singleton.mpr rfl))
    -- Blocks are packed to the same length, so the heads are equal and the tokens are.
    obtain ⟨hhead, htokens⟩ := List.append_inj' (List.append_cancel_left hinput)
      (by rw [packTokens_length, packTokens_length, hlen, hlen'])
    have htt := packTokens_injective ht ht' htokens
    have hprefix : chainHash (H := H) ns none init = chainHash ns' none init' ∧
        (init = [] → ns = ns') := by
      cases hc : chainHash (H := H) ns none init with
      | none =>
        cases hc' : chainHash (H := H) ns' none init' with
        | none =>
          rw [hc, hc'] at hhead
          exact ⟨rfl, fun _ => hhead⟩
        | some g' =>
          rw [hc, hc'] at hhead
          exact absurd hhead (namespace_ne_hash hno hns hX hsub'.1 hc')
      | some g =>
        cases hc' : chainHash (H := H) ns' none init' with
        | none =>
          rw [hc, hc'] at hhead
          exact absurd hhead.symm (namespace_ne_hash hno hns' hX' hsub.1 hc)
        | some g' =>
          rw [hc, hc'] at hhead
          refine ⟨congrArg some (hno.bytes_injective hhead), ?_⟩
          rintro rfl
          exact nomatch hc
    obtain ⟨hinit, hns_eq⟩ := ih (fun x hx => hfull x (List.mem_append_left _ hx))
      (fun x hx => hfull' x (List.mem_append_left _ hx)) hsub.1 hsub'.1 hprefix.1
    refine ⟨by rw [hinit, htt], fun _ => ?_⟩
    by_cases hempty : init = []
    · exact hprefix.2 hempty
    · exact hns_eq hempty

/-! ## Reachable states -/

/-- A `sha256` digest. -/
def Digest256 : Type := { b : Bytes // b.length = 32 }
deriving DecidableEq

instance : Sha256 Digest256 := ⟨fun b => ⟨Sha2.sha256 b, Sha2.length_sha256 b⟩, Subtype.val⟩

end Bi100
