import Bi100.Block.SharingLaws

/-!
# The operations of a table keep `Sharing`

- `Shares`: prefix caching is on, and the blocks on the GPU have the invariant `Sharing`.
- `TableIds`: a table's own list of block ids is right for the blocks that are on the GPU, and its
  first block is in its namespace.
- `allocate_shares`, `fork_shares`, `appendTokenIds_shares`, `free_shares`, `swapOut_shares`,
  `swapIn_shares`: the operations.
-/

namespace Bi100

open Py AllocState CpuGpuBlockAllocator

variable {H : Type}

/-- What a table keeps of its blocks. -/
structure TableIds (s : AllocState H) (t : BlockTable) : Prop where
  root : ∀ r, t.blocks[0]? = some r → (s.heap r).cacheNamespace = t.cacheNamespace
  length : t.blockIds.length = t.blocks.length
  ids : ∀ (i : Nat) r id, t.blocks[i]? = some r → (s.heap r).blockId = some id →
    t.blockIds[i]? = some id

namespace TableIds

variable {s s' : AllocState H} {t : BlockTable}

/-- The blocks of the table keep their namespaces and their ids. -/
theorem congr (h : TableIds s t)
    (hsame : ∀ r ∈ t.blocks, (s'.heap r).cacheNamespace = (s.heap r).cacheNamespace ∧
      (s'.heap r).blockId = (s.heap r).blockId) : TableIds s' t := by
  refine ⟨fun r hr => ?_, h.length, fun i r id hr hid => ?_⟩
  · rw [(hsame r (List.mem_of_getElem? hr)).1]
    exact h.root r hr
  · rw [(hsame r (List.mem_of_getElem? hr)).2] at hid
    exact h.ids i r id hr hid

/-- An operation on another table. -/
theorem keep {blocks blocks' : List Ref} {n : Nat} (h : TableIds s t)
    (hloc : Local s blocks s' blocks') (ht : TableBlocks s t.blocks n)
    (hd : t.blocks.Disjoint blocks) : TableIds s' t := by
  refine h.congr fun r hr => ?_
  have ho := mem_others.mpr ⟨(ht.live r hr).1, fun hb => hd hr hb⟩
  exact ⟨(hloc.frame.content ho).cacheNamespace.symm, hloc.frame.blockId ho⟩

end TableIds

namespace TableBlocks

variable {s : AllocState H} {blocks : List Ref} {r : Ref} {n k : Nat}

/-- The live blocks that are not among the last ones of a table are closed under predecessors. -/
theorem before_closed (ht : TableBlocks s blocks n) (hp : s.PredsLive) (q p : Ref)
    (hq : q ∈ s.live ∧ q ∉ blocks.drop k) (hqp : (s.heap q).prevBlock = some p) :
    p ∈ s.live ∧ p ∉ blocks.drop k := by
  refine ⟨hp q hq.1 p hqp, fun hm => hq.2 ?_⟩
  obtain ⟨i, hi⟩ := List.mem_iff_getElem?.mp hm
  rw [List.getElem?_drop] at hi
  obtain ⟨j, hj⟩ :=
    List.mem_iff_getElem?.mp (ht.next q hq.1 p (List.mem_of_getElem? hi) hqp)
  obtain rfl := ht.chain.index_succ ht.nodup hi hj hqp
  refine List.mem_iff_getElem?.mpr ⟨i + 1, ?_⟩
  rw [List.getElem?_drop]
  exact hj

/-- The blocks after the one that the next tokens go to have no tokens. -/
theorem before_of_tokens (ht : TableBlocks s blocks n) (hpos : 0 < s.blockSize)
    (hr : blocks[n / s.blockSize]? = some r) {q : Ref} (hne : q ≠ r)
    (hq : (s.heap q).tokenIds ≠ []) : q ∉ blocks.drop (n / s.blockSize) := by
  obtain ⟨hlt, hget⟩ := List.getElem?_eq_some_iff.mp hr
  rw [List.drop_eq_getElem_cons hlt, hget]
  refine fun hm => hq ?_
  have hm := (List.mem_cons.mp hm).resolve_left hne
  exact List.flatMap_eq_nil_iff.mp (ht.contents_drop hpos) q hm

variable [DecidableEq H] [Sha256 H]

omit [DecidableEq H] in
/-- A full block of a table has a hash: the blocks before it are full. -/
theorem hasHash_of_isFull (ht : TableBlocks s blocks n) (hpos : 0 < s.blockSize)
    (hr : r ∈ blocks) (hfull : s.isFull r = true) : ∃ h, HasHash s.blockSize s.heap r h := by
  obtain ⟨i, hi⟩ := List.mem_iff_getElem?.mp hr
  have hlen := ht.filled i r hi
  have hf : s.blockSize - (s.heap r).tokenIds.length = 0 := of_decide_eq_true hfull
  refine ht.chain.hasHash (fun j hj q hq => ?_) hi
  rw [ht.filled j q hq]
  rw [hlen, tokensIn] at hf
  rw [tokensIn]
  have := Nat.mul_le_mul_right s.blockSize hj
  omega

end TableBlocks

variable [DecidableEq H] [Sha256 H]

namespace CpuGpuBlockAllocator

/-- Prefix caching is on, and the blocks on the GPU share ids as they should. -/
structure Shares (d : CpuGpuBlockAllocator H) : Prop where
  ready : d.Ready
  caching : d.enableCaching = true
  sharing : d.gpu.Sharing

variable {d d' : CpuGpuBlockAllocator H} {blocks blocks' : List Ref}

theorem Shares.inv (h : d.Shares) : Inv ⟨[], none, d.gpu⟩ := by
  have hinv := h.ready.inv
  rw [h.caching] at hinv
  exact hinv

theorem Shares.methods_eq (h : d.Shares) : d.methods = PrefixCachingBlockAllocator.methods := by
  rw [methods, if_pos h.caching]

theorem Shares.acted (h : d.Shares) (hact : Acted d blocks d' blocks') (hs : d'.gpu.Sharing) :
    d'.Shares := ⟨hact.ready, hact.caching.trans h.caching, hs⟩

theorem Shares.inv_of_acted (h : d.Shares) (hact : Acted d blocks d' blocks') :
    Inv ⟨[], none, d'.gpu⟩ := by
  have hinv := hact.ready.inv
  rw [hact.caching, h.caching] at hinv
  exact hinv

omit [DecidableEq H] [Sha256 H] in
theorem getBlockIds_get {ids : List Nat} (h : (getBlockIds blocks).run d = .ok ids d') {i : Nat}
    {r : Ref} {id : Nat} (hr : blocks[i]? = some r) (hid : (d.gpu.heap r).blockId = some id) :
    ids[i]? = some id := by
  rw [getBlockIds, run_get_bind, run_getOrRaise_ok] at h
  have hids := h.1
  clear h
  induction blocks generalizing ids i with
  | nil => cases hr
  | cons q rest ih =>
    rw [List.mapM_cons, Option.bind_eq_bind, Option.bind_eq_some_iff] at hids
    obtain ⟨id', hq, hids⟩ := hids
    obtain ⟨rest', hrest, hret⟩ := Option.bind_eq_some_iff.mp hids
    obtain rfl := Option.some.inj hret
    cases i with
    | zero =>
      obtain rfl := Option.some.inj hr
      rw [block, if_pos (by rw [hid]; rfl), hid] at hq
      exact hq.symm
    | succ i =>
      have hr : rest[i]? = some r := hr
      have hget := ih hr hrest
      exact hget

end CpuGpuBlockAllocator

namespace BlockTable

variable {d d' : CpuGpuBlockAllocator H} {t t' : BlockTable} {n : Nat} {tokenIds : List Nat}

/-! ## Allocating -/

omit [DecidableEq H] [Sha256 H] in
theorem chunkList_ne_nil {bs : Nat} {c : List Nat} (hpos : 0 < bs)
    (h : c ∈ chunkList tokenIds bs) : c ≠ [] := by
  obtain ⟨i, hi⟩ := List.mem_iff_getElem?.mp h
  have hlt := (List.getElem?_eq_some_iff.mp hi).1
  rw [length_chunkList, ← Nat.not_le, cdiv_le_iff hpos] at hlt
  have hlen := length_chunk hi
  rw [tokensIn] at hlen
  rintro rfl
  rw [List.length_nil] at hlen
  omega

/-- A new block that gets its tokens at once. -/
theorem allocateTail_shares {prevBlock : Option Ref} {ns : Bytes} {r : Ref}
    {d₁ : CpuGpuBlockAllocator H} (hs : d.Shares) (hprev : d.gpu.PrevLive prevBlock)
    (hne : tokenIds ≠ [])
    (h₁ : (onGpu fun a => a.allocateMutableBlock prevBlock ns).run d = .ok r d₁)
    (h₂ : (onGpu fun a => a.appendTokenIds r tokenIds).run d₁ = .ok () d') :
    d'.gpu.Sharing ∧ (prevBlock = none → (d'.gpu.heap r).cacheNamespace = ns) := by
  obtain ⟨s₁, hs₁, rfl⟩ := onGpu_ok.mp h₁
  obtain ⟨s₂, hs₂, rfl⟩ := onGpu_ok.mp h₂
  have hd : ({ d with gpu := s₁ } : CpuGpuBlockAllocator H).methods = d.methods := rfl
  rw [hs.methods_eq] at hs₁
  rw [hd, hs.methods_eq] at hs₂
  have hp := hs.ready.preds
  obtain ⟨hm, -⟩ := PrefixCachingBlockAllocator.allocateMutableBlock_ok hs.inv hp hprev hs₁
  obtain ⟨hsh₁, hns⟩ := PrefixCachingBlockAllocator.allocateMutableBlock_sharing hs.sharing hs.inv
    hp hprev hs₁
  have hno := hm.no_successor hp hprev
  have hp₁ := hm.predsLive hp hprev
  obtain ⟨hsh₂, hns₂⟩ := PrefixCachingBlockAllocator.appendTokenIds_sharing
    (K := fun q => q ∈ s₁.live ∧ q ≠ r) hsh₁ (hm.steps.inv hs.inv) hp₁
    (hm.frame.blockSize ▸ hs.ready.pos) hm.mem (fun q hq he => absurd he (hno q hq)) hne
    (fun q p hq hqp => ⟨hp₁ q hq.1 p hqp, fun he => hno q hq.1 (he ▸ hqp)⟩) (fun q hq => hq)
    (fun q hq hqr _ => ⟨hq, hqr⟩) hs₂
  exact ⟨hsh₂, fun hn => hns₂.trans (hns hn)⟩

theorem allocateBlocksForTokenIds_shares {rs : List Ref} (hs : d.Shares) (hpos : 0 < t.blockSize)
    (hbs : t.blockSize = d.gpu.blockSize)
    (h : (t.allocateBlocksForTokenIds tokenIds).run d = .ok rs d') :
    d'.gpu.Sharing ∧ ∀ r, rs[0]? = some r → (d'.gpu.heap r).cacheNamespace = t.cacheNamespace := by
  rw [allocateBlocks_run] at h
  obtain ⟨blocks, d₁, h₁, h⟩ := run_bind_ok.mp h
  obtain ⟨hact, hnew⟩ := allocateFull_ok hs.ready h₁
  have hfull : d₁.gpu.Sharing ∧ ∀ r, blocks[0]? = some r →
      (d₁.gpu.heap r).cacheNamespace = t.cacheNamespace := by
    rcases run_ite_ok.mp h₁ with ⟨-, h₁⟩ | ⟨-, h₁⟩
    · obtain ⟨rfl, rfl⟩ := run_pure_ok.mp h₁
      exact ⟨hs.sharing, fun r hr => (nomatch hr)⟩
    · obtain ⟨s, hrun, rfl⟩ := onGpu_ok.mp h₁
      rw [hs.methods_eq] at hrun
      refine PrefixCachingBlockAllocator.allocateImmutableBlocks_sharing hs.sharing hs.inv
        hs.ready.preds (fun c hc => ?_) hrun
      exact (of_decide_eq_true (List.mem_filter.mp hc).2).trans hbs
  split at h
  · obtain ⟨rfl, rfl⟩ := run_pure_ok.mp h
    exact hfull
  · next curTokenIds rest htail =>
    rw [run_raiseUnless_bind_ok] at h
    obtain ⟨-, h⟩ := h
    obtain ⟨r, d₂, h₂, h⟩ := run_bind_ok.mp h
    obtain ⟨_, d₃, h₃, h⟩ := run_bind_ok.mp h
    obtain ⟨rfl, rfl⟩ := run_pure_ok.mp h
    have hlive : ∀ q ∈ blocks, q ∈ d₁.gpu.live := fun q hq => hnew.mem hq
    have hprev := prevLive_getLast hlive
    have hne : curTokenIds ≠ [] := by
      have hmem : curTokenIds ∈ chunkList tokenIds t.blockSize :=
        (List.mem_filter.mp (htail ▸ List.mem_cons_self)).1
      exact chunkList_ne_nil hpos hmem
    have hs₁ := hs.acted hact hfull.1
    obtain ⟨hsh, hns⟩ := allocateTail_shares hs₁ hprev hne h₂ h₃
    obtain ⟨s, rfl, -, hlast⟩ := allocateTail_ok hs₁.ready hprev h₂ h₃
    refine ⟨hsh, fun q hq => ?_⟩
    cases hb : blocks with
    | nil =>
      rw [hb] at hq
      obtain rfl := Option.some.inj hq
      exact hns (by rw [hb]; rfl)
    | cons x xs =>
      rw [hb] at hq
      obtain rfl := Option.some.inj hq
      have hx : x ∈ blocks := hb ▸ List.mem_cons_self
      rw [← (hlast.frame.content (hlive x hx)).cacheNamespace]
      exact hfull.2 x (hb ▸ rfl)

theorem allocate_shares (hs : d.Shares) (hbs : t.blockSize = d.gpu.blockSize)
    (h : (t.allocate tokenIds).run d = .ok t' d') : d'.gpu.Sharing ∧ TableIds d'.gpu t' := by
  have hpos : 0 < t.blockSize := hbs ▸ hs.ready.pos
  rw [allocate, run_raiseUnless_bind_ok, run_raiseUnless_bind_ok] at h
  obtain ⟨-, -, h⟩ := h
  obtain ⟨rs, d₁, h₁, hids⟩ := run_bind_ok.mp h
  obtain ⟨ids, d₂, h₂, hret⟩ := run_bind_ok.mp hids
  obtain rfl := getBlockIds_ok h₂
  obtain ⟨rfl, rfl⟩ := run_pure_ok.mp hret
  obtain ⟨hsh, hroot⟩ := allocateBlocksForTokenIds_shares hs hpos hbs h₁
  exact ⟨hsh, hroot, length_getBlockIds h₂, fun i r id hr hid => getBlockIds_get h₂ hr hid⟩

/-! ## Forking -/

theorem fork_shares (hs : d.Shares) (ht : TableOk d.gpu t) (hgpu : OnGpu d.gpu t)
    (hti : TableIds d.gpu t) (h : (t.fork).run d = .ok t' d') :
    d'.gpu.Sharing ∧ TableIds d'.gpu t' := by
  rw [fork, run_getOrRaise_bind_ok] at h
  obtain ⟨last, hlast, h⟩ := h
  obtain ⟨rs, d₁, h₁, hids⟩ := run_bind_ok.mp h
  obtain ⟨ids, d₂, h₂, hret⟩ := run_bind_ok.mp hids
  obtain rfl := getBlockIds_ok h₂
  rw [run_get_bind, run_pure_ok] at hret
  obtain ⟨rfl, rfl⟩ := hret
  have hmem := List.mem_of_getLast? hlast
  have hlive := (ht.blocks.live last hmem).1
  rw [CpuGpuBlockAllocator.fork, run_get_bind, run_raiseIf_bind_ok,
    if_pos (Option.isSome_iff_ne_none.mpr (hgpu last hmem))] at h₁
  obtain ⟨s, hrun, rfl⟩ := onGpu_ok.mp h₁.2
  obtain ⟨sources, hall, -, hnew⟩ := (lawful d).fork hs.ready.inv hs.ready.preds hlive hrun
  rw [hs.methods_eq] at hrun
  obtain ⟨hsh, -, hroot⟩ := PrefixCachingBlockAllocator.fork_sharing hs.sharing hs.inv
    hs.ready.preds hlive hall hrun
  obtain rfl := ht.blocks.chain.getAllBlocks_eq hlast hall
  refine ⟨hsh, fun r hr => ?_, length_getBlockIds h₂,
    fun i r id hr hid => getBlockIds_get h₂ hr hid⟩
  have hlen := congrArg List.length hnew.tokens
  rw [List.length_map, List.length_map] at hlen
  have hlt := (List.getElem?_eq_some_iff.mp hr).1
  have hlt : 0 < t.blocks.length := hlen ▸ hlt
  have hfirst := List.getElem?_eq_getElem hlt
  exact (hroot _ r hfirst hr).trans (hti.root _ hfirst)

/-! ## Appending -/

/-- One more empty block at the end of the table. -/
theorem addBlock_shares {last r : Ref} {ids : List Nat} (hs : d.Shares) (ht : TableOk d.gpu t)
    (hti : TableIds d.gpu t) (hlast : t.blocks.getLast? = some last)
    (h : (onGpu fun a => a.allocateMutableBlock (some last) []).run d = .ok r d')
    (hids : (getBlockIds [r]).run d' = .ok ids d') :
    d'.gpu.Sharing ∧
      TableIds d'.gpu { t with blocks := t.blocks ++ [r], blockIds := t.blockIds ++ ids } := by
  have hmem := List.mem_of_getLast? hlast
  have hlive : ∀ q ∈ t.blocks, q ∈ d.gpu.live := fun q hq => (ht.blocks.live q hq).1
  have hprev : d.gpu.PrevLive (some last) := fun q hq => Option.some.inj hq ▸ hlive last hmem
  obtain ⟨s, hrun, rfl⟩ := onGpu_ok.mp h
  obtain ⟨-, hnew, -⟩ := (lawful d).mutable hs.ready.inv hs.ready.preds hprev hs.ready.pos hrun
  rw [hs.methods_eq] at hrun
  obtain ⟨hsh, -⟩ := PrefixCachingBlockAllocator.allocateMutableBlock_sharing hs.sharing hs.inv
    hs.ready.preds hprev hrun
  have hold : TableIds s t := hti.congr fun q hq =>
    ⟨(hnew.frame.content (hlive q hq)).cacheNamespace.symm, hnew.frame.blockId (hlive q hq)⟩
  have hone := length_getBlockIds hids
  refine ⟨hsh, fun q hq => ?_, ?_, fun i q id hq hid => ?_⟩
  · have hpos : 0 < t.blocks.length := List.length_pos_of_mem hmem
    exact hold.root q (by rwa [List.getElem?_append_left hpos] at hq)
  · dsimp only
    rw [List.length_append, List.length_append, hold.length, hone]
  · have hq : (t.blocks ++ [r])[i]? = some q := hq
    show (t.blockIds ++ ids)[i]? = some id
    by_cases hi : i < t.blocks.length
    · rw [List.getElem?_append_left hi] at hq
      rw [List.getElem?_append_left (by rw [hold.length]; exact hi)]
      exact hold.ids i q id hq hid
    · rw [List.getElem?_append_right (by omega)] at hq
      rw [List.getElem?_append_right (by rw [hold.length]; omega), hold.length]
      exact getBlockIds_get hids hq hid

theorem addBlocks_shares {k : Nat} (hs : d.Shares) (ht : TableOk d.gpu t) (hti : TableIds d.gpu t)
    (h : (addBlocks k t).run d = .ok t' d') : d'.gpu.Sharing ∧ TableIds d'.gpu t' := by
  induction k generalizing d t with
  | zero =>
    obtain ⟨rfl, rfl⟩ := run_pure_ok.mp h
    exact ⟨hs.sharing, hti⟩
  | succ k ih =>
    rw [addBlocks, run_getOrRaise_bind_ok] at h
    obtain ⟨last, hlast, h⟩ := h
    obtain ⟨r, d₁, h₁, hids⟩ := run_bind_ok.mp h
    obtain ⟨ids, d₂, h₂, hrest⟩ := run_bind_ok.mp hids
    obtain rfl := getBlockIds_ok h₂
    obtain ⟨hact, htable, -⟩ := addBlock_ok hs.ready ht hlast h₁
    obtain ⟨hsh, hti'⟩ := addBlock_shares hs ht hti hlast h₁ h₂
    exact ih (t := { t with blocks := t.blocks ++ [r], blockIds := t.blockIds ++ ids })
      (hs.acted hact hsh) ⟨ht.blockSize.trans hact.blockSize.symm, ht.window, htable⟩ hti' hrest

theorem ensureNumEmptySlots_shares {k : Nat} (hs : d.Shares) (ht : TableOk d.gpu t)
    (hti : TableIds d.gpu t) (h : (t.ensureNumEmptySlots k).run d = .ok t' d') :
    d'.gpu.Sharing ∧ TableIds d'.gpu t' := by
  rw [ensureNumEmptySlots, run_raiseUnless_bind_ok, run_ite_ok] at h
  rcases h.2 with ⟨-, h⟩ | ⟨-, h⟩
  · obtain ⟨rfl, rfl⟩ := run_pure_ok.mp h
    exact ⟨hs.sharing, hti⟩
  · exact addBlocks_shares hs ht hti h

/-- Tokens are appended to the block that the next tokens go to. The table then has its new id. -/
theorem appendBlock_shares {r : Ref} {ids : List Nat} (hs : d.Shares)
    (ht : TableBlocks d.gpu t.blocks n) (hti : TableIds d.gpu t)
    (hr : t.blocks[n / d.gpu.blockSize]? = some r) (hne : tokenIds ≠ [])
    (h : (onGpu fun a => a.appendTokenIds r tokenIds).run d = .ok () d')
    (hids : (getBlockIds [r]).run d' = .ok ids d') :
    d'.gpu.Sharing ∧ TableIds d'.gpu { t with
      blockIds := t.blockIds.set (n / d.gpu.blockSize) (ids.headD 0) } := by
  have hrl := (ht.live r (List.mem_of_getElem? hr)).1
  have hpos := hs.ready.pos
  have hp := hs.ready.preds
  obtain ⟨s, hrun, rfl⟩ := onGpu_ok.mp h
  obtain ⟨-, hext, -⟩ := (lawful d).append hs.ready.inv hp hrl (ht.successor_room hpos hr) hrun
  rw [hs.methods_eq] at hrun
  have hdrop : r ∈ t.blocks.drop (n / d.gpu.blockSize) := by
    obtain ⟨hlt, hget⟩ := List.getElem?_eq_some_iff.mp hr
    rw [List.drop_eq_getElem_cons hlt, hget]
    exact List.mem_cons_self
  obtain ⟨hsh, hns⟩ := PrefixCachingBlockAllocator.appendTokenIds_sharing
    (K := fun q => q ∈ d.gpu.live ∧ q ∉ t.blocks.drop (n / d.gpu.blockSize)) hs.sharing hs.inv hp
    hpos hrl (ht.successor_room hpos hr) hne (ht.before_closed hp)
    (fun q hq => ⟨hq.1, fun he => hq.2 (he ▸ hdrop)⟩)
    (fun q hq hqr htok => ⟨hq, ht.before_of_tokens hpos hr hqr htok⟩) hrun
  have hother : ∀ q ∈ t.blocks, q ≠ r → q ∈ d.gpu.live.erase r := fun q hq hqr =>
    Finset.mem_erase.mpr ⟨hqr, (ht.live q hq).1⟩
  have hindex : ∀ {i : Nat}, t.blocks[i]? = some r → i = n / d.gpu.blockSize := fun hi => by
    obtain ⟨hlt, hget⟩ := List.getElem?_eq_some_iff.mp hi
    obtain ⟨hlt', hget'⟩ := List.getElem?_eq_some_iff.mp hr
    exact (List.Nodup.getElem_inj_iff ht.nodup).mp (hget.trans hget'.symm)
  refine ⟨hsh, fun q hq => ?_, ?_, fun i q id hq hid => ?_⟩
  · have hq : t.blocks[0]? = some q := hq
    have hroot := hti.root q hq
    by_cases hqr : q = r
    · subst hqr
      exact hns.trans hroot
    · have hcont := hext.frame.content (hother q (List.mem_of_getElem? hq) hqr)
      exact hcont.cacheNamespace.symm.trans hroot
  · dsimp only
    rw [List.length_set, hti.length]
  · have hq : t.blocks[i]? = some q := hq
    show (t.blockIds.set (n / d.gpu.blockSize) (ids.headD 0))[i]? = some id
    by_cases hqr : q = r
    · subst hqr
      obtain rfl := hindex hq
      have hlt := (List.getElem?_eq_some_iff.mp hr).1
      have hhead : ids[0]? = some id := getBlockIds_get hids rfl hid
      rw [List.getElem?_set_self (by rw [hti.length]; exact hlt), ← List.head?_eq_getElem?] at *
      rw [List.headD_eq_head?_getD, hhead]
      rfl
    · have hi : i ≠ n / d.gpu.blockSize := by
        rintro rfl
        exact hqr (Option.some.inj (hq.symm.trans hr))
      rw [List.getElem?_set_ne hi.symm]
      refine hti.ids i q id hq ?_
      rw [← hext.frame.blockId (hother q (List.mem_of_getElem? hq) hqr)]
      exact hid

theorem appendTokenBlocks_shares {idx : Nat} {chunks : List (List Nat)} (hs : d.Shares)
    (ht : TableBlocks d.gpu t.blocks n) (hti : TableIds d.gpu t)
    (hal : Aligned d.gpu.blockSize n chunks) (hidx : chunks ≠ [] → idx = n / d.gpu.blockSize)
    (h : (appendTokenBlocks idx chunks t).run d = .ok t' d') :
    d'.gpu.Sharing ∧ TableIds d'.gpu t' := by
  induction chunks generalizing idx n t d with
  | nil =>
    obtain ⟨rfl, rfl⟩ := run_pure_ok.mp h
    exact ⟨hs.sharing, hti⟩
  | cons c rest ih =>
    obtain ⟨hne, hroom, hfull, hal⟩ := hal
    have hidx := hidx (List.cons_ne_nil c rest)
    rw [appendTokenBlocks, run_get_bind, run_getOrRaise_bind_ok] at h
    obtain ⟨r, hr, h⟩ := h
    rw [run_raiseIf_bind_ok, run_raiseIf_bind_ok] at h
    obtain ⟨-, hid, h⟩ := h
    obtain ⟨_, d₁, h₁, hids⟩ := run_bind_ok.mp h
    obtain ⟨ids, d₂, h₂, hrest⟩ := run_bind_ok.mp hids
    obtain rfl := getBlockIds_ok h₂
    subst hidx
    obtain ⟨hact, htable, -⟩ := appendBlock_ok hs.ready ht hr hid hroom h₁
    obtain ⟨hsh, hti'⟩ := appendBlock_shares hs ht hti hr hne h₁ h₂
    exact ih (t := { t with
        blockIds := t.blockIds.set (n / d.gpu.blockSize) (ids.headD 0) }) (hs.acted hact hsh)
      htable hti' (hact.blockSize ▸ hal) (fun hne => by
        rw [hact.blockSize]
        exact next_block hs.ready.pos rfl (hfull hne)) hrest

theorem appendTokenIds_shares {numLookaheadSlots numComputedSlots : Nat} (hs : d.Shares)
    (ht : TableOk d.gpu t) (hti : TableIds d.gpu t)
    (h : (t.appendTokenIds tokenIds numLookaheadSlots numComputedSlots).run d = .ok t' d') :
    d'.gpu.Sharing ∧ TableIds d'.gpu t' := by
  rw [appendTokenIds_run ht.window, run_raiseUnless_bind_ok] at h
  obtain ⟨t₁, d₁, h₁, h⟩ := run_bind_ok.mp h.2
  obtain ⟨t₂, d₂, h₂, h⟩ := run_bind_ok.mp h
  obtain ⟨rfl, rfl⟩ := run_pure_ok.mp h
  obtain ⟨hg, -⟩ := ensureNumEmptySlots_ok hs.ready ht h₁
  obtain ⟨hsh₁, hti₁⟩ := ensureNumEmptySlots_shares hs ht hti h₁
  have hbs := hg.table.blockSize
  obtain ⟨hal, -⟩ := aligned_chunkTokenBlocks (t := t₁) (hbs ▸ hg.acted.ready.pos) tokenIds
  obtain ⟨hsh, hti₂⟩ := appendTokenBlocks_shares (hs.acted hg.acted hsh₁) hg.table.blocks hti₁
    (hbs ▸ hal) (fun _ => by rw [hbs]) h₂
  exact ⟨hsh, hti₂.root, hti₂.length, hti₂.ids⟩

/-! ## Freeing and swapping -/

theorem free_shares (hs : d.Shares) (ht : TableOk d.gpu t) (h : (t.free).run d = .ok () d') :
    d'.gpu.Sharing := by
  have hact := free_ok hs.ready ht h
  obtain ⟨-, -, -, hlive, hframe⟩ := freeBlocks_ok hs.ready.inv hs.ready.nullBlock ht.blocks.nodup
    ht.blocks.live h
  refine hs.sharing.of_freed (hs.inv_of_acted hact) hs.ready.preds ht.blocks hact.loc
    fun r hr hno => .inr fun id hid => ?_
  -- A block of the table that is still live was not on the GPU.
  obtain ⟨hrl, hnone⟩ := (hlive r).mp hr
  have hrt : r ∈ t.blocks := by
    by_contra hn
    exact hno (mem_others.mpr ⟨hrl, hn⟩)
  rw [hframe.blockId hr, hnone hrt] at hid
  cases hid

omit [DecidableEq H] [Sha256 H] in
/-- After a swap the table has the new ids. -/
theorem moved_shares {held : Bool} {ids : List Nat} (hti : TableIds d.gpu t)
    (hlive : ∀ r ∈ t.blocks, r ∈ d.gpu.live) (hmoved : Moved d.gpu t.blocks held d'.gpu)
    (hids : (getBlockIds t.blocks).run d' = .ok ids d') :
    TableIds d'.gpu { t with blockIds := ids } := by
  refine ⟨fun r hr => ?_, length_getBlockIds hids, fun i r id hr hid => getBlockIds_get hids hr hid⟩
  have hr : t.blocks[0]? = some r := hr
  rw [← (hmoved.sameContent (hlive r (List.mem_of_getElem? hr))).cacheNamespace]
  exact hti.root r hr

theorem swapOut_shares {mapping : Dict Nat Nat} {ids : List Nat} (hs : d.Shares)
    (ht : TableOk d.gpu t) (hti : TableIds d.gpu t)
    (h : (CpuGpuBlockAllocator.swapOut t.blocks).run d = .ok mapping d')
    (hids : (getBlockIds t.blocks).run d' = .ok ids d') :
    d'.gpu.Sharing ∧ TableIds d'.gpu { t with blockIds := ids } := by
  rw [CpuGpuBlockAllocator.swapOut, run_get_bind, run_raiseIf_bind_ok] at h
  obtain ⟨ids₁, d₁, h₁, h₂⟩ := run_bind_ok.mp h.2
  obtain rfl := getBlockIds_ok h₁
  obtain ⟨_, d₂, h₃, h₄⟩ := run_bind_ok.mp h₂
  obtain ⟨s, hrun, rfl⟩ := onGpu_ok.mp h₃
  rw [run_modify_bind] at h₄
  obtain ⟨_, d₃, h₅, h₆⟩ := run_bind_ok.mp h₄
  obtain ⟨s', rfl⟩ := onCpu_ok h₅
  obtain ⟨ids₂, d₄, h₇, h₈⟩ := run_bind_ok.mp h₆
  obtain rfl := getBlockIds_ok h₇
  obtain ⟨rfl, rfl⟩ := run_pure_ok.mp h₈
  have hlive : ∀ r ∈ t.blocks, r ∈ d₁.gpu.live := fun r hr => (ht.blocks.live r hr).1
  have hmoved := ((lawful d₁).swapOut hs.ready.inv hlive hrun).2
  rw [hs.methods_eq] at hrun
  exact ⟨PrefixCachingBlockAllocator.swapOut_sharing hs.sharing hs.inv hs.ready.preds hlive hrun,
    moved_shares hti hlive hmoved hids⟩

theorem swapIn_shares {mapping : Dict Nat Nat} {ids : List Nat} (hs : d.Shares)
    (ht : TableOk d.gpu t) (hti : TableIds d.gpu t)
    (h : (CpuGpuBlockAllocator.swapIn t.blocks).run d = .ok mapping d')
    (hids : (getBlockIds t.blocks).run d' = .ok ids d') :
    d'.gpu.Sharing ∧ TableIds d'.gpu { t with blockIds := ids } := by
  rw [CpuGpuBlockAllocator.swapIn, run_get_bind, run_raiseIf_bind_ok] at h
  obtain ⟨ids₁, d₁, h₁, h₂⟩ := run_bind_ok.mp h.2
  obtain rfl := getBlockIds_ok h₁
  rw [run_raiseIf_bind_ok] at h₂
  obtain ⟨hnone, h₂⟩ := h₂
  obtain ⟨_, d₂, h₃, h₄⟩ := run_bind_ok.mp h₂
  obtain ⟨s', rfl⟩ := onCpu_ok h₃
  rw [run_modify_bind] at h₄
  obtain ⟨_, d₃, h₅, h₆⟩ := run_bind_ok.mp h₄
  obtain ⟨s, hrun, rfl⟩ := onGpu_ok.mp h₅
  obtain ⟨ids₂, d₄, h₇, h₈⟩ := run_bind_ok.mp h₆
  obtain rfl := getBlockIds_ok h₇
  obtain ⟨rfl, rfl⟩ := run_pure_ok.mp h₈
  have hlive : ∀ r ∈ t.blocks, r ∈ d₁.gpu.live := fun r hr => (ht.blocks.live r hr).1
  have hfree : ∀ r ∈ t.blocks, r ∈ d₁.gpu.live ∧ (d₁.gpu.heap r).blockId = none := fun r hr =>
    ⟨hlive r hr, by
      by_contra hid
      exact hnone ⟨r, hr, Option.isSome_iff_ne_none.mpr hid⟩⟩
  have hrun : (d₁.methods.swapIn t.blocks).run d₁.gpu = .ok () s := hrun
  have hmoved := ((lawful d₁).swapIn hs.ready.inv hs.ready.preds hfree ht.blocks.nodup hrun).2
  rw [hs.methods_eq] at hrun
  exact ⟨PrefixCachingBlockAllocator.swapIn_sharing hs.sharing hs.inv hs.ready.preds hfree
    ht.blocks.nodup (fun r hr => ht.blocks.hasHash_of_isFull hs.ready.pos hr) hrun,
    moved_shares hti hlive hmoved hids⟩

end BlockTable

end Bi100
