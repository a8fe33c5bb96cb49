import Bi100.Block.Runs

/-!
# The tokens in the blocks of a table

- `AllocState.contents`: the tokens in some blocks, one behind the other.
- `Local.contents`: an operation on one table keeps the contents of the others.
- `allocate_contents`, `fork_contents`, `appendTokenIds_contents`: what the operations of a table do
  to its contents.
-/

namespace Bi100

open Py AllocState
open PrefixCachingBlockAllocator (Chain assertion)

variable {H : Type}

/-- The tokens in some blocks. -/
def AllocState.contents (s : AllocState H) (blocks : List Ref) : List Nat :=
  blocks.flatMap fun r => (s.heap r).tokenIds

section Contents

variable {s s' : AllocState H} {blocks blocks' rs : List Ref} {r : Ref} {n : Nat}

@[simp] theorem contents_nil : s.contents [] = [] := rfl

@[simp] theorem contents_append (bs bs' : List Ref) :
    s.contents (bs ++ bs') = s.contents bs ++ s.contents bs' := List.flatMap_append

theorem contents_congr (h : ∀ q ∈ blocks, (s'.heap q).tokenIds = (s.heap q).tokenIds) :
    s'.contents blocks = s.contents blocks := List.flatMap_congr h

/-- An operation on one table keeps the contents of the others. -/
theorem Local.contents {bs : List Ref} (h : Local s blocks s' blocks') (ht : TableBlocks s bs n)
    (hd : bs.Disjoint blocks) : s'.contents bs = s.contents bs :=
  contents_congr fun q hq =>
    (h.frame.content (mem_others.mpr ⟨(ht.live q hq).1, fun hb => hd hq hb⟩)).tokenIds.symm

namespace AllocState

theorem NewBlocks.contents {prevBlock : Option Ref} {tokens : List (List Nat)}
    (h : NewBlocks s prevBlock tokens rs s') : s'.contents rs = tokens.flatten := by
  rw [AllocState.contents, List.flatMap_def, h.tokens]

theorem NewBlocks.contents_old {prevBlock : Option Ref} {tokens : List (List Nat)}
    (h : NewBlocks s prevBlock tokens rs s') (hlive : ∀ q ∈ blocks, q ∈ s.live) :
    s'.contents blocks = s.contents blocks :=
  contents_congr fun q hq => (h.frame.content (hlive q hq)).tokenIds.symm

theorem Moved.contents {held : Bool} (h : Moved s rs held s') (hlive : ∀ q ∈ blocks, q ∈ s.live) :
    s'.contents blocks = s.contents blocks :=
  contents_congr fun q hq => (h.sameContent (hlive q hq)).tokenIds.symm

end AllocState

namespace TableBlocks

/-- The blocks after the one that the next tokens go to are empty. -/
theorem contents_drop (ht : TableBlocks s blocks n) (hpos : 0 < s.blockSize) :
    s.contents (blocks.drop (n / s.blockSize + 1)) = [] := by
  refine List.flatMap_eq_nil_iff.mpr fun q hq => ?_
  obtain ⟨i, hi⟩ := List.mem_iff_getElem?.mp hq
  rw [List.getElem?_drop] at hi
  rw [← List.length_eq_zero_iff, ht.filled _ q hi, tokensIn]
  have hlt := Nat.lt_mul_div_succ n hpos
  have hle := Nat.mul_le_mul_left s.blockSize (Nat.le_add_right (n / s.blockSize + 1) i)
  rw [Nat.mul_comm (n / s.blockSize + 1 + i)]
  omega

/-- The tokens that are appended come last. -/
theorem contents_extend (ht : TableBlocks s blocks n) {tokenIds : List Nat} (hpos : 0 < s.blockSize)
    (hr : blocks[n / s.blockSize]? = some r) (h : Extended s r tokenIds s') :
    s'.contents blocks = s.contents blocks ++ tokenIds := by
  obtain ⟨front, back, hsplit, hback⟩ : ∃ front back, blocks = front ++ r :: back ∧
      s.contents back = [] := by
    obtain ⟨hi, hri⟩ := List.getElem?_eq_some_iff.mp hr
    refine ⟨blocks.take (n / s.blockSize), blocks.drop (n / s.blockSize + 1), ?_,
      ht.contents_drop hpos⟩
    rw [← hri, List.getElem_cons_drop, List.take_append_drop]
  have hnodup := ht.nodup
  rw [hsplit, List.nodup_middle, List.nodup_cons] at hnodup
  have hkeep : ∀ bs : List Ref, bs ⊆ front ++ back → s'.contents bs = s.contents bs :=
    fun bs hbs => contents_congr fun q hq => by
      have hmem : q ∈ blocks := by
        rw [hsplit, List.mem_append, List.mem_cons]
        rcases List.mem_append.mp (hbs hq) with hf | hb
        · exact .inl hf
        · exact .inr (.inr hb)
      have hne : q ≠ r := fun he => hnodup.1 (he ▸ hbs hq)
      exact (h.frame.content (Finset.mem_erase.mpr ⟨hne, (ht.live q hmem).1⟩)).tokenIds.symm
  have hself (s : AllocState H) :
      s.contents (r :: back) = (s.heap r).tokenIds ++ s.contents back := rfl
  rw [hsplit, contents_append, contents_append, hself, hself,
    hkeep front (List.subset_append_left _ _), hkeep back (List.subset_append_right _ _), hback,
    h.tokenIds, List.append_nil, List.append_nil, List.append_assoc]

/-- A table has as many tokens as it says. -/
theorem length_contents (ht : TableBlocks s blocks n) : (s.contents blocks).length = n := by
  have hlen : (blocks.map fun r => (s.heap r).tokenIds.length) =
      (List.range blocks.length).map fun i => tokensIn s.blockSize n i := by
    refine List.ext_getElem? fun i => ?_
    rw [List.getElem?_map, List.getElem?_map]
    cases hi : blocks[i]? with
    | none =>
      have hle := List.getElem?_eq_none_iff.mp hi
      rw [List.getElem?_eq_none (by rwa [List.length_range])]
      rfl
    | some r =>
      have hlt := (List.getElem?_eq_some_iff.mp hi).1
      rw [List.getElem?_range hlt, Option.map_some, Option.map_some, ht.filled i r hi]
  rw [AllocState.contents, List.length_flatMap, hlen]
  exact BlockTable.sum_tokensIn ht.fits

end TableBlocks

end Contents

variable [DecidableEq H] [Sha256 H]

open CpuGpuBlockAllocator

namespace BlockTable

variable {d d' : CpuGpuBlockAllocator H} {t t' : BlockTable} {tokenIds : List Nat} {n : Nat}

/-! ## The operations of a table -/

theorem allocate_contents (hd : d.Ready) (hbs : t.blockSize = d.gpu.blockSize)
    (h : (t.allocate tokenIds).run d = .ok t' d') : d'.gpu.contents t'.blocks = tokenIds := by
  have hpos : 0 < t.blockSize := hbs ▸ hd.pos
  rw [allocate, run_raiseUnless_bind_ok, run_raiseUnless_bind_ok] at h
  obtain ⟨-, -, h⟩ := h
  obtain ⟨rs, d₁, h₁, hids⟩ := run_bind_ok.mp h
  obtain ⟨ids, d₂, h₂, hret⟩ := run_bind_ok.mp hids
  obtain rfl := getBlockIds_ok h₂
  obtain ⟨rfl, rfl⟩ := run_pure_ok.mp hret
  obtain ⟨-, hnew⟩ := allocateBlocksForTokenIds_ok hd hpos h₁
  exact hnew.contents.trans (flatten_chunkList hpos tokenIds)

/-- The fork has the tokens of the table, and the table keeps them. -/
theorem fork_contents (hd : d.Ready) (ht : TableOk d.gpu t) (hgpu : OnGpu d.gpu t)
    (h : (t.fork).run d = .ok t' d') :
    d'.gpu.contents t'.blocks = d.gpu.contents t.blocks ∧
      d'.gpu.contents t.blocks = d.gpu.contents t.blocks := by
  obtain ⟨rs, ids, s, rfl, -, hnew, -, -, rfl⟩ := fork_run hd ht hgpu h
  refine ⟨?_, hnew.contents_old fun q hq => (ht.blocks.live q hq).1⟩
  dsimp only
  rw [hnew.contents, contents, List.flatMap_def]

theorem addBlocks_contents {k : Nat} (hd : d.Ready) (ht : TableOk d.gpu t)
    (h : (addBlocks k t).run d = .ok t' d') :
    d'.gpu.contents t'.blocks = d.gpu.contents t.blocks := by
  induction k generalizing d t with
  | zero =>
    obtain ⟨rfl, rfl⟩ := run_pure_ok.mp h
    rfl
  | succ k ih =>
    rw [addBlocks, run_getOrRaise_bind_ok] at h
    obtain ⟨last, hlast, h⟩ := h
    obtain ⟨r, d₁, h₁, hids⟩ := run_bind_ok.mp h
    obtain ⟨ids, d₂, h₂, hrest⟩ := run_bind_ok.mp hids
    obtain rfl := getBlockIds_ok h₂
    obtain ⟨hact, htable, -⟩ := addBlock_ok hd ht hlast h₁
    refine (ih (t := { t with blocks := t.blocks ++ [r], blockIds := t.blockIds ++ ids })
      hact.ready ⟨ht.blockSize.trans hact.blockSize.symm, ht.window, htable⟩ hrest).trans ?_
    -- The block that was added is empty.
    have hprev : d.gpu.PrevLive (some last) := fun q hq =>
      Option.some.inj hq ▸ (ht.blocks.live last (List.mem_of_getLast? hlast)).1
    obtain ⟨s, hs, rfl⟩ := onGpu_ok.mp h₁
    obtain ⟨-, hnew, -⟩ := (lawful d).mutable hd.inv hd.preds hprev hd.pos hs
    dsimp only
    rw [contents_append, hnew.contents_old fun q hq => (ht.blocks.live q hq).1, hnew.contents]
    exact List.append_nil _

theorem ensureNumEmptySlots_contents {k : Nat} (hd : d.Ready) (ht : TableOk d.gpu t)
    (h : (t.ensureNumEmptySlots k).run d = .ok t' d') :
    d'.gpu.contents t'.blocks = d.gpu.contents t.blocks := by
  rw [ensureNumEmptySlots, run_raiseUnless_bind_ok, run_ite_ok] at h
  rcases h.2 with ⟨-, h⟩ | ⟨-, h⟩
  · obtain ⟨rfl, rfl⟩ := run_pure_ok.mp h
    rfl
  · exact addBlocks_contents hd ht h

theorem appendTokenBlocks_contents {idx : Nat} {chunks : List (List Nat)} (hd : d.Ready)
    (ht : TableBlocks d.gpu t.blocks n) (hal : Aligned d.gpu.blockSize n chunks)
    (hidx : chunks ≠ [] → idx = n / d.gpu.blockSize)
    (h : (appendTokenBlocks idx chunks t).run d = .ok t' d') :
    d'.gpu.contents t.blocks = d.gpu.contents t.blocks ++ chunks.flatten := by
  induction chunks generalizing idx n t d with
  | nil =>
    obtain ⟨rfl, rfl⟩ := run_pure_ok.mp h
    exact (List.append_nil _).symm
  | cons c rest ih =>
    obtain ⟨-, hroom, hfull, hal⟩ := hal
    have hidx := hidx (List.cons_ne_nil c rest)
    rw [appendTokenBlocks, run_get_bind, run_getOrRaise_bind_ok] at h
    obtain ⟨r, hr, h⟩ := h
    rw [run_raiseIf_bind_ok, run_raiseIf_bind_ok] at h
    obtain ⟨-, hid, h⟩ := h
    obtain ⟨_, d₁, h₁, hids⟩ := run_bind_ok.mp h
    obtain ⟨ids, d₂, h₂, hrest⟩ := run_bind_ok.mp hids
    obtain rfl := getBlockIds_ok h₂
    subst hidx
    obtain ⟨hact, htable, -⟩ := appendBlock_ok hd ht hr hid hroom h₁
    refine (ih (t := { t with
        blockIds := t.blockIds.set (n / d.gpu.blockSize) (ids.headD 0) }) hact.ready htable
      (hact.blockSize ▸ hal) (fun hne => by
        rw [hact.blockSize]
        exact next_block hd.pos rfl (hfull hne)) hrest).trans ?_
    obtain ⟨s, hs, rfl⟩ := onGpu_ok.mp h₁
    obtain ⟨-, hext, -⟩ := (lawful d).append hd.inv hd.preds
      (ht.live r (List.mem_of_getElem? hr)).1 (ht.successor_room hd.pos hr) hs
    dsimp only
    rw [ht.contents_extend hd.pos hr hext, List.flatten_cons, List.append_assoc]

theorem appendTokenIds_contents {numLookaheadSlots numComputedSlots : Nat} (hd : d.Ready)
    (ht : TableOk d.gpu t)
    (h : (t.appendTokenIds tokenIds numLookaheadSlots numComputedSlots).run d = .ok t' d') :
    d'.gpu.contents t'.blocks = d.gpu.contents t.blocks ++ tokenIds := by
  rw [appendTokenIds_run ht.window, run_raiseUnless_bind_ok] at h
  obtain ⟨t₁, d₁, h₁, h⟩ := run_bind_ok.mp h.2
  obtain ⟨t₂, d₂, h₂, h⟩ := run_bind_ok.mp h
  obtain ⟨rfl, rfl⟩ := run_pure_ok.mp h
  obtain ⟨hg, -⟩ := ensureNumEmptySlots_ok hd ht h₁
  have hbs := hg.table.blockSize
  obtain ⟨hal, hflat⟩ := aligned_chunkTokenBlocks (t := t₁) (hbs ▸ hg.acted.ready.pos) tokenIds
  obtain ⟨-, ⟨ids, rfl⟩, -⟩ := appendTokenBlocks_ok hg.acted.ready hg.table.blocks
    (hbs ▸ hal) (fun _ => by rw [hbs]) h₂
  have hcontents := appendTokenBlocks_contents hg.acted.ready hg.table.blocks (hbs ▸ hal)
    (fun _ => by rw [hbs]) h₂
  rw [hflat, ensureNumEmptySlots_contents hd ht h₁] at hcontents
  exact hcontents

/-! ## Swapping -/

theorem swapOut_contents {mapping : Dict Nat Nat} (hd : d.Ready) (ht : TableOk d.gpu t)
    (h : (CpuGpuBlockAllocator.swapOut t.blocks).run d = .ok mapping d') :
    d'.gpu.contents t.blocks = d.gpu.contents t.blocks := by
  rw [CpuGpuBlockAllocator.swapOut, run_get_bind, run_raiseIf_bind_ok] at h
  obtain ⟨ids, d₁, h₁, h₂⟩ := run_bind_ok.mp h.2
  obtain rfl := getBlockIds_ok h₁
  obtain ⟨_, d₂, h₃, h₄⟩ := run_bind_ok.mp h₂
  obtain ⟨s, hs, rfl⟩ := onGpu_ok.mp h₃
  rw [run_modify_bind] at h₄
  obtain ⟨_, d₃, h₅, h₆⟩ := run_bind_ok.mp h₄
  obtain ⟨s', rfl⟩ := onCpu_ok h₅
  obtain ⟨ids', d₄, h₇, h₈⟩ := run_bind_ok.mp h₆
  obtain rfl := getBlockIds_ok h₇
  obtain ⟨rfl, rfl⟩ := run_pure_ok.mp h₈
  have hlive : ∀ q ∈ t.blocks, q ∈ d₁.gpu.live := fun q hq => (ht.blocks.live q hq).1
  exact ((lawful d₁).swapOut hd.inv hlive hs).2.contents hlive

theorem swapIn_contents {mapping : Dict Nat Nat} (hd : d.Ready) (ht : TableOk d.gpu t)
    (h : (CpuGpuBlockAllocator.swapIn t.blocks).run d = .ok mapping d') :
    d'.gpu.contents t.blocks = d.gpu.contents t.blocks := by
  rw [CpuGpuBlockAllocator.swapIn, run_get_bind, run_raiseIf_bind_ok] at h
  obtain ⟨ids, d₁, h₁, h₂⟩ := run_bind_ok.mp h.2
  obtain rfl := getBlockIds_ok h₁
  rw [run_raiseIf_bind_ok] at h₂
  obtain ⟨hnone, h₂⟩ := h₂
  obtain ⟨_, d₂, h₃, h₄⟩ := run_bind_ok.mp h₂
  obtain ⟨s', rfl⟩ := onCpu_ok h₃
  rw [run_modify_bind] at h₄
  obtain ⟨_, d₃, h₅, h₆⟩ := run_bind_ok.mp h₄
  obtain ⟨s, hs, rfl⟩ := onGpu_ok.mp h₅
  obtain ⟨ids', d₄, h₇, h₈⟩ := run_bind_ok.mp h₆
  obtain rfl := getBlockIds_ok h₇
  obtain ⟨rfl, rfl⟩ := run_pure_ok.mp h₈
  have hlive : ∀ q ∈ t.blocks, q ∈ d₁.gpu.live := fun q hq => (ht.blocks.live q hq).1
  have hfree : ∀ q ∈ t.blocks, q ∈ d₁.gpu.live ∧ (d₁.gpu.heap q).blockId = none := fun q hq =>
    ⟨hlive q hq, by
      by_contra hid
      exact hnone ⟨q, hq, Option.isSome_iff_ne_none.mpr hid⟩⟩
  exact ((lawful d₁).swapIn hd.inv hd.preds hfree ht.blocks.nodup hs).2.contents hlive

end BlockTable

end Bi100
