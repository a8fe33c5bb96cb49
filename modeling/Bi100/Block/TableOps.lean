import Bi100.Block.Tables

/-!
# The operations of a block table

What the methods of `BlockTable` do to the blocks on the GPU (`Acted`), and how many free blocks
they use.

- `allocate_ok`, `fork_ok`, `appendTokenIds_ok`, `free_ok`.
- `appendTokenIds_costs`: appending uses at most the blocks that
  `get_num_blocks_touched_by_append_slots` counts.
-/

namespace Bi100

open Py AllocState
open PrefixCachingBlockAllocator (Chain assertion)

variable {H : Type} [DecidableEq H] [Sha256 H]

namespace CpuGpuBlockAllocator

/-- The invariant of the allocator of the GPU. -/
def gpuInv (enableCaching : Bool) (s : AllocState H) : Prop :=
  match enableCaching with
  | true => Inv ⟨[], none, s⟩
  | false => NaiveInv [] s

theorem lawful (d : CpuGpuBlockAllocator H) : d.methods.Lawful (gpuInv d.enableCaching) := by
  unfold methods
  cases d.enableCaching with
  | true => exact PrefixCachingBlockAllocator.lawful
  | false => exact NaiveBlockAllocator.lawful

instance (d : CpuGpuBlockAllocator H) : ByIds d.methods.getNumFreeBlocks where
  eq s t hf he := by
    unfold methods
    cases d.enableCaching with
    | true => exact ByIds.eq (m := PrefixCachingBlockAllocator.getNumFreeBlocks) s t hf he
    | false => exact ByIds.eq (m := fun s => s.freeBlockIndices.length) s t hf he

theorem own_of_inv {enableCaching : Bool} {s : AllocState H} {r : Ref}
    (h : gpuInv enableCaching s) (hr : r ∈ s.live) (hd : r.pool = s.device) : s.Own r := by
  cases enableCaching with
  | true => exact own_of_live (Inv.pool h) hr hd
  | false => exact own_of_live (NaiveInv.pool h) hr hd

/-- What holds of the GPU between two operations, without a sliding window. -/
structure Ready (d : CpuGpuBlockAllocator H) : Prop where
  inv : gpuInv d.enableCaching d.gpu
  preds : d.gpu.PredsLive
  pos : 0 < d.gpu.blockSize
  nullBlock : d.nullBlock = none

/-- `get_num_free_blocks` of the GPU. -/
def numFree (d : CpuGpuBlockAllocator H) : Nat := d.methods.getNumFreeBlocks d.gpu

/-- What a call may use of the free blocks. -/
abbrev Costs {α : Type} (n : Nat) (x : DeviceM H α) (d : CpuGpuBlockAllocator H) : Prop :=
  Spends numFree .noFreeBlocksError n x d

variable {d d' : CpuGpuBlockAllocator H} {n : Nat}

/-! ## Calls of an allocator -/

theorem onGpu_ok {α : Type} {x : BlockAllocator H → AllocM H α} {a : α} :
    (onGpu x).run d = .ok a d' ↔
      ∃ s, (x d.methods).run d.gpu = .ok a s ∧ d' = { d with gpu := s } := by
  cases hx : (x d.methods).run d.gpu with
  | ok b s =>
    have hrun : (onGpu x).run d = .ok b { d with gpu := s } := by
      unfold onGpu EStateM.run
      dsimp only
      rw [show x d.methods d.gpu = _ from hx]
    rw [hrun]
    simp only [EStateM.Result.ok.injEq]
    constructor
    · rintro ⟨h₁, h₂⟩
      exact ⟨s, ⟨h₁, rfl⟩, h₂.symm⟩
    · rintro ⟨_, ⟨h₁, h₂⟩, h⟩
      exact ⟨h₁, h₂ ▸ h.symm⟩
  | error e s =>
    have hrun : (onGpu x).run d = .error e { d with gpu := s } := by
      unfold onGpu EStateM.run
      dsimp only
      rw [show x d.methods d.gpu = _ from hx]
    rw [hrun]
    simp

theorem onGpu_error {α : Type} {x : BlockAllocator H → AllocM H α} {e : Err} :
    (onGpu x).run d = .error e d' ↔
      ∃ s, (x d.methods).run d.gpu = .error e s ∧ d' = { d with gpu := s } := by
  cases hx : (x d.methods).run d.gpu with
  | ok b s =>
    have hrun : (onGpu x).run d = .ok b { d with gpu := s } := by
      unfold onGpu EStateM.run
      dsimp only
      rw [show x d.methods d.gpu = _ from hx]
    rw [hrun]
    simp
  | error e' s =>
    have hrun : (onGpu x).run d = .error e' { d with gpu := s } := by
      unfold onGpu EStateM.run
      dsimp only
      rw [show x d.methods d.gpu = _ from hx]
    rw [hrun]
    simp only [EStateM.Result.error.injEq]
    constructor
    · rintro ⟨h₁, h₂⟩
      exact ⟨s, ⟨h₁, rfl⟩, h₂.symm⟩
    · rintro ⟨_, ⟨h₁, h₂⟩, h⟩
      exact ⟨h₁, h₂ ▸ h.symm⟩

theorem onGpu_costs {α : Type} {x : BlockAllocator H → AllocM H α}
    (h : d.methods.Costs n (x d.methods) d.gpu) : Costs n (onGpu x) d := by
  refine ⟨fun a d' hr => ?_, fun e d' hr => ?_, fun d' hr => ?_⟩
  · obtain ⟨s, hs, rfl⟩ := onGpu_ok.mp hr
    exact h.ok a s hs
  · obtain ⟨s, hs, rfl⟩ := onGpu_error.mp hr
    exact h.error e s hs
  · obtain ⟨s, hs, rfl⟩ := onGpu_error.mp hr
    exact h.raises s hs

theorem onCpu_ok {α : Type} {x : BlockAllocator H → AllocM H α} {a : α}
    (h : (onCpu x).run d = .ok a d') : ∃ s, d' = { d with cpu := s } := by
  unfold onCpu EStateM.run at h
  dsimp only at h
  cases hx : x d.methods d.cpu with
  | ok b s =>
    rw [hx] at h
    cases h
    exact ⟨s, rfl⟩
  | error e s =>
    rw [hx] at h
    cases h

omit [DecidableEq H] [Sha256 H] in
theorem getBlockIds_ok {blocks : List Ref} {ids : List Nat}
    (h : (getBlockIds blocks).run d = .ok ids d') : d' = d := by
  rw [getBlockIds, run_get_bind, run_getOrRaise_ok] at h
  exact h.2

omit [DecidableEq H] [Sha256 H] in
theorem length_getBlockIds {blocks : List Ref} {ids : List Nat}
    (h : (getBlockIds blocks).run d = .ok ids d') : ids.length = blocks.length := by
  rw [getBlockIds, run_get_bind, run_getOrRaise_ok] at h
  have hids := h.1
  clear h
  induction blocks generalizing ids with
  | nil =>
    obtain rfl := Option.some.inj hids
    rfl
  | cons r rest ih =>
    rw [List.mapM_cons, Option.bind_eq_bind, Option.bind_eq_some_iff] at hids
    obtain ⟨id, -, hids⟩ := hids
    obtain ⟨rest', hrest, hret⟩ := Option.bind_eq_some_iff.mp hids
    obtain rfl := Option.some.inj hret
    rw [List.length_cons, List.length_cons, ih hrest]

theorem getBlockIds_costs {blocks : List Ref} : Costs 0 (getBlockIds blocks) d :=
  .get_bind (.getOrRaise _ nofun)

/-! ## What an operation does -/

/-- An operation on a table with these blocks, which then has the blocks `blocks'`. -/
structure Acted (d : CpuGpuBlockAllocator H) (blocks : List Ref) (d' : CpuGpuBlockAllocator H)
    (blocks' : List Ref) : Prop where
  caching : d'.enableCaching = d.enableCaching
  ready : d'.Ready
  loc : Local d.gpu blocks d'.gpu blocks'

namespace Acted

variable {d'' : CpuGpuBlockAllocator H} {blocks blocks' blocks'' : List Ref}

theorem refl (hd : d.Ready) (h : ∀ q ∈ blocks, ∀ p, (d.gpu.heap q).prevBlock = some p →
    p ∈ blocks) : Acted d blocks d blocks := ⟨rfl, hd, .refl h⟩

theorem trans (h : Acted d blocks d' blocks') (h' : Acted d' blocks' d'' blocks'') :
    Acted d blocks d'' blocks'' :=
  ⟨h'.caching.trans h.caching, h'.ready, h.loc.trans h'.loc⟩

theorem blockSize (h : Acted d blocks d' blocks') : d'.gpu.blockSize = d.gpu.blockSize :=
  h.loc.frame.blockSize

theorem methods_eq (h : Acted d blocks d' blocks') : d'.methods = d.methods := by
  rw [methods, methods, h.caching]

/-- New blocks on the GPU. -/
theorem of_new {prevBlock : Option Ref} {tokens : List (List Nat)} {rs : List Ref}
    {s : AllocState H} (hd : d.Ready) (hinv : gpuInv d.enableCaching s)
    (h : NewBlocks d.gpu prevBlock tokens rs s)
    (hclosed : ∀ q ∈ blocks, ∀ p, (d.gpu.heap q).prevBlock = some p → p ∈ blocks)
    (hprev : ∀ q, prevBlock = some q → q ∈ blocks) (hlive : ∀ q ∈ blocks, q ∈ d.gpu.live) :
    Acted d blocks { d with gpu := s } (blocks ++ rs) :=
  ⟨rfl, ⟨hinv, h.predsLive hd.preds fun q hq => hlive q (hprev q hq),
    h.frame.blockSize ▸ hd.pos, hd.nullBlock⟩, .of_new h hclosed hprev⟩

end Acted

end CpuGpuBlockAllocator

open CpuGpuBlockAllocator

/-- A table, as it is between two operations. -/
structure TableOk (s : AllocState H) (t : BlockTable) : Prop where
  blockSize : t.blockSize = s.blockSize
  window : t.maxBlockSlidingWindow = none
  blocks : TableBlocks s t.blocks t.numFullSlots

/-- The blocks of the table are on the GPU. -/
def OnGpu (s : AllocState H) (t : BlockTable) : Prop := ∀ r ∈ t.blocks, (s.heap r).blockId ≠ none

namespace BlockTable

variable {d d' : CpuGpuBlockAllocator H} {t t' : BlockTable} {n : Nat} {tokenIds : List Nat}

/-! ## Allocating -/

/-- The full chunks. -/
theorem allocateFull_ok {tokens : List (List Nat)} {rs : List Ref} {ns : Bytes} (hd : d.Ready)
    (h : (if tokens = [] then pure [] else onGpu fun a => a.allocateImmutableBlocks ns none tokens :
      DeviceM H (List Ref)).run d = .ok rs d') :
    Acted d [] d' rs ∧ NewBlocks d.gpu none tokens rs d'.gpu := by
  rcases run_ite_ok.mp h with ⟨rfl, h⟩ | ⟨-, h⟩
  · obtain ⟨rfl, rfl⟩ := run_pure_ok.mp h
    exact ⟨.refl hd fun q hq => absurd hq List.not_mem_nil, .nil⟩
  · obtain ⟨s, hs, rfl⟩ := onGpu_ok.mp h
    obtain ⟨hinv, hnew⟩ := (lawful d).immutable hd.inv hd.preds (by intro q hq; cases hq) hs
    exact ⟨.of_new hd hinv hnew (fun q hq => absurd hq List.not_mem_nil)
      (fun q hq => (nomatch hq)) fun q hq => absurd hq List.not_mem_nil, hnew⟩

theorem allocateFull_costs {tokens : List (List Nat)} {ns : Bytes} (hd : d.Ready) :
    Costs tokens.length (if tokens = [] then pure [] else
      onGpu fun a => a.allocateImmutableBlocks ns none tokens : DeviceM H (List Ref)) d := by
  split
  · exact .ret
  · exact onGpu_costs ((lawful d).immutable_costs hd.inv hd.preds (by intro q hq; cases hq))

/-- The blocks of the tokens, with `if` before the rest of the body. -/
theorem allocateBlocks_run (t : BlockTable) (tokenIds : List Nat) (d : CpuGpuBlockAllocator H) :
    (t.allocateBlocksForTokenIds tokenIds).run d = (do
      let full := (chunkList tokenIds t.blockSize).filter (·.length = t.blockSize)
      let blocks ← (if full = [] then pure [] else
        onGpu fun a => a.allocateImmutableBlocks t.cacheNamespace none full : DeviceM H (List Ref))
      match (chunkList tokenIds t.blockSize).filter (·.length ≠ t.blockSize) with
      | [] => pure blocks
      | curTokenIds :: rest => do
        raiseUnless (rest = []) assertion
        let r ← onGpu fun a => a.allocateMutableBlock blocks.getLast? t.cacheNamespace
        onGpu fun a => a.appendTokenIds r curTokenIds
        pure (blocks ++ [r]) : DeviceM H (List Ref)).run d := by
  unfold allocateBlocksForTokenIds
  dsimp only
  split
  · rfl
  · rfl

/-- A new block that gets its tokens at once. -/
theorem allocateTail_ok {prevBlock : Option Ref} {ns : Bytes} {r : Ref}
    {d₁ : CpuGpuBlockAllocator H} (hd : d.Ready) (hprev : d.gpu.PrevLive prevBlock)
    (h₁ : (onGpu fun a => a.allocateMutableBlock prevBlock ns).run d = .ok r d₁)
    (h₂ : (onGpu fun a => a.appendTokenIds r tokenIds).run d₁ = .ok () d') :
    ∃ s, d' = { d with gpu := s } ∧ gpuInv d.enableCaching s ∧
      NewBlocks d.gpu prevBlock [tokenIds] [r] s := by
  obtain ⟨s₁, hs₁, rfl⟩ := onGpu_ok.mp h₁
  obtain ⟨s₂, hs₂, rfl⟩ := onGpu_ok.mp h₂
  obtain ⟨hinv, hnew, -⟩ := (lawful d).mutable hd.inv hd.preds hprev hd.pos hs₁
  obtain ⟨hinv', hext, -⟩ := (lawful d).append hinv (hnew.predsLive hd.preds hprev)
    (hnew.mem (List.mem_singleton_self r))
    (fun q hq hqr => absurd hqr (hnew.no_successor hd.preds hprev q hq)) hs₂
  exact ⟨s₂, rfl, hinv', hnew.extend hext⟩

theorem allocateTail_costs {α : Type} {prevBlock : Option Ref} {ns : Bytes} {f : Ref → α}
    (hd : d.Ready) (hprev : d.gpu.PrevLive prevBlock) :
    Costs 1 (do
      let r ← onGpu fun a => a.allocateMutableBlock prevBlock ns
      onGpu fun a => a.appendTokenIds r tokenIds
      pure (f r) : DeviceM H α) d := by
  refine (onGpu_costs ((lawful d).mutable_costs hd.inv hd.preds hprev)).bind_zero fun r d₁ h₁ => ?_
  obtain ⟨s₁, hs₁, rfl⟩ := onGpu_ok.mp h₁
  obtain ⟨hinv, hnew, hsole, -⟩ := (lawful d).mutable hd.inv hd.preds hprev hd.pos hs₁
  refine (onGpu_costs (((lawful d).append_costs hinv (hnew.predsLive hd.preds hprev)
    (hnew.mem (List.mem_singleton_self r)) fun q hq hqr => ?_).2 hsole)).then_of_zero
    fun _ _ _ => .ret
  exact absurd hqr (hnew.no_successor hd.preds hprev q hq)

omit [DecidableEq H] [Sha256 H] in
theorem prevLive_getLast {s : AllocState H} {rs : List Ref} (h : ∀ r ∈ rs, r ∈ s.live) :
    s.PrevLive rs.getLast? := fun q hq => h q (List.mem_of_getLast? hq)

theorem allocateBlocksForTokenIds_ok {rs : List Ref} (hd : d.Ready) (hpos : 0 < t.blockSize)
    (h : (t.allocateBlocksForTokenIds tokenIds).run d = .ok rs d') :
    Acted d [] d' rs ∧ NewBlocks d.gpu none (chunkList tokenIds t.blockSize) rs d'.gpu := by
  rw [allocateBlocks_run] at h
  obtain ⟨blocks, d₁, h₁, h⟩ := run_bind_ok.mp h
  obtain ⟨hact, hnew⟩ := allocateFull_ok hd h₁
  obtain ⟨hsplit, hone⟩ := chunkList_split hpos tokenIds
  split at h
  · next htail =>
    obtain ⟨rfl, rfl⟩ := run_pure_ok.mp h
    rw [htail, List.append_nil] at hsplit
    rw [hsplit] at hnew
    exact ⟨hact, hnew⟩
  · next curTokenIds rest htail =>
    rw [run_raiseUnless_bind_ok] at h
    obtain ⟨rfl, h⟩ := h
    obtain ⟨r, d₂, h₂, h⟩ := run_bind_ok.mp h
    obtain ⟨_, d₃, h₃, h⟩ := run_bind_ok.mp h
    obtain ⟨rfl, rfl⟩ := run_pure_ok.mp h
    have hlive : ∀ q ∈ blocks, q ∈ d₁.gpu.live := fun q hq => hnew.mem hq
    obtain ⟨s, rfl, hinv, hlast⟩ := allocateTail_ok hact.ready (prevLive_getLast hlive) h₂ h₃
    rw [htail] at hsplit
    have hlast' : NewBlocks d₁.gpu (blocks.getLast?.or none) [curTokenIds] [r] s := by
      rw [Option.or_none]
      exact hlast
    have hall := hnew.append hlast'
    rw [hsplit] at hall
    refine ⟨hact.trans (.of_new hact.ready hinv hlast (fun q hq p hp => ?_)
      (fun q hq => List.mem_of_getLast? hq) hlive), hall⟩
    exact (hnew.prev_mem hq hp).resolve_left (by simp)

theorem allocateBlocksForTokenIds_costs (hd : d.Ready) (hpos : 0 < t.blockSize) :
    Costs (cdiv tokenIds.length t.blockSize) (t.allocateBlocksForTokenIds tokenIds) d := by
  refine .of_run (allocateBlocks_run t tokenIds d) ?_ (Nat.le_refl _)
  obtain ⟨hsplit, hone⟩ := chunkList_split hpos tokenIds
  have hlen := congrArg List.length hsplit
  rw [List.length_append, length_chunkList] at hlen
  rw [← hlen]
  refine (allocateFull_costs hd).bind fun blocks d₁ h₁ => ?_
  obtain ⟨hact, hnew⟩ := allocateFull_ok hd h₁
  split
  · exact .ret
  · next htail =>
    rw [htail, List.length_cons]
    refine .raiseUnless_bind nofun fun hrest => ?_
    rw [hrest, List.length_nil]
    exact allocateTail_costs hact.ready (prevLive_getLast fun q hq => hnew.mem hq)

theorem allocate_ok (hd : d.Ready) (hbs : t.blockSize = d.gpu.blockSize)
    (hw : t.maxBlockSlidingWindow = none) (h : (t.allocate tokenIds).run d = .ok t' d') :
    Acted d [] d' t'.blocks ∧ TableOk d'.gpu t' ∧ OnGpu d'.gpu t' := by
  have hpos : 0 < t.blockSize := hbs ▸ hd.pos
  rw [allocate, run_raiseUnless_bind_ok, run_raiseUnless_bind_ok] at h
  obtain ⟨-, -, h⟩ := h
  obtain ⟨rs, d₁, h₁, hids⟩ := run_bind_ok.mp h
  obtain ⟨ids, d₂, h₂, hret⟩ := run_bind_ok.mp hids
  obtain rfl := getBlockIds_ok h₂
  obtain ⟨rfl, rfl⟩ := run_pure_ok.mp hret
  obtain ⟨hact, hnew⟩ := allocateBlocksForTokenIds_ok hd hpos h₁
  refine ⟨hact, ⟨hbs.trans hact.blockSize.symm, hw, .of_new hd.preds hnew (fun i c hc => ?_) ?_⟩,
    hnew.blockId⟩
  · rw [← hbs]
    exact length_chunk hc
  · rw [length_chunkList, ← hbs]
    exact le_cdiv_mul hpos

theorem allocate_costs (hd : d.Ready) (hpos : 0 < t.blockSize) :
    Costs (cdiv tokenIds.length t.blockSize) (t.allocate tokenIds) d := by
  unfold allocate
  refine .raiseUnless_bind nofun fun _ => .raiseUnless_bind nofun fun _ => ?_
  exact (allocateBlocksForTokenIds_costs hd hpos).bind_zero fun _ _ _ =>
    getBlockIds_costs.then_of_zero fun _ _ _ => .ret

/-! ## Forking -/

/-- The tokens in the first blocks. -/
theorem sum_tokensIn {bs L : Nat} (hfits : n ≤ L * bs) :
    ((List.range L).map fun i => tokensIn bs n i).sum = n := by
  have hgen : ∀ k, ((List.range k).map fun i => tokensIn bs n i).sum = min n (k * bs) := by
    intro k
    induction k with
    | zero => simp
    | succ k ih =>
      rw [List.range_succ, List.map_append, List.sum_append, ih, List.map_singleton,
        List.sum_singleton, tokensIn, Nat.succ_mul]
      omega
  rw [hgen]
  omega

/-- The forks of the blocks, with the ids of the table. -/
theorem fork_run (hd : d.Ready) (ht : TableOk d.gpu t) (hgpu : OnGpu d.gpu t)
    (h : (t.fork).run d = .ok t' d') :
    ∃ rs ids s, d' = { d with gpu := s } ∧ gpuInv d.enableCaching s ∧
      NewBlocks d.gpu none (t.blocks.map fun r => (d.gpu.heap r).tokenIds) rs s ∧
      (getBlockIds rs).run d' = .ok ids d' ∧ t.blocks ≠ [] ∧
      t' = { t with
        blocks := rs
        blockIds := ids
        numFullSlots := (rs.map fun r => (d'.block r).tokenIds.length).sum } := by
  rw [fork, run_getOrRaise_bind_ok] at h
  obtain ⟨last, hlast, h⟩ := h
  obtain ⟨rs, d₁, h₁, hids⟩ := run_bind_ok.mp h
  obtain ⟨ids, d₂, h₂, hret⟩ := run_bind_ok.mp hids
  obtain rfl := getBlockIds_ok h₂
  rw [run_get_bind, run_pure_ok] at hret
  obtain ⟨rfl, rfl⟩ := hret
  rw [CpuGpuBlockAllocator.fork, run_get_bind, run_raiseIf_bind_ok,
    if_pos (Option.isSome_iff_ne_none.mpr (hgpu last (List.mem_of_getLast? hlast)))] at h₁
  obtain ⟨s, hs, rfl⟩ := onGpu_ok.mp h₁.2
  have hmem := List.mem_of_getLast? hlast
  obtain ⟨sources, hall, hinv, hnew⟩ := (lawful d).fork hd.inv hd.preds (ht.blocks.live last hmem).1 hs
  obtain rfl := ht.blocks.chain.getAllBlocks_eq hlast hall
  exact ⟨rs, ids, s, rfl, hinv, hnew, h₂, List.ne_nil_of_mem hmem, rfl⟩

theorem fork_ok (hd : d.Ready) (ht : TableOk d.gpu t) (hgpu : OnGpu d.gpu t)
    (h : (t.fork).run d = .ok t' d') : Acted d [] d' t'.blocks ∧ TableOk d'.gpu t' := by
  obtain ⟨rs, ids, s, rfl, hinv, hnew, -, -, rfl⟩ := fork_run hd ht hgpu h
  have hact : Acted d [] { d with gpu := s } ([] ++ rs) := .of_new hd hinv hnew
    (fun q hq => absurd hq List.not_mem_nil) (fun q hq => (nomatch hq))
    fun q hq => absurd hq List.not_mem_nil
  have htable : TableBlocks s rs t.numFullSlots := by
    refine .of_new hd.preds hnew (fun i c hc => ?_) ?_
    · rw [List.getElem?_map, Option.map_eq_some_iff] at hc
      obtain ⟨q, hq, rfl⟩ := hc
      exact ht.blocks.filled i q hq
    · rw [List.length_map]
      exact ht.blocks.fits
  refine ⟨hact, ⟨ht.blockSize.trans hact.blockSize.symm, ht.window, ?_⟩⟩
  -- The sum over the new blocks is the number of tokens.
  have hsum : (rs.map fun r => (({ d with gpu := s } : CpuGpuBlockAllocator H).block
      r).tokenIds.length).sum = t.numFullSlots := by
    rw [← sum_tokensIn htable.fits]
    congr 1
    refine List.ext_getElem? fun i => ?_
    rw [List.getElem?_map, List.getElem?_map]
    cases hi : rs[i]? with
    | none =>
      have hle : rs.length ≤ i := List.getElem?_eq_none_iff.mp hi
      rw [List.getElem?_eq_none (by rw [List.length_range]; exact hle)]
      rfl
    | some r =>
      have hlt : i < rs.length := (List.getElem?_eq_some_iff.mp hi).1
      rw [List.getElem?_eq_getElem (by rw [List.length_range]; exact hlt), List.getElem_range]
      have hres := hnew.blockId r (List.mem_of_getElem? hi)
      simp only [Option.map_some, block, if_pos (Option.isSome_iff_ne_none.mpr hres)]
      rw [htable.filled i r hi]
  dsimp only
  rw [hsum]
  exact htable

theorem fork_costs (hd : d.Ready) (ht : TableOk d.gpu t) (hgpu : OnGpu d.gpu t) :
    Costs 0 t.fork d := by
  unfold fork
  refine .getOrRaise_bind nofun fun last hlast => ?_
  refine Spends.then_of_zero ?_ fun _ _ _ => getBlockIds_costs.then_of_zero fun _ _ _ => .get_bind .ret
  unfold CpuGpuBlockAllocator.fork
  refine .get_bind (.raiseIf_bind nofun fun _ => ?_)
  rw [if_pos (Option.isSome_iff_ne_none.mpr (hgpu last (List.mem_of_getLast? hlast)))]
  exact onGpu_costs ((lawful d).fork_costs hd.inv hd.preds
    (ht.blocks.live last (List.mem_of_getLast? hlast)).1)

/-! ## Growing -/

/-- One more empty block at the end of the table. -/
theorem addBlock_ok {last r : Ref} (hd : d.Ready) (ht : TableOk d.gpu t)
    (hlast : t.blocks.getLast? = some last)
    (h : (onGpu fun a => a.allocateMutableBlock (some last) []).run d = .ok r d') :
    Acted d t.blocks d' (t.blocks ++ [r]) ∧
      TableBlocks d'.gpu (t.blocks ++ [r]) t.numFullSlots ∧ d'.gpu.Sole r ∧
      d.gpu.live ⊆ d'.gpu.live ∧ ∀ q ∈ d.gpu.live, d.gpu.Sole q → d'.gpu.Sole q := by
  have hmem := List.mem_of_getLast? hlast
  have hlive : ∀ q ∈ t.blocks, q ∈ d.gpu.live := fun q hq => (ht.blocks.live q hq).1
  have hprev : d.gpu.PrevLive (some last) := fun q hq => Option.some.inj hq ▸ hlive last hmem
  obtain ⟨s, hs, rfl⟩ := onGpu_ok.mp h
  obtain ⟨hinv, hnew, hsole, hothers⟩ := (lawful d).mutable hd.inv hd.preds hprev hd.pos hs
  exact ⟨.of_new hd hinv hnew ht.blocks.closed (fun q hq => Option.some.inj hq ▸ hmem) hlive,
    ht.blocks.grow hd.preds hlast hnew, hsole, hnew.subset, hothers⟩

/-- The table `t` has grown by `k` empty blocks. -/
structure Grown (d : CpuGpuBlockAllocator H) (t : BlockTable) (k : Nat)
    (d' : CpuGpuBlockAllocator H) (t' : BlockTable) : Prop where
  acted : Acted d t.blocks d' t'.blocks
  table : TableOk d'.gpu t'
  numFullSlots : t'.numFullSlots = t.numFullSlots
  blocks : ∃ rs, t'.blocks = t.blocks ++ rs ∧ rs.length = k
  /-- The new blocks are `Sole`. -/
  sole : ∀ i, t.blocks.length ≤ i → ∀ r, t'.blocks[i]? = some r → d'.gpu.Sole r
  live : d.gpu.live ⊆ d'.gpu.live
  keep : ∀ q ∈ d.gpu.live, d.gpu.Sole q → d'.gpu.Sole q

theorem Grown.refl (hd : d.Ready) (ht : TableOk d.gpu t) : Grown d t 0 d t := by
  refine ⟨.refl hd ht.blocks.closed, ht, rfl, ⟨[], (List.append_nil _).symm, rfl⟩,
    fun i hi r hr => ?_, Finset.Subset.refl _, fun q _ hq => hq⟩
  exact absurd (List.getElem?_eq_some_iff.mp hr).1 (by omega)

theorem addBlocks_ok {k : Nat} (hd : d.Ready) (ht : TableOk d.gpu t)
    (h : (addBlocks k t).run d = .ok t' d') : Grown d t k d' t' := by
  induction k generalizing d t with
  | zero =>
    obtain ⟨rfl, rfl⟩ := run_pure_ok.mp h
    exact .refl hd ht
  | succ k ih =>
    rw [addBlocks, run_getOrRaise_bind_ok] at h
    obtain ⟨last, hlast, h⟩ := h
    obtain ⟨r, d₁, h₁, hids⟩ := run_bind_ok.mp h
    obtain ⟨ids, d₂, h₂, hrest⟩ := run_bind_ok.mp hids
    obtain rfl := getBlockIds_ok h₂
    obtain ⟨hact, htable, hsole, hlive, hkeep⟩ := addBlock_ok hd ht hlast h₁
    have hg := ih (t := { t with blocks := t.blocks ++ [r], blockIds := t.blockIds ++ ids })
      hact.ready ⟨ht.blockSize.trans hact.blockSize.symm, ht.window, htable⟩ hrest
    obtain ⟨rs, hrs, hlen⟩ := hg.blocks
    have hrs : t'.blocks = t.blocks ++ r :: rs := by rw [hrs, List.append_assoc, List.singleton_append]
    refine ⟨hact.trans hg.acted, hg.table, hg.numFullSlots, ⟨r :: rs, hrs, ?_⟩, fun i hi q hq => ?_,
      hlive.trans hg.live, fun q hq hs => hg.keep q (hlive hq) (hkeep q hq hs)⟩
    · rw [List.length_cons, hlen]
    · by_cases he : t.blocks.length + 1 ≤ i
      · exact hg.sole i (by rw [List.length_append, List.length_singleton]; exact he) q hq
      · -- The block that was added first.
        obtain rfl : i = t.blocks.length := by omega
        rw [hrs, List.getElem?_append_right (Nat.le_refl _), Nat.sub_self] at hq
        obtain rfl := Option.some.inj hq
        exact hg.keep r (htable.live r (List.mem_append_right _ (List.mem_singleton_self r))).1 hsole

theorem addBlocks_costs {k : Nat} (hd : d.Ready) (ht : TableOk d.gpu t) :
    Costs k (addBlocks k t) d := by
  induction k generalizing d t with
  | zero => exact .ret
  | succ k ih =>
    rw [addBlocks, Nat.add_comm]
    refine .getOrRaise_bind nofun fun last hlast => ?_
    have hmem := List.mem_of_getLast? hlast
    have hprev : d.gpu.PrevLive (some last) := fun q hq =>
      Option.some.inj hq ▸ (ht.blocks.live last hmem).1
    refine (onGpu_costs ((lawful d).mutable_costs hd.inv hd.preds hprev)).bind fun r d₁ h₁ => ?_
    obtain ⟨hact, htable, -⟩ := addBlock_ok hd ht hlast h₁
    refine getBlockIds_costs.then_of_zero fun ids d₂ h₂ => ?_
    obtain rfl := getBlockIds_ok h₂
    exact ih hact.ready ⟨ht.blockSize.trans hact.blockSize.symm, ht.window, htable⟩

/-- How many blocks `ensure_num_empty_slots` adds. -/
def numAdded (t : BlockTable) (numEmptySlots : Nat) : Nat :=
  cdiv (t.numFullSlots + numEmptySlots - t.blocks.length * t.blockSize) t.blockSize

theorem ensureNumEmptySlots_ok {k : Nat} (hd : d.Ready) (ht : TableOk d.gpu t)
    (h : (t.ensureNumEmptySlots k).run d = .ok t' d') :
    Grown d t (t.numAdded k) d' t' ∧ t.numFullSlots + k ≤ t'.blocks.length * t'.blockSize := by
  have hpos : 0 < t.blockSize := ht.blockSize ▸ hd.pos
  have hdone : Grown d t (t.numAdded k) d' t' := by
    rw [ensureNumEmptySlots, run_raiseUnless_bind_ok, run_ite_ok] at h
    rcases h.2 with ⟨hle, h⟩ | ⟨-, h⟩
    · obtain ⟨rfl, rfl⟩ := run_pure_ok.mp h
      rw [numAdded, Nat.sub_eq_zero_of_le hle, cdiv_zero hpos]
      exact .refl hd ht
    · exact addBlocks_ok hd ht h
  refine ⟨hdone, ?_⟩
  obtain ⟨rs, hrs, hlen⟩ := hdone.blocks
  have hbs : t'.blockSize = t.blockSize := by
    rw [hdone.table.blockSize, hdone.acted.blockSize, ht.blockSize]
  rw [hrs, List.length_append, hlen, hbs, Nat.add_mul]
  have := le_cdiv_mul (n := t.numFullSlots + k - t.blocks.length * t.blockSize) hpos
  rw [numAdded]
  omega

theorem ensureNumEmptySlots_costs {k : Nat} (hd : d.Ready) (ht : TableOk d.gpu t) :
    Costs (t.numAdded k) (t.ensureNumEmptySlots k) d := by
  unfold ensureNumEmptySlots
  refine .raiseUnless_bind nofun fun _ => ?_
  split
  · exact .ret
  · exact addBlocks_costs hd ht

/-! ## Filling -/

/-- Tokens are appended to the block that the next tokens go to. -/
theorem appendBlock_ok {blocks : List Ref} {r : Ref} (hd : d.Ready) (ht : TableBlocks d.gpu blocks n)
    (hr : blocks[n / d.gpu.blockSize]? = some r) (hid : (d.gpu.heap r).blockId ≠ none)
    (hroom : n % d.gpu.blockSize + tokenIds.length ≤ d.gpu.blockSize)
    (h : (onGpu fun a => a.appendTokenIds r tokenIds).run d = .ok () d') :
    Acted d blocks d' blocks ∧ TableBlocks d'.gpu blocks (n + tokenIds.length) ∧
      ∀ q ∈ blocks, q ≠ r → d.gpu.Sole q → d'.gpu.Sole q := by
  have hrl := (ht.live r (List.mem_of_getElem? hr)).1
  obtain ⟨s, hs, rfl⟩ := onGpu_ok.mp h
  obtain ⟨hinv, hext, hsole⟩ := (lawful d).append hd.inv hd.preds hrl
    (ht.successor_room hd.pos hr) hs
  have htable := ht.extend hd.pos hr hid hroom hext
  refine ⟨⟨rfl, ⟨hinv, hext.predsLive hd.preds, hext.frame.blockSize ▸ hd.pos, hd.nullBlock⟩,
    .of_live hext.live (hext.frame.mono fun q hq => ?_) htable.closed⟩, htable,
    fun q hq hne hs => hsole q (ht.live q hq).1 hne hs⟩
  obtain ⟨hql, hqb⟩ := mem_others.mp hq
  exact Finset.mem_erase.mpr ⟨fun e => hqb (e ▸ List.mem_of_getElem? hr), hql⟩

/-- The next tokens after a part that is not the last one go to the next block. -/
theorem next_block {bs idx : Nat} {c : List Nat} (hpos : 0 < bs) (hidx : idx = n / bs)
    (h : n % bs + c.length = bs) : idx + 1 = (n + c.length) / bs := by
  have hdiv := Nat.div_add_mod n bs
  have heq : n + c.length = bs * (n / bs + 1) := by
    rw [Nat.mul_add, Nat.mul_one]
    omega
  rw [heq, Nat.mul_div_cancel_left _ hpos, hidx]

theorem appendTokenBlocks_ok {idx : Nat} {chunks : List (List Nat)} (hd : d.Ready)
    (ht : TableBlocks d.gpu t.blocks n) (hal : Aligned d.gpu.blockSize n chunks)
    (hidx : chunks ≠ [] → idx = n / d.gpu.blockSize)
    (h : (appendTokenBlocks idx chunks t).run d = .ok t' d') :
    Acted d t.blocks d' t.blocks ∧ (∃ ids, t' = { t with blockIds := ids }) ∧
      TableBlocks d'.gpu t.blocks (n + chunks.flatten.length) := by
  induction chunks generalizing idx n t d with
  | nil =>
    obtain ⟨rfl, rfl⟩ := run_pure_ok.mp h
    exact ⟨.refl hd ht.closed, ⟨_, rfl⟩, ht⟩
  | cons c rest ih =>
    obtain ⟨-, hroom, hfull, hal⟩ := hal
    have hidx := hidx (List.cons_ne_nil c rest)
    rw [appendTokenBlocks, run_get_bind, run_getOrRaise_bind_ok] at h
    obtain ⟨r, hr, h⟩ := h
    rw [run_raiseIf_bind_ok, run_raiseIf_bind_ok] at h
    obtain ⟨-, hid, h⟩ := h
    obtain ⟨_, d₁, h₁, hids⟩ := run_bind_ok.mp h
    obtain ⟨ids, d₂, h₂, hrest⟩ := run_bind_ok.mp hids
    obtain rfl := getBlockIds_ok h₂
    subst hidx
    obtain ⟨hact, htable, -⟩ := appendBlock_ok hd ht hr hid hroom h₁
    obtain ⟨hact', ⟨ids', heq⟩, htable'⟩ := ih (t := { t with
        blockIds := t.blockIds.set (n / d.gpu.blockSize) (ids.headD 0) }) hact.ready htable
      (hact.blockSize ▸ hal) (fun hne => by
        rw [hact.blockSize]
        exact next_block hd.pos rfl (hfull hne)) hrest
    refine ⟨hact.trans hact', ⟨ids', heq⟩, ?_⟩
    · rw [List.flatten_cons, List.length_append, ← Nat.add_assoc]
      exact htable'

/-- From block `L` on the blocks that tokens may still go to are `Sole`. -/
theorem appendTokenBlocks_costs (idx : Nat) {L : Nat} {chunks : List (List Nat)} (hd : d.Ready)
    (ht : TableBlocks d.gpu t.blocks n) (hal : Aligned d.gpu.blockSize n chunks)
    (hidx : chunks ≠ [] → idx = n / d.gpu.blockSize)
    (hsole : ∀ i, L ≤ i → idx ≤ i → ∀ r, t.blocks[i]? = some r → d.gpu.Sole r) :
    Costs (min (idx + chunks.length) L - idx) (appendTokenBlocks idx chunks t) d := by
  induction chunks generalizing idx n t d with
  | nil => exact .ret
  | cons c rest ih =>
    obtain ⟨-, hroom, hfull, hal⟩ := hal
    have hidx := hidx (List.cons_ne_nil c rest)
    rw [appendTokenBlocks]
    refine .get_bind (.getOrRaise_bind nofun fun r hr => .raiseIf_bind nofun fun _ =>
      .raiseIf_bind nofun fun hid => ?_)
    subst hidx
    obtain ⟨hone, hzero⟩ : d.methods.Costs 1 (d.methods.appendTokenIds r c) d.gpu ∧
        (d.gpu.Sole r → d.methods.Costs 0 (d.methods.appendTokenIds r c) d.gpu) :=
      (lawful d).append_costs hd.inv hd.preds (ht.live r (List.mem_of_getElem? hr)).1
        (ht.successor_room hd.pos hr)
    have hrest : ∀ u d₁, (onGpu fun a => a.appendTokenIds r c).run d = .ok u d₁ →
        Costs (min (n / d.gpu.blockSize + 1 + rest.length) L - (n / d.gpu.blockSize + 1)) (do
          let blockIds ← getBlockIds [r]
          appendTokenBlocks (n / d.gpu.blockSize + 1) rest { t with
            blockIds := t.blockIds.set (n / d.gpu.blockSize) (blockIds.headD 0) }) d₁ := by
      intro u d₁ h₁
      obtain ⟨hact, htable, hkeep⟩ := appendBlock_ok hd ht hr hid hroom h₁
      refine getBlockIds_costs.then_of_zero fun ids d₂ h₂ => ?_
      obtain rfl := getBlockIds_ok h₂
      refine ih (t := { t with
          blockIds := t.blockIds.set (n / d.gpu.blockSize) (ids.headD 0) }) _ hact.ready htable
        (hact.blockSize ▸ hal) (fun hne => ?_) fun i hi hlt q hq => ?_
      · rw [hact.blockSize]
        exact next_block hd.pos rfl (hfull hne)
      · refine hkeep q (List.mem_of_getElem? hq) ?_ (hsole i hi (by omega) q hq)
        rintro rfl
        obtain ⟨hj, hjq⟩ := List.getElem?_eq_some_iff.mp hr
        obtain ⟨hk, hkq⟩ := List.getElem?_eq_some_iff.mp hq
        have := (List.Nodup.getElem_inj_iff ht.nodup).mp (hjq.trans hkq.symm)
        omega
    rw [List.length_cons]
    by_cases hL : L ≤ n / d.gpu.blockSize
    · refine ((onGpu_costs (hzero (hsole _ hL (Nat.le_refl _) r hr))).bind fun u d₁ h₁ => hrest u d₁ h₁).mono ?_
      omega
    · refine ((onGpu_costs hone).bind fun u d₁ h₁ => hrest u d₁ h₁).mono ?_
      omega

/-! ## Appending -/

/-- Without a sliding window nothing is dropped first. -/
theorem appendTokenIds_run {numLookaheadSlots numComputedSlots : Nat}
    (hw : t.maxBlockSlidingWindow = none) :
    (t.appendTokenIds tokenIds numLookaheadSlots numComputedSlots).run d = (do
      raiseUnless (t.blocks ≠ []) assertion
      let t ← t.ensureNumEmptySlots (tokenIds.length + numLookaheadSlots)
      let t ← appendTokenBlocks (t.numFullSlots / t.blockSize) (t.chunkTokenBlocksForAppend tokenIds)
        t
      pure { t with numFullSlots := t.numFullSlots + tokenIds.length } : DeviceM H BlockTable).run d := by
  unfold appendTokenIds
  rw [hw]
  rfl

theorem appendTokenIds_ok {numLookaheadSlots numComputedSlots : Nat} (hd : d.Ready)
    (ht : TableOk d.gpu t)
    (h : (t.appendTokenIds tokenIds numLookaheadSlots numComputedSlots).run d = .ok t' d') :
    Acted d t.blocks d' t'.blocks ∧ TableOk d'.gpu t' := by
  rw [appendTokenIds_run ht.window, run_raiseUnless_bind_ok] at h
  obtain ⟨t₁, d₁, h₁, h⟩ := run_bind_ok.mp h.2
  obtain ⟨t₂, d₂, h₂, h⟩ := run_bind_ok.mp h
  obtain ⟨rfl, rfl⟩ := run_pure_ok.mp h
  obtain ⟨hg, -⟩ := ensureNumEmptySlots_ok hd ht h₁
  have hbs := hg.table.blockSize
  obtain ⟨hal, hflat⟩ := aligned_chunkTokenBlocks (t := t₁) (hbs ▸ hg.acted.ready.pos) tokenIds
  obtain ⟨hact, ⟨ids, rfl⟩, htable⟩ := appendTokenBlocks_ok hg.acted.ready hg.table.blocks
    (hbs ▸ hal) (fun _ => by rw [hbs]) h₂
  rw [hflat] at htable
  exact ⟨hg.acted.trans hact, ⟨hbs.trans hact.blockSize.symm, hg.table.window, htable⟩⟩

omit [DecidableEq H] [Sha256 H] in
/-- What `get_num_blocks_touched_by_append_slots` computes. -/
theorem touched_eq (hpos : 0 < t.blockSize) (tokenIds : List Nat) (k : Nat) :
    t.getNumBlocksTouchedByAppendSlots tokenIds k =
      (cdiv (t.numFullSlots % t.blockSize + (tokenIds.length + k)) t.blockSize : Nat) := by
  have hb : (0 : Int) < t.blockSize := Int.natCast_pos.mpr hpos
  have hcast : ((t.numFullSlots % t.blockSize : Nat) : Int) =
      (t.numFullSlots : Int) % t.blockSize := Int.natCast_emod _ _
  obtain ⟨c, hc⟩ : ∃ c, c = t.numFullSlots % t.blockSize + (tokenIds.length + k) := ⟨_, rfl⟩
  have hargs : -((tokenIds.length + k : Int) -
      (t.blockSize - (t.numFullSlots : Int) % t.blockSize)) = -(c : Int) + 1 * t.blockSize := by
    rw [hc]
    push_cast
    omega
  rw [getNumBlocksTouchedByAppendSlots, ← hc]
  rw [hargs, Int.add_mul_ediv_right _ _ hb.ne', neg_ediv_eq hpos]
  omega

/-- The closed form is the number of token blocks, unless nothing is appended to a partly filled
block. The lookahead slots are any tokens. -/
theorem touched_eq_chunks_iff (t : BlockTable) (hpos : 0 < t.blockSize) (tokenIds : List Nat)
    (k lookahead : Nat) :
    t.getNumBlocksTouchedByAppendSlots tokenIds k =
        (t.chunkTokenBlocksForAppend (tokenIds ++ List.replicate k lookahead)).length ↔
      ¬ (tokenIds = [] ∧ k = 0 ∧ t.numFullSlots % t.blockSize ≠ 0) := by
  rw [touched_eq hpos, Int.ofNat_inj]
  by_cases hne : tokenIds ++ List.replicate k lookahead = []
  · obtain ⟨rfl, hk⟩ := List.append_eq_nil_iff.mp hne
    rw [List.replicate_eq_nil_iff] at hk
    subst hk
    rw [hne, BlockTable.chunkTokenBlocksForAppend, if_pos rfl, List.length_nil, List.length_nil]
    simp only [Nat.add_zero, true_and, ne_eq, not_not]
    constructor
    · intro hzero
      by_contra hmod
      have := cdiv_pos hpos (Nat.pos_of_ne_zero hmod)
      omega
    · intro hmod
      rw [hmod, cdiv_zero hpos]
  · rw [length_chunkTokenBlocks hpos hne, List.length_append, List.length_replicate]
    refine ⟨fun _ => ?_, fun _ => rfl⟩
    rintro ⟨rfl, rfl, -⟩
    exact hne rfl

/-- Three tokens in blocks of four. -/
def partlyFilled : BlockTable := ⟨4, [⟨.gpu, 0⟩], [0], 3, none, []⟩

/-- Appending nothing to a partly filled block counts one block and touches none. -/
theorem touched_of_nothing : ¬ ∀ (t : BlockTable) (tokenIds : List Nat) (k lookahead : Nat),
    0 < t.blockSize → t.getNumBlocksTouchedByAppendSlots tokenIds k =
      (t.chunkTokenBlocksForAppend (tokenIds ++ List.replicate k lookahead)).length := by
  intro h
  exact absurd (h partlyFilled [] 0 0 (by decide)) (by decide)

/-- Two tokens and a lookahead slot. -/
theorem touched_eq_chunks_two :
    partlyFilled.getNumBlocksTouchedByAppendSlots [5, 6] 1 =
      (partlyFilled.chunkTokenBlocksForAppend ([5, 6] ++ List.replicate 1 0)).length ↔
    ¬ ([5, 6] = [] ∧ 1 = 0 ∧ partlyFilled.numFullSlots % partlyFilled.blockSize ≠ 0) :=
  touched_eq_chunks_iff partlyFilled (by decide) [5, 6] 1 0

/-- The added blocks, and the blocks that were there and get tokens. -/
theorem numAdded_add_le (hpos : 0 < t.blockSize) (hfits : t.numFullSlots ≤ t.blocks.length * t.blockSize)
    (m k : Nat) : t.numAdded (m + k) +
      (min (t.numFullSlots / t.blockSize + cdiv (t.numFullSlots % t.blockSize + m) t.blockSize)
        t.blocks.length - t.numFullSlots / t.blockSize) ≤
      cdiv (t.numFullSlots % t.blockSize + (m + k)) t.blockSize := by
  have hdiv := Nat.div_add_mod t.numFullSlots t.blockSize
  rw [Nat.mul_comm] at hdiv
  by_cases hle : t.numFullSlots + (m + k) ≤ t.blocks.length * t.blockSize
  · rw [numAdded, Nat.sub_eq_zero_of_le hle, cdiv_zero hpos]
    have := cdiv_mono (n := t.numFullSlots % t.blockSize + m) hpos
      (Nat.add_le_add_left (Nat.le_add_right m k) (t.numFullSlots % t.blockSize))
    omega
  · have h₁ := cdiv_add_mul (n := t.numFullSlots + (m + k) - t.blocks.length * t.blockSize) hpos
      t.blocks.length
    have h₂ := cdiv_add_mul (n := t.numFullSlots % t.blockSize + (m + k)) hpos
      (t.numFullSlots / t.blockSize)
    have heq : t.numFullSlots + (m + k) - t.blocks.length * t.blockSize +
        t.blocks.length * t.blockSize = t.numFullSlots % t.blockSize + (m + k) +
          t.numFullSlots / t.blockSize * t.blockSize := by omega
    rw [heq, h₂] at h₁
    have hq : t.numFullSlots / t.blockSize ≤ t.blocks.length :=
      Nat.div_le_of_le_mul (by rw [Nat.mul_comm]; exact hfits)
    rw [numAdded]
    omega

theorem appendTokenIds_costs {numLookaheadSlots numComputedSlots : Nat} (hd : d.Ready)
    (ht : TableOk d.gpu t) :
    Costs (cdiv (t.numFullSlots % t.blockSize + (tokenIds.length + numLookaheadSlots)) t.blockSize)
      (t.appendTokenIds tokenIds numLookaheadSlots numComputedSlots) d := by
  have hpos : 0 < t.blockSize := ht.blockSize ▸ hd.pos
  refine .of_run (appendTokenIds_run ht.window) ?_ (Nat.le_refl _)
  refine .raiseUnless_bind nofun fun _ => ?_
  refine Spends.mono ((ensureNumEmptySlots_costs hd ht).bind (l := min (t.numFullSlots / t.blockSize +
    cdiv (t.numFullSlots % t.blockSize + tokenIds.length) t.blockSize) t.blocks.length -
      t.numFullSlots / t.blockSize) fun t₁ d₁ h₁ => ?_) ?_
  · obtain ⟨hg, -⟩ := ensureNumEmptySlots_ok hd ht h₁
    have hbs := hg.table.blockSize
    have hpos₁ : 0 < t₁.blockSize := hbs ▸ hg.acted.ready.pos
    have hsame : t₁.blockSize = t.blockSize := by rw [hbs, hg.acted.blockSize, ht.blockSize]
    obtain ⟨hal, -⟩ := aligned_chunkTokenBlocks hpos₁ tokenIds
    have hcost := appendTokenBlocks_costs (t₁.numFullSlots / t₁.blockSize) hg.acted.ready
      hg.table.blocks (hbs ▸ hal) (fun _ => by rw [hbs]) fun i hi _ r hr => hg.sole i hi r hr
    have hlen := length_chunkTokenBlocks_le hpos₁ tokenIds
    rw [hg.numFullSlots, hsame] at hcost hlen ⊢
    exact (hcost.bind_zero fun _ _ _ => .ret).mono (by omega)
  · exact numAdded_add_le hpos (ht.blockSize ▸ ht.blocks.fits) tokenIds.length numLookaheadSlots

/-! ## Freeing -/

/-- A block on the GPU is freed; one on the CPU is not the GPU's to free. -/
theorem freeBlock_ok {r : Ref} (hinv : gpuInv d.enableCaching d.gpu) (hnull : d.nullBlock = none)
    (hr : r ∈ d.gpu.live) (hpool : r.pool = d.gpu.device)
    (h : (CpuGpuBlockAllocator.free r).run d = .ok () d') :
    d'.enableCaching = d.enableCaching ∧ d'.nullBlock = none ∧ gpuInv d.enableCaching d'.gpu ∧
      (∀ q, q ∈ d'.gpu.live ↔ q ∈ d.gpu.live ∧ (q = r → (d.gpu.heap q).blockId = none)) ∧
      Frame d'.gpu.live d.gpu d'.gpu := by
  rw [CpuGpuBlockAllocator.free, run_get_bind, if_neg (by rw [hnull]; simp), run_ite_ok] at h
  rcases h with ⟨hid, h⟩ | ⟨hid, h⟩
  · obtain ⟨s, hs, rfl⟩ := onGpu_ok.mp h
    obtain ⟨hinv', hlive, hframe⟩ := (lawful d).free hinv (own_of_inv hinv hr hpool) hs
    refine ⟨rfl, hnull, hinv', fun q => ?_, hlive ▸ hframe⟩
    show q ∈ s.live ↔ _
    rw [hlive, Finset.mem_erase, and_comm]
    refine and_congr_right fun _ => ⟨fun hne he => absurd he hne, ?_⟩
    rintro hnone rfl
    rw [hnone rfl] at hid
    cases hid
  · rw [run_raiseIf_bind_ok] at h
    obtain ⟨s, rfl⟩ := onCpu_ok h.2
    refine ⟨rfl, hnull, hinv, fun q => ?_, .refl _ _⟩
    exact ⟨fun hq => ⟨hq, fun he => by simpa [he] using hid⟩, fun hq => hq.1⟩

theorem freeBlocks_ok {rs : List Ref} (hinv : gpuInv d.enableCaching d.gpu)
    (hnull : d.nullBlock = none) (hnodup : rs.Nodup)
    (hlive : ∀ r ∈ rs, r ∈ d.gpu.live ∧ r.pool = d.gpu.device)
    (h : (forM rs CpuGpuBlockAllocator.free : DeviceM H PUnit).run d = .ok ⟨⟩ d') :
    d'.enableCaching = d.enableCaching ∧ d'.nullBlock = none ∧ gpuInv d.enableCaching d'.gpu ∧
      (∀ q, q ∈ d'.gpu.live ↔ q ∈ d.gpu.live ∧ (q ∈ rs → (d.gpu.heap q).blockId = none)) ∧
      Frame d'.gpu.live d.gpu d'.gpu := by
  induction rs generalizing d with
  | nil =>
    rw [List.forM_nil] at h
    obtain ⟨-, rfl⟩ := run_pure_ok.mp h
    exact ⟨rfl, hnull, hinv, fun q => by simp, .refl _ _⟩
  | cons r rest ih =>
    rw [List.forM_cons] at h
    obtain ⟨_, d₁, h₁, h⟩ := run_bind_ok.mp h
    obtain ⟨hr, hpool⟩ := hlive r List.mem_cons_self
    obtain ⟨hnr, hnodup⟩ := List.nodup_cons.mp hnodup
    obtain ⟨hc₁, hnull₁, hinv₁, hlive₁, hframe₁⟩ := freeBlock_ok hinv hnull hr hpool h₁
    have hstay : ∀ q ∈ rest, q ∈ d.gpu.live → q ∈ d₁.gpu.live := fun q hq hl =>
      (hlive₁ q).mpr ⟨hl, fun he => absurd (he ▸ hq) hnr⟩
    obtain ⟨hc, hnull', hinv', hlive', hframe'⟩ := ih (hc₁ ▸ hinv₁) hnull₁ hnodup (fun q hq => by
      obtain ⟨hql, hqp⟩ := hlive q (List.mem_cons_of_mem _ hq)
      exact ⟨hstay q hq hql, hqp.trans hframe₁.device.symm⟩) h
    have hsub : d'.gpu.live ⊆ d₁.gpu.live := fun q hq => ((hlive' q).mp hq).1
    refine ⟨hc.trans hc₁, hnull', hc₁ ▸ hinv', fun q => ?_, (hframe₁.mono hsub).trans hframe'
      (Finset.Subset.refl _)⟩
    rw [hlive', hlive₁, and_assoc, List.mem_cons]
    refine and_congr_right fun hq => ⟨fun ⟨h₁, h₂⟩ he => ?_, fun h₁ => ⟨fun he => h₁ (.inl he), ?_⟩⟩
    · rcases he with he | hm
      · exact h₁ he
      · rw [← hframe₁.blockId (hstay q hm hq)]
        exact h₂ hm
    · intro hm
      rw [hframe₁.blockId (hstay q hm hq)]
      exact h₁ (.inr hm)

theorem free_ok (hd : d.Ready) (ht : TableOk d.gpu t) (h : (t.free).run d = .ok () d') :
    Acted d t.blocks d' [] := by
  obtain ⟨hc, hnull, hinv, hlive, hframe⟩ := freeBlocks_ok hd.inv hd.nullBlock ht.blocks.nodup
    ht.blocks.live h
  refine ⟨hc, ⟨hc ▸ hinv, fun q hq p hqp => ?_, hframe.blockSize ▸ hd.pos, hnull⟩,
    ⟨hframe.mono ?_, ?_, fun r hr => absurd hr List.not_mem_nil, fun q hq hno p hqp ho => ?_⟩⟩
  · -- If `p` was freed, `q` is in the table, is on the GPU, and was freed too.
    obtain ⟨hql, hqn⟩ := (hlive q).mp hq
    have hqs : (d.gpu.heap q).prevBlock = some p := (hframe.content hq).prevBlock.trans hqp
    refine (hlive p).mpr ⟨hd.preds q hql p hqs, fun hp => ?_⟩
    by_contra hid
    have hqb := ht.blocks.next q hql p hp hqs
    exact ht.blocks.resident q hqb p hqs hid (hqn hqb)
  all_goals
    have hsub : others d.gpu t.blocks ⊆ d'.gpu.live := fun q hq => by
      obtain ⟨hql, hqb⟩ := mem_others.mp hq
      exact (hlive q).mpr ⟨hql, fun hm => absurd hm hqb⟩
  · exact hsub
  · exact hsub
  · have hqb : q ∈ t.blocks := by
      by_contra hqb
      exact hno (mem_others.mpr ⟨((hlive q).mp hq).1, hqb⟩)
    exact (mem_others.mp ho).2 (ht.blocks.prev_mem hqb ((hframe.content hq).prevBlock.trans hqp))

/-! ## Swapping -/

/-- The blocks of a table moved. -/
theorem moved_ok {held : Bool} (hd : d.Ready) (ht : TableOk d.gpu t)
    (hc : d'.enableCaching = d.enableCaching) (hnull : d'.nullBlock = d.nullBlock)
    (hinv : gpuInv d.enableCaching d'.gpu) (h : Moved d.gpu t.blocks held d'.gpu) :
    Acted d t.blocks d' t.blocks ∧ TableOk d'.gpu t := by
  have htable := ht.blocks.moved h
  exact ⟨⟨hc, ⟨hc ▸ hinv, h.predsLive hd.preds, h.frame.blockSize ▸ hd.pos, hnull.trans hd.nullBlock⟩,
    .of_live h.live h.frame htable.closed⟩, ht.blockSize.trans h.frame.blockSize.symm, ht.window,
    htable⟩

theorem swapOut_ok {mapping : Dict Nat Nat} (hd : d.Ready) (ht : TableOk d.gpu t)
    (h : (CpuGpuBlockAllocator.swapOut t.blocks).run d = .ok mapping d') :
    Acted d t.blocks d' t.blocks ∧ TableOk d'.gpu t := by
  rw [CpuGpuBlockAllocator.swapOut, run_get_bind, run_raiseIf_bind_ok] at h
  obtain ⟨ids, d₁, h₁, h₂⟩ := run_bind_ok.mp h.2
  obtain rfl := getBlockIds_ok h₁
  obtain ⟨_, d₂, h₃, h₄⟩ := run_bind_ok.mp h₂
  obtain ⟨s, hs, rfl⟩ := onGpu_ok.mp h₃
  rw [run_modify_bind] at h₄
  obtain ⟨_, d₃, h₅, h₆⟩ := run_bind_ok.mp h₄
  obtain ⟨s', rfl⟩ := onCpu_ok h₅
  obtain ⟨ids', d₄, h₇, h₈⟩ := run_bind_ok.mp h₆
  obtain rfl := getBlockIds_ok h₇
  obtain ⟨rfl, rfl⟩ := run_pure_ok.mp h₈
  obtain ⟨hinv, hmoved⟩ := (lawful d₁).swapOut hd.inv (fun r hr => (ht.blocks.live r hr).1) hs
  exact moved_ok hd ht rfl rfl hinv hmoved

theorem swapIn_ok {mapping : Dict Nat Nat} (hd : d.Ready) (ht : TableOk d.gpu t)
    (h : (CpuGpuBlockAllocator.swapIn t.blocks).run d = .ok mapping d') :
    Acted d t.blocks d' t.blocks ∧ TableOk d'.gpu t := by
  rw [CpuGpuBlockAllocator.swapIn, run_get_bind, run_raiseIf_bind_ok] at h
  obtain ⟨ids, d₁, h₁, h₂⟩ := run_bind_ok.mp h.2
  obtain rfl := getBlockIds_ok h₁
  rw [run_raiseIf_bind_ok] at h₂
  obtain ⟨hnone, h₂⟩ := h₂
  obtain ⟨_, d₂, h₃, h₄⟩ := run_bind_ok.mp h₂
  obtain ⟨s', rfl⟩ := onCpu_ok h₃
  rw [run_modify_bind] at h₄
  obtain ⟨_, d₃, h₅, h₆⟩ := run_bind_ok.mp h₄
  obtain ⟨s, hs, rfl⟩ := onGpu_ok.mp h₅
  obtain ⟨ids', d₄, h₇, h₈⟩ := run_bind_ok.mp h₆
  obtain rfl := getBlockIds_ok h₇
  obtain ⟨rfl, rfl⟩ := run_pure_ok.mp h₈
  obtain ⟨hinv, hmoved⟩ := (lawful d₁).swapIn hd.inv hd.preds (fun r hr =>
    ⟨(ht.blocks.live r hr).1, by
      by_contra hid
      exact hnone ⟨r, hr, Option.isSome_iff_ne_none.mpr hid⟩⟩) ht.blocks.nodup hs
  exact moved_ok hd ht rfl rfl hinv hmoved

end BlockTable

end Bi100
