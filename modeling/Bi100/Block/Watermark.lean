import Bi100.Block.Admission

/-!
# Admission and the watermark

`can_allocate` counts the blocks of a prompt, but with a sliding window it counts no more than the
blocks of the window. `allocate` allocates all of them.

- `allocate_uses`: with a sliding window, `allocate` uses the blocks of the whole prompt.
- `can_allocate_iff`: when `allocate` finds its blocks and leaves the watermark.
-/

namespace Bi100

open Py

variable {H : Type}

/-! ## The naive allocator -/

namespace NaiveBlockAllocator

open PrefixCachingBlockAllocator (refIncr_ok getBlockId_bind_ok refGet_bind_ok setBlockId_ok
  poolInit)

variable {bs n : Nat} {s : AllocState H} {r : Ref}

/-- The call uses exactly `n` free ids, or there are not enough of them. -/
abbrev Draws {α : Type} (n : Nat) (Q : α → AllocState H → Prop) (x : AllocM H α)
    (s : AllocState H) : Prop :=
  Py.Draws (fun s => s.freeBlockIndices.length) .noFreeBlocksError n Q x s

/-- There are ids, so the pool is not empty. -/
def Stocked (bs : Nat) (s : AllocState H) : Prop := FreeOk bs s ∧ s.allBlockIds ≠ []

theorem allocateBlockId_draws (hs : FreeOk bs s) :
    Draws 1 (fun id s' => Stocked bs s' ∧ id ∈ s'.allBlockIds ∧ s'.refcounts id = 1)
      allocateBlockId s := by
  cases hf : s.freeBlockIndices with
  | nil =>
    refine .inl ⟨by simp [hf], s, ?_⟩
    rw [allocateBlockId, run_get_bind, hf]
    rfl
  | cons id rest =>
    have hid : id ∈ s.freeBlockIndices := hf ▸ List.mem_cons_self
    have hrun : (allocateBlockId (H := H)).run s = .ok id
        (withRefcount { s with freeBlockIndices := rest } id (s.refcounts id + 1)) := by
      rw [allocateBlockId, run_get_bind, hf]
      show (set _ >>= _ : AllocM H Nat).run s = _
      rw [run_set_bind, run_bind_ok]
      exact ⟨_, _, refIncr_ok.mpr ⟨hs.known id hid, rfl, rfl⟩, rfl⟩
    refine .inr ⟨id, _, hrun, by simp [hf, withRefcount], ⟨FreeOk.take hs hf, ?_⟩, hs.known id hid, ?_⟩
    · exact List.ne_nil_of_mem (hs.known id hid)
    · show Function.update s.refcounts id _ id = 1
      rw [Function.update_self, hs.unused id hid]

/-- A block for an id that was drawn. -/
theorem poolInit_draws {prevBlock : Option Ref} {tokenIds : List Nat} {id : Nat}
    (hs : Stocked bs s) (hlen : tokenIds.length ≤ bs) :
    Draws 0 (fun r s' => Stocked bs s' ∧ s'.allBlockIds = s.allBlockIds ∧
      s'.refcounts = s.refcounts ∧ (s'.heap r).blockId = some id ∧ (s'.heap r).tokenIds = tokenIds)
      (poolInit prevBlock tokenIds (some id)) s := by
  have hpos := hs.1.pool hs.2
  have hids : (if s.poolFreeIds = [] then List.range' s.poolSize s.poolSize else s.poolFreeIds) ≠
      [] := by
    split
    · rw [Ne, List.range'_eq_nil_iff]
      exact hpos.ne'
    · next h => exact h
  obtain ⟨poolId, hpool⟩ := Option.ne_none_iff_exists'.mp (mt List.head?_eq_none_iff.mp hids)
  have hrun : ∃ s', (poolInit prevBlock tokenIds (some id)).run s = .ok ⟨s.device, poolId⟩ s' ∧
      s'.freeBlockIndices = s.freeBlockIndices ∧ s'.allBlockIds = s.allBlockIds ∧
      s'.refcounts = s.refcounts ∧ (s'.heap ⟨s.device, poolId⟩).blockId = some id ∧
      (s'.heap ⟨s.device, poolId⟩).tokenIds = tokenIds := by
    rw [poolInit, run_get_bind]
    dsimp only
    rw [hpool, run_bind_of_ok (run_getOrRaise_ok.mpr ⟨rfl, rfl⟩), run_raiseUnless_bind,
      if_pos (hs.1.blockSize ▸ hlen), run_set_bind]
    refine ⟨_, rfl, rfl, rfl, rfl, ?_, ?_⟩
    · exact congrArg PrefixCachingBlock.blockId (Function.update_self _ _ s.heap)
    · exact congrArg PrefixCachingBlock.tokenIds (Function.update_self _ _ s.heap)
  obtain ⟨s', hrun, hfree, hall, href, hid, htok⟩ := hrun
  refine .inr ⟨_, s', hrun, congrArg List.length hfree.symm, ⟨poolInit_keeps s _ s' hs.1 hrun, hall ▸ hs.2⟩, hall,
    href, hid, htok⟩

theorem allocateBlockIds_draws (hs : Stocked bs s) :
    Draws n (fun ids s' => Stocked bs s' ∧ ids.length = n) (allocateBlockIds n) s := by
  induction n generalizing s with
  | zero => exact .ret ⟨hs, rfl⟩
  | succ n ih =>
    rw [allocateBlockIds, Nat.add_comm n 1]
    refine (allocateBlockId_draws hs.1).bind fun id s₁ h₁ => ?_
    refine (ih h₁.1).bind_zero fun ids s₂ h₂ => .ret ⟨h₂.1, ?_⟩
    rw [List.length_cons, h₂.2, Nat.add_comm]

theorem initBlocks_draws {prevBlock : Option Ref} {l : List (List Nat × Nat)}
    (hs : Stocked bs s) (hlen : ∀ x ∈ l, x.1.length ≤ bs) :
    Draws 0 (fun _ s' => Stocked bs s') (initBlocks prevBlock l) s := by
  induction l generalizing prevBlock s with
  | nil => exact .ret hs
  | cons x rest ih =>
    refine (poolInit_draws hs (hlen x List.mem_cons_self)).bind_zero fun r s₁ h₁ => ?_
    exact (ih h₁.1 fun y hy => hlen y (List.mem_cons_of_mem x hy)).bind_zero fun _ _ h₂ => .ret h₂

/-- The ids of the blocks, and then the blocks. -/
theorem allocateImmutableBlocks_draws {prevBlock : Option Ref} {tokens : List (List Nat)}
    (hs : FreeOk bs s) (hne : tokens ≠ []) (hlen : ∀ l ∈ tokens, l.length ≤ bs) :
    Draws tokens.length (fun _ s' => Stocked bs s') (allocateImmutableBlocks prevBlock tokens) s := by
  unfold allocateImmutableBlocks
  obtain ⟨l, rest, rfl⟩ := List.exists_cons_of_ne_nil hne
  have hids : Draws (l :: rest).length (fun _ s' => Stocked bs s')
      (allocateBlockIds (l :: rest).length) s := by
    rw [List.length_cons, allocateBlockIds, Nat.add_comm]
    exact (allocateBlockId_draws hs).bind fun id s₁ h₁ =>
      (allocateBlockIds_draws h₁.1).bind_zero fun ids s₂ h₂ => .ret h₂.1
  refine hids.bind_zero fun ids s₁ h₁ => initBlocks_draws h₁ fun x hx => ?_
  exact hlen x.1 (List.of_mem_zip hx).1

/-- A new block. -/
theorem allocateMutableBlock_draws {prevBlock : Option Ref} (hs : FreeOk bs s) :
    Draws 1 (fun r s' => Stocked bs s' ∧ ∃ id ∈ s'.allBlockIds, s'.refcounts id = 1 ∧
      (s'.heap r).blockId = some id ∧ (s'.heap r).tokenIds = [])
      (allocateMutableBlock prevBlock) s := by
  refine (allocateBlockId_draws hs).bind_zero fun id s₁ ⟨h₁, hid, href⟩ => ?_
  have hnil : ([] : List Nat).length ≤ bs := Nat.zero_le bs
  refine (poolInit_draws h₁ hnil).imp fun r s₂ ⟨h₂, hall, hcounts, hblock, htok⟩ => ?_
  exact ⟨h₂, id, hall ▸ hid, hcounts ▸ href, hblock, htok⟩

/-- A new block is not copied when it gets its tokens. -/
theorem appendTokenIds_draws {tokenIds : List Nat} {id : Nat} (hs : Stocked bs s)
    (hid : id ∈ s.allBlockIds) (href : s.refcounts id = 1) (hblock : (s.heap r).blockId = some id)
    (htok : (s.heap r).tokenIds = []) (hlen : tokenIds.length ≤ bs) :
    Draws 0 (fun _ s' => Stocked bs s') (appendTokenIds r tokenIds) s := by
  have hrun : ∃ s', (appendTokenIds r tokenIds).run s = .ok () s' ∧
      s'.freeBlockIndices = s.freeBlockIndices ∧ s'.allBlockIds = s.allBlockIds := by
    rw [appendTokenIds, run_get_bind, run_raiseUnless_bind, if_pos, run_set_bind]
    · simp only [hblock]
      have hcow : (cowBlockIfNotAppendable r).run
          (s.updateBlock r fun b => { b with tokenIds := b.tokenIds ++ tokenIds }) =
          .ok id (s.updateBlock r fun b => { b with tokenIds := b.tokenIds ++ tokenIds }) := by
        rw [cowBlockIfNotAppendable, getBlockId_bind_ok]
        refine ⟨id, by rw [AllocState.updateBlock_self, hblock], ?_⟩
        refine refGet_bind_ok.mpr ⟨hid, ?_⟩
        exact run_ite_ok.mpr (.inl ⟨href.le, rfl⟩)
      exact ⟨_, run_bind_ok.mpr ⟨id, _, hcow, setBlockId_ok.mpr rfl⟩, rfl, rfl⟩
    · rw [htok, hs.1.blockSize]
      exact hlen
  obtain ⟨s', hrun, hfree, hall⟩ := hrun
  exact .inr ⟨_, s', hrun, congrArg List.length hfree.symm, appendTokenIds_keeps s _ s' hs.1 hrun,
    hall ▸ hs.2⟩

end NaiveBlockAllocator

open CpuGpuBlockAllocator BlockSpaceManager NaiveBlockAllocator

variable [DecidableEq H] [Sha256 H]

/-! ## The devices -/

namespace CpuGpuBlockAllocator

variable {d : CpuGpuBlockAllocator H} {n bs : Nat}

theorem methods_naive (h : d.enableCaching = false) : d.methods = NaiveBlockAllocator.methods := by
  rw [methods, h, if_neg Bool.false_ne_true]

/-- On the GPU, without prefix caching. -/
theorem onGpu_draws {α : Type} {Q : α → AllocState H → Prop} {x : BlockAllocator H → AllocM H α}
    (hd : d.enableCaching = false)
    (h : NaiveBlockAllocator.Draws n Q (x NaiveBlockAllocator.methods) d.gpu) :
    Py.Draws numFree .noFreeBlocksError n
      (fun a d' => d'.enableCaching = false ∧ Q a d'.gpu) (onGpu x) d := by
  have hfree : ∀ s, numFree { d with gpu := s } = s.freeBlockIndices.length := fun s => by
    rw [numFree, methods_naive (d := { d with gpu := s }) hd]
    rfl
  rcases h with ⟨hlt, s', hr⟩ | ⟨a, s', hr, hn, hQ⟩
  · refine .inl ⟨(hfree d.gpu).trans_lt hlt, _, onGpu_error.mpr ⟨s', ?_, rfl⟩⟩
    rw [methods_naive hd]
    exact hr
  · refine .inr ⟨a, _, onGpu_ok.mpr ⟨s', ?_, rfl⟩, ?_, hd, hQ⟩
    · rw [methods_naive hd]
      exact hr
    · calc numFree d = d.gpu.freeBlockIndices.length := hfree d.gpu
        _ = s'.freeBlockIndices.length + n := hn
        _ = _ := by rw [hfree]

/-- A call that neither uses nor gives back ids. -/
theorem onGpu_unspent {α : Type} {x : BlockAllocator H → AllocM H α}
    (h : Unspent d.methods.getNumFreeBlocks .noFreeBlocksError (x d.methods) d.gpu) :
    Unspent numFree .noFreeBlocksError (onGpu x) d := by
  refine .of_same (fun a d' hr => ?_) fun e d' hr => ?_
  · obtain ⟨s, hs, rfl⟩ := onGpu_ok.mp hr
    exact h.ok hs
  · obtain ⟨s, hs, rfl⟩ := onGpu_error.mp hr
    exact h.error hs

/-- A call on the CPU that does not want for ids. -/
theorem onCpu_unspent {α : Type} {x : BlockAllocator H → AllocM H α}
    (h : Spends (fun _ => 0) .noFreeBlocksError 0 (x d.methods) d.cpu) :
    Unspent numFree .noFreeBlocksError (onCpu x) d := by
  refine .of_same (fun a d' hr => ?_) fun e d' hr => ?_
  · obtain ⟨s, rfl⟩ := onCpu_ok hr
    rfl
  · unfold onCpu EStateM.run at hr
    dsimp only at hr
    cases hx : x d.methods d.cpu with
    | ok a s =>
      rw [hx] at hr
      cases hr
    | error e' s =>
      rw [hx] at hr
      cases hr
      exact ⟨rfl, fun he => absurd (h.raises s (he ▸ hx)) (Nat.lt_irrefl 0)⟩

/-- The blocks of a fork have the ids of the source's blocks. -/
theorem fork_unspent {r : Ref} (hd : d.enableCaching = false) :
    Unspent numFree .noFreeBlocksError (fork r) d := by
  have hx : ∀ {m : AllocState H → Nat} [ByIds m] {s},
      Spends m .noFreeBlocksError 0 ((d.methods).fork r) s := by
    rw [methods_naive hd]
    exact NaiveBlockAllocator.fork_costs
  unfold fork
  refine fun f => .get_bind (.raiseIf_bind nofun fun _ => ?_)
  split
  · refine onGpu_unspent (x := fun a => a.fork r) (fun g => ?_) f
    have : ByIds fun s => g (d.methods.getNumFreeBlocks s) :=
      ⟨fun s t hf he => congrArg g (ByIds.eq s t hf he)⟩
    exact hx
  · have : ByIds (H := H) fun _ => 0 := ⟨fun _ _ _ _ => rfl⟩
    exact .raiseIf_bind nofun fun _ => onCpu_unspent (x := fun a => a.fork r) hx f

end CpuGpuBlockAllocator

/-! ## Tables -/

namespace BlockTable

variable {d : CpuGpuBlockAllocator H} {t : BlockTable} {bs : Nat} {tokenIds : List Nat}

theorem fork_unspent (hd : d.enableCaching = false) :
    Unspent numFree .noFreeBlocksError t.fork d := fun f =>
  .getOrRaise_bind nofun fun _ _ => (CpuGpuBlockAllocator.fork_unspent hd f).then_of_zero
    fun _ _ _ => .then_of_zero (.get_bind (.getOrRaise _ nofun)) fun _ _ _ => .get_bind .ret

/-- The blocks of the tokens, full or not. -/
theorem allocateBlocksForTokenIds_draws (hd : DeviceOk false bs d) (hpos : 0 < bs) (hbs : t.blockSize = bs) :
    Py.Draws numFree .noFreeBlocksError (cdiv tokenIds.length bs)
      (fun _ d' => d'.enableCaching = false) (t.allocateBlocksForTokenIds tokenIds) d := by
  refine .of_run (allocateBlocks_run t tokenIds d) rfl ?_
  subst hbs
  obtain ⟨hsplit, hone⟩ := chunkList_split hpos tokenIds
  have hlen := congrArg List.length hsplit
  rw [List.length_append, length_chunkList] at hlen
  rw [← hlen]
  have hfull : Py.Draws numFree .noFreeBlocksError
      ((chunkList tokenIds t.blockSize).filter (·.length = t.blockSize)).length
      (fun _ d' => DeviceOk false t.blockSize d') (if (chunkList tokenIds t.blockSize).filter
        (·.length = t.blockSize) = [] then pure [] else onGpu fun a => a.allocateImmutableBlocks
          t.cacheNamespace none ((chunkList tokenIds t.blockSize).filter (·.length = t.blockSize)) :
        DeviceM H (List Ref)) d := by
    split
    · next h =>
      rw [h]
      exact .ret hd
    · next h =>
      refine (onGpu_draws hd.caching (x := fun a => a.allocateImmutableBlocks t.cacheNamespace none _)
        (allocateImmutableBlocks_draws (hd.free rfl) h fun l hl => ?_)).imp fun _ d' hd' =>
          ⟨hd'.1, fun _ => hd'.2.1⟩
      exact (of_decide_eq_true (List.mem_filter.mp hl).2).le
  refine hfull.bind fun blocks d₁ hd₁ => ?_
  split
  · next htail =>
    rw [htail]
    exact .ret hd₁.caching
  · next l rest htail =>
    have hl : l.length ≤ t.blockSize := by
      have hmem : l ∈ chunkList tokenIds t.blockSize :=
        (List.mem_filter.mp (htail ▸ List.mem_cons_self)).1
      obtain ⟨i, hi⟩ := List.mem_iff_getElem?.mp hmem
      rw [length_chunk hi]
      exact Nat.min_le_left _ _
    rw [htail, List.length_cons] at hone ⊢
    obtain rfl := List.length_eq_zero_iff.mp (Nat.le_zero.mp (Nat.le_of_succ_le_succ hone))
    rw [List.length_nil]
    refine .of_run (run_raiseUnless_bind.trans (if_pos rfl)) rfl ?_
    refine (onGpu_draws hd₁.caching (x := fun a => a.allocateMutableBlock _ _)
      (allocateMutableBlock_draws (hd₁.free rfl))).bind_zero
        fun r d₂ hr => ?_
    obtain ⟨hd₂, hst, id, hid, href, hblock, htok⟩ := hr
    exact (onGpu_draws hd₂ (x := fun a => a.appendTokenIds _ _)
      (appendTokenIds_draws hst hid href hblock htok hl)).bind_zero fun _ _ hd₃ => .ret hd₃.1

theorem allocate_uses (hd : DeviceOk false bs d) (hpos : 0 < bs) (hbs : t.blockSize = bs)
    (hblocks : t.blocks = []) (hne : tokenIds ≠ []) :
    Uses numFree .noFreeBlocksError (cdiv tokenIds.length bs) (t.allocate tokenIds) d := by
  unfold allocate
  refine .of_run (run_raiseUnless_bind.trans (if_pos hblocks)) rfl ?_
  refine .of_run (run_raiseUnless_bind.trans (if_pos hne)) rfl ?_
  exact (allocateBlocksForTokenIds_draws hd hpos hbs).uses fun _ _ _ _ =>
    .then_of_zero (.get_bind (.getOrRaise _ nofun)) fun _ _ _ => .ret

end BlockTable

/-! ## The block manager -/

namespace BlockSpaceManager

variable {m : BlockSpaceManager H} {g : SequenceGroup} {seq : Sequence} {t : BlockTable} {bs k n : Nat}
  {ns encoderNs : Bytes}

theorem onAllocator_leaves {α : Type} {x : DeviceM H α} {e : Err} {w : Nat} :
    Leaves getNumFreeGpuBlocks e w (onAllocator x) m ↔ Leaves numFree e w x m.blockAllocator := by
  cases hx : x.run m.blockAllocator with
  | ok a d =>
    rw [leaves_ok_iff hx, leaves_ok_iff (onAllocator_ok.mpr ⟨d, hx, rfl⟩)]
    rfl
  | error e d =>
    rw [leaves_error_iff hx, leaves_error_iff (onAllocator_error.mpr ⟨d, hx, rfl⟩)]
    rfl

theorem onAllocator_uses {α : Type} {x : DeviceM H α} {e : Err}
    (h : Uses numFree e n x m.blockAllocator) : Uses getNumFreeGpuBlocks e n (onAllocator x) m :=
  fun w => onAllocator_leaves.trans (h w)

theorem onAllocator_unspent {α : Type} {x : DeviceM H α}
    (h : Unspent numFree .noFreeBlocksError x m.blockAllocator) :
    Unspent getNumFreeGpuBlocks .noFreeBlocksError (onAllocator x) m := by
  refine .of_same (fun a m' hr => ?_) fun e m' hr => ?_
  · obtain ⟨d, hd, rfl⟩ := onAllocator_ok.mp hr
    exact h.ok hd
  · obtain ⟨d, hd, rfl⟩ := onAllocator_error.mp hr
    exact h.error hd

theorem trackSeq_unspent {seqId : Nat} :
    Unspent getNumFreeGpuBlocks .noFreeBlocksError (trackSeq (H := H) seqId) m := fun _ =>
  .get_bind (.raiseIf_bind nofun fun _ => .set (Nat.le_refl _))

theorem forkTables_unspent (bs : Nat) {seqs : List Sequence} (hm : DeviceOk false bs m.blockAllocator) :
    Unspent getNumFreeGpuBlocks .noFreeBlocksError (forkTables t seqs) m := by
  induction seqs generalizing m with
  | nil => exact fun _ => .ret
  | cons seq rest ih =>
    rw [forkTables]
    refine .bind (onAllocator_unspent (BlockTable.fork_unspent hm.caching)) fun t' m₁ h₁ f => ?_
    obtain ⟨d, hd, rfl⟩ := onAllocator_ok.mp h₁
    have hd : DeviceOk false bs d := BlockTable.fork_keeps _ _ _ hm hd
    refine .modify_bind (l := 0) ?_ (Nat.le_refl _)
    refine (trackSeq_unspent f).then_of_zero fun _ m₂ h₂ => ?_
    obtain ⟨l, rfl⟩ := trackSeq_ok h₂
    exact ih hd f

/-- The blocks that `allocate` allocates for the waiting sequences. -/
def numPromptBlocks (m : BlockSpaceManager H) (g : SequenceGroup) : Nat :=
  match g.getSeqs .waiting with
  | [] => 0
  | seq :: _ => BlockTable.getNumRequiredBlocks seq.data.getTokenIds m.blockSize 0

theorem allocateSequence_uses (hm : ManagerOk m.maxBlockSlidingWindow false bs m) (hpos : 0 < bs) :
    Uses getNumFreeGpuBlocks .noFreeBlocksError
      (BlockTable.getNumRequiredBlocks seq.data.getTokenIds m.blockSize 0)
      (allocateSequence seq ns) m := by
  rw [BlockTable.getNumRequiredBlocks, hm.blockSize, Nat.add_zero]
  have hrun : (allocateSequence seq ns).run m = _ := run_get_bind
  refine .of_run hrun rfl ?_
  split
  · next h =>
    intro w
    rw [h, List.length_nil, cdiv_zero hpos]
    exact leaves_ok_iff rfl
  · next h =>
    exact onAllocator_uses (BlockTable.allocate_uses hm.device hpos hm.blockSize rfl h)

/-- Without an encoder sequence and without prefix caching, `allocate` uses the blocks of the whole
prompt. -/
theorem allocate_uses (hm : ManagerOk m.maxBlockSlidingWindow false bs m) (hpos : 0 < bs)
    (hnew : ∀ seq ∈ g.getSeqs .waiting, seq.seqId ∉ m.blockTables) (henc : g.encoderSeq = none)
    (hne : g.getSeqs .waiting ≠ []) :
    Uses getNumFreeGpuBlocks .noFreeBlocksError (m.numPromptBlocks g) (allocate g ns encoderNs) m := by
  unfold allocate
  refine .of_run run_get_bind rfl (.of_run (run_raiseIf_bind.trans (if_neg ?_)) rfl ?_)
  · exact fun ⟨seq, hseq, hmem⟩ => hnew seq hseq hmem
  cases h : g.getSeqs .waiting with
  | nil => exact absurd h hne
  | cons seq rest =>
    rw [numPromptBlocks, h]
    refine (allocateSequence_uses hm hpos).bind fun t m₁ h₁ f => ?_
    have hm₁ := allocateSequence_keeps _ _ _ hm h₁
    refine .modify_bind (l := 0) ?_ (Nat.le_refl _)
    refine (trackSeq_unspent f).then_of_zero fun _ m₂ h₂ => ?_
    obtain ⟨l, rfl⟩ := trackSeq_ok h₂
    refine .then_of_zero (forkTables_unspent bs ?_ f) fun _ m₃ _ => ?_
    · exact hm₁.device
    unfold allocateCross
    refine .get_bind (.raiseIf_bind nofun fun _ => .lift_bind ?_ fun _ _ => ?_)
    · rw [checkNoCachingOrSwa, henc]
      exact nofun
    · rw [henc]
      exact .ret

/-! ## Without a sliding window -/

theorem allocateSequence_costs (hm : m.Tabled) :
    Costs (BlockTable.getNumRequiredBlocks seq.data.getTokenIds m.blockSize 0)
      (allocateSequence seq ns) m := by
  unfold allocateSequence
  refine .get_bind ?_
  split
  · exact .ret
  · rw [BlockTable.getNumRequiredBlocks, Nat.add_zero]
    have hpos : 0 < m.blockSize := hm.blockSize ▸ hm.ready.pos
    exact onAllocator_costs (BlockTable.allocate_costs
      (t := ⟨m.blockSize, [], [], 0, m.maxBlockSlidingWindow, ns⟩) hm.ready hpos)

theorem forkTables_costs {seqs : List Sequence} (hm : m.Tabled) (ht : TableOk m.blockAllocator.gpu t)
    (hgpu : OnGpu m.blockAllocator.gpu t) : Costs 0 (forkTables t seqs) m := by
  induction seqs generalizing m with
  | nil => exact .ret
  | cons seq rest ih =>
    rw [forkTables]
    refine (onAllocator_costs (BlockTable.fork_costs hm.ready ht hgpu)).then_of_zero fun t' m₁ h₁ => ?_
    obtain ⟨d, hd, rfl⟩ := onAllocator_ok.mp h₁
    refine .modify_bind (l := 0) ?_ (Nat.le_refl _)
    refine (trackSeq_unspent id).then_of_zero fun _ m₂ h₂ => ?_
    obtain ⟨l, rfl⟩ := trackSeq_ok h₂
    obtain ⟨hm', ht', hgpu'⟩ := hm.forked ht hgpu hd seq.seqId l
    exact ih hm' ht' hgpu'

omit [DecidableEq H] [Sha256 H] in
theorem checkNoCachingOrSwa_ne : m.checkNoCachingOrSwa g ≠ .error .noFreeBlocksError := by
  unfold checkNoCachingOrSwa
  split
  · rw [guardNot_bind]
    split
    · exact nofun
    · unfold guardNot
      split
      · exact nofun
      · exact nofun
  · exact nofun

/-- The blocks of the encoder sequence. -/
def numEncoderBlocks (m : BlockSpaceManager H) (g : SequenceGroup) : Nat :=
  match g.encoderSeq with
  | none => 0
  | some encoderSeq => BlockTable.getNumRequiredBlocks encoderSeq.data.getTokenIds m.blockSize 0

theorem allocateCross_costs (hm : m.Tabled) : Costs (m.numEncoderBlocks g) (allocateCross g ns) m := by
  unfold allocateCross numEncoderBlocks
  refine .get_bind (.raiseIf_bind nofun fun _ => .lift_bind checkNoCachingOrSwa_ne fun _ _ => ?_)
  cases g.encoderSeq with
  | none => exact .ret
  | some encoderSeq =>
    exact (allocateSequence_costs hm).bind_zero fun _ _ _ => .modify (Nat.le_refl _)

theorem allocate_costs {window : Option Nat} {caching : Bool} (hm : m.Tabled)
    (hk : ManagerOk window caching bs m) :
    Costs (m.numPromptBlocks g + m.numEncoderBlocks g) (allocate g ns encoderNs) m := by
  unfold allocate
  refine .get_bind (.raiseIf_bind nofun fun _ => ?_)
  cases h : g.getSeqs .waiting with
  | nil => exact .throw_ne nofun
  | cons seq rest =>
    rw [numPromptBlocks, h]
    refine (allocateSequence_costs hm).bind fun t m₁ h₁ => ?_
    have hk₁ := allocateSequence_keeps _ _ _ hk h₁
    obtain ⟨d, rfl, hact, hok, hgpu⟩ := allocateSequence_ok hm h₁
    refine .modify_bind (l := m.numEncoderBlocks g) ?_ (Nat.le_refl _)
    refine (trackSeq_unspent id).then_of_zero fun _ m₂ h₂ => ?_
    have hset : ManagerOk window caching bs { m with
        blockAllocator := d
        blockTables := m.blockTables.set seq.seqId t } :=
      ⟨hk₁.window, hk₁.enabled, hk₁.blockSize, hk₁.device⟩
    have hk₂ := trackSeq_keeps _ _ _ hset h₂
    obtain ⟨l, rfl⟩ := trackSeq_ok h₂
    have hm₁ : Tabled { m with
        blockAllocator := d
        blockTables := m.blockTables.set seq.seqId t } := hm.setSeq hact disjoint_nil hok
    have hm₂ := hm₁.tracked l
    refine (forkTables_costs hm₂ hok hgpu).then_of_zero fun _ m₃ h₃ => ?_
    have hk₃ := forkTables_keeps _ _ _ hk₂ h₃
    have hsame : m₃.numEncoderBlocks g = m.numEncoderBlocks g := by
      rw [numEncoderBlocks, numEncoderBlocks, hk₃.blockSize, hk.blockSize]
    exact hsame ▸ allocateCross_costs (forkTables_ok hm₂ hok hgpu h₃)

/-! ## Both -/

/-- The blocks that `can_allocate` asks for. -/
def numCountedBlocks (m : BlockSpaceManager H) (g : SequenceGroup) (k : Nat) (seq : Sequence) : Nat :=
  match m.maxBlockSlidingWindow with
  | none => m.getNumRequiredBlocks g seq k
  | some window => min (m.getNumRequiredBlocks g seq k) window

/-- What `can_allocate` said. -/
theorem canAllocate_ok (hcan : m.canAllocate g k = .ok .ok) :
    m.checkNoCachingOrSwa g = .ok () ∧ ∃ seq rest, g.getSeqs .waiting = seq :: rest ∧
      m.numCountedBlocks g k seq + m.watermarkBlocks ≤ m.getNumFreeGpuBlocks := by
  obtain ⟨_, hcheck, hcan⟩ := bind_eq_ok.mp hcan
  refine ⟨hcheck, ?_⟩
  cases h : g.getSeqs .waiting with
  | nil =>
    rw [h] at hcan
    exact absurd hcan nofun
  | cons seq rest =>
    rw [h] at hcan
    refine ⟨seq, rest, rfl, ?_⟩
    have hgen : ∀ required : Int, (if m.numTotalGpuBlocks - required < m.watermarkBlocks then
        pure .never else if m.watermarkBlocks ≤ m.getNumFreeGpuBlocks - required then pure .ok
        else pure .later : Except Err AllocStatus) = .ok .ok →
        required + m.watermarkBlocks ≤ m.getNumFreeGpuBlocks := by
      intro required h
      split at h
      · cases h
      · split at h
        · omega
        · cases h
    have hle := hgen _ hcan
    unfold numCountedBlocks
    cases hw : m.maxBlockSlidingWindow with
    | none =>
      rw [hw] at hle
      dsimp only at hle ⊢
      exact_mod_cast hle
    | some window =>
      rw [hw] at hle
      dsimp only at hle ⊢
      exact_mod_cast hle

omit [DecidableEq H] [Sha256 H] in
/-- The slots ahead of the prompt only add to what is counted. -/
theorem numBlocks_le {rest : List Sequence} (hpos : 0 < m.blockSize)
    (h : g.getSeqs .waiting = seq :: rest) :
    m.numPromptBlocks g + m.numEncoderBlocks g ≤ m.getNumRequiredBlocks g seq k := by
  rw [numPromptBlocks, h, getNumRequiredBlocks]
  refine Nat.add_le_add_right ?_ _
  exact cdiv_mono hpos (Nat.add_le_add_left (Nat.zero_le k) _)

/-- When `can_allocate` says yes, `allocate` finds its blocks and leaves the watermark, if and only
if a sliding window does not hide blocks that are then missing. -/
theorem can_allocate_iff (h : (managerSys H).Reachable m)
    (hnew : ∀ seq ∈ g.getSeqs .waiting, seq.seqId ∉ m.blockTables)
    (hcan : m.canAllocate g k = .ok .ok) :
    Leaves getNumFreeGpuBlocks .noFreeBlocksError m.watermarkBlocks (allocate g ns encoderNs) m ↔
      ∀ window, m.maxBlockSlidingWindow = some window → m.numPromptBlocks g ≤ window ∨
        m.watermarkBlocks + m.numPromptBlocks g ≤ m.getNumFreeGpuBlocks := by
  obtain ⟨caching, bs, hpos, hc, hk⟩ := managerOk_of_reachable h
  obtain ⟨hcheck, seq, rest, hseq, hle⟩ := canAllocate_ok hcan
  have hcount := numBlocks_le (k := k) (hk.blockSize ▸ hpos) hseq
  unfold numCountedBlocks at hle
  cases hw : m.maxBlockSlidingWindow with
  | none =>
    rw [hw] at hle
    dsimp only at hle
    refine iff_of_true ?_ fun window hw => (nomatch hw)
    exact (allocate_costs (tabled_of_reachable h hw) hk).leaves (by omega)
  | some window =>
    rw [hw] at hle
    dsimp only at hle
    have hcaching : caching = false := by
      cases caching with
      | false => rfl
      | true => exact absurd (hc rfl) (by rw [hw]; exact nofun)
    subst hcaching
    have henc : g.encoderSeq = none := by
      rw [checkNoCachingOrSwa] at hcheck
      split at hcheck
      · rw [guardNot_bind_eq_ok, hw] at hcheck
        exact absurd rfl hcheck.1
      · next hsome => exact Option.not_isSome_iff_eq_none.mp hsome
    have hall : (∀ w, some window = some w → m.numPromptBlocks g ≤ w ∨
        m.watermarkBlocks + m.numPromptBlocks g ≤ m.getNumFreeGpuBlocks) ↔
        m.watermarkBlocks + m.numPromptBlocks g ≤ m.getNumFreeGpuBlocks := by
      refine ⟨fun hw => ?_, fun hfree w _ => .inr hfree⟩
      rcases hw window rfl with hsmall | hfree
      · have hmin := Nat.le_min.mpr ⟨(Nat.le_add_right _ _).trans hcount, hsmall⟩
        omega
      · exact hfree
    rw [hall]
    exact allocate_uses (hw ▸ hk) hpos hnew henc (hseq ▸ List.cons_ne_nil seq rest) m.watermarkBlocks

/-! ## A prompt longer than the window -/

/-- Four blocks of one token, and a window of one token, which is said to need three blocks. -/
def fourWindowed : BlockSpaceManager PlainDigest :=
  .init PlainDigest 1 4 0 0 (some 1) false .lru false 16

def promptGroup (promptTokenIds : List Nat) : SequenceGroup :=
  ⟨"r", [⟨0, .fromSeqs promptTokenIds, .waiting⟩], none⟩

theorem fresh_fourWindowed : fourWindowed.Fresh :=
  ⟨1, 4, 0, 0, some 1, false, .lru, false, 16, by decide, nofun, rfl⟩

/-- `can_allocate` says yes to a prompt of five tokens. -/
theorem can_allocate_runs_out : (managerSys PlainDigest).Reachable fourWindowed ∧
    fourWindowed.canAllocate (promptGroup [1, 2, 3, 4, 5]) 0 = .ok .ok ∧
    ∃ m', (allocate (promptGroup [1, 2, 3, 4, 5]) [] []).run fourWindowed =
      .error .noFreeBlocksError m' :=
  ⟨.init fresh_fourWindowed, by decide +kernel, raises_eq_true.mp (by decide +kernel)⟩

/-- A prompt of three tokens fits into the window. -/
theorem can_allocate_iff_three :
    Leaves getNumFreeGpuBlocks .noFreeBlocksError fourWindowed.watermarkBlocks
      (allocate (promptGroup [1, 2, 3]) [] []) fourWindowed := by
  have hcan : fourWindowed.canAllocate (promptGroup [1, 2, 3]) 0 = .ok .ok := by decide +kernel
  have hnew : ∀ seq ∈ (promptGroup [1, 2, 3]).getSeqs .waiting,
      seq.seqId ∉ fourWindowed.blockTables := fun _ _ => List.not_mem_nil
  have hsmall : fourWindowed.numPromptBlocks (promptGroup [1, 2, 3]) ≤ 3 := by decide +kernel
  have hreach : (managerSys PlainDigest).Reachable fourWindowed := .init fresh_fourWindowed
  exact (can_allocate_iff hreach hnew hcan).mpr fun window hw => Or.inl (Option.some.inj hw ▸ hsmall)

end BlockSpaceManager

end Bi100
