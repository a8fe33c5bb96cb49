import Bi100.Block.Runs

/-!
# The naive allocator in any run

With a sliding window a table gives blocks back while it keeps later ones, so it is no chain of live
blocks. What still holds of the naive allocator is that free ids have no references (`FreeOk`).

- `ManagerOp.config`: the configuration stays, and `FreeOk` holds after every operation.
-/

namespace Bi100

open Py

variable {H : Type}

/-- The free ids of the naive allocator. -/
structure FreeOk (blockSize : Nat) (s : AllocState H) : Prop where
  nodup : s.freeBlockIndices.Nodup
  unused : ∀ id ∈ s.freeBlockIndices, s.refcounts id = 0
  known : ∀ id ∈ s.freeBlockIndices, id ∈ s.allBlockIds
  pool : s.allBlockIds ≠ [] → 0 < s.poolSize
  blockSize : s.blockSize = blockSize

namespace NaiveBlockAllocator

open PrefixCachingBlockAllocator (getBlockId_ok refGet_ok refIncr_ok refDecr_ok hashlessFree_ok
  setBlockId_ok poolFree_ok poolInit_ok)

variable {bs : Nat} {s s' : AllocState H} {r : Ref} {id : Nat}

theorem FreeOk.take {rest : List Nat} (hs : FreeOk bs s) (hf : s.freeBlockIndices = id :: rest) :
    FreeOk bs (withRefcount { s with freeBlockIndices := rest } id (s.refcounts id + 1)) := by
  have hnd := hs.nodup
  rw [hf] at hnd
  obtain ⟨hid, hrest⟩ := List.nodup_cons.mp hnd
  refine ⟨hrest, fun x hx => ?_, fun x hx => hs.known x (hf ▸ List.mem_cons_of_mem id hx), hs.pool,
    hs.blockSize⟩
  show Function.update s.refcounts id _ x = 0
  rw [Function.update_of_ne (ne_of_mem_of_not_mem hx hid)]
  exact hs.unused x (hf ▸ List.mem_cons_of_mem id hx)

theorem allocateBlockId_keeps : Keeps (FreeOk (H := H) bs) allocateBlockId := by
  intro s id s' hs hr
  obtain ⟨rest, hf, rfl⟩ := allocateBlockId_ok hr
  exact FreeOk.take hs hf

theorem getBlockId_keeps : Keeps (FreeOk (H := H) bs) (PrefixCachingBlockAllocator.getBlockId r) :=
  .of_same fun _ _ _ hr => (getBlockId_ok.mp hr).2

theorem refGet_keeps : Keeps (FreeOk (H := H) bs) (PrefixCachingBlockAllocator.refGet id) :=
  .of_same fun _ _ _ hr => (refGet_ok hr).2

theorem refIncr_used {n : Nat} (hs : FreeOk bs s) (hpos : 0 < s.refcounts id)
    (hr : (PrefixCachingBlockAllocator.refIncr id).run s = .ok n s') : FreeOk bs s' := by
  obtain ⟨-, -, rfl⟩ := refIncr_ok.mp hr
  refine ⟨hs.nodup, fun x hx => ?_, hs.known, hs.pool, hs.blockSize⟩
  show Function.update s.refcounts id _ x = 0
  rw [Function.update_of_ne, hs.unused x hx]
  rintro rfl
  exact hpos.ne' (hs.unused x hx)

theorem freeBlockId_known {u : Unit} (hs : FreeOk bs s)
    (hr : (freeBlockId r).run s = .ok u s') : ∀ x ∈ s'.freeBlockIndices, x ∈ s.allBlockIds := by
  rw [freeBlockId, PrefixCachingBlockAllocator.hashlessFree,
    PrefixCachingBlockAllocator.getBlockId_bind_ok] at hr
  obtain ⟨id, -, hr⟩ := hr
  obtain ⟨n, s₁, h₁, hr⟩ := run_bind_ok.mp hr
  obtain ⟨hall, -, -, rfl⟩ := refDecr_ok.mp h₁
  rw [run_modify_bind] at hr
  obtain rfl := setBlockId_ok.mp hr
  intro x hx
  have hx : x ∈ (if n = 0 then { withRefcount s id (s.refcounts id - 1) with
    freeBlockIndices := id :: s.freeBlockIndices } else withRefcount s id
      (s.refcounts id - 1)).freeBlockIndices := hx
  split at hx
  · rcases List.mem_cons.mp hx with rfl | hx
    · exact hall
    · exact hs.known x hx
  · exact hs.known x hx

theorem freeBlockId_keeps : Keeps (FreeOk (H := H) bs) (freeBlockId r) := by
  intro s u s' hs hr
  have hknown := freeBlockId_known hs hr
  obtain ⟨id, hid, hpos, rfl⟩ := hashlessFree_ok hr
  have hfree : id ∉ s.freeBlockIndices := fun hf => hpos.ne' (hs.unused id hf)
  refine ⟨?_, fun x hx => ?_, hknown, hs.pool, hs.blockSize⟩
  · show (if s.refcounts id - 1 = 0 then id :: s.freeBlockIndices else s.freeBlockIndices).Nodup
    split
    · exact List.nodup_cons.mpr ⟨hfree, hs.nodup⟩
    · exact hs.nodup
  · show Function.update s.refcounts id (s.refcounts id - 1) x = 0
    have hx : x ∈ if s.refcounts id - 1 = 0 then id :: s.freeBlockIndices else
      s.freeBlockIndices := hx
    rw [Function.update_apply]
    split
    · next he =>
      split at hx
      · next h0 => exact h0
      · exact absurd (he ▸ hx) hfree
    · next hne =>
      refine hs.unused x ?_
      split at hx
      · exact (List.mem_cons.mp hx).resolve_left hne
      · exact hx

theorem setBlockId_keeps {blockId : Option Nat} :
    Keeps (FreeOk (H := H) bs) (PrefixCachingBlockAllocator.setBlockId r blockId) :=
  .modify fun _ hs => ⟨hs.nodup, hs.unused, hs.known, hs.pool, hs.blockSize⟩

theorem poolFree_keeps : Keeps (FreeOk (H := H) bs) (PrefixCachingBlockAllocator.poolFree r) :=
  .modify fun _ hs => ⟨hs.nodup, hs.unused, hs.known, hs.pool, hs.blockSize⟩

theorem poolInit_keeps {prevBlock : Option Ref} {tokenIds : List Nat} {blockId : Option Nat} :
    Keeps (FreeOk (H := H) bs)
      (PrefixCachingBlockAllocator.poolInit prevBlock tokenIds blockId) := by
  intro s r s' hs hr
  obtain ⟨size, ids, b, hpop, rfl, -⟩ := poolInit_ok hr
  refine ⟨hs.nodup, hs.unused, hs.known, fun hall => ?_, hs.blockSize⟩
  have hpos := hs.pool hall
  rcases hpop.2 with ⟨-, rfl⟩ | ⟨-, rfl, -⟩
  · exact hpos
  · show 0 < 2 * s.poolSize
    omega

/-! ## The methods -/

theorem free_keeps : Keeps (FreeOk (H := H) bs) (free r) :=
  freeBlockId_keeps.bind fun _ => poolFree_keeps

theorem cowBlockIfNotAppendable_keeps :
    Keeps (FreeOk (H := H) bs) (cowBlockIfNotAppendable r) :=
  getBlockId_keeps.bind fun _ => refGet_keeps.bind fun _ => .ite (.ret _) <|
    freeBlockId_keeps.bind fun _ => allocateBlockId_keeps.bind fun _ =>
      .bind (.modify fun _ hs => ⟨hs.nodup, hs.unused, hs.known, hs.pool, hs.blockSize⟩) fun _ => .ret _

theorem appendTokenIds_keeps {tokenIds : List Nat} :
    Keeps (FreeOk (H := H) bs) (appendTokenIds r tokenIds) := by
  intro s u s' hs hr
  rw [appendTokenIds, run_get_bind, run_raiseUnless_bind_ok, run_set_bind] at hr
  have hs₁ : FreeOk bs (s.updateBlock r fun b => { b with tokenIds := b.tokenIds ++ tokenIds }) :=
    ⟨hs.nodup, hs.unused, hs.known, hs.pool, hs.blockSize⟩
  obtain ⟨-, hr⟩ := hr
  split at hr
  · obtain ⟨-, rfl⟩ := run_pure_ok.mp hr
    exact hs₁
  · exact (cowBlockIfNotAppendable_keeps.bind fun _ => setBlockId_keeps) _ _ _ hs₁ hr

theorem allocateMutableBlock_keeps {prevBlock : Option Ref} :
    Keeps (FreeOk (H := H) bs) (allocateMutableBlock prevBlock) :=
  allocateBlockId_keeps.bind fun _ => poolInit_keeps

theorem allocateBlockIds_keeps {n : Nat} : Keeps (FreeOk (H := H) bs) (allocateBlockIds n) := by
  induction n with
  | zero => exact .ret _
  | succ n ih => exact allocateBlockId_keeps.bind fun _ => ih.bind fun _ => .ret _

theorem initBlocks_keeps {prevBlock : Option Ref} {l : List (List Nat × Nat)} :
    Keeps (FreeOk (H := H) bs) (initBlocks prevBlock l) := by
  induction l generalizing prevBlock with
  | nil => exact .ret _
  | cons x rest ih => exact poolInit_keeps.bind fun _ => ih.bind fun _ => .ret _

theorem allocateImmutableBlocks_keeps {prevBlock : Option Ref} {tokens : List (List Nat)} :
    Keeps (FreeOk (H := H) bs) (allocateImmutableBlocks prevBlock tokens) :=
  allocateBlockIds_keeps.bind fun _ => initBlocks_keeps

theorem forkBlocks_keeps {prevBlock : Option Ref} {sources : List Ref} :
    Keeps (FreeOk (H := H) bs) (forkBlocks prevBlock sources) := by
  induction sources generalizing prevBlock with
  | nil => exact .ret _
  | cons r rest ih =>
    intro s rs s' hs hr
    rw [forkBlocks, PrefixCachingBlockAllocator.getBlockId_bind_ok] at hr
    obtain ⟨id, -, hr⟩ := hr
    obtain ⟨n, s₂, h₂, hr⟩ := run_bind_ok.mp hr
    rw [run_raiseIf_bind_ok] at hr
    obtain ⟨hn, hr⟩ := hr
    have hpos : 0 < s.refcounts id := by
      obtain ⟨-, rfl, -⟩ := refIncr_ok.mp h₂
      omega
    exact (Keeps.get_bind fun _ => poolInit_keeps.bind fun _ => ih.bind fun _ => .ret _) _ _ _
      (refIncr_used hs hpos h₂) hr

theorem fork_keeps : Keeps (FreeOk (H := H) bs) (fork r) :=
  .get_bind fun _ => .bind (.of_same fun _ _ _ hr => (run_lift_ok.mp hr).2) fun _ => forkBlocks_keeps

theorem swapOut_keeps {rs : List Ref} : Keeps (FreeOk (H := H) bs) (swapOut rs) :=
  .forM rs fun _ _ => freeBlockId_keeps

theorem allocateImmutableBlock_keeps {prevBlock : Option Ref} {tokenIds : List Nat} :
    Keeps (FreeOk (H := H) bs) (allocateImmutableBlock prevBlock tokenIds) :=
  allocateMutableBlock_keeps.bind fun _ => appendTokenIds_keeps.bind fun _ => .ret _

theorem swapInBlock_keeps : Keeps (FreeOk (H := H) bs) (swapInBlock r) := by
  unfold swapInBlock
  refine .get_bind fun s => ?_
  have hrest : ∀ tmp, Keeps (FreeOk (H := H) bs) (do
      let blockId := ((← get).heap tmp).blockId
      PrefixCachingBlockAllocator.setBlockId tmp none
      PrefixCachingBlockAllocator.poolFree tmp
      PrefixCachingBlockAllocator.setBlockId r blockId : AllocM H Unit) := fun tmp =>
    .get_bind fun _ => setBlockId_keeps.bind fun _ => poolFree_keeps.bind fun _ => setBlockId_keeps
  dsimp only
  split
  · exact allocateImmutableBlock_keeps.bind hrest
  · exact allocateMutableBlock_keeps.bind fun tmp => appendTokenIds_keeps.bind fun _ => hrest tmp

theorem swapIn_keeps {rs : List Ref} : Keeps (FreeOk (H := H) bs) (swapIn rs) :=
  .forM rs fun _ _ => swapInBlock_keeps

end NaiveBlockAllocator

open CpuGpuBlockAllocator BlockSpaceManager NaiveBlockAllocator

variable [DecidableEq H] [Sha256 H]

/-! ## The devices -/

/-- The kind of the allocators stays, and the naive one's free ids are right. -/
structure DeviceOk (enableCaching : Bool) (blockSize : Nat) (d : CpuGpuBlockAllocator H) : Prop where
  caching : d.enableCaching = enableCaching
  free : enableCaching = false → FreeOk blockSize d.gpu

namespace CpuGpuBlockAllocator

variable {caching : Bool} {bs : Nat}

theorem onGpu_keeps {α : Type} {x : BlockAllocator H → AllocM H α}
    (h : Keeps (FreeOk bs) (x NaiveBlockAllocator.methods)) :
    Keeps (DeviceOk caching bs) (onGpu x) := by
  intro d a d' hd hr
  obtain ⟨s, hs, rfl⟩ := onGpu_ok.mp hr
  refine ⟨hd.caching, fun hc => ?_⟩
  rw [methods, if_neg (by rw [hd.caching, hc]; simp)] at hs
  exact h _ _ _ (hd.free hc) hs

theorem onCpu_keeps {α : Type} {x : BlockAllocator H → AllocM H α} :
    Keeps (DeviceOk caching bs) (onCpu x) := by
  intro d a d' hd hr
  obtain ⟨s, rfl⟩ := onCpu_ok hr
  exact ⟨hd.caching, hd.free⟩

omit [DecidableEq H] [Sha256 H] in
theorem getBlockIds_keeps {blocks : List Ref} :
    Keeps (DeviceOk (H := H) caching bs) (getBlockIds blocks) :=
  .of_same fun _ _ _ hr => getBlockIds_ok hr

theorem free_keeps {r : Ref} : Keeps (DeviceOk (H := H) caching bs) (free r) :=
  .get_bind fun _ => .ite (.ret _) <| .ite (onGpu_keeps NaiveBlockAllocator.free_keeps) <|
    (Keeps.raiseIf _ _).bind fun _ => onCpu_keeps

theorem fork_keeps {r : Ref} : Keeps (DeviceOk (H := H) caching bs) (fork r) :=
  .get_bind fun _ => (Keeps.raiseIf _ _).bind fun _ =>
    .ite (onGpu_keeps NaiveBlockAllocator.fork_keeps) <|
      (Keeps.raiseIf _ _).bind fun _ => onCpu_keeps

theorem allocateOrGetNullBlock_keeps :
    Keeps (DeviceOk (H := H) caching bs) allocateOrGetNullBlock := by
  unfold allocateOrGetNullBlock
  refine .get_bind fun d => ?_
  split
  · exact .ret _
  · exact (onGpu_keeps allocateMutableBlock_keeps).bind fun _ =>
      .bind (.modify fun _ hd => ⟨hd.caching, hd.free⟩) fun _ => .ret _

theorem swapOut_keeps {rs : List Ref} : Keeps (DeviceOk (H := H) caching bs) (swapOut rs) :=
  .get_bind fun _ => (Keeps.raiseIf _ _).bind fun _ => getBlockIds_keeps.bind fun _ =>
    (onGpu_keeps NaiveBlockAllocator.swapOut_keeps).bind fun _ =>
      .bind (.modify fun _ hd => ⟨hd.caching, hd.free⟩) fun _ => onCpu_keeps.bind fun _ =>
        getBlockIds_keeps.bind fun _ => .ret _

theorem swapIn_keeps {rs : List Ref} : Keeps (DeviceOk (H := H) caching bs) (swapIn rs) :=
  .get_bind fun _ => (Keeps.raiseIf _ _).bind fun _ => getBlockIds_keeps.bind fun _ =>
    (Keeps.raiseIf _ _).bind fun _ => onCpu_keeps.bind fun _ =>
      .bind (.modify fun _ hd => ⟨hd.caching, hd.free⟩) fun _ =>
        (onGpu_keeps NaiveBlockAllocator.swapIn_keeps).bind fun _ =>
          getBlockIds_keeps.bind fun _ => .ret _

end CpuGpuBlockAllocator

/-! ## Tables -/

namespace BlockTable

variable {caching : Bool} {bs : Nat} {t : BlockTable}

theorem allocate_keeps {tokenIds : List Nat} :
    Keeps (DeviceOk (H := H) caching bs) (t.allocate tokenIds) := by
  refine (Keeps.raiseUnless _ _).bind fun _ => (Keeps.raiseUnless _ _).bind fun _ =>
    .bind ?_ fun _ => getBlockIds_keeps.bind fun _ => .ret _
  intro d rs d' hd hr
  rw [allocateBlocks_run] at hr
  refine Keeps.bind (.ite (.ret _) (onGpu_keeps allocateImmutableBlocks_keeps)) (fun blocks => ?_) d rs
    d' hd hr
  split
  · exact .ret _
  · exact (Keeps.raiseUnless _ _).bind fun _ => (onGpu_keeps allocateMutableBlock_keeps).bind
      fun _ => (onGpu_keeps appendTokenIds_keeps).bind fun _ => .ret _

theorem fork_keeps : Keeps (DeviceOk (H := H) caching bs) t.fork :=
  (Keeps.getOrRaise _ _).bind fun _ => CpuGpuBlockAllocator.fork_keeps.bind fun _ =>
    getBlockIds_keeps.bind fun _ => .get_bind fun _ => .ret _

theorem free_keeps : Keeps (DeviceOk (H := H) caching bs) t.free :=
  .forM _ fun _ _ => CpuGpuBlockAllocator.free_keeps

theorem dropBlocks_keeps {nullBlock : Ref} {l : List Nat} :
    Keeps (DeviceOk (H := H) caching bs) (dropBlocks nullBlock l t) := by
  induction l generalizing t with
  | nil => exact .ret _
  | cons i rest ih =>
    exact (Keeps.getOrRaise _ _).bind fun _ => .ite ih <| CpuGpuBlockAllocator.free_keeps.bind
      fun _ => getBlockIds_keeps.bind fun _ => ih

theorem addBlocks_keeps {n : Nat} : Keeps (DeviceOk (H := H) caching bs) (addBlocks n t) := by
  induction n generalizing t with
  | zero => exact .ret _
  | succ n ih =>
    exact (Keeps.getOrRaise _ _).bind fun _ => (onGpu_keeps allocateMutableBlock_keeps).bind
      fun _ => getBlockIds_keeps.bind fun _ => ih

theorem appendTokenBlocks_keeps {idx : Nat} {chunks : List (List Nat)} :
    Keeps (DeviceOk (H := H) caching bs) (appendTokenBlocks idx chunks t) := by
  induction chunks generalizing idx t with
  | nil => exact .ret _
  | cons c rest ih =>
    exact .get_bind fun _ => (Keeps.getOrRaise _ _).bind fun _ => (Keeps.raiseIf _ _).bind fun _ =>
      (Keeps.raiseIf _ _).bind fun _ => (onGpu_keeps appendTokenIds_keeps).bind fun _ =>
        getBlockIds_keeps.bind fun _ => ih

theorem appendTokenIds_keeps {tokenIds : List Nat} {k n : Nat} :
    Keeps (DeviceOk (H := H) caching bs) (t.appendTokenIds tokenIds k n) := by
  have hrest : ∀ t : BlockTable, Keeps (DeviceOk (H := H) caching bs) (do
      let t ← t.ensureNumEmptySlots (tokenIds.length + k)
      let t ← appendTokenBlocks (t.numFullSlots / t.blockSize) (t.chunkTokenBlocksForAppend tokenIds)
        t
      pure { t with numFullSlots := t.numFullSlots + tokenIds.length } : DeviceM H BlockTable) :=
    fun t => .bind ((Keeps.raiseUnless _ _).bind fun _ => .ite (.ret _) addBlocks_keeps) fun _ =>
      appendTokenBlocks_keeps.bind fun _ => .ret _
  unfold appendTokenIds
  refine (Keeps.raiseUnless _ _).bind fun _ => ?_
  split
  · exact hrest t
  · exact allocateOrGetNullBlock_keeps.bind fun _ => dropBlocks_keeps.bind hrest

end BlockTable

/-! ## The block manager -/

/-- The configuration stays. -/
structure ManagerOk (window : Option Nat) (caching : Bool) (bs : Nat) (m : BlockSpaceManager H) :
    Prop where
  window : m.maxBlockSlidingWindow = window
  enabled : m.enableCaching = caching
  blockSize : m.blockSize = bs
  device : DeviceOk caching bs m.blockAllocator

namespace BlockSpaceManager

variable {window : Option Nat} {caching : Bool} {bs : Nat} {seq : Sequence} {g : SequenceGroup}

omit [DecidableEq H] [Sha256 H] in
theorem onAllocator_keeps {α : Type} {x : DeviceM H α} (h : Keeps (DeviceOk caching bs) x) :
    Keeps (ManagerOk window caching bs) (onAllocator x) := by
  intro m a m' hm hr
  obtain ⟨d, hd, rfl⟩ := onAllocator_ok.mp hr
  exact ⟨hm.window, hm.enabled, hm.blockSize, h _ _ _ hm.device hd⟩

omit [DecidableEq H] [Sha256 H] in
theorem setBlockTable_keeps {seqId : Nat} {t : BlockTable} :
    Keeps (ManagerOk (H := H) window caching bs) (setBlockTable seqId t) :=
  .modify fun _ hm => ⟨hm.window, hm.enabled, hm.blockSize, hm.device⟩

omit [DecidableEq H] [Sha256 H] in
theorem getBlockTable_keeps {seqId : Nat} :
    Keeps (ManagerOk (H := H) window caching bs) (getBlockTable seqId) :=
  .get_bind fun _ => .getOrRaise _ _

omit [DecidableEq H] [Sha256 H] in
theorem trackSeq_keeps {seqId : Nat} :
    Keeps (ManagerOk (H := H) window caching bs) (trackSeq seqId) := by
  intro m u m' hm hr
  obtain ⟨l, rfl⟩ := trackSeq_ok hr
  exact ⟨hm.window, hm.enabled, hm.blockSize, hm.device⟩

theorem allocateSequence_keeps {ns : Bytes} :
    Keeps (ManagerOk (H := H) window caching bs) (allocateSequence seq ns) :=
  .get_bind fun _ => .ite (.ret _) (onAllocator_keeps BlockTable.allocate_keeps)

theorem forkTables_keeps {t : BlockTable} {seqs : List Sequence} :
    Keeps (ManagerOk (H := H) window caching bs) (forkTables t seqs) := by
  induction seqs with
  | nil => exact .ret _
  | cons seq rest ih =>
    exact (onAllocator_keeps BlockTable.fork_keeps).bind fun _ => setBlockTable_keeps.bind
      fun _ => trackSeq_keeps.bind fun _ => ih

theorem allocate_keeps {ns encoderNs : Bytes} :
    Keeps (ManagerOk (H := H) window caching bs) (allocate g ns encoderNs) := by
  unfold allocate
  refine .get_bind fun _ => (Keeps.raiseIf _ _).bind fun _ => ?_
  split
  · exact .throw _
  · refine allocateSequence_keeps.bind fun _ => setBlockTable_keeps.bind fun _ =>
      trackSeq_keeps.bind fun _ => forkTables_keeps.bind fun _ => ?_
    unfold allocateCross
    refine .get_bind fun _ => (Keeps.raiseIf _ _).bind fun _ =>
      .bind (.of_same fun _ _ _ hr => (run_lift_ok.mp hr).2) fun _ => ?_
    split
    · exact .ret _
    · exact allocateSequence_keeps.bind fun _ => .modify fun _ hm =>
        ⟨hm.window, hm.enabled, hm.blockSize, hm.device⟩

theorem appendSlots_keeps {k : Nat} :
    Keeps (ManagerOk (H := H) window caching bs) (appendSlots seq k) := by
  refine getBlockTable_keeps.bind fun _ => (onAllocator_keeps BlockTable.appendTokenIds_keeps).bind
    fun _ => setBlockTable_keeps.bind fun _ => onAllocator_keeps (onGpu_keeps ?_)
  intro s l s' hs hr
  rw [PrefixCachingBlockAllocator.clearCopyOnWrites, run_get_bind, run_set_bind, run_pure_ok] at hr
  obtain ⟨-, rfl⟩ := hr
  exact ⟨hs.nodup, hs.unused, hs.known, hs.pool, hs.blockSize⟩

theorem fork_keeps {child : Sequence} :
    Keeps (ManagerOk (H := H) window caching bs) (fork seq child) := by
  unfold fork
  refine .get_bind fun _ => ?_
  split
  · exact .ret _
  · exact (onAllocator_keeps BlockTable.fork_keeps).bind fun _ => setBlockTable_keeps.bind
      fun _ => trackSeq_keeps

theorem free_keeps : Keeps (ManagerOk (H := H) window caching bs) (free seq) := by
  unfold free
  refine .get_bind fun _ => ?_
  split
  · exact .ret _
  · refine (Keeps.getOrRaise _ _).bind fun lastAccess => ?_
    have hrest : ∀ t : BlockTable, Keeps (ManagerOk (H := H) window caching bs) (do
        modify fun m => { m with seqLastAccess := m.seqLastAccess.erase seq.seqId }
        onAllocator t.free
        modify fun m => { m with blockTables := m.blockTables.erase seq.seqId }
        : ManagerM H Unit) := fun t =>
      .bind (.modify fun _ hm => ⟨hm.window, hm.enabled, hm.blockSize, hm.device⟩) fun _ =>
        (onAllocator_keeps BlockTable.free_keeps).bind fun _ =>
          .modify fun _ hm => ⟨hm.window, hm.enabled, hm.blockSize, hm.device⟩
    split
    · exact hrest _
    · exact (onAllocator_keeps (onGpu_keeps (x := fun a => a.markBlocksAsAccessed _ _)
        (Keeps.ret ()))).bind fun _ => hrest _

theorem freeCross_keeps : Keeps (ManagerOk (H := H) window caching bs) (freeCross g) := by
  unfold freeCross
  refine .get_bind fun _ => ?_
  split
  · exact .ret _
  · exact (onAllocator_keeps BlockTable.free_keeps).bind fun _ =>
      .modify fun _ hm => ⟨hm.window, hm.enabled, hm.blockSize, hm.device⟩

omit [DecidableEq H] [Sha256 H] in
theorem swapTables_keeps {swap : List Ref → DeviceM H (Dict Nat Nat)}
    (hswap : ∀ rs, Keeps (DeviceOk caching bs) (swap rs)) {seqs : List Sequence} :
    Keeps (ManagerOk (H := H) window caching bs) (swapTables swap seqs) := by
  induction seqs with
  | nil => exact .ret _
  | cons seq rest ih =>
    exact getBlockTable_keeps.bind fun _ => .ite ih <| (onAllocator_keeps (hswap _)).bind fun _ =>
      (onAllocator_keeps getBlockIds_keeps).bind fun _ => setBlockTable_keeps.bind fun _ =>
        ih.bind fun _ => .ret _

omit [DecidableEq H] [Sha256 H] in
theorem accessAllBlocksInSeq_keeps {now : Int} :
    Keeps (ManagerOk (H := H) window caching bs) (accessAllBlocksInSeq seq now) := by
  intro m u m' hm hr
  rw [accessAllBlocksInSeq, run_get_bind, run_ite_ok] at hr
  rcases hr with ⟨-, hr⟩ | ⟨-, hr⟩
  · rw [run_raiseUnless_bind_ok, run_set_ok] at hr
    obtain ⟨-, rfl⟩ := hr
    exact ⟨hm.window, hm.enabled, hm.blockSize, hm.device⟩
  · obtain ⟨-, rfl⟩ := run_pure_ok.mp hr
    exact hm

end BlockSpaceManager

theorem ManagerOp.keeps {m m' : BlockSpaceManager H} {window : Option Nat} {caching : Bool}
    {bs : Nat} (h : ManagerOp m m') (hm : ManagerOk window caching bs m) :
    ManagerOk window caching bs m' := by
  cases h with
  | allocate run => exact allocate_keeps _ _ _ hm run
  | appendSlots run => exact appendSlots_keeps _ _ _ hm run
  | fork _ run => exact fork_keeps _ _ _ hm run
  | free run => exact BlockSpaceManager.free_keeps _ _ _ hm run
  | freeCross run => exact freeCross_keeps _ _ _ hm run
  | swapOut run => exact swapTables_keeps (fun _ => swapOut_keeps) _ _ _ hm run
  | swapIn run => exact swapTables_keeps (fun _ => swapIn_keeps) _ _ _ hm run
  | accessAllBlocksInSeq run => exact accessAllBlocksInSeq_keeps _ _ _ hm run
  | markBlocksAsComputed run =>
    exact onAllocator_keeps (onGpu_keeps (x := fun a => a.markBlocksAsComputed)
      (Keeps.ret ())) _ _ _ hm run
  | tier c =>
    refine ⟨hm.window, hm.enabled, hm.blockSize, hm.device.caching, fun hc => ?_⟩
    have hs := hm.device.free hc
    exact ⟨hs.nodup, hs.unused, hs.known, hs.pool, hs.blockSize⟩

omit [DecidableEq H] [Sha256 H] in
theorem managerOk_of_fresh {m : BlockSpaceManager H} (h : m.Fresh) :
    ∃ window caching bs, 0 < bs ∧ (caching = true → window = none) ∧
      ManagerOk window caching bs m := by
  obtain ⟨blockSize, numGpu, numCpu, watermark, window, caching, policy, offload, limit, hpos, hw,
    rfl⟩ := h
  refine ⟨_, caching, blockSize, hpos, fun hc => ?_, ⟨rfl, rfl, rfl, rfl, fun _ => ?_⟩⟩
  · rw [hw hc]
    rfl
  · refine ⟨List.nodup_range, fun _ _ => rfl, fun _ hx => hx, fun hall => ?_, rfl⟩
    have hlen : (List.range numGpu).length ≠ 0 := fun h0 =>
      hall (List.length_eq_zero_iff.mp h0)
    show 0 < (List.range numGpu).length * 4
    omega

/-! ## Reachable states -/

variable {m : BlockSpaceManager H}

theorem managerOk_of_reachable (h : (managerSys H).Reachable m) :
    ∃ caching bs, 0 < bs ∧ (caching = true → m.maxBlockSlidingWindow = none) ∧
      ManagerOk m.maxBlockSlidingWindow caching bs m := by
  obtain ⟨window, caching, bs, hpos, hw, hok⟩ := h.invariant
    (I := fun m => ∃ window caching bs, 0 < bs ∧ (caching = true → window = none) ∧
      ManagerOk window caching bs m) (fun m hm => managerOk_of_fresh hm) fun m m' _ hm hs => by
    obtain ⟨window, caching, bs, hpos, hw, hok⟩ := hm
    exact ⟨window, caching, bs, hpos, hw, ManagerOp.keeps hs hok⟩
  obtain rfl := hok.window
  exact ⟨caching, bs, hpos, hw, hok⟩

/-- Without a sliding window the tables and the blocks agree. -/
theorem tabled_of_reachable (h : (managerSys H).Reachable m)
    (hw : m.maxBlockSlidingWindow = none) : m.Tabled := by
  refine h.invariant (I := fun m => m.maxBlockSlidingWindow = none → m.Tabled)
    (fun m hm => tabled_of_fresh hm) (fun m m' hm ih hs hw => ?_) hw
  obtain ⟨caching, bs, -, -, hok⟩ := managerOk_of_reachable hm
  exact ManagerOp.tabled hs (ih ((ManagerOp.keeps hs hok).window.symm.trans hw))

end Bi100
