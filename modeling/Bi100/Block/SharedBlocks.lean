import Bi100.Block.SharedTables
import Bi100.Block.TokenStore

/-!
# Sequences that share a physical block

The ids in a block table are the blocks of the KV cache that a sequence reads and writes. With
prefix caching one id may be in the tables of several sequences.

- `SharesBlocks`: the invariant of the block manager.
- `BlockSpaceManager.Does.sharesBlocks`: a call keeps it.
- `shared_block_prefix`: in any run, two tables have an id in common only at the same place, in the
  same namespace, and up to the same tokens.
-/

namespace Bi100

open Py AllocState CpuGpuBlockAllocator
open PrefixCachingBlockAllocator (assertion)

variable {H : Type} [DecidableEq H] [Sha256 H]

namespace BlockSpaceManager

variable {m m' n : BlockSpaceManager H} {o : Owner} {t : BlockTable} {seq : Sequence}
  {blocks blocks' : List Ref} {u : Unit}

/-- The tables and the blocks on the GPU agree, and blocks share ids as they should. -/
structure SharesBlocks (m : BlockSpaceManager H) : Prop where
  tabled : m.Tabled
  shares : m.blockAllocator.Shares
  ids : ∀ o t, m.table o = some t → TableIds m.blockAllocator.gpu t

namespace SharesBlocks

/-- An operation on one table. -/
theorem act (hm : m.SharesBlocks) (hn : n.Tabled) (o : Owner)
    (hact : Acted m.blockAllocator blocks n.blockAllocator blocks')
    (hsh : n.blockAllocator.gpu.Sharing)
    (hold : ∀ o' t, o' ≠ o → m.table o' = some t → t.blocks.Disjoint blocks)
    (hother : ∀ o', o' ≠ o → n.table o' = m.table o')
    (hself : ∀ t, n.table o = some t → TableIds n.blockAllocator.gpu t) : n.SharesBlocks := by
  refine ⟨hn, hm.shares.acted hact hsh, fun o' t ht => ?_⟩
  by_cases he : o' = o
  · exact hself t (he ▸ ht)
  · rw [hother o' he] at ht
    exact (hm.ids o' t ht).keep hact.loc (hm.tabled.table o' t ht).blocks (hold o' t he ht)

/-- The table of a sequence changes. -/
theorem setSeq (hm : m.SharesBlocks) {seqId : Nat} {d : CpuGpuBlockAllocator H}
    (hact : Acted m.blockAllocator blocks d t.blocks)
    (hold : ∀ o' t, o' ≠ .seq seqId → m.table o' = some t → t.blocks.Disjoint blocks)
    (hok : TableOk d.gpu t) (hsh : d.gpu.Sharing) (hti : TableIds d.gpu t)
    (l : Dict Nat (Option Int)) :
    SharesBlocks { m with
      blockAllocator := d
      blockTables := m.blockTables.set seqId t
      seqLastAccess := l } := by
  refine hm.act ((hm.tabled.setSeq hact hold hok).tracked l) (.seq seqId) hact hsh hold
    (fun o' hne => ?_) fun t' ht' => ?_
  · cases o' with
    | seq id => exact Dict.get?_set_of_ne (fun e => hne (congrArg Owner.seq e)) _ _
    | cross id => rfl
  · have ht' : (m.blockTables.set seqId t).get? seqId = some t' := ht'
    rw [Dict.get?_set_self] at ht'
    obtain rfl := Option.some.inj ht'
    exact hti

/-- The GPU's allocator changed, but no live block. -/
theorem of_frame (hm : m.SharesBlocks) {s : AllocState H} (hn : n.Tabled)
    (hd : n.blockAllocator = { m.blockAllocator with gpu := s })
    (hinv : gpuInv m.blockAllocator.enableCaching s) (hlive : s.live = m.blockAllocator.gpu.live)
    (hframe : Frame m.blockAllocator.gpu.live m.blockAllocator.gpu s)
    (htables : n.table = m.table) : n.SharesBlocks := by
  have hact := acted_of_frame hm.shares.ready hinv hlive hframe
  refine ⟨hn, ?_, fun o t ht => ?_⟩
  · rw [hd]
    exact hm.shares.acted hact (hm.shares.sharing.of_frame (hm.shares.inv_of_acted hact)
      hm.shares.ready.preds hlive hframe)
  · rw [htables] at ht
    rw [hd]
    exact (hm.ids o t ht).keep hact.loc (hm.tabled.table o t ht).blocks
      (List.disjoint_nil_right _)

/-- Only what the trackers know changed. -/
theorem tracked (hm : m.SharesBlocks) (l : Dict Nat (Option Int)) :
    SharesBlocks { m with seqLastAccess := l } := ⟨hm.tabled.tracked l, hm.shares, hm.ids⟩

end SharesBlocks

/-! ## Allocating -/

theorem allocateSequence_shares {ns : Bytes} (hm : m.SharesBlocks)
    (h : (allocateSequence seq ns).run m = .ok t m') :
    m'.blockAllocator.gpu.Sharing ∧ TableIds m'.blockAllocator.gpu t := by
  rw [allocateSequence, run_get_bind] at h
  dsimp only at h
  rcases run_ite_ok.mp h with ⟨-, h⟩ | ⟨-, h⟩
  · obtain ⟨rfl, rfl⟩ := run_pure_ok.mp h
    refine ⟨hm.shares.sharing, fun r hr => ?_, rfl, fun i r id hr _ => ?_⟩
    · cases List.getElem?_nil.symm.trans hr
    · cases List.getElem?_nil.symm.trans hr
  · obtain ⟨d, hd, rfl⟩ := onAllocator_ok.mp h
    exact BlockTable.allocate_shares hm.shares hm.tabled.blockSize hd

/-- The other sequences of a group get forks. -/
theorem forkTables_shares {seqs : List Sequence} (hm : m.SharesBlocks)
    (ht : TableOk m.blockAllocator.gpu t) (hgpu : OnGpu m.blockAllocator.gpu t)
    (hti : TableIds m.blockAllocator.gpu t) (h : (forkTables t seqs).run m = .ok u m') :
    m'.SharesBlocks := by
  induction seqs generalizing m with
  | nil =>
    obtain ⟨-, rfl⟩ := run_pure_ok.mp h
    exact hm
  | cons seq rest ih =>
    rw [forkTables] at h
    obtain ⟨forked, m₁, h₁, h⟩ := run_bind_ok.mp h
    obtain ⟨d, hd, rfl⟩ := onAllocator_ok.mp h₁
    obtain ⟨_, m₂, h₂, h⟩ := run_bind_ok.mp h
    obtain rfl := run_modify_ok.mp h₂
    obtain ⟨_, m₃, h₃, h⟩ := run_bind_ok.mp h
    obtain ⟨l, rfl⟩ := trackSeq_ok h₃
    obtain ⟨-, ht', hgpu'⟩ := hm.tabled.forked ht hgpu hd seq.seqId l
    obtain ⟨hact, hok⟩ := BlockTable.fork_ok hm.shares.ready ht hgpu hd
    obtain ⟨hsh, hti'⟩ := BlockTable.fork_shares hm.shares ht hgpu hti hd
    exact ih (hm.setSeq hact disjoint_nil hok hsh hti' l) ht' hgpu'
      (hti.keep hact.loc ht.blocks (List.disjoint_nil_right _)) h

theorem allocateCross_shares {g : SequenceGroup} {ns : Bytes} (hm : m.SharesBlocks)
    (h : (allocateCross g ns).run m = .ok u m') : m'.SharesBlocks := by
  have hm' := allocateCross_ok hm.tabled h
  rw [allocateCross, run_get_bind, run_raiseIf_bind_ok, run_lift_bind_ok] at h
  obtain ⟨-, -, -, h⟩ := h
  cases henc : g.encoderSeq with
  | none =>
    rw [henc] at h
    obtain ⟨-, rfl⟩ := run_pure_ok.mp h
    exact hm
  | some encoderSeq =>
    rw [henc] at h
    obtain ⟨t, m₁, h₁, h⟩ := run_bind_ok.mp h
    obtain ⟨hsh, hti⟩ := allocateSequence_shares hm h₁
    obtain ⟨d, rfl, hact, -, -⟩ := allocateSequence_ok hm.tabled h₁
    obtain rfl := run_modify_ok.mp h
    refine hm.act hm' (.cross g.requestId) hact hsh disjoint_nil (fun o' hne => ?_) fun t' ht' => ?_
    · cases o' with
      | seq id => rfl
      | cross id => exact Dict.get?_set_of_ne (fun e => hne (congrArg Owner.cross e)) _ _
    · have ht' : (m.crossBlockTables.set g.requestId t).get? g.requestId = some t' := ht'
      rw [Dict.get?_set_self] at ht'
      obtain rfl := Option.some.inj ht'
      exact hti

theorem allocate_shares {g : SequenceGroup} {ns encoderNs : Bytes} (hm : m.SharesBlocks)
    (h : (allocate g ns encoderNs).run m = .ok u m') : m'.SharesBlocks := by
  rw [allocate, run_get_bind, run_raiseIf_bind_ok] at h
  obtain ⟨-, h⟩ := h
  cases hseqs : g.getSeqs .waiting with
  | nil =>
    rw [hseqs] at h
    cases run_throw_ok.mp h
  | cons seq rest =>
    rw [hseqs] at h
    obtain ⟨t, m₁, h₁, h⟩ := run_bind_ok.mp h
    obtain ⟨hsh, hti⟩ := allocateSequence_shares hm h₁
    obtain ⟨d, rfl, hact, hok, hgpu⟩ := allocateSequence_ok hm.tabled h₁
    obtain ⟨_, m₂, h₂, h⟩ := run_bind_ok.mp h
    obtain rfl := run_modify_ok.mp h₂
    obtain ⟨_, m₃, h₃, h⟩ := run_bind_ok.mp h
    obtain ⟨l, rfl⟩ := trackSeq_ok h₃
    obtain ⟨_, m₄, h₄, h⟩ := run_bind_ok.mp h
    exact allocateCross_shares
      (forkTables_shares (hm.setSeq hact disjoint_nil hok hsh hti l) hok hgpu hti h₄) h

/-! ## Appending and forking -/

theorem appendSlots_shares {k : Nat} {cows : List (Nat × Nat)} (hm : m.SharesBlocks)
    (h : (appendSlots seq k).run m = .ok cows m') : m'.SharesBlocks := by
  have hm' := (appendSlots_ok hm.tabled h).1
  rw [appendSlots] at h
  obtain ⟨t, ht, h⟩ := getBlockTable_bind_ok h
  obtain ⟨t', m₁, h₁, h⟩ := run_bind_ok.mp h
  obtain ⟨d, hd, rfl⟩ := onAllocator_ok.mp h₁
  have hok := hm.tabled.table _ t ht
  obtain ⟨hact, hok'⟩ := BlockTable.appendTokenIds_ok hm.shares.ready hok hd
  obtain ⟨hsh, hti⟩ := BlockTable.appendTokenIds_shares hm.shares hok (hm.ids _ t ht) hd
  obtain ⟨_, m₂, h₂, h⟩ := run_bind_ok.mp h
  obtain rfl := run_modify_ok.mp h₂
  obtain ⟨d', hd', rfl⟩ := onAllocator_ok.mp h
  obtain ⟨s, hs, rfl⟩ := onGpu_ok.mp hd'
  have hm₂ := hm.setSeq hact (hm.tabled.disjoint_of_table ht) hok' hsh hti m.seqLastAccess
  rw [PrefixCachingBlockAllocator.clearCopyOnWrites, run_get_bind, run_set_bind, run_pure_ok] at hs
  obtain ⟨-, rfl⟩ := hs
  exact hm₂.of_frame hm' rfl ((lawful d).cows [] hm₂.shares.ready.inv) rfl
    (.of_eq rfl rfl fun _ _ => rfl) rfl

theorem fork_shares {parent child : Sequence} (hm : m.SharesBlocks)
    (hgpu : ∀ t, m.blockTables.get? parent.seqId = some t → OnGpu m.blockAllocator.gpu t)
    (h : (fork parent child).run m = .ok u m') : m'.SharesBlocks := by
  rw [fork, run_get_bind] at h
  split at h
  · obtain ⟨-, rfl⟩ := run_pure_ok.mp h
    exact hm
  · next t ht =>
    obtain ⟨forked, m₁, h₁, h⟩ := run_bind_ok.mp h
    obtain ⟨d, hd, rfl⟩ := onAllocator_ok.mp h₁
    have hok := hm.tabled.table (.seq parent.seqId) t ht
    obtain ⟨hact, hok'⟩ := BlockTable.fork_ok hm.shares.ready hok (hgpu t ht) hd
    obtain ⟨hsh, hti⟩ := BlockTable.fork_shares hm.shares hok (hgpu t ht)
      (hm.ids (.seq parent.seqId) t ht) hd
    obtain ⟨_, m₂, h₂, h⟩ := run_bind_ok.mp h
    obtain rfl := run_modify_ok.mp h₂
    obtain ⟨l, rfl⟩ := trackSeq_ok h
    exact hm.setSeq hact disjoint_nil hok' hsh hti l

/-! ## Freeing -/

theorem markAccessed_shares {ids : List Nat} {time : Int} (hm : m.SharesBlocks)
    (h : (onAllocator (onGpu fun a => a.markBlocksAsAccessed ids time)).run m = .ok u m') :
    m'.SharesBlocks := by
  obtain ⟨hm', htables⟩ := markAccessed_ok hm.tabled h
  obtain ⟨d, hd, rfl⟩ := onAllocator_ok.mp h
  obtain ⟨s, hs, rfl⟩ := onGpu_ok.mp hd
  obtain ⟨hinv, hlive, hframe⟩ := (lawful m.blockAllocator).accessed hm.shares.ready.inv hs
  exact hm.of_frame hm' rfl hinv hlive hframe htables

/-- The blocks of a table are freed, and then the table goes. -/
theorem SharesBlocks.drop (hm : m.SharesBlocks) (hn : n.Tabled) {d : CpuGpuBlockAllocator H}
    (ht : m.table o = some t) (hd : t.free.run m.blockAllocator = .ok u d)
    (hn' : n.blockAllocator = d) (hother : ∀ o', o' ≠ o → n.table o' = m.table o')
    (hnone : n.table o = none) : n.SharesBlocks := by
  subst hn'
  have hok := hm.tabled.table o t ht
  refine hm.act hn o (BlockTable.free_ok hm.shares.ready hok hd)
    (BlockTable.free_shares hm.shares hok hd) (hm.tabled.disjoint_of_table ht) hother
    fun t' ht' => ?_
  rw [hnone] at ht'
  cases ht'

theorem free_shares (hm : m.SharesBlocks) (h : (free seq).run m = .ok u m') : m'.SharesBlocks := by
  have hm' := free_tabled hm.tabled h
  rw [free, run_get_bind] at h
  split at h
  · obtain ⟨-, rfl⟩ := run_pure_ok.mp h
    exact hm
  · next t ht =>
    rw [run_getOrRaise_bind_ok] at h
    obtain ⟨lastAccess, -, h⟩ := h
    have hrest : ∀ m₁ : BlockSpaceManager H, m₁.SharesBlocks → m₁.table = m.table →
        (do
          modify fun m => { m with seqLastAccess := m.seqLastAccess.erase seq.seqId }
          onAllocator t.free
          modify fun m => { m with blockTables := m.blockTables.erase seq.seqId }
          : ManagerM H Unit).run m₁ = .ok u m' → m'.SharesBlocks := by
      intro m₁ hm₁ htab h
      rw [run_modify_bind] at h
      obtain ⟨_, m₂, h₂, h⟩ := run_bind_ok.mp h
      obtain ⟨d, hd, rfl⟩ := onAllocator_ok.mp h₂
      obtain rfl := run_modify_ok.mp h
      have ht₁ : m₁.table (.seq seq.seqId) = some t := by
        rw [htab]
        exact ht
      refine (hm₁.tracked (m₁.seqLastAccess.erase seq.seqId)).drop (o := .seq seq.seqId) hm' ht₁ hd
        rfl (fun o' hne => ?_) (Dict.get?_erase_self _ _)
      cases o' with
      | seq id => exact Dict.get?_erase_of_ne (fun e => hne (congrArg Owner.seq e)) _
      | cross id => rfl
    split at h
    · exact hrest m hm rfl h
    · obtain ⟨_, m₁, h₁, h⟩ := run_bind_ok.mp h
      exact hrest m₁ (markAccessed_shares hm h₁) (markAccessed_ok hm.tabled h₁).2 h

theorem freeCross_shares {g : SequenceGroup} (hm : m.SharesBlocks)
    (h : (freeCross g).run m = .ok u m') : m'.SharesBlocks := by
  have hm' := freeCross_tabled hm.tabled h
  rw [freeCross, run_get_bind] at h
  split at h
  · obtain ⟨-, rfl⟩ := run_pure_ok.mp h
    exact hm
  · next t ht =>
    obtain ⟨_, m₁, h₁, h⟩ := run_bind_ok.mp h
    obtain ⟨d, hd, rfl⟩ := onAllocator_ok.mp h₁
    obtain rfl := run_modify_ok.mp h
    refine hm.drop (o := .cross g.requestId) hm' ht hd rfl (fun o' hne => ?_)
      (Dict.get?_erase_self _ _)
    cases o' with
    | seq id => rfl
    | cross id => exact Dict.get?_erase_of_ne (fun e => hne (congrArg Owner.cross e)) _

/-! ## Swapping and marks -/

/-- `swap` and the new ids keep the invariant, and so does a loop of them. -/
theorem swapTables_shares {swap : List Ref → DeviceM H (Dict Nat Nat)}
    (hswap : ∀ {d d' : CpuGpuBlockAllocator H} {t : BlockTable} {mapping : Dict Nat Nat}, d.Ready →
      TableOk d.gpu t → (swap t.blocks).run d = .ok mapping d' →
      Acted d t.blocks d' t.blocks ∧ TableOk d'.gpu t)
    (hshares : ∀ {d d' : CpuGpuBlockAllocator H} {t : BlockTable} {mapping : Dict Nat Nat}
      {ids : List Nat}, d.Shares → TableOk d.gpu t → TableIds d.gpu t →
      (swap t.blocks).run d = .ok mapping d' → (getBlockIds t.blocks).run d' = .ok ids d' →
      d'.gpu.Sharing ∧ TableIds d'.gpu { t with blockIds := ids })
    {seqs : List Sequence} {l : List (Nat × Nat)} (hm : m.SharesBlocks)
    (h : (swapTables swap seqs).run m = .ok l m') : m'.SharesBlocks := by
  induction seqs generalizing m l with
  | nil =>
    obtain ⟨-, rfl⟩ := run_pure_ok.mp h
    exact hm
  | cons seq rest ih =>
    rw [swapTables] at h
    obtain ⟨t, ht, h⟩ := getBlockTable_bind_ok h
    rcases run_ite_ok.mp h with ⟨-, h⟩ | ⟨-, h⟩
    · exact ih hm h
    · obtain ⟨mapping, m₁, h₁, h⟩ := run_bind_ok.mp h
      obtain ⟨d, hd, rfl⟩ := onAllocator_ok.mp h₁
      have hok := hm.tabled.table _ t ht
      obtain ⟨hact, hok'⟩ := hswap hm.shares.ready hok hd
      obtain ⟨ids, m₂, h₂, h⟩ := run_bind_ok.mp h
      obtain ⟨d₂, hd₂, rfl⟩ := onAllocator_ok.mp h₂
      obtain rfl := getBlockIds_ok hd₂
      obtain ⟨hsh, hti⟩ := hshares hm.shares hok (hm.ids _ t ht) hd hd₂
      obtain ⟨_, m₃, h₃, h⟩ := run_bind_ok.mp h
      obtain rfl := run_modify_ok.mp h₃
      obtain ⟨l', m₄, h₄, h⟩ := run_bind_ok.mp h
      obtain ⟨-, rfl⟩ := run_pure_ok.mp h
      exact ih (hm.setSeq (t := { t with blockIds := ids }) hact (hm.tabled.disjoint_of_table ht)
        ⟨hok'.blockSize, hok'.window, hok'.blocks⟩ hsh hti m.seqLastAccess) h₄

theorem accessAllBlocksInSeq_shares {now : Int} (hm : m.SharesBlocks)
    (h : (accessAllBlocksInSeq seq now).run m = .ok u m') : m'.SharesBlocks := by
  rw [accessAllBlocksInSeq, run_get_bind, run_ite_ok] at h
  rcases h with ⟨-, h⟩ | ⟨-, h⟩
  · rw [run_raiseUnless_bind_ok, run_set_ok] at h
    obtain ⟨-, rfl⟩ := h
    exact hm.tracked _
  · obtain ⟨-, rfl⟩ := run_pure_ok.mp h
    exact hm

theorem markBlocksAsComputed_shares (hm : m.SharesBlocks)
    (h : (markBlocksAsComputed).run m = .ok u m') : m'.SharesBlocks := by
  have hm' := markBlocksAsComputed_tabled hm.tabled h
  obtain ⟨d, hd, rfl⟩ := onAllocator_ok.mp h
  obtain ⟨s, hs, rfl⟩ := onGpu_ok.mp hd
  obtain ⟨hinv, hlive, hframe⟩ := (lawful m.blockAllocator).computed hm.shares.ready.inv hs
  exact hm.of_frame hm' rfl hinv hlive hframe rfl

/-! ## Runs -/

/-- A call keeps the invariant. -/
theorem Does.sharesBlocks {c : StoreCall H} (h : m.Does c m') (hm : m.SharesBlocks) :
    m'.SharesBlocks := by
  have hm' := h.op.tabled hm.tabled
  cases c with
  | allocate g ns encoderNs => exact allocate_shares hm h
  | appendSlots seq k => exact appendSlots_shares hm h.choose_spec
  | fork parent child => exact fork_shares hm h.1 h.2
  | free seq => exact free_shares hm h
  | freeCross g => exact freeCross_shares hm h
  | swapOut g =>
    exact swapTables_shares BlockTable.swapOut_ok BlockTable.swapOut_shares hm h.choose_spec
  | swapIn g =>
    exact swapTables_shares BlockTable.swapIn_ok BlockTable.swapIn_shares hm h.choose_spec
  | accessAllBlocksInSeq seq now => exact accessAllBlocksInSeq_shares hm h
  | markBlocksAsComputed => exact markBlocksAsComputed_shares hm h
  | tier c =>
    obtain rfl : m' = _ := h
    refine hm.of_frame hm' rfl ((lawful m.blockAllocator).tier c hm.shares.ready.inv) rfl
      (.of_eq rfl rfl fun _ _ => rfl) (funext fun o => ?_)
    cases o with
    | seq id => rfl
    | cross id => rfl

theorem sharesBlocks_of_fresh (h : m.Fresh) (hw : m.maxBlockSlidingWindow = none)
    (hcache : m.blockAllocator.enableCaching = true) : m.SharesBlocks := by
  have ht := tabled_of_fresh h hw
  refine ⟨ht, ⟨ht.ready, hcache, ?_⟩, fun o t hot => ?_⟩
  all_goals
    obtain ⟨blockSize, numGpu, numCpu, watermark, window, caching, policy, offload, limit, -, -,
      rfl⟩ := h
  · intro r hr
    exact absurd (live_init (H := H) _ _ _ _ _ _ ▸ hr) (Finset.notMem_empty r)
  · cases o with
    | seq id => cases hot
    | cross id => cases hot

end BlockSpaceManager

/-! ## Two tables with one id -/

namespace TableBlocks

variable {s : AllocState H} {blocks : List Ref} {r : Ref} {n i : Nat}

omit [DecidableEq H] [Sha256 H] in
/-- The first blocks have the first tokens. -/
theorem contents_take (ht : TableBlocks s blocks n) {k : Nat} (hk : k ≤ blocks.length) :
    s.contents (blocks.take k) = (s.contents blocks).take (k * s.blockSize) := by
  have hsplit : s.contents (blocks.take k) ++ s.contents (blocks.drop k) = s.contents blocks := by
    rw [← contents_append, List.take_append_drop]
  have hlen : (s.contents (blocks.take k)).length = min n (k * s.blockSize) := by
    rw [AllocState.contents, List.length_flatMap,
      ← BlockTable.sum_tokensIn (Nat.min_le_right n (k * s.blockSize))]
    congr 1
    refine List.ext_getElem? fun j => ?_
    rw [List.getElem?_map, List.getElem?_map]
    by_cases hj : j < k
    · rw [List.getElem?_take_of_lt hj, List.getElem?_range hj]
      obtain ⟨q, hq⟩ : ∃ q, blocks[j]? = some q := ⟨blocks[j], List.getElem?_eq_getElem _⟩
      rw [hq, Option.map_some, Option.map_some, ht.filled j q hq, tokensIn, tokensIn]
      have := Nat.mul_le_mul_right s.blockSize (Nat.succ_le_of_lt hj)
      rw [Nat.succ_mul] at this
      congr 1
      omega
    · rw [List.getElem?_eq_none (by rw [List.length_take]; omega),
        List.getElem?_eq_none (by rw [List.length_range]; omega)]
      rfl
  rw [← hsplit]
  rcases Nat.le_total (k * s.blockSize) n with hle | hle
  · rw [List.take_append_of_le_length (by omega)]
    exact (List.take_of_length_le (by omega)).symm
  · have hall : (s.contents (blocks.drop k)).length = 0 := by
      have := congrArg List.length hsplit
      rw [List.length_append, ht.length_contents] at this
      omega
    rw [List.length_eq_zero_iff.mp hall, List.append_nil]
    exact (List.take_of_length_le (by omega)).symm

omit [DecidableEq H] in
/-- The blocks up to one with a hash are full. -/
theorem full_of_hash (ht : TableBlocks s blocks n) {x : H} (hi : blocks[i]? = some r)
    (hh : HasHash s.blockSize s.heap r x) {j : Nat} {q : Ref} (hj : j ≤ i)
    (hq : blocks[j]? = some q) : (s.heap q).tokenIds.length = s.blockSize := by
  have hfull := hh.full
  rw [ht.filled i r hi, tokensIn] at hfull
  rw [ht.filled j q hq, tokensIn]
  have := Nat.mul_le_mul_right s.blockSize hj
  omega

end TableBlocks

omit [DecidableEq H] in
theorem chainInputs_append (ns : Bytes) (prev : Option H) (tokens tokens' : List (List Nat)) :
    chainInputs ns prev (tokens ++ tokens') =
      chainInputs ns prev tokens ++ chainInputs ns (chainHash ns prev tokens) tokens' := by
  induction tokens generalizing prev with
  | nil => rfl
  | cons t rest ih =>
    rw [List.cons_append, chainInputs, ih, chainInputs, List.cons_append]
    rfl

namespace BlockSpaceManager

/-- What is hashed for the full blocks of a table. -/
def hashed (m : BlockSpaceManager H) (t : BlockTable) : List Bytes :=
  chainInputs (H := H) t.cacheNamespace none ((t.blocks.take (t.numFullSlots / t.blockSize)).map
    fun r => (m.blockAllocator.gpu.heap r).tokenIds)

variable {m : BlockSpaceManager H} {o : Owner} {t : BlockTable} {i id : Nat} {r : Ref}

/-- The block behind an id of a table on the GPU. -/
theorem SharesBlocks.block_of_id (hm : m.SharesBlocks) (ht : m.table o = some t)
    (hgpu : OnGpu m.blockAllocator.gpu t) (hid : t.blockIds[i]? = some id) :
    ∃ r, t.blocks[i]? = some r ∧ (m.blockAllocator.gpu.heap r).blockId = some id := by
  have hti := hm.ids o t ht
  have hlt := (List.getElem?_eq_some_iff.mp hid).1
  rw [hti.length] at hlt
  have hr : t.blocks[i]? = some t.blocks[i] := List.getElem?_eq_getElem hlt
  obtain ⟨id', hid'⟩ := Option.ne_none_iff_exists'.mp (hgpu _ (List.mem_of_getElem? hr))
  obtain rfl := Option.some.inj ((hti.ids i _ id' hr hid').symm.trans hid)
  exact ⟨_, hr, hid'⟩

/-- The chain of a block of a table. -/
theorem SharesBlocks.chain (hm : m.SharesBlocks) (ht : m.table o = some t)
    (hr : t.blocks[i]? = some r) : Chain m.blockAllocator.gpu.heap r t.cacheNamespace
      ((t.blocks.take (i + 1)).map fun q => (m.blockAllocator.gpu.heap q).tokenIds) := by
  have hlt := (List.getElem?_eq_some_iff.mp hr).1
  have hfirst : t.blocks[0]? = some t.blocks[0] := List.getElem?_eq_getElem (by omega)
  have hc := Chain.of_table (hm.tabled.table o t ht).blocks.chain hfirst hr
  rwa [(hm.ids o t ht).root _ hfirst] at hc

/-- The blocks up to one with a hash are among those that are hashed for the table. -/
theorem SharesBlocks.hashed_of_hash (hm : m.SharesBlocks) (ht : m.table o = some t)
    (hr : t.blocks[i]? = some r) {x : H}
    (hh : HasHash m.blockAllocator.gpu.blockSize m.blockAllocator.gpu.heap r x) :
    chainInputs (H := H) t.cacheNamespace none ((t.blocks.take (i + 1)).map fun q =>
      (m.blockAllocator.gpu.heap q).tokenIds) ⊆ m.hashed t := by
  have hok := hm.tabled.table o t ht
  have hfull := hh.full
  rw [hok.blocks.filled i r hr, tokensIn] at hfull
  have hle : i + 1 ≤ t.numFullSlots / t.blockSize := by
    rw [hok.blockSize, Nat.le_div_iff_mul_le hm.tabled.ready.pos, Nat.succ_mul]
    have := hm.tabled.ready.pos
    omega
  have hsplit := (List.take_append_drop (i + 1) (t.blocks.take (t.numFullSlots / t.blockSize))).symm
  rw [List.take_take, Nat.min_eq_left hle] at hsplit
  rw [hashed, hsplit, List.map_append, chainInputs_append]
  exact List.subset_append_left _ _

/-- The full blocks up to one with a hash. -/
theorem SharesBlocks.fullBlocks (hm : m.SharesBlocks) (ht : m.table o = some t)
    (hr : t.blocks[i]? = some r) {x : H} {l : List Nat}
    (hh : HasHash m.blockAllocator.gpu.blockSize m.blockAllocator.gpu.heap r x)
    (hl : m.stored o = some l) (hpack : ∀ y ∈ l, y < 2 ^ 63) :
    FullBlocks m.blockAllocator.gpu.blockSize ((t.blocks.take (i + 1)).map fun q =>
      (m.blockAllocator.gpu.heap q).tokenIds) := by
  have hok := hm.tabled.table o t ht
  rw [stored_of_table ht] at hl
  obtain rfl := Option.some.inj hl
  intro tokenIds hmem
  obtain ⟨q, hq, rfl⟩ := List.mem_map.mp hmem
  obtain ⟨j, hj⟩ := List.mem_iff_getElem?.mp hq
  have hlt := (List.getElem?_eq_some_iff.mp hj).1
  rw [List.length_take] at hlt
  rw [List.getElem?_take_of_lt (by omega)] at hj
  refine ⟨hok.blocks.full_of_hash hr hh (by omega) hj, fun y hy => hpack y ?_⟩
  exact List.mem_flatMap.mpr ⟨q, List.mem_of_getElem? hj, hy⟩

/-- The tokens up to the end of a block. -/
theorem SharesBlocks.stored_take (hm : m.SharesBlocks) (ht : m.table o = some t) {l : List Nat}
    (hr : t.blocks[i]? = some r) (hl : m.stored o = some l) :
    l.take ((i + 1) * m.blockSize) = ((t.blocks.take (i + 1)).map fun q =>
      (m.blockAllocator.gpu.heap q).tokenIds).flatten := by
  rw [stored_of_table ht] at hl
  obtain rfl := Option.some.inj hl
  rw [hm.tabled.blockSize, ← (hm.tabled.table o t ht).blocks.contents_take
    (List.getElem?_eq_some_iff.mp hr).1, AllocState.contents, List.flatMap_def]

/-- A block that tokens reach is not empty. -/
theorem SharesBlocks.ne_nil (hm : m.SharesBlocks) (ht : m.table o = some t) {l : List Nat}
    (hr : t.blocks[i]? = some r) (hl : m.stored o = some l) (hlen : i * m.blockSize < l.length) :
    (m.blockAllocator.gpu.heap r).tokenIds ≠ [] := by
  have hok := (hm.tabled.table o t ht).blocks
  rw [stored_of_table ht] at hl
  obtain rfl := Option.some.inj hl
  rw [hok.length_contents, hm.tabled.blockSize] at hlen
  have hfill := hok.filled i r hr
  rw [tokensIn] at hfill
  have := hm.tabled.ready.pos
  intro hnil
  rw [hnil, List.length_nil] at hfill
  omega

end BlockSpaceManager

open BlockSpaceManager

/-- In any run with prefix caching, if the tables of two sequences on the GPU have an id in common
then it is at the same place in both, the sequences are in one namespace, and if the block has
tokens then the sequences have the same tokens up to its end. -/
theorem shared_block_prefix {m₀ m : BlockSpaceManager H} {calls : List (StoreCall H)}
    {o o' : Owner} {t t' : BlockTable} {l l' : List Nat} {X X' : List Bytes} {i j id : Nat}
    (hf : m₀.Fresh) (hcache : m₀.enableCaching = true) (h : (managerLts H).Run m₀ calls m)
    (ht : m.table o = some t) (ht' : m.table o' = some t')
    (hgpu : OnGpu m.blockAllocator.gpu t) (hgpu' : OnGpu m.blockAllocator.gpu t')
    (hid : t.blockIds[i]? = some id) (hid' : t'.blockIds[j]? = some id)
    (hl : m.stored o = some l) (hl' : m.stored o' = some l')
    (hpack : ∀ x ∈ l, x < 2 ^ 63) (hpack' : ∀ x ∈ l', x < 2 ^ 63)
    (hns : NamespaceOrigin H t.cacheNamespace X) (hns' : NamespaceOrigin H t'.cacheNamespace X')
    (hno : NoCollision H (m.hashed t ++ X ++ (m.hashed t' ++ X'))) :
    i = j ∧ t.cacheNamespace = t'.cacheNamespace ∧ (i * m.blockSize < l.length →
      l.take ((i + 1) * m.blockSize) = l'.take ((i + 1) * m.blockSize)) := by
  have hm : m.SharesBlocks := by
    refine h.invariant (I := SharesBlocks) (fun m c m' hm hs => ?_) ?_
    · have hs : m.Does c m' := hs
      exact hs.sharesBlocks hm
    · obtain ⟨blockSize, numGpu, numCpu, watermark, window, caching, policy, offload, limit, hpos,
        hwin, rfl⟩ := hf
      obtain rfl : caching = true := hcache
      obtain rfl := hwin rfl
      exact sharesBlocks_of_fresh ⟨blockSize, numGpu, numCpu, watermark, none, true, policy,
        offload, limit, hpos, fun _ => rfl, rfl⟩ rfl rfl
  have hc := hm.shares.inv
  obtain ⟨r, hr, hrid⟩ := hm.block_of_id ht hgpu hid
  obtain ⟨q, hq, hqid⟩ := hm.block_of_id ht' hgpu' hid'
  have hrc := hm.chain ht hr
  have hqc := hm.chain ht' hq
  have hrl := (hm.tabled.table o t ht).blocks.live r (List.mem_of_getElem? hr)
  have hql := (hm.tabled.table o' t' ht').blocks.live q (List.mem_of_getElem? hq)
  -- The places and the tokens follow from the chains.
  have hend : t.cacheNamespace = t'.cacheNamespace →
      ((t.blocks.take (i + 1)).map fun q => (m.blockAllocator.gpu.heap q).tokenIds).length =
        ((t'.blocks.take (j + 1)).map fun q => (m.blockAllocator.gpu.heap q).tokenIds).length →
      ((m.blockAllocator.gpu.heap r).tokenIds ≠ [] →
        ((t.blocks.take (i + 1)).map fun q => (m.blockAllocator.gpu.heap q).tokenIds) =
          (t'.blocks.take (j + 1)).map fun q => (m.blockAllocator.gpu.heap q).tokenIds) →
      i = j ∧ t.cacheNamespace = t'.cacheNamespace ∧ (i * m.blockSize < l.length →
        l.take ((i + 1) * m.blockSize) = l'.take ((i + 1) * m.blockSize)) := by
    intro hnamespace hlen htok
    have hi := (List.getElem?_eq_some_iff.mp hr).1
    have hj := (List.getElem?_eq_some_iff.mp hq).1
    rw [List.length_map, List.length_map, List.length_take, List.length_take] at hlen
    obtain rfl : i = j := by omega
    refine ⟨rfl, hnamespace, fun hlt => ?_⟩
    rw [hm.stored_take ht hr hl, hm.stored_take ht' hq hl', htok (hm.ne_nil ht hr hl hlt)]
  by_cases hrq : r = q
  · subst hrq
    obtain ⟨hnamespace, htok⟩ := hrc.unique hqc
    exact hend hnamespace (congrArg List.length htok) fun _ => htok
  · by_cases hh : ∃ x, HasHash m.blockAllocator.gpu.blockSize m.blockAllocator.gpu.heap r x
    · -- Both blocks have the hash that the id is cached under.
      obtain ⟨x, hx⟩ := hh
      obtain ⟨y, hy⟩ :
          ∃ y, HasHash m.blockAllocator.gpu.blockSize m.blockAllocator.gpu.heap q y := by
        by_contra hnone
        exact hc.no_hash hql.1 hrl.1 hqid hrid (fun y hy => hnone ⟨y, hy⟩) x hx
      obtain rfl := hc.ids.cached_inj x y id (hc.hashed r hrl.1 id x hrid (by simp) hx)
        (hc.hashed q hql.1 id y hqid (by simp) hy)
      obtain ⟨hleft, hright⟩ := List.append_subset.mp (List.Subset.refl
        (m.hashed t ++ X ++ (m.hashed t' ++ X')))
      obtain ⟨hsub, hX⟩ := List.append_subset.mp hleft
      obtain ⟨hsub', hX'⟩ := List.append_subset.mp hright
      obtain ⟨htok, hnamespace⟩ := chainHash_eq hno hns hX hns' hX'
        (hm.fullBlocks ht hr hx hl hpack) (hm.fullBlocks ht' hq hy hl' hpack')
        (List.Subset.trans (hm.hashed_of_hash ht hr hx) hsub)
        (List.Subset.trans (hm.hashed_of_hash ht' hq hy) hsub')
        ((hrc.chainHash_eq hx).trans (hqc.chainHash_eq hy).symm)
      exact hend (hnamespace hrc.tokens_ne_nil) (congrArg List.length htok) fun _ => htok
    · obtain ⟨ns, tokens, tokens', hcr, hcq, hlen, -, htok⟩ := hm.shares.sharing r hrl.1 q hql.1 hrq
        id hrid hqid fun x hx => hh ⟨x, hx⟩
      obtain ⟨rfl, rfl⟩ := hrc.unique hcr
      obtain ⟨hnamespace, rfl⟩ := hqc.unique hcq
      exact hend hnamespace.symm hlen htok

/-- A request of one sequence. -/
def loneGroup (seqId : Nat) (promptTokenIds : List Nat) : SequenceGroup where
  requestId := "r"
  seqs := [⟨seqId, ⟨promptTokenIds, [], 0, .prefill⟩, .waiting⟩]
  encoderSeq := none

/-- Eight blocks of two tokens, cached under `sha256`. -/
def digestBlocks : BlockSpaceManager Digest256 := .init Digest256 2 8 0 0 none true .lru false 16

/-- The second prompt gets the first block of the first one, and not its second block. -/
theorem shared_block_prefix_pair : ∃ (m : BlockSpaceManager Digest256) (t t' : BlockTable),
    (managerLts Digest256).Run digestBlocks
      [.allocate (loneGroup 0 [1, 2, 3, 4, 5]) [] [],
        .allocate (loneGroup 1 [1, 2, 6, 7]) [] []] m ∧
    m.table (.seq 0) = some t ∧ m.table (.seq 1) = some t' ∧
    t.blockIds[0]? = t'.blockIds[0]? ∧ t.blockIds[1]? ≠ t'.blockIds[1]? ∧
    [1, 2, 3, 4, 5].take 2 = [1, 2, 6, 7].take 2 := by
  obtain ⟨_, m, hrun, hm⟩ := check_eq_true.mp (show check (do
      allocate (loneGroup 0 [1, 2, 3, 4, 5]) [] []
      allocate (loneGroup 1 [1, 2, 6, 7]) [] []) digestBlocks (fun _ m =>
        m.blockSize = 2 ∧ m.stored (.seq 0) = some [1, 2, 3, 4, 5] ∧
        m.stored (.seq 1) = some [1, 2, 6, 7] ∧
        (m.table (.seq 0)).any (fun t => (m.table (.seq 1)).any fun t' =>
          t.blockIds[0]? = some 0 ∧ t'.blockIds[0]? = some 0 ∧ t.blockIds[1]? ≠ t'.blockIds[1]? ∧
          t.cacheNamespace = [] ∧ t'.cacheNamespace = [] ∧
          (∀ r ∈ t.blocks, (m.blockAllocator.gpu.heap r).blockId ≠ none) ∧
          (∀ r ∈ t'.blocks, (m.blockAllocator.gpu.heap r).blockId ≠ none) ∧
          ((m.hashed t ++ [] ++ (m.hashed t' ++ [])).dedup.map
            (Sha256.digest : Bytes → Digest256)).Nodup)) = true by decide +kernel)
  obtain ⟨_, m₁, h₁, h₂⟩ := run_bind_ok.mp hrun
  have hcalls : (managerLts Digest256).Run digestBlocks
      [.allocate (loneGroup 0 [1, 2, 3, 4, 5]) [] [],
        .allocate (loneGroup 1 [1, 2, 6, 7]) [] []] m :=
    .cons h₁ (.cons h₂ (.nil m))
  obtain ⟨hsize, hl, hl', htables⟩ := of_decide_eq_true hm
  obtain ⟨t, ht, htables⟩ := Option.any_eq_true _ _ |>.mp htables
  obtain ⟨t', ht', htables⟩ := Option.any_eq_true _ _ |>.mp htables
  obtain ⟨hid, hid', hne, hns, hns', hgpu, hgpu', hnodup⟩ := of_decide_eq_true htables
  have horigin : ∀ {ns : Bytes}, ns = [] → NamespaceOrigin Digest256 ns [] := by
    rintro _ rfl
    exact .empty
  have hshared := shared_block_prefix ⟨2, 8, 0, 0, none, true, .lru, false, 16, by decide,
    fun _ => rfl, rfl⟩ rfl hcalls ht ht' hgpu hgpu' hid hid' hl hl' (by decide) (by decide)
    (horigin hns) (horigin hns')
    ⟨fun x hx y hy => List.inj_on_of_nodup_map hnodup (List.mem_dedup.mpr hx)
      (List.mem_dedup.mpr hy), Subtype.val_injective, fun h => h.2⟩
  have hprefix := hshared.2.2
  rw [hsize] at hprefix
  exact ⟨m, t, t', hcalls, ht, ht', hid.trans hid'.symm, hne, hprefix (by decide)⟩

end Bi100
