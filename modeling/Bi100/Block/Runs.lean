import Bi100.Block.Manager
import Bi100.Block.TableOps
import Bi100.Block.Partition

/-!
# Runs of the block manager

- `ManagerOp`: the calls of the scheduler that do not raise. Between two of them the CPU tier may
  change.
- `Tabled`: what holds of the tables and the blocks on the GPU, without a sliding window.
- `tabled_of_reachable`: it holds after any number of operations.
-/

namespace Bi100

open Py AllocState CpuGpuBlockAllocator
open PrefixCachingBlockAllocator (assertion)

variable {H : Type}

/-- Whose table it is. -/
inductive Owner where
  | seq (seqId : Nat)
  | cross (requestId : String)
deriving DecidableEq, Repr

namespace BlockSpaceManager

/-- The table of a sequence, or the cross-attention table of a request. -/
def table (m : BlockSpaceManager H) : Owner → Option BlockTable
  | .seq seqId => m.blockTables.get? seqId
  | .cross requestId => m.crossBlockTables.get? requestId

variable [DecidableEq H] [Sha256 H] {m m' : BlockSpaceManager H}

/-- The tables and the blocks on the GPU agree. -/
structure Tabled (m : BlockSpaceManager H) : Prop where
  ready : m.blockAllocator.Ready
  blockSize : m.blockSize = m.blockAllocator.gpu.blockSize
  window : m.maxBlockSlidingWindow = none
  table : ∀ o t, m.table o = some t → TableOk m.blockAllocator.gpu t
  disjoint : ∀ o o' t t', o ≠ o' → m.table o = some t → m.table o' = some t' →
    t.blocks.Disjoint t'.blocks

/-! ## Steps -/

omit [DecidableEq H] [Sha256 H] in
theorem onAllocator_ok {α : Type} {x : DeviceM H α} {a : α} :
    (onAllocator x).run m = .ok a m' ↔
      ∃ d, x.run m.blockAllocator = .ok a d ∧ m' = { m with blockAllocator := d } := by
  cases hx : x.run m.blockAllocator with
  | ok b s =>
    have hrun : (onAllocator x).run m = .ok b { m with blockAllocator := s } := by
      unfold onAllocator EStateM.run
      dsimp only
      rw [show x m.blockAllocator = _ from hx]
    rw [hrun]
    simp only [EStateM.Result.ok.injEq]
    constructor
    · rintro ⟨h₁, h₂⟩
      exact ⟨s, ⟨h₁, rfl⟩, h₂.symm⟩
    · rintro ⟨_, ⟨h₁, h₂⟩, h⟩
      exact ⟨h₁, h₂ ▸ h.symm⟩
  | error e s =>
    have hrun : (onAllocator x).run m = .error e { m with blockAllocator := s } := by
      unfold onAllocator EStateM.run
      dsimp only
      rw [show x m.blockAllocator = _ from hx]
    rw [hrun]
    simp

namespace Tabled

variable {o : Owner} {blocks blocks' : List Ref} {t : BlockTable}

/-- An operation on one table. -/
theorem act {n : BlockSpaceManager H} (hm : m.Tabled) (o : Owner)
    (hact : Acted m.blockAllocator blocks n.blockAllocator blocks')
    (hold : ∀ o' t, o' ≠ o → m.table o' = some t → t.blocks.Disjoint blocks)
    (hbs : n.blockSize = m.blockSize) (hw : n.maxBlockSlidingWindow = m.maxBlockSlidingWindow)
    (hother : ∀ o', o' ≠ o → n.table o' = m.table o')
    (hself : ∀ t, n.table o = some t →
      TableOk n.blockAllocator.gpu t ∧ t.blocks ⊆ blocks') : n.Tabled := by
  have hkeep : ∀ o' t, o' ≠ o → n.table o' = some t →
      TableOk n.blockAllocator.gpu t ∧ t.blocks.Disjoint blocks' := fun o' t hne ht => by
    rw [hother o' hne] at ht
    have hok := hm.table o' t ht
    obtain ⟨htable, hd⟩ := hact.loc.keep hok.blocks (hold o' t hne ht)
    exact ⟨⟨hok.blockSize.trans hact.blockSize.symm, hok.window, htable⟩, hd⟩
  refine ⟨hact.ready, hbs.trans (hm.blockSize.trans hact.blockSize.symm), hw.trans hm.window,
    fun o' t ht => ?_, fun o₁ o₂ t₁ t₂ hne h₁ h₂ => ?_⟩
  · by_cases he : o' = o
    · exact (hself t (he ▸ ht)).1
    · exact (hkeep o' t he ht).1
  · by_cases he₁ : o₁ = o
    · subst he₁
      have := (hkeep o₂ t₂ (Ne.symm hne) h₂).2
      exact (List.disjoint_of_subset_right (hself t₁ h₁).2 this).symm
    · by_cases he₂ : o₂ = o
      · subst he₂
        exact List.disjoint_of_subset_right (hself t₂ h₂).2 (hkeep o₁ t₁ he₁ h₁).2
      · rw [hother o₁ he₁] at h₁
        rw [hother o₂ he₂] at h₂
        exact hm.disjoint o₁ o₂ t₁ t₂ hne h₁ h₂

/-- An operation that does not touch any block. -/
theorem same {n : BlockSpaceManager H} (hm : m.Tabled)
    (hact : Acted m.blockAllocator [] n.blockAllocator [])
    (hbs : n.blockSize = m.blockSize) (hw : n.maxBlockSlidingWindow = m.maxBlockSlidingWindow)
    (htables : n.table = m.table) : n.Tabled := by
  refine ⟨hact.ready, hbs.trans (hm.blockSize.trans hact.blockSize.symm), hw.trans hm.window,
    fun o t ht => ?_, by rw [htables]; exact hm.disjoint⟩
  rw [htables] at ht
  have hok := hm.table o t ht
  exact ⟨hok.blockSize.trans hact.blockSize.symm, hok.window,
    (hact.loc.keep hok.blocks (List.disjoint_nil_right _)).1⟩

/-- The tables of others do not have the blocks of a table. -/
theorem disjoint_of_table (hm : m.Tabled) (ht : m.table o = some t) :
    ∀ o' t', o' ≠ o → m.table o' = some t' → t'.blocks.Disjoint t.blocks :=
  fun o' t' hne ht' => hm.disjoint o' o t' t hne ht' ht

/-- The table of a sequence changes. -/
theorem setSeq (hm : m.Tabled) {seqId : Nat} {d : CpuGpuBlockAllocator H}
    (hact : Acted m.blockAllocator blocks d t.blocks)
    (hold : ∀ o' t, o' ≠ .seq seqId → m.table o' = some t → t.blocks.Disjoint blocks)
    (hok : TableOk d.gpu t) :
    Tabled { m with blockAllocator := d, blockTables := m.blockTables.set seqId t } := by
  refine hm.act (n := { m with blockAllocator := d, blockTables := m.blockTables.set seqId t })
    (.seq seqId) hact hold rfl rfl (fun o' hne => ?_) fun t' ht' => ?_
  · cases o' with
    | seq id => exact Dict.get?_set_of_ne (fun e => hne (congrArg Owner.seq e)) _ _
    | cross id => rfl
  · have ht' : (m.blockTables.set seqId t).get? seqId = some t' := ht'
    rw [Dict.get?_set_self] at ht'
    obtain rfl := Option.some.inj ht'
    exact ⟨hok, List.Subset.refl _⟩

end Tabled

/-- The GPU's allocator changed, but no live block. -/
theorem acted_of_frame {d : CpuGpuBlockAllocator H} {s : AllocState H} (hd : d.Ready)
    (hinv : gpuInv d.enableCaching s) (hlive : s.live = d.gpu.live)
    (hframe : Frame d.gpu.live d.gpu s) : Acted d [] { d with gpu := s } [] := by
  refine ⟨rfl, ⟨hinv, (SameLive.of_frame hframe hlive).predsLive hd.preds, hframe.blockSize ▸ hd.pos,
    hd.nullBlock⟩, .of_live hlive (hframe.mono Finset.sdiff_subset) fun q hq =>
      absurd hq List.not_mem_nil⟩

/-! ## Allocating -/

variable {t : BlockTable} {seq : Sequence}

omit [DecidableEq H] [Sha256 H] in
theorem trackSeq_ok {seqId : Nat} {u : PUnit} (h : (trackSeq seqId).run m = .ok u m') :
    ∃ l, m' = { m with seqLastAccess := l } := by
  rw [trackSeq, run_get_bind, run_raiseIf_bind_ok, run_set_ok] at h
  exact ⟨_, h.2⟩

/-- Only what the trackers know changed. -/
theorem Tabled.tracked (hm : m.Tabled) (l : Dict Nat (Option Int)) :
    Tabled { m with seqLastAccess := l } :=
  hm.same (n := { m with seqLastAccess := l })
    (.refl hm.ready fun _ hq => absurd hq List.not_mem_nil) rfl rfl rfl

theorem allocateSequence_ok {ns : Bytes} (hm : m.Tabled)
    (h : (allocateSequence seq ns).run m = .ok t m') :
    ∃ d, m' = { m with blockAllocator := d } ∧ Acted m.blockAllocator [] d t.blocks ∧
      TableOk d.gpu t ∧ OnGpu d.gpu t := by
  rw [allocateSequence, run_get_bind] at h
  dsimp only at h
  rcases run_ite_ok.mp h with ⟨-, h⟩ | ⟨-, h⟩
  · obtain ⟨rfl, rfl⟩ := run_pure_ok.mp h
    refine ⟨m'.blockAllocator, rfl, .refl hm.ready fun q hq => absurd hq List.not_mem_nil, ?_,
      fun q hq => absurd hq List.not_mem_nil⟩
    refine ⟨hm.blockSize, hm.window, List.nodup_nil, fun r hr => absurd hr List.not_mem_nil, trivial,
      fun i r hr => (nomatch hr), Nat.zero_le _, fun q _ p hp => absurd hp List.not_mem_nil,
      fun q hq => absurd hq List.not_mem_nil⟩
  · obtain ⟨d, hd, rfl⟩ := onAllocator_ok.mp h
    obtain ⟨hact, hok, hgpu⟩ := BlockTable.allocate_ok hm.ready hm.blockSize hm.window hd
    exact ⟨d, rfl, hact, hok, hgpu⟩

omit [DecidableEq H] [Sha256 H] in
/-- A new table, of blocks that no table had. -/
theorem disjoint_nil {o : Owner} : ∀ o' t, o' ≠ o → m.table o' = some t →
    t.blocks.Disjoint [] := fun _ _ _ _ => List.disjoint_nil_right _

/-- A sequence gets a fork of a table. -/
theorem Tabled.forked (hm : m.Tabled) {forked : BlockTable} {d : CpuGpuBlockAllocator H}
    (ht : TableOk m.blockAllocator.gpu t) (hgpu : OnGpu m.blockAllocator.gpu t)
    (hd : t.fork.run m.blockAllocator = .ok forked d) (seqId : Nat) (l : Dict Nat (Option Int)) :
    Tabled { m with
      blockAllocator := d
      blockTables := m.blockTables.set seqId forked
      seqLastAccess := l } ∧ TableOk d.gpu t ∧ OnGpu d.gpu t := by
  obtain ⟨hact, hok⟩ := BlockTable.fork_ok hm.ready ht hgpu hd
  refine ⟨(hm.setSeq hact disjoint_nil hok).tracked l, ?_, fun r hr => ?_⟩
  · have := (hact.loc.keep ht.blocks (List.disjoint_nil_right _)).1
    exact ⟨ht.blockSize.trans hact.blockSize.symm, ht.window, this⟩
  · rw [hact.loc.frame.blockId (mem_others.mpr ⟨(ht.blocks.live r hr).1, List.not_mem_nil⟩)]
    exact hgpu r hr

/-- The other sequences of a group share the blocks of the first one's table. -/
theorem forkTables_ok {seqs : List Sequence} {u : Unit} (hm : m.Tabled)
    (ht : TableOk m.blockAllocator.gpu t) (hgpu : OnGpu m.blockAllocator.gpu t)
    (h : (forkTables t seqs).run m = .ok u m') : m'.Tabled := by
  induction seqs generalizing m with
  | nil =>
    obtain ⟨-, rfl⟩ := run_pure_ok.mp h
    exact hm
  | cons seq rest ih =>
    rw [forkTables] at h
    obtain ⟨forked, m₁, h₁, h⟩ := run_bind_ok.mp h
    obtain ⟨d, hd, rfl⟩ := onAllocator_ok.mp h₁
    obtain ⟨_, m₂, h₂, h⟩ := run_bind_ok.mp h
    obtain rfl := run_modify_ok.mp h₂
    obtain ⟨_, m₃, h₃, h⟩ := run_bind_ok.mp h
    obtain ⟨l, rfl⟩ := trackSeq_ok h₃
    obtain ⟨hm', ht', hgpu'⟩ := hm.forked ht hgpu hd seq.seqId l
    exact ih hm' ht' hgpu' h

theorem allocateCross_ok {g : SequenceGroup} {ns : Bytes} {u : Unit} (hm : m.Tabled)
    (h : (allocateCross g ns).run m = .ok u m') : m'.Tabled := by
  rw [allocateCross, run_get_bind, run_raiseIf_bind_ok, run_lift_bind_ok] at h
  obtain ⟨-, -, -, h⟩ := h
  split at h
  · obtain ⟨-, rfl⟩ := run_pure_ok.mp h
    exact hm
  · obtain ⟨t, m₁, h₁, h⟩ := run_bind_ok.mp h
    obtain ⟨d, rfl, hact, hok, -⟩ := allocateSequence_ok hm h₁
    obtain rfl := run_modify_ok.mp h
    refine hm.act (.cross g.requestId) hact disjoint_nil rfl rfl (fun o' hne => ?_) fun t' ht' => ?_
    · cases o' with
      | seq id => rfl
      | cross id => exact Dict.get?_set_of_ne (fun e => hne (congrArg Owner.cross e)) _ _
    · have ht' : (m.crossBlockTables.set g.requestId t).get? g.requestId = some t' := ht'
      rw [Dict.get?_set_self] at ht'
      obtain rfl := Option.some.inj ht'
      exact ⟨hok, List.Subset.refl _⟩

theorem allocate_tabled {g : SequenceGroup} {ns encoderNs : Bytes} {u : Unit} (hm : m.Tabled)
    (h : (allocate g ns encoderNs).run m = .ok u m') : m'.Tabled := by
  rw [allocate, run_get_bind, run_raiseIf_bind_ok] at h
  obtain ⟨-, h⟩ := h
  split at h
  · cases run_throw_ok.mp h
  · obtain ⟨t, m₁, h₁, h⟩ := run_bind_ok.mp h
    obtain ⟨d, rfl, hact, hok, hgpu⟩ := allocateSequence_ok hm h₁
    obtain ⟨_, m₂, h₂, h⟩ := run_bind_ok.mp h
    obtain rfl := run_modify_ok.mp h₂
    obtain ⟨_, m₃, h₃, h⟩ := run_bind_ok.mp h
    obtain ⟨l, rfl⟩ := trackSeq_ok h₃
    obtain ⟨_, m₄, h₄, h⟩ := run_bind_ok.mp h
    exact allocateCross_ok (forkTables_ok ((hm.setSeq hact disjoint_nil hok).tracked l) hok hgpu h₄) h

/-! ## Appending and forking -/

omit [DecidableEq H] [Sha256 H] in
theorem getBlockTable_bind_ok {α : Type} {seqId : Nat} {f : BlockTable → ManagerM H α} {a : α}
    (h : (getBlockTable seqId >>= f).run m = .ok a m') :
    ∃ t, m.table (.seq seqId) = some t ∧ (f t).run m = .ok a m' := by
  rw [getBlockTable, bind_assoc, run_get_bind, run_getOrRaise_bind_ok] at h
  exact h

/-- What appending to the table of a sequence does. -/
theorem appendSlots_ok {k : Nat} {cows : List (Nat × Nat)} (hm : m.Tabled)
    (h : (appendSlots seq k).run m = .ok cows m') :
    m'.Tabled ∧ ∀ seqId, seqId ≠ seq.seqId → m'.blockTables.get? seqId = m.blockTables.get? seqId := by
  rw [appendSlots] at h
  obtain ⟨t, ht, h⟩ := getBlockTable_bind_ok h
  obtain ⟨t', m₁, h₁, h⟩ := run_bind_ok.mp h
  obtain ⟨d, hd, rfl⟩ := onAllocator_ok.mp h₁
  obtain ⟨hact, hok⟩ := BlockTable.appendTokenIds_ok hm.ready (hm.table _ t ht) hd
  obtain ⟨_, m₂, h₂, h⟩ := run_bind_ok.mp h
  obtain rfl := run_modify_ok.mp h₂
  obtain ⟨d', hd', rfl⟩ := onAllocator_ok.mp h
  obtain ⟨s, hs, rfl⟩ := onGpu_ok.mp hd'
  have hm₂ := hm.setSeq hact (hm.disjoint_of_table ht) hok
  have hs : s = { d.gpu with copyOnWrites := [] } := by
    rw [PrefixCachingBlockAllocator.clearCopyOnWrites, run_get_bind, run_set_bind, run_pure_ok] at hs
    exact hs.2
  subst hs
  refine ⟨hm₂.same (n := { m with
    blockAllocator := { d with gpu := { d.gpu with copyOnWrites := [] } }
    blockTables := m.blockTables.set seq.seqId t' }) ?_ rfl rfl rfl, fun seqId hne => ?_⟩
  · exact acted_of_frame hm₂.ready ((lawful d).cows [] hm₂.ready.inv) rfl (.of_eq rfl rfl fun _ _ => rfl)
  · exact Dict.get?_set_of_ne hne _ _

theorem fork_tabled {parent child : Sequence} {u : Unit} (hm : m.Tabled)
    (hgpu : ∀ t, m.blockTables.get? parent.seqId = some t → OnGpu m.blockAllocator.gpu t)
    (h : (fork parent child).run m = .ok u m') : m'.Tabled := by
  rw [fork, run_get_bind] at h
  split at h
  · obtain ⟨-, rfl⟩ := run_pure_ok.mp h
    exact hm
  · next t ht =>
    obtain ⟨forked, m₁, h₁, h⟩ := run_bind_ok.mp h
    obtain ⟨d, hd, rfl⟩ := onAllocator_ok.mp h₁
    obtain ⟨hact, hok⟩ := BlockTable.fork_ok hm.ready (hm.table (.seq parent.seqId) t ht) (hgpu t ht) hd
    obtain ⟨_, m₂, h₂, h⟩ := run_bind_ok.mp h
    obtain rfl := run_modify_ok.mp h₂
    obtain ⟨l, rfl⟩ := trackSeq_ok h
    exact (hm.setSeq hact disjoint_nil hok).tracked l

/-! ## Freeing -/

/-- The blocks of the table are marked. -/
theorem markAccessed_ok {ids : List Nat} {time : Int} {u : Unit} (hm : m.Tabled)
    (h : (onAllocator (onGpu fun a => a.markBlocksAsAccessed ids time)).run m = .ok u m') :
    m'.Tabled ∧ m'.table = m.table := by
  obtain ⟨d, hd, rfl⟩ := onAllocator_ok.mp h
  obtain ⟨s, hs, rfl⟩ := onGpu_ok.mp hd
  obtain ⟨hinv, hlive, hframe⟩ := (lawful m.blockAllocator).accessed hm.ready.inv hs
  exact ⟨hm.same (n := { m with blockAllocator := { m.blockAllocator with gpu := s } })
    (acted_of_frame hm.ready hinv hlive hframe) rfl rfl rfl, rfl⟩

/-- The blocks of a table are freed, and then the table goes. -/
theorem Tabled.drop (hm : m.Tabled) {o : Owner} {d : CpuGpuBlockAllocator H} {u : Unit}
    (ht : m.table o = some t) (hd : t.free.run m.blockAllocator = .ok u d)
    (hd' : m'.blockAllocator = d) (hbs : m'.blockSize = m.blockSize)
    (hw : m'.maxBlockSlidingWindow = m.maxBlockSlidingWindow)
    (hother : ∀ o', o' ≠ o → m'.table o' = m.table o') (hnone : m'.table o = none) :
    m'.Tabled := by
  subst hd'
  refine hm.act o (BlockTable.free_ok hm.ready (hm.table o t ht) hd) (hm.disjoint_of_table ht) hbs hw
    hother fun t' ht' => ?_
  rw [hnone] at ht'
  cases ht'

theorem free_tabled {u : Unit} (hm : m.Tabled) (h : (free seq).run m = .ok u m') : m'.Tabled := by
  rw [free, run_get_bind] at h
  split at h
  · obtain ⟨-, rfl⟩ := run_pure_ok.mp h
    exact hm
  · next t ht =>
    rw [run_getOrRaise_bind_ok] at h
    obtain ⟨lastAccess, -, h⟩ := h
    have hrest : ∀ m₁ : BlockSpaceManager H, m₁.Tabled → m₁.table = m.table →
        (do
          modify fun m => { m with seqLastAccess := m.seqLastAccess.erase seq.seqId }
          onAllocator t.free
          modify fun m => { m with blockTables := m.blockTables.erase seq.seqId }
          : ManagerM H Unit).run m₁ = .ok u m' → m'.Tabled := by
      intro m₁ hm₁ htab h
      rw [run_modify_bind] at h
      obtain ⟨_, m₂, h₂, h⟩ := run_bind_ok.mp h
      obtain ⟨d, hd, rfl⟩ := onAllocator_ok.mp h₂
      obtain rfl := run_modify_ok.mp h
      have ht₁ : m₁.table (.seq seq.seqId) = some t := by
        rw [htab]
        exact ht
      refine (hm₁.tracked (m₁.seqLastAccess.erase seq.seqId)).drop (o := .seq seq.seqId) ht₁ hd rfl
        rfl rfl (fun o' hne => ?_) (Dict.get?_erase_self _ _)
      cases o' with
      | seq id => exact Dict.get?_erase_of_ne (fun e => hne (congrArg Owner.seq e)) _
      | cross id => rfl
    split at h
    · exact hrest m hm rfl h
    · obtain ⟨_, m₁, h₁, h⟩ := run_bind_ok.mp h
      obtain ⟨hm₁, htab⟩ := markAccessed_ok hm h₁
      exact hrest m₁ hm₁ htab h

theorem freeCross_tabled {g : SequenceGroup} {u : Unit} (hm : m.Tabled)
    (h : (freeCross g).run m = .ok u m') : m'.Tabled := by
  rw [freeCross, run_get_bind] at h
  split at h
  · obtain ⟨-, rfl⟩ := run_pure_ok.mp h
    exact hm
  · next t ht =>
    obtain ⟨_, m₁, h₁, h⟩ := run_bind_ok.mp h
    obtain ⟨d, hd, rfl⟩ := onAllocator_ok.mp h₁
    obtain rfl := run_modify_ok.mp h
    refine hm.drop (o := .cross g.requestId) ht hd rfl rfl rfl (fun o' hne => ?_)
      (Dict.get?_erase_self _ _)
    cases o' with
    | seq id => rfl
    | cross id => exact Dict.get?_erase_of_ne (fun e => hne (congrArg Owner.cross e)) _

/-! ## Swapping -/

/-- `swap` keeps a table, and so does a loop of it. -/
theorem swapTables_tabled {swap : List Ref → DeviceM H (Dict Nat Nat)}
    (hswap : ∀ {d d' : CpuGpuBlockAllocator H} {t : BlockTable} {mapping : Dict Nat Nat}, d.Ready →
      TableOk d.gpu t → (swap t.blocks).run d = .ok mapping d' →
      Acted d t.blocks d' t.blocks ∧ TableOk d'.gpu t)
    {seqs : List Sequence} {l : List (Nat × Nat)} (hm : m.Tabled)
    (h : (swapTables swap seqs).run m = .ok l m') : m'.Tabled := by
  induction seqs generalizing m l with
  | nil =>
    obtain ⟨-, rfl⟩ := run_pure_ok.mp h
    exact hm
  | cons seq rest ih =>
    rw [swapTables] at h
    obtain ⟨t, ht, h⟩ := getBlockTable_bind_ok h
    rcases run_ite_ok.mp h with ⟨-, h⟩ | ⟨-, h⟩
    · exact ih hm h
    · obtain ⟨mapping, m₁, h₁, h⟩ := run_bind_ok.mp h
      obtain ⟨d, hd, rfl⟩ := onAllocator_ok.mp h₁
      obtain ⟨hact, hok⟩ := hswap hm.ready (hm.table _ t ht) hd
      obtain ⟨ids, m₂, h₂, h⟩ := run_bind_ok.mp h
      obtain ⟨d₂, hd₂, rfl⟩ := onAllocator_ok.mp h₂
      obtain rfl := getBlockIds_ok hd₂
      obtain ⟨_, m₃, h₃, h⟩ := run_bind_ok.mp h
      obtain rfl := run_modify_ok.mp h₃
      obtain ⟨l', m₄, h₄, h⟩ := run_bind_ok.mp h
      obtain ⟨-, rfl⟩ := run_pure_ok.mp h
      refine ih (hm.setSeq (t := { t with blockIds := ids }) hact (hm.disjoint_of_table ht) ?_) h₄
      exact ⟨hok.blockSize, hok.window, hok.blocks⟩

/-! ## Marks -/

theorem accessAllBlocksInSeq_tabled {now : Int} {u : Unit} (hm : m.Tabled)
    (h : (accessAllBlocksInSeq seq now).run m = .ok u m') : m'.Tabled := by
  rw [accessAllBlocksInSeq, run_get_bind, run_ite_ok] at h
  rcases h with ⟨-, h⟩ | ⟨-, h⟩
  · rw [run_raiseUnless_bind_ok, run_set_ok] at h
    obtain ⟨-, rfl⟩ := h
    exact hm.tracked _
  · obtain ⟨-, rfl⟩ := run_pure_ok.mp h
    exact hm

theorem markBlocksAsComputed_tabled {u : Unit} (hm : m.Tabled)
    (h : (markBlocksAsComputed).run m = .ok u m') : m'.Tabled := by
  obtain ⟨d, hd, rfl⟩ := onAllocator_ok.mp h
  obtain ⟨s, hs, rfl⟩ := onGpu_ok.mp hd
  obtain ⟨hinv, hlive, hframe⟩ := (lawful m.blockAllocator).computed hm.ready.inv hs
  exact hm.same (n := { m with blockAllocator := { m.blockAllocator with gpu := s } })
    (acted_of_frame hm.ready hinv hlive hframe) rfl rfl rfl

end BlockSpaceManager

/-! ## Runs -/

open BlockSpaceManager

variable [DecidableEq H] [Sha256 H]

/-- A call that does not raise. A sequence is forked while its blocks are on the GPU. -/
inductive ManagerOp : BlockSpaceManager H → BlockSpaceManager H → Prop where
  | allocate {m m' : BlockSpaceManager H} {g : SequenceGroup} {ns encoderNs : Bytes}
      (run : (allocate g ns encoderNs).run m = .ok () m') : ManagerOp m m'
  | appendSlots {m m' : BlockSpaceManager H} {seq : Sequence} {k : Nat} {cows : List (Nat × Nat)}
      (run : (appendSlots seq k).run m = .ok cows m') : ManagerOp m m'
  | fork {m m' : BlockSpaceManager H} {parent child : Sequence}
      (gpu : ∀ t, m.blockTables.get? parent.seqId = some t → OnGpu m.blockAllocator.gpu t)
      (run : (fork parent child).run m = .ok () m') : ManagerOp m m'
  | free {m m' : BlockSpaceManager H} {seq : Sequence} (run : (free seq).run m = .ok () m') :
      ManagerOp m m'
  | freeCross {m m' : BlockSpaceManager H} {g : SequenceGroup}
      (run : (freeCross g).run m = .ok () m') : ManagerOp m m'
  | swapOut {m m' : BlockSpaceManager H} {g : SequenceGroup} {l : List (Nat × Nat)}
      (run : (swapOut g).run m = .ok l m') : ManagerOp m m'
  | swapIn {m m' : BlockSpaceManager H} {g : SequenceGroup} {l : List (Nat × Nat)}
      (run : (swapIn g).run m = .ok l m') : ManagerOp m m'
  | accessAllBlocksInSeq {m m' : BlockSpaceManager H} {seq : Sequence} {now : Int}
      (run : (accessAllBlocksInSeq seq now).run m = .ok () m') : ManagerOp m m'
  | markBlocksAsComputed {m m' : BlockSpaceManager H}
      (run : (markBlocksAsComputed).run m = .ok () m') : ManagerOp m m'
  /-- The CPU tier is used by others. -/
  | tier {m : BlockSpaceManager H} (c : Option (CpuKvContentCache H)) :
      ManagerOp m { m with blockAllocator := { m.blockAllocator with
        gpu := { m.blockAllocator.gpu with contentCache := c } } }

/-- A fresh block manager. The configuration refuses prefix caching with a sliding window. -/
def BlockSpaceManager.Fresh (m : BlockSpaceManager H) : Prop :=
  ∃ blockSize numGpuBlocks numCpuBlocks watermarkBlocks slidingWindow enableCaching policy
    contentOffload recursionLimit, 0 < blockSize ∧
    (enableCaching = true → slidingWindow = none) ∧
    m = .init H blockSize numGpuBlocks numCpuBlocks watermarkBlocks slidingWindow enableCaching
      policy contentOffload recursionLimit

/-- Runs of a block manager. -/
def managerSys (H : Type) [DecidableEq H] [Sha256 H] : Sys (BlockSpaceManager H) :=
  ⟨BlockSpaceManager.Fresh, ManagerOp⟩

theorem gpuInv_init (enableCaching : Bool) (blockSize : Nat) (blockIds : List Nat)
    (hnodup : blockIds.Nodup) (policy : EvictionPolicy)
    (contentCache : Option (CpuKvContentCache H)) (recursionLimit : Nat) :
    gpuInv enableCaching
      (AllocState.init .gpu blockSize blockIds policy contentCache recursionLimit) := by
  have hinv : Inv ⟨[], none, AllocState.init (H := H) .gpu blockSize blockIds policy contentCache
      recursionLimit⟩ :=
    (inv_of_fresh ⟨.gpu, blockSize, blockIds, policy, _, contentCache, recursionLimit, hnodup,
      rfl⟩).1
  cases enableCaching with
  | true => exact hinv
  | false => exact ⟨hinv.pool, hnodup, fun _ _ => rfl, hinv.count⟩

omit [DecidableEq H] [Sha256 H] in
theorem live_init (device : Device) (blockSize : Nat) (blockIds : List Nat) (policy : EvictionPolicy)
    (contentCache : Option (CpuKvContentCache H)) (recursionLimit : Nat) :
    (AllocState.init device blockSize blockIds policy contentCache recursionLimit).live = ∅ := by
  ext r
  simp [AllocState.mem_live, AllocState.Own, AllocState.init, PrefixCachingBlockAllocator.init]

theorem tabled_of_fresh {m : BlockSpaceManager H} (h : m.Fresh)
    (hw : m.maxBlockSlidingWindow = none) : m.Tabled := by
  obtain ⟨blockSize, numGpu, numCpu, watermark, window, caching, policy, offload, limit, hpos, -, rfl⟩ := h
  refine ⟨⟨gpuInv_init caching blockSize _ List.nodup_range policy _ limit, fun q hq => ?_, hpos, rfl⟩,
    rfl, hw, fun o t ht => ?_, fun o o' t t' _ ht => ?_⟩
  · exact absurd (live_init (H := H) _ _ _ _ _ _ ▸ hq) (Finset.notMem_empty q)
  all_goals
    cases o with
    | seq id => cases ht
    | cross id => cases ht

theorem ManagerOp.tabled {m m' : BlockSpaceManager H} (h : ManagerOp m m') (hm : m.Tabled) :
    m'.Tabled := by
  cases h with
  | allocate run => exact allocate_tabled hm run
  | appendSlots run => exact (appendSlots_ok hm run).1
  | fork gpu run => exact fork_tabled hm gpu run
  | free run => exact free_tabled hm run
  | freeCross run => exact freeCross_tabled hm run
  | swapOut run => exact swapTables_tabled BlockTable.swapOut_ok hm run
  | swapIn run => exact swapTables_tabled BlockTable.swapIn_ok hm run
  | accessAllBlocksInSeq run => exact accessAllBlocksInSeq_tabled hm run
  | markBlocksAsComputed run => exact markBlocksAsComputed_tabled hm run
  | tier c =>
    refine hm.same (acted_of_frame hm.ready ((lawful m.blockAllocator).tier c hm.ready.inv) rfl
      (.of_eq rfl rfl fun _ _ => rfl)) rfl rfl rfl

end Bi100
