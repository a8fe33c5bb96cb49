import Bi100.Block.Admission
import Bi100.Block.Contents
import Bi100.Lib.Labelled

/-!
# The block manager is a store of tokens

What the block manager is for: it keeps the tokens of sequences, and of the encoder sequences of
requests (`TokenStore`). Without a sliding window the tables and the blocks implement this store.

- `StoreCall`: the calls of the scheduler, `TokenStore.call`: what each of them means.
- `BlockSpaceManager.Does.stored`: one call.
- `stored_eq_calls`: after any calls the tables have the tokens that the calls stored.
-/

namespace Bi100

open Py AllocState CpuGpuBlockAllocator
open PrefixCachingBlockAllocator (assertion)

/-- The tokens that are kept, by their owner. -/
abbrev TokenStore := Owner → Option (List Nat)

namespace TokenStore

def empty : TokenStore := fun _ => none

def put (σ : TokenStore) (o : Owner) (tokenIds : List Nat) : TokenStore :=
  Function.update σ o (some tokenIds)

def drop (σ : TokenStore) (o : Owner) : TokenStore := Function.update σ o none

/-- The waiting sequences of a group get the tokens of the first one. -/
def putSeqs (σ : TokenStore) (tokenIds : List Nat) (seqs : List Sequence) : TokenStore :=
  seqs.foldl (fun σ seq => σ.put (.seq seq.seqId) tokenIds) σ

def allocate (σ : TokenStore) (g : SequenceGroup) : TokenStore :=
  match g.getSeqs .waiting with
  | [] => σ
  | seq :: rest =>
    let σ := (σ.put (.seq seq.seqId) seq.data.getTokenIds).putSeqs seq.data.getTokenIds rest
    match g.encoderSeq with
    | none => σ
    | some encoderSeq => σ.put (.cross g.requestId) encoderSeq.data.getTokenIds

/-- The tokens of a sequence that are not kept yet are put behind those that are. -/
def append (σ : TokenStore) (seq : Sequence) : TokenStore :=
  match σ (.seq seq.seqId) with
  | none => σ
  | some tokenIds =>
    σ.put (.seq seq.seqId) (tokenIds ++ seq.data.getTokenIds.drop tokenIds.length)

def fork (σ : TokenStore) (parent child : Sequence) : TokenStore :=
  match σ (.seq parent.seqId) with
  | none => σ
  | some tokenIds => σ.put (.seq child.seqId) tokenIds

end TokenStore

variable {H : Type}

/-- A call of the block manager, or a change of the CPU tier. -/
inductive StoreCall (H : Type) where
  | allocate (g : SequenceGroup) (ns encoderNs : Bytes)
  | appendSlots (seq : Sequence) (numLookaheadSlots : Nat)
  | fork (parent child : Sequence)
  | free (seq : Sequence)
  | freeCross (g : SequenceGroup)
  | swapOut (g : SequenceGroup)
  | swapIn (g : SequenceGroup)
  | accessAllBlocksInSeq (seq : Sequence) (now : Int)
  | markBlocksAsComputed
  | tier (c : Option (CpuKvContentCache H))

/-- What a call does to the store. -/
def TokenStore.call (σ : TokenStore) : StoreCall H → TokenStore
  | .allocate g _ _ => σ.allocate g
  | .appendSlots seq _ => σ.append seq
  | .fork parent child => σ.fork parent child
  | .free seq => σ.drop (.seq seq.seqId)
  | .freeCross g => σ.drop (.cross g.requestId)
  | _ => σ

namespace BlockSpaceManager

/-- The tokens in the blocks of the tables. -/
def stored (m : BlockSpaceManager H) : TokenStore := fun o =>
  (m.table o).map fun t => m.blockAllocator.gpu.contents t.blocks

variable [DecidableEq H] [Sha256 H] {m m' : BlockSpaceManager H} {o : Owner} {t : BlockTable}
  {seq : Sequence}

/-! ## One table -/

namespace Tabled

variable {n : BlockSpaceManager H} {blocks blocks' : List Ref}

/-- An operation on one table keeps what is stored for the others. -/
theorem stored_other (hm : m.Tabled) (hloc : Local m.blockAllocator.gpu blocks n.blockAllocator.gpu
    blocks') {o' : Owner} (hold : ∀ t, m.table o' = some t → t.blocks.Disjoint blocks)
    (hother : n.table o' = m.table o') : n.stored o' = m.stored o' := by
  rw [stored, stored, hother]
  cases ht : m.table o' with
  | none => rfl
  | some t =>
    rw [Option.map_some, Option.map_some, hloc.contents (hm.table o' t ht).blocks (hold t ht)]

/-- An operation on one table. -/
theorem stored_act (hm : m.Tabled) (o : Owner)
    (hloc : Local m.blockAllocator.gpu blocks n.blockAllocator.gpu blocks')
    (hold : ∀ o' t, o' ≠ o → m.table o' = some t → t.blocks.Disjoint blocks)
    (hother : ∀ o', o' ≠ o → n.table o' = m.table o') :
    n.stored = Function.update m.stored o (n.stored o) := by
  funext o'
  by_cases he : o' = o
  · rw [he, Function.update_self]
  · rw [Function.update_of_ne he, hm.stored_other hloc (fun t => hold o' t he) (hother o' he)]

/-- The table of a sequence changes. -/
theorem stored_setSeq (hm : m.Tabled) {seqId : Nat} {d : CpuGpuBlockAllocator H}
    (hact : Acted m.blockAllocator blocks d t.blocks)
    (hold : ∀ o' t, o' ≠ .seq seqId → m.table o' = some t → t.blocks.Disjoint blocks)
    (l : Dict Nat (Option Int)) :
    stored { m with
      blockAllocator := d
      blockTables := m.blockTables.set seqId t
      seqLastAccess := l } = m.stored.put (.seq seqId) (d.gpu.contents t.blocks) := by
  refine (hm.stored_act (n := { m with
      blockAllocator := d
      blockTables := m.blockTables.set seqId t
      seqLastAccess := l }) (.seq seqId) hact.loc hold fun o' hne => ?_).trans ?_
  · cases o' with
    | seq id => exact Dict.get?_set_of_ne (fun e => hne (congrArg Owner.seq e)) _ _
    | cross id => rfl
  · rw [TokenStore.put, stored]
    have htable : (BlockSpaceManager.table { m with
        blockAllocator := d
        blockTables := m.blockTables.set seqId t
        seqLastAccess := l } (.seq seqId)) = some t := Dict.get?_set_self _ _ _
    rw [htable, Option.map_some]

/-- Nothing is stored that was not, and the blocks stay. -/
theorem stored_same (hm : m.Tabled) (hloc : Local m.blockAllocator.gpu [] n.blockAllocator.gpu [])
    (htables : n.table = m.table) : n.stored = m.stored :=
  funext fun o => hm.stored_other hloc (fun _ _ => List.disjoint_nil_right _) (congrFun htables o)

/-- A table goes. -/
theorem stored_drop (hm : m.Tabled)
    (hloc : Local m.blockAllocator.gpu blocks n.blockAllocator.gpu blocks')
    (hold : ∀ o' t, o' ≠ o → m.table o' = some t → t.blocks.Disjoint blocks)
    (hother : ∀ o', o' ≠ o → n.table o' = m.table o') (hnone : n.table o = none) :
    n.stored = m.stored.drop o := by
  rw [hm.stored_act o hloc hold hother, TokenStore.drop, stored, hnone]
  rfl

end Tabled

omit [DecidableEq H] [Sha256 H] in
theorem stored_of_table (ht : m.table o = some t) :
    m.stored o = some (m.blockAllocator.gpu.contents t.blocks) := by
  rw [stored, ht, Option.map_some]

omit [DecidableEq H] [Sha256 H] in
theorem stored_of_none (ht : m.table o = none) : m.stored o = none := by
  rw [stored, ht, Option.map_none]

/-! ## Allocating -/

omit [DecidableEq H] [Sha256 H] in
/-- The trackers are not part of the store. -/
theorem stored_tracked (m : BlockSpaceManager H) (l : Dict Nat (Option Int)) :
    stored { m with seqLastAccess := l } = m.stored := by
  funext o
  cases o with
  | seq id => rfl
  | cross id => rfl

/-- The tokens of a new table. -/
theorem allocateSequence_contents {ns : Bytes} (hm : m.Tabled)
    (h : (allocateSequence seq ns).run m = .ok t m') :
    m'.blockAllocator.gpu.contents t.blocks = seq.data.getTokenIds := by
  rw [allocateSequence, run_get_bind] at h
  dsimp only at h
  rcases run_ite_ok.mp h with ⟨hnil, h⟩ | ⟨-, h⟩
  · obtain ⟨rfl, rfl⟩ := run_pure_ok.mp h
    rw [hnil]
    rfl
  · obtain ⟨d, hd, rfl⟩ := onAllocator_ok.mp h
    exact BlockTable.allocate_contents hm.ready hm.blockSize hd

/-- Each fork stores the tokens of the table. -/
theorem forkTables_stored {seqs : List Sequence} {u : Unit} {tokenIds : List Nat} (hm : m.Tabled)
    (ht : TableOk m.blockAllocator.gpu t) (hgpu : OnGpu m.blockAllocator.gpu t)
    (hc : m.blockAllocator.gpu.contents t.blocks = tokenIds)
    (h : (forkTables t seqs).run m = .ok u m') :
    m'.Tabled ∧ m'.stored = m.stored.putSeqs tokenIds seqs := by
  refine ⟨forkTables_ok hm ht hgpu h, ?_⟩
  induction seqs generalizing m with
  | nil =>
    obtain ⟨-, rfl⟩ := run_pure_ok.mp h
    rfl
  | cons seq rest ih =>
    rw [forkTables] at h
    obtain ⟨forked, m₁, h₁, h⟩ := run_bind_ok.mp h
    obtain ⟨d, hd, rfl⟩ := onAllocator_ok.mp h₁
    obtain ⟨_, m₂, h₂, h⟩ := run_bind_ok.mp h
    obtain rfl := run_modify_ok.mp h₂
    obtain ⟨_, m₃, h₃, h⟩ := run_bind_ok.mp h
    obtain ⟨l, rfl⟩ := trackSeq_ok h₃
    obtain ⟨hm', ht', hgpu'⟩ := hm.forked ht hgpu hd seq.seqId l
    obtain ⟨hact, -⟩ := BlockTable.fork_ok hm.ready ht hgpu hd
    obtain ⟨hfork, hkeep⟩ := BlockTable.fork_contents hm.ready ht hgpu hd
    rw [ih hm' ht' hgpu' (hkeep.trans hc) h, hm.stored_setSeq hact disjoint_nil l, hfork, hc]
    rfl

theorem allocateCross_stored {g : SequenceGroup} {ns : Bytes} {u : Unit} (hm : m.Tabled)
    (h : (allocateCross g ns).run m = .ok u m') :
    m'.stored = match g.encoderSeq with
      | none => m.stored
      | some encoderSeq => m.stored.put (.cross g.requestId) encoderSeq.data.getTokenIds := by
  rw [allocateCross, run_get_bind, run_raiseIf_bind_ok, run_lift_bind_ok] at h
  obtain ⟨-, -, -, h⟩ := h
  cases henc : g.encoderSeq with
  | none =>
    rw [henc] at h
    obtain ⟨-, rfl⟩ := run_pure_ok.mp h
    rfl
  | some encoderSeq =>
    rw [henc] at h
    obtain ⟨t, m₁, h₁, h⟩ := run_bind_ok.mp h
    have hc := allocateSequence_contents hm h₁
    obtain ⟨d, rfl, hact, -, -⟩ := allocateSequence_ok hm h₁
    obtain rfl := run_modify_ok.mp h
    refine (hm.stored_act (n := { m with
        blockAllocator := d
        crossBlockTables := m.crossBlockTables.set g.requestId t }) (.cross g.requestId) hact.loc
      disjoint_nil fun o' hne => ?_).trans ?_
    · cases o' with
      | seq id => rfl
      | cross id => exact Dict.get?_set_of_ne (fun e => hne (congrArg Owner.cross e)) _ _
    · have htable : (BlockSpaceManager.table { m with
          blockAllocator := d
          crossBlockTables := m.crossBlockTables.set g.requestId t } (.cross g.requestId)) =
            some t := Dict.get?_set_self _ _ _
      rw [stored_of_table htable, hc]
      rfl

theorem allocate_stored {g : SequenceGroup} {ns encoderNs : Bytes} {u : Unit} (hm : m.Tabled)
    (h : (allocate g ns encoderNs).run m = .ok u m') : m'.stored = m.stored.allocate g := by
  rw [allocate, run_get_bind, run_raiseIf_bind_ok] at h
  obtain ⟨-, h⟩ := h
  rw [TokenStore.allocate]
  cases hseqs : g.getSeqs .waiting with
  | nil =>
    rw [hseqs] at h
    cases run_throw_ok.mp h
  | cons seq rest =>
    rw [hseqs] at h
    obtain ⟨t, m₁, h₁, h⟩ := run_bind_ok.mp h
    have hc := allocateSequence_contents hm h₁
    obtain ⟨d, rfl, hact, hok, hgpu⟩ := allocateSequence_ok hm h₁
    obtain ⟨_, m₂, h₂, h⟩ := run_bind_ok.mp h
    obtain rfl := run_modify_ok.mp h₂
    obtain ⟨_, m₃, h₃, h⟩ := run_bind_ok.mp h
    obtain ⟨l, rfl⟩ := trackSeq_ok h₃
    obtain ⟨_, m₄, h₄, h⟩ := run_bind_ok.mp h
    obtain ⟨hm₄, hforks⟩ :=
      forkTables_stored ((hm.setSeq hact disjoint_nil hok).tracked l) hok hgpu hc h₄
    rw [allocateCross_stored hm₄ h, hforks, hm.stored_setSeq hact disjoint_nil l, hc]

/-! ## Appending and forking -/

theorem appendSlots_stored {k : Nat} {cows : List (Nat × Nat)} (hm : m.Tabled)
    (h : (appendSlots seq k).run m = .ok cows m') : m'.stored = m.stored.append seq := by
  rw [appendSlots] at h
  obtain ⟨t, ht, h⟩ := getBlockTable_bind_ok h
  obtain ⟨t', m₁, h₁, h⟩ := run_bind_ok.mp h
  obtain ⟨d, hd, rfl⟩ := onAllocator_ok.mp h₁
  have hok := hm.table _ t ht
  obtain ⟨hact, hok'⟩ := BlockTable.appendTokenIds_ok hm.ready hok hd
  have hc := BlockTable.appendTokenIds_contents hm.ready hok hd
  obtain ⟨_, m₂, h₂, h⟩ := run_bind_ok.mp h
  obtain rfl := run_modify_ok.mp h₂
  obtain ⟨d', hd', rfl⟩ := onAllocator_ok.mp h
  obtain ⟨s, hs, rfl⟩ := onGpu_ok.mp hd'
  rw [PrefixCachingBlockAllocator.clearCopyOnWrites, run_get_bind, run_set_bind, run_pure_ok] at hs
  obtain ⟨-, rfl⟩ := hs
  -- The tokens that are appended are those that the table does not have.
  have hunseen : t.getUnseenTokenIds seq.data.getTokenIds =
      seq.data.getTokenIds.drop (m.blockAllocator.gpu.contents t.blocks).length := by
    rw [BlockTable.getUnseenTokenIds, hok.blocks.length_contents]
  rw [TokenStore.append, stored_of_table ht]
  dsimp only
  rw [← hunseen, ← hc]
  refine Eq.trans ?_ (hm.stored_setSeq hact (hm.disjoint_of_table ht) m.seqLastAccess)
  funext o
  cases o with
  | seq id => rfl
  | cross id => rfl

theorem fork_stored {parent child : Sequence} {u : Unit} (hm : m.Tabled)
    (hgpu : ∀ t, m.blockTables.get? parent.seqId = some t → OnGpu m.blockAllocator.gpu t)
    (h : (fork parent child).run m = .ok u m') : m'.stored = m.stored.fork parent child := by
  rw [fork, run_get_bind] at h
  split at h
  · next ht =>
    obtain ⟨-, rfl⟩ := run_pure_ok.mp h
    rw [TokenStore.fork, stored_of_none (o := .seq parent.seqId) ht]
  · next t ht =>
    obtain ⟨forked, m₁, h₁, h⟩ := run_bind_ok.mp h
    obtain ⟨d, hd, rfl⟩ := onAllocator_ok.mp h₁
    have hok := hm.table (.seq parent.seqId) t ht
    obtain ⟨hact, -⟩ := BlockTable.fork_ok hm.ready hok (hgpu t ht) hd
    obtain ⟨hc, -⟩ := BlockTable.fork_contents hm.ready hok (hgpu t ht) hd
    obtain ⟨_, m₂, h₂, h⟩ := run_bind_ok.mp h
    obtain rfl := run_modify_ok.mp h₂
    obtain ⟨l, rfl⟩ := trackSeq_ok h
    rw [TokenStore.fork, stored_of_table (o := .seq parent.seqId) ht]
    dsimp only
    rw [hm.stored_setSeq hact disjoint_nil l, hc]

/-! ## Freeing -/

/-- The blocks of the table are marked. -/
theorem markAccessed_stored {ids : List Nat} {time : Int} {u : Unit} (hm : m.Tabled)
    (h : (onAllocator (onGpu fun a => a.markBlocksAsAccessed ids time)).run m = .ok u m') :
    m'.stored = m.stored := by
  obtain ⟨-, htables⟩ := markAccessed_ok hm h
  obtain ⟨d, hd, rfl⟩ := onAllocator_ok.mp h
  obtain ⟨s, hs, rfl⟩ := onGpu_ok.mp hd
  obtain ⟨hinv, hlive, hframe⟩ := (lawful m.blockAllocator).accessed hm.ready.inv hs
  exact hm.stored_same (acted_of_frame hm.ready hinv hlive hframe).loc htables

theorem free_stored {u : Unit} (hm : m.Tabled) (h : (free seq).run m = .ok u m') :
    m'.stored = m.stored.drop (.seq seq.seqId) := by
  rw [free, run_get_bind] at h
  split at h
  · next ht =>
    obtain ⟨-, rfl⟩ := run_pure_ok.mp h
    rw [TokenStore.drop, ← stored_of_none (o := .seq seq.seqId) ht, Function.update_eq_self]
  · next t ht =>
    rw [run_getOrRaise_bind_ok] at h
    obtain ⟨lastAccess, -, h⟩ := h
    have hrest : ∀ m₁ : BlockSpaceManager H, m₁.Tabled → m₁.table = m.table →
        m₁.stored = m.stored → (do
          modify fun m => { m with seqLastAccess := m.seqLastAccess.erase seq.seqId }
          onAllocator t.free
          modify fun m => { m with blockTables := m.blockTables.erase seq.seqId }
          : ManagerM H Unit).run m₁ = .ok u m' → m'.stored = m.stored.drop (.seq seq.seqId) := by
      intro m₁ hm₁ htab hst h
      rw [run_modify_bind] at h
      obtain ⟨_, m₂, h₂, h⟩ := run_bind_ok.mp h
      obtain ⟨d, hd, rfl⟩ := onAllocator_ok.mp h₂
      obtain rfl := run_modify_ok.mp h
      have ht₁ : m₁.table (.seq seq.seqId) = some t := by
        rw [htab]
        exact ht
      rw [← hst]
      refine hm₁.stored_drop (BlockTable.free_ok hm₁.ready (hm₁.table _ t ht₁) hd).loc
        (hm₁.disjoint_of_table ht₁) (fun o' hne => ?_) (Dict.get?_erase_self _ _)
      cases o' with
      | seq id => exact Dict.get?_erase_of_ne (fun e => hne (congrArg Owner.seq e)) _
      | cross id => rfl
    split at h
    · exact hrest m hm rfl rfl h
    · obtain ⟨_, m₁, h₁, h⟩ := run_bind_ok.mp h
      obtain ⟨hm₁, htab⟩ := markAccessed_ok hm h₁
      exact hrest m₁ hm₁ htab (markAccessed_stored hm h₁) h

theorem freeCross_stored {g : SequenceGroup} {u : Unit} (hm : m.Tabled)
    (h : (freeCross g).run m = .ok u m') : m'.stored = m.stored.drop (.cross g.requestId) := by
  rw [freeCross, run_get_bind] at h
  split at h
  · next ht =>
    obtain ⟨-, rfl⟩ := run_pure_ok.mp h
    rw [TokenStore.drop, ← stored_of_none (o := .cross g.requestId) ht, Function.update_eq_self]
  · next t ht =>
    obtain ⟨_, m₁, h₁, h⟩ := run_bind_ok.mp h
    obtain ⟨d, hd, rfl⟩ := onAllocator_ok.mp h₁
    obtain rfl := run_modify_ok.mp h
    have ht : m.table (.cross g.requestId) = some t := ht
    refine hm.stored_drop (BlockTable.free_ok hm.ready (hm.table _ t ht) hd).loc
      (hm.disjoint_of_table ht) (fun o' hne => ?_) (Dict.get?_erase_self _ _)
    cases o' with
    | seq id => rfl
    | cross id => exact Dict.get?_erase_of_ne (fun e => hne (congrArg Owner.cross e)) _

/-! ## Swapping -/

/-- `swap` keeps the contents of a table, and so does a loop of it. -/
theorem swapTables_stored {swap : List Ref → DeviceM H (Dict Nat Nat)}
    (hswap : ∀ {d d' : CpuGpuBlockAllocator H} {t : BlockTable} {mapping : Dict Nat Nat}, d.Ready →
      TableOk d.gpu t → (swap t.blocks).run d = .ok mapping d' →
      (Acted d t.blocks d' t.blocks ∧ TableOk d'.gpu t) ∧
        d'.gpu.contents t.blocks = d.gpu.contents t.blocks)
    {seqs : List Sequence} {l : List (Nat × Nat)} (hm : m.Tabled)
    (h : (swapTables swap seqs).run m = .ok l m') : m'.stored = m.stored := by
  induction seqs generalizing m l with
  | nil =>
    obtain ⟨-, rfl⟩ := run_pure_ok.mp h
    rfl
  | cons seq rest ih =>
    rw [swapTables] at h
    obtain ⟨t, ht, h⟩ := getBlockTable_bind_ok h
    rcases run_ite_ok.mp h with ⟨-, h⟩ | ⟨-, h⟩
    · exact ih hm h
    · obtain ⟨mapping, m₁, h₁, h⟩ := run_bind_ok.mp h
      obtain ⟨d, hd, rfl⟩ := onAllocator_ok.mp h₁
      obtain ⟨⟨hact, hok⟩, hc⟩ := hswap hm.ready (hm.table _ t ht) hd
      obtain ⟨ids, m₂, h₂, h⟩ := run_bind_ok.mp h
      obtain ⟨d₂, hd₂, rfl⟩ := onAllocator_ok.mp h₂
      obtain rfl := getBlockIds_ok hd₂
      obtain ⟨_, m₃, h₃, h⟩ := run_bind_ok.mp h
      obtain rfl := run_modify_ok.mp h₃
      obtain ⟨l', m₄, h₄, h⟩ := run_bind_ok.mp h
      obtain ⟨-, rfl⟩ := run_pure_ok.mp h
      have hold := hm.disjoint_of_table ht
      refine (ih (hm.setSeq (t := { t with blockIds := ids }) hact hold
        ⟨hok.blockSize, hok.window, hok.blocks⟩) h₄).trans ?_
      refine (hm.stored_setSeq (t := { t with blockIds := ids }) hact hold m.seqLastAccess).trans ?_
      dsimp only
      rw [hc, TokenStore.put, ← stored_of_table ht, Function.update_eq_self]

/-! ## Calls -/

/-- A call that does not raise. A sequence is forked while its blocks are on the GPU. -/
def Does (m : BlockSpaceManager H) : StoreCall H → BlockSpaceManager H → Prop
  | .allocate g ns encoderNs, m' => (allocate g ns encoderNs).run m = .ok () m'
  | .appendSlots seq k, m' => ∃ cows, (appendSlots seq k).run m = .ok cows m'
  | .fork parent child, m' =>
    (∀ t, m.blockTables.get? parent.seqId = some t → OnGpu m.blockAllocator.gpu t) ∧
      (fork parent child).run m = .ok () m'
  | .free seq, m' => (free seq).run m = .ok () m'
  | .freeCross g, m' => (freeCross g).run m = .ok () m'
  | .swapOut g, m' => ∃ l, (swapOut g).run m = .ok l m'
  | .swapIn g, m' => ∃ l, (swapIn g).run m = .ok l m'
  | .accessAllBlocksInSeq seq now, m' => (accessAllBlocksInSeq seq now).run m = .ok () m'
  | .markBlocksAsComputed, m' => markBlocksAsComputed.run m = .ok () m'
  | .tier c, m' => m' = { m with blockAllocator := { m.blockAllocator with
      gpu := { m.blockAllocator.gpu with contentCache := c } } }

end BlockSpaceManager

open BlockSpaceManager

variable [DecidableEq H] [Sha256 H]

/-- Runs of a block manager, with the calls. -/
def managerLts (H : Type) [DecidableEq H] [Sha256 H] : Lts (BlockSpaceManager H) (StoreCall H) :=
  ⟨BlockSpaceManager.Fresh, BlockSpaceManager.Does⟩

theorem BlockSpaceManager.Does.op {m m' : BlockSpaceManager H} {c : StoreCall H}
    (h : m.Does c m') : ManagerOp m m' := by
  cases c with
  | allocate g ns encoderNs => exact .allocate h
  | appendSlots seq k => exact .appendSlots h.choose_spec
  | fork parent child => exact .fork h.1 h.2
  | free seq => exact .free h
  | freeCross g => exact .freeCross h
  | swapOut g => exact .swapOut h.choose_spec
  | swapIn g => exact .swapIn h.choose_spec
  | accessAllBlocksInSeq seq now => exact .accessAllBlocksInSeq h
  | markBlocksAsComputed => exact .markBlocksAsComputed h
  | tier c =>
    obtain rfl : m' = _ := h
    exact .tier c

/-- A call does to the tables what it means. -/
theorem BlockSpaceManager.Does.stored {m m' : BlockSpaceManager H} {c : StoreCall H}
    (h : m.Does c m') (hm : m.Tabled) : m'.stored = m.stored.call c := by
  cases c with
  | allocate g ns encoderNs => exact allocate_stored hm h
  | appendSlots seq k => exact appendSlots_stored hm h.choose_spec
  | fork parent child => exact fork_stored hm h.1 h.2
  | free seq => exact free_stored hm h
  | freeCross g => exact freeCross_stored hm h
  | swapOut g =>
    exact swapTables_stored (fun hd ht hs => ⟨BlockTable.swapOut_ok hd ht hs,
      BlockTable.swapOut_contents hd ht hs⟩) hm h.choose_spec
  | swapIn g =>
    exact swapTables_stored (fun hd ht hs => ⟨BlockTable.swapIn_ok hd ht hs,
      BlockTable.swapIn_contents hd ht hs⟩) hm h.choose_spec
  | accessAllBlocksInSeq seq now =>
    have h : (accessAllBlocksInSeq seq now).run m = .ok () m' := h
    rw [BlockSpaceManager.accessAllBlocksInSeq, run_get_bind, run_ite_ok] at h
    rcases h with ⟨-, h⟩ | ⟨-, h⟩
    · rw [run_raiseUnless_bind_ok, run_set_ok] at h
      obtain ⟨-, rfl⟩ := h
      exact stored_tracked m _
    · obtain ⟨-, rfl⟩ := run_pure_ok.mp h
      rfl
  | markBlocksAsComputed =>
    obtain ⟨d, hd, rfl⟩ := onAllocator_ok.mp h
    obtain ⟨s, hs, rfl⟩ := onGpu_ok.mp hd
    obtain ⟨hinv, hlive, hframe⟩ := (lawful m.blockAllocator).computed hm.ready.inv hs
    refine hm.stored_same (acted_of_frame hm.ready hinv hlive hframe).loc (funext fun o => ?_)
    cases o with
    | seq id => rfl
    | cross id => rfl
  | tier c =>
    obtain rfl : m' = _ := h
    funext o
    cases o with
    | seq id => rfl
    | cross id => rfl

omit [DecidableEq H] [Sha256 H] in
theorem stored_of_fresh {m : BlockSpaceManager H} (h : m.Fresh) : m.stored = .empty := by
  obtain ⟨blockSize, numGpu, numCpu, watermark, window, caching, policy, offload, limit, -, -, rfl⟩ :=
    h
  funext o
  cases o with
  | seq id => rfl
  | cross id => rfl

/-- After any calls the tables have the tokens that the calls stored. -/
theorem stored_eq_calls {m₀ m : BlockSpaceManager H} {calls : List (StoreCall H)} (hf : m₀.Fresh)
    (hw : m₀.maxBlockSlidingWindow = none) (h : (managerLts H).Run m₀ calls m) :
    m.stored = calls.foldl .call .empty := by
  rw [← stored_of_fresh hf]
  refine h.foldl (I := Tabled) (fun m c m' hm hs => ?_) (tabled_of_fresh hf hw)
  have hs : m.Does c m' := hs
  exact ⟨hs.op.tabled hm, hs.stored hm⟩

/-- A sequence with the prompt `1, 2, 3` and a token. -/
def onePrompt (seqId tokenId : Nat) : Sequence :=
  ⟨seqId, ⟨[1, 2, 3], [tokenId], 3, .decode⟩, .running⟩

/-- Two sequences of a prompt append to the block that they share, and one of them is freed. -/
theorem stored_eq_calls_pair : ∃ m, (managerLts PlainDigest).Run eightBlocks
      [.allocate (pair .waiting [] []) [] [], .appendSlots (onePrompt 0 4) 1,
        .appendSlots (onePrompt 1 5) 1, .free (onePrompt 0 4)] m ∧
    m.stored (.seq 0) = none ∧ m.stored (.seq 1) = some [1, 2, 3, 5] := by
  obtain ⟨_, m, hrun, -⟩ := check_eq_true.mp (show check (do
      allocate (pair .waiting [] []) [] []
      let _ ← appendSlots (onePrompt 0 4) 1
      let _ ← appendSlots (onePrompt 1 5) 1
      free (onePrompt 0 4)) eightBlocks (fun _ _ => true) = true by decide +kernel)
  obtain ⟨_, m₁, h₁, hrun⟩ := run_bind_ok.mp hrun
  obtain ⟨_, m₂, h₂, hrun⟩ := run_bind_ok.mp hrun
  obtain ⟨_, m₃, h₃, h₄⟩ := run_bind_ok.mp hrun
  have hcalls : (managerLts PlainDigest).Run eightBlocks
      [.allocate (pair .waiting [] []) [] [], .appendSlots (onePrompt 0 4) 1,
        .appendSlots (onePrompt 1 5) 1, .free (onePrompt 0 4)] m :=
    .cons h₁ (.cons ⟨_, h₂⟩ (.cons ⟨_, h₃⟩ (.cons h₄ (.nil m))))
  have hstored := stored_eq_calls fresh_eightBlocks rfl hcalls
  refine ⟨m, hcalls, ?_, ?_⟩
  · rw [hstored]
    rfl
  · rw [hstored]
    rfl

end Bi100
