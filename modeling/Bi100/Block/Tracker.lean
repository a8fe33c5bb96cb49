import Bi100.Block.Runs

/-!
# Computed blocks (`ComputedBlocksTracker`, `get_common_computed_block_ids`)

The tracker remembers for each sequence the ids of the blocks that are computed, and looks only at
the blocks after them when it is asked again. Nothing tells it that the ids in a table changed.

- `TrackedManager.run`: the calls of the block manager, with prefix caching, and of its tracker.
- `tracked_prefix`: while the ids that it remembers are left alone, the tracker returns a prefix of
  the ids in the table without the last one, and its assertions hold.
- `swapped_ids_differ`: a run that swaps a sequence out and in; it gets other blocks.

`get_common_computed_block_ids` keeps what several sequences have in common of the lists; here a
call asks for the lists.
-/

namespace Bi100

open Py AllocState CpuGpuBlockAllocator BlockSpaceManager
open PrefixCachingBlockAllocator (assertion)

variable {H : Type}

namespace AllocState

/-- `block_is_computed` -/
def blockIsComputed (s : AllocState H) (blockId : Nat) : Except Err Bool := do
  guardNot (blockId ∉ s.allBlockIds) .keyError
  return if (s.blockTracker blockId).active then (s.blockTracker blockId).computed
    else decide (blockId ∈ s.evictor.freeTable)

/-- The loop of `get_computed_block_ids`. -/
def collectComputed (s : AllocState H) : List Nat → List Nat → Except Err (List Nat)
  | ret, [] => pure ret
  | ret, blockId :: rest => do
    let computed ← s.blockIsComputed blockId
    if computed then collectComputed s (ret ++ [blockId]) rest else return ret

/-- `get_computed_block_ids`, which skips the last id -/
def getComputedBlockIds (s : AllocState H) (prevComputedBlockIds blockIds : List Nat) :
    Except Err (List Nat) := do
  guardNot (blockIds = []) assertion
  let curSize := blockIds.length - 1
  guardNot (curSize < prevComputedBlockIds.length) assertion
  s.collectComputed prevComputedBlockIds ((blockIds.take curSize).drop prevComputedBlockIds.length)

end AllocState

structure ComputedBlocksTracker where
  /-- The computed ids of a sequence, and whether a gap follows them. -/
  cachedComputedSeqBlocks : Dict Nat (List Nat × Bool)

namespace ComputedBlocksTracker

def addSeq (seqId : Nat) (c : ComputedBlocksTracker) : Except Err ComputedBlocksTracker := do
  guardNot (seqId ∈ c.cachedComputedSeqBlocks) assertion
  return ⟨c.cachedComputedSeqBlocks.set seqId ([], false)⟩

def removeSeq (seqId : Nat) (c : ComputedBlocksTracker) : Except Err ComputedBlocksTracker := do
  guardNot (seqId ∉ c.cachedComputedSeqBlocks) assertion
  return ⟨c.cachedComputedSeqBlocks.erase seqId⟩

def getCachedComputedBlocksAndUpdate (s : AllocState H) (seqId : Nat) (blockIds : List Nat)
    (c : ComputedBlocksTracker) : Except Err (List Nat × ComputedBlocksTracker) :=
  match c.cachedComputedSeqBlocks.get? seqId with
  | none => throw assertion
  | some (prevComputedBlockIds, hasGap) =>
    if hasGap then pure (prevComputedBlockIds, c)
    else do
      guardNot (blockIds = []) assertion
      -- the last block is not considered
      let numCurBlocks := blockIds.length - 1
      if numCurBlocks ≤ prevComputedBlockIds.length then
        guardNot (prevComputedBlockIds.length ≠ numCurBlocks) assertion
        return (prevComputedBlockIds, c)
      let computedBlockIds ← s.getComputedBlockIds prevComputedBlockIds blockIds
      return (computedBlockIds, ⟨c.cachedComputedSeqBlocks.set seqId
        (computedBlockIds, decide (computedBlockIds.length < numCurBlocks))⟩)

end ComputedBlocksTracker

/-- The block manager and its `_computed_blocks_tracker`. -/
structure TrackedManager (H : Type) where
  manager : BlockSpaceManager H
  computedBlocksTracker : ComputedBlocksTracker

variable [DecidableEq H] [Sha256 H]

/-- The calls of the scheduler. -/
inductive ManagerCall (H : Type) where
  | allocate (g : SequenceGroup) (ns encoderNs : Bytes)
  | appendSlots (seq : Sequence) (numLookaheadSlots : Nat)
  | fork (parentSeq childSeq : Sequence)
  | free (seq : Sequence)
  | freeCross (g : SequenceGroup)
  | swapOut (g : SequenceGroup)
  | swapIn (g : SequenceGroup)
  | accessAllBlocksInSeq (seq : Sequence) (now : Int)
  | markBlocksAsComputed
  | getCommonComputedBlockIds (seqs : List Sequence)
  /-- The CPU tier is used by others. -/
  | tier (c : Option (CpuKvContentCache H))

namespace TrackedManager

/-- A method of the block manager that does not track sequences. -/
def call {α : Type} (m : TrackedManager H) (x : ManagerM H α) : Except Err (TrackedManager H) :=
  match x.run m.manager with
  | .ok _ manager => pure { m with manager }
  | .error e _ => throw e

/-- What the tracker returns for a sequence. -/
def getComputed (m : TrackedManager H) (seq : Sequence) (c : ComputedBlocksTracker) :
    Except Err (List Nat × ComputedBlocksTracker) :=
  match m.manager.blockTables.get? seq.seqId with
  | none => throw .keyError
  | some t => c.getCachedComputedBlocksAndUpdate m.manager.blockAllocator.gpu seq.seqId t.blockIds

/-- Change the tracker. -/
def track (m : TrackedManager H)
    (f : ComputedBlocksTracker → Except Err ComputedBlocksTracker) :
    Except Err (TrackedManager H) := do
  let computedBlocksTracker ← f m.computedBlocksTracker
  return { m with computedBlocksTracker }

end TrackedManager

open TrackedManager

def TrackedManager.run (m : TrackedManager H) : ManagerCall H → Except Err (TrackedManager H)
  | .allocate g ns encoderNs => do
    let m' ← m.call (allocate g ns encoderNs)
    m'.track fun c => (g.getSeqs .waiting).foldlM (fun c seq => c.addSeq seq.seqId) c
  | .appendSlots seq numLookaheadSlots => m.call (appendSlots seq numLookaheadSlots)
  | .fork parentSeq childSeq => do
    let m' ← m.call (fork parentSeq childSeq)
    if parentSeq.seqId ∈ m.manager.blockTables then
      m'.track fun c => c.addSeq childSeq.seqId
    else return m'
  | .free seq => do
    let m' ← m.call (free seq)
    if seq.seqId ∈ m.manager.blockTables then
      m'.track fun c => c.removeSeq seq.seqId
    else return m'
  | .freeCross g => m.call (freeCross g)
  | .swapOut g => m.call (swapOut g)
  | .swapIn g => m.call (swapIn g)
  | .accessAllBlocksInSeq seq now => m.call (accessAllBlocksInSeq seq now)
  | .markBlocksAsComputed => m.call markBlocksAsComputed
  | .getCommonComputedBlockIds seqs =>
    m.track fun c => seqs.foldlM (fun c seq => Prod.snd <$> m.getComputed seq c) c
  | .tier c => pure { m with manager := { m.manager with
      blockAllocator := { m.manager.blockAllocator with
        gpu := { m.manager.blockAllocator.gpu with contentCache := c } } } }

/-- What the callers see to: a prompt is not empty, and a sequence is forked while its blocks are on
the GPU. -/
def TrackedManager.Promised (m : TrackedManager H) : ManagerCall H → Prop
  | .allocate g _ _ => ∀ seq ∈ g.getSeqs .waiting, seq.data.getTokenIds ≠ []
  | .fork parentSeq _ => ∀ t, m.manager.blockTables.get? parentSeq.seqId = some t →
    OnGpu m.manager.blockAllocator.gpu t
  | _ => True

/-- Runs of the block manager with prefix caching, whose calls meet `ok`. -/
def trackedSys (H : Type) [DecidableEq H] [Sha256 H]
    (ok : TrackedManager H → ManagerCall H → Prop) : Sys (TrackedManager H) where
  init m := m.manager.Fresh ∧ m.manager.enableCaching = true ∧ m.computedBlocksTracker = ⟨∅⟩
  step m m' := ∃ c, m.Promised c ∧ ok m c ∧ m.run c = .ok m'

/-- What the tracker returns for a sequence is a prefix of the ids in its table without the last
one, and it does not fail an assertion. -/
def ReturnsPrefixes (m : TrackedManager H) : Prop :=
  ∀ (seq : Sequence) (t : BlockTable), m.manager.blockTables.get? seq.seqId = some t →
    m.getComputed seq m.computedBlocksTracker ≠ .error assertion ∧
    ∀ ids c, m.getComputed seq m.computedBlocksTracker = .ok (ids, c) → ids <+: t.blockIds.dropLast

/-- The ids that the tracker remembers. -/
def TrackedManager.remembered (m : TrackedManager H) (seqId : Nat) : List Nat :=
  ((m.computedBlocksTracker.cachedComputedSeqBlocks.get? seqId).map Prod.fst).getD []

/-- The call leaves the ids that the tracker remembers: no sequence is swapped of which it remembers
some, and none is appended to in a block that it remembers. -/
def LeavesPrefix (m : TrackedManager H) : ManagerCall H → Prop
  | .appendSlots seq _ => ∀ t, m.manager.blockTables.get? seq.seqId = some t →
    t.getUnseenTokenIds seq.data.getTokenIds ≠ [] →
    (m.remembered seq.seqId).length ≤ t.numFullSlots / t.blockSize
  | .swapOut g => ∀ seq ∈ g.getSeqs .running, m.remembered seq.seqId = []
  | .swapIn g => ∀ seq ∈ g.getSeqs .swapped, m.remembered seq.seqId = []
  | _ => True

/-! ## What the tracker does -/

section

omit [DecidableEq H] [Sha256 H]

/-- The loop goes on with the next ids. -/
theorem collectComputed_ok {s : AllocState H} {ret l ids : List Nat}
    (h : s.collectComputed ret l = .ok ids) : ∃ k, ids = ret ++ l.take k := by
  induction l generalizing ret with
  | nil =>
    obtain rfl := pure_eq_ok.mp h
    exact ⟨0, by simp⟩
  | cons blockId rest ih =>
    unfold AllocState.collectComputed at h
    obtain ⟨computed, -, h⟩ := bind_eq_ok.mp h
    split at h
    · obtain ⟨k, rfl⟩ := ih h
      exact ⟨k + 1, by simp⟩
    · obtain rfl := pure_eq_ok.mp h
      exact ⟨0, by simp⟩

theorem collectComputed_ne {s : AllocState H} {ret l : List Nat} :
    s.collectComputed ret l ≠ .error assertion := by
  induction l generalizing ret with
  | nil => exact nofun
  | cons blockId rest ih =>
    unfold AllocState.collectComputed
    cases hcomputed : s.blockIsComputed blockId with
    | ok computed =>
      cases computed with
      | true => exact ih
      | false => exact nofun
    | error e =>
      -- An unknown id is another error.
      intro h
      obtain rfl : e = assertion := Except.error.inj h
      unfold AllocState.blockIsComputed at hcomputed
      rw [guardNot_bind] at hcomputed
      split at hcomputed
      · cases hcomputed
      · cases hcomputed

/-- A prefix without the last element. -/
theorem prefix_dropLast_iff {ids l : List Nat} (hl : l ≠ []) :
    ids <+: l.dropLast ↔ ids <+: l ∧ ids.length < l.length := by
  have hpos := List.length_pos_of_ne_nil hl
  constructor
  · intro h
    have hle := h.length_le
    rw [List.length_dropLast] at hle
    exact ⟨h.trans (List.dropLast_prefix l), by omega⟩
  · rintro ⟨h, hlt⟩
    rw [List.dropLast_eq_take]
    exact (List.prefix_take_iff).mpr ⟨h, by omega⟩

/-- From a prefix it returns a longer prefix, and remembers it. -/
theorem getCachedComputedBlocksAndUpdate_ok {s : AllocState H} {seqId : Nat}
    {blockIds ids : List Nat} {c c' : ComputedBlocksTracker}
    (hids : ∀ e, c.cachedComputedSeqBlocks.get? seqId = some e → e.1 <+: blockIds.dropLast)
    (h : c.getCachedComputedBlocksAndUpdate s seqId blockIds = .ok (ids, c')) :
    ids <+: blockIds.dropLast ∧
      (c' = c ∨ ∃ gap, c' = ⟨c.cachedComputedSeqBlocks.set seqId (ids, gap)⟩) := by
  unfold ComputedBlocksTracker.getCachedComputedBlocksAndUpdate at h
  cases hget : c.cachedComputedSeqBlocks.get? seqId with
  | none =>
    rw [hget] at h
    exact (throw_eq_ok.mp h).elim
  | some e =>
    obtain ⟨prev, hasGap⟩ := e
    have hprev : prev <+: blockIds.dropLast := hids _ hget
    rw [hget] at h
    dsimp only at h
    split at h
    · obtain ⟨rfl, rfl⟩ := Prod.mk.inj (pure_eq_ok.mp h)
      exact ⟨hprev, .inl rfl⟩
    obtain ⟨-, h⟩ := guardNot_bind_eq_ok.mp h
    split at h
    · obtain ⟨-, h⟩ := guardNot_bind_eq_ok.mp h
      obtain ⟨rfl, rfl⟩ := Prod.mk.inj (pure_eq_ok.mp h)
      exact ⟨hprev, .inl rfl⟩
    · obtain ⟨computed, hcomputed, h⟩ := bind_eq_ok.mp h
      obtain ⟨rfl, rfl⟩ := Prod.mk.inj (pure_eq_ok.mp h)
      refine ⟨?_, .inr ⟨_, rfl⟩⟩
      unfold AllocState.getComputedBlockIds at hcomputed
      obtain ⟨-, hcomputed⟩ := guardNot_bind_eq_ok.mp hcomputed
      obtain ⟨-, hcomputed⟩ := guardNot_bind_eq_ok.mp hcomputed
      obtain ⟨k, rfl⟩ := collectComputed_ok hcomputed
      rw [← List.dropLast_eq_take]
      obtain ⟨rest, hrest⟩ := hprev
      rw [← hrest, List.drop_left]
      exact List.prefix_append_right_inj prev |>.mpr (List.take_prefix k rest)

/-- From a prefix it does not fail an assertion. -/
theorem getCachedComputedBlocksAndUpdate_ne {s : AllocState H} {seqId : Nat} {blockIds : List Nat}
    {c : ComputedBlocksTracker} {e : List Nat × Bool}
    (hget : c.cachedComputedSeqBlocks.get? seqId = some e) (hne : blockIds ≠ [])
    (hprev : e.1 <+: blockIds.dropLast) :
    c.getCachedComputedBlocksAndUpdate s seqId blockIds ≠ .error assertion := by
  have hle := hprev.length_le
  rw [List.length_dropLast] at hle
  unfold ComputedBlocksTracker.getCachedComputedBlocksAndUpdate
  rw [hget]
  dsimp only
  split
  · exact nofun
  rw [guardNot_bind, if_neg hne]
  split
  · rw [guardNot_bind, if_neg (by omega)]
    exact nofun
  · unfold AllocState.getComputedBlockIds
    rw [guardNot_bind, if_neg hne, guardNot_bind, if_neg (by omega)]
    intro h
    cases hcollect : s.collectComputed e.1 ((blockIds.take (blockIds.length - 1)).drop e.1.length) with
    | ok ids =>
      rw [hcollect] at h
      cases h
    | error err =>
      rw [hcollect] at h
      obtain rfl := Except.error.inj h
      exact collectComputed_ne hcollect

end

/-! ## The ids of a table -/

namespace BlockTable

variable {d d' : CpuGpuBlockAllocator H} {t t' : BlockTable} {tokenIds : List Nat}

theorem allocate_ids (hd : d.Ready) (hbs : t.blockSize = d.gpu.blockSize)
    (hw : t.maxBlockSlidingWindow = none) (h : (t.allocate tokenIds).run d = .ok t' d') :
    t'.blockIds ≠ [] := by
  have hok := (allocate_ok hd hbs hw h).2.1
  rw [allocate, run_raiseUnless_bind_ok, run_raiseUnless_bind_ok] at h
  obtain ⟨-, hne, h⟩ := h
  obtain ⟨rs, d₁, -, h⟩ := run_bind_ok.mp h
  obtain ⟨ids, d₂, hids, h⟩ := run_bind_ok.mp h
  obtain ⟨rfl, rfl⟩ := run_pure_ok.mp h
  show ids ≠ []
  rintro rfl
  -- A prompt without blocks has no tokens.
  have hfits : tokenIds.length ≤ rs.length * _ := hok.blocks.fits
  rw [← length_getBlockIds hids, List.length_nil, Nat.zero_mul, Nat.le_zero] at hfits
  exact hne (List.length_eq_zero_iff.mp hfits)

theorem fork_ids (hd : d.Ready) (ht : TableOk d.gpu t) (hgpu : OnGpu d.gpu t)
    (h : t.fork.run d = .ok t' d') : t'.blockIds ≠ [] := by
  obtain ⟨rs, ids, s, rfl, -, hnew, hids, hne, rfl⟩ := fork_run hd ht hgpu h
  show ids ≠ []
  rintro rfl
  have hlen := congrArg List.length hnew.tokens
  rw [List.length_map, List.length_map, ← length_getBlockIds hids, List.length_nil] at hlen
  exact hne (List.length_eq_zero_iff.mp hlen.symm)

theorem addBlocks_ids {k : Nat} (h : (addBlocks k t).run d = .ok t' d') :
    ∃ rs ids, t' = { t with blocks := t.blocks ++ rs, blockIds := t.blockIds ++ ids } := by
  induction k generalizing d t with
  | zero =>
    obtain ⟨rfl, -⟩ := run_pure_ok.mp h
    exact ⟨[], [], by simp⟩
  | succ k ih =>
    rw [addBlocks, run_getOrRaise_bind_ok] at h
    obtain ⟨last, -, h⟩ := h
    obtain ⟨r, d₁, -, h⟩ := run_bind_ok.mp h
    obtain ⟨ids, d₂, -, h⟩ := run_bind_ok.mp h
    obtain ⟨rs, ids', rfl⟩ := ih h
    exact ⟨r :: rs, ids ++ ids', by simp⟩

theorem ensureNumEmptySlots_ids {k : Nat} (h : (t.ensureNumEmptySlots k).run d = .ok t' d') :
    ∃ rs ids, t' = { t with blocks := t.blocks ++ rs, blockIds := t.blockIds ++ ids } := by
  rw [ensureNumEmptySlots, run_raiseUnless_bind_ok, run_ite_ok] at h
  rcases h.2 with ⟨-, h⟩ | ⟨-, h⟩
  · obtain ⟨rfl, -⟩ := run_pure_ok.mp h
    exact ⟨[], [], by simp⟩
  · exact addBlocks_ids h

/-- Only the ids from `idx` on change. -/
theorem appendTokenBlocks_ids {idx : Nat} {chunks : List (List Nat)}
    (h : (appendTokenBlocks idx chunks t).run d = .ok t' d') :
    t'.blockIds.length = t.blockIds.length ∧
      ∀ j, (chunks ≠ [] → j ≤ idx) → t'.blockIds.take j = t.blockIds.take j := by
  induction chunks generalizing idx t d with
  | nil =>
    obtain ⟨rfl, -⟩ := run_pure_ok.mp h
    exact ⟨rfl, fun _ _ => rfl⟩
  | cons c rest ih =>
    rw [appendTokenBlocks, run_get_bind, run_getOrRaise_bind_ok] at h
    obtain ⟨r, -, h⟩ := h
    rw [run_raiseIf_bind_ok, run_raiseIf_bind_ok] at h
    obtain ⟨-, -, h⟩ := h
    obtain ⟨_, d₁, -, h⟩ := run_bind_ok.mp h
    obtain ⟨ids, d₂, -, h⟩ := run_bind_ok.mp h
    obtain ⟨hlen, htake⟩ := ih h
    refine ⟨hlen.trans List.length_set, fun j hj => ?_⟩
    have hj := hj (List.cons_ne_nil c rest)
    rw [htake j fun _ => by omega]
    exact List.take_set_of_le hj

/-- Tokens that go to the blocks after some ids leave them. -/
theorem appendTokenIds_ids {k computed : Nat} (hw : t.maxBlockSlidingWindow = none)
    (hne : t.blockIds ≠ [])
    (h : (t.appendTokenIds tokenIds k computed).run d = .ok t' d') :
    t'.blockIds ≠ [] ∧ ∀ ids, ids <+: t.blockIds.dropLast →
      (tokenIds ≠ [] → ids.length ≤ t.numFullSlots / t.blockSize) →
      ids <+: t'.blockIds.dropLast := by
  rw [appendTokenIds_run hw, run_raiseUnless_bind_ok] at h
  obtain ⟨t₁, d₁, h₁, h⟩ := run_bind_ok.mp h.2
  obtain ⟨t₂, d₂, h₂, h⟩ := run_bind_ok.mp h
  obtain ⟨rfl, rfl⟩ := run_pure_ok.mp h
  obtain ⟨rs, extra, rfl⟩ := ensureNumEmptySlots_ids h₁
  obtain ⟨hlen, htake⟩ := appendTokenBlocks_ids h₂
  rw [List.length_append] at hlen
  have hpos := List.length_pos_of_ne_nil hne
  have hne' : t₂.blockIds ≠ [] := List.ne_nil_of_length_pos (by omega)
  refine ⟨hne', fun ids hids hroom => ?_⟩
  obtain ⟨hpre, hlt⟩ := (prefix_dropLast_iff hne).mp hids
  refine (prefix_dropLast_iff hne').mpr ⟨?_, by omega⟩
  have heq : t₂.blockIds.take ids.length = t.blockIds.take ids.length := by
    rw [htake ids.length fun hchunks => hroom fun hnil => hchunks ?_,
      List.take_append_of_le_length (by omega)]
    rw [hnil]
    rfl
  rw [List.prefix_iff_eq_take.mp hpre, ← heq]
  exact List.take_prefix _ _

end BlockTable

namespace BlockSpaceManager

variable {m m' m'' : BlockSpaceManager H} {seq : Sequence} {g : SequenceGroup}

omit [DecidableEq H] [Sha256 H] in
/-- No table is without ids. -/
def HasIds (m : BlockSpaceManager H) : Prop :=
  ∀ seqId t, m.blockTables.get? seqId = some t → t.blockIds ≠ []

omit [DecidableEq H] [Sha256 H] in
/-- Only the tables of some sequences change, and they have ids. -/
structure Renewed (seqIds : List Nat) (m m' : BlockSpaceManager H) : Prop where
  others : ∀ seqId, seqId ∉ seqIds → m'.blockTables.get? seqId = m.blockTables.get? seqId
  ids : m.HasIds → m'.HasIds

namespace Renewed

variable {l l' : List Nat}

omit [DecidableEq H] [Sha256 H]

theorem of_same (h : m'.blockTables = m.blockTables) : Renewed l m m' := by
  refine ⟨fun seqId _ => by rw [h], fun hids seqId t ht => ?_⟩
  rw [h] at ht
  exact hids seqId t ht

theorem trans (h : Renewed l m m') (h' : Renewed l' m' m'') : Renewed (l ++ l') m m'' := by
  refine ⟨fun seqId hn => ?_, fun hids => h'.ids (h.ids hids)⟩
  rw [List.mem_append, not_or] at hn
  rw [h'.others seqId hn.2, h.others seqId hn.1]

theorem of_set {seqId : Nat} {t : BlockTable} (ht : t.blockIds ≠ [])
    (h : m'.blockTables = m.blockTables.set seqId t) : Renewed [seqId] m m' := by
  refine ⟨fun id hn => ?_, fun hids id t' ht' => ?_⟩
  · rw [h, Dict.get?_set_of_ne fun e => hn (List.mem_singleton.mpr e)]
  · rw [h, Dict.get?_set] at ht'
    split at ht'
    · exact Option.some.inj ht' ▸ ht
    · exact hids id t' ht'

end Renewed

theorem forkTables_renewed {t : BlockTable} {seqs : List Sequence} {u : Unit} (hm : m.Tabled)
    (ht : TableOk m.blockAllocator.gpu t) (hgpu : OnGpu m.blockAllocator.gpu t)
    (h : (forkTables t seqs).run m = .ok u m') : Renewed (seqs.map (·.seqId)) m m' := by
  induction seqs generalizing m with
  | nil =>
    obtain ⟨-, rfl⟩ := run_pure_ok.mp h
    exact .of_same rfl
  | cons seq rest ih =>
    rw [forkTables] at h
    obtain ⟨forked, m₁, h₁, h⟩ := run_bind_ok.mp h
    obtain ⟨d, hd, rfl⟩ := onAllocator_ok.mp h₁
    obtain ⟨_, m₂, h₂, h⟩ := run_bind_ok.mp h
    obtain rfl := run_modify_ok.mp h₂
    obtain ⟨_, m₃, h₃, h⟩ := run_bind_ok.mp h
    obtain ⟨l, rfl⟩ := trackSeq_ok h₃
    obtain ⟨hm', ht', hgpu'⟩ := hm.forked ht hgpu hd seq.seqId l
    exact (Renewed.of_set (BlockTable.fork_ids hm.ready ht hgpu hd) rfl).trans (ih hm' ht' hgpu' h)

omit [DecidableEq H] [Sha256 H] in
theorem onAllocator_tables {α : Type} {x : DeviceM H α} {a : α}
    (h : (onAllocator x).run m = .ok a m') : m'.blockTables = m.blockTables := by
  obtain ⟨d, -, rfl⟩ := onAllocator_ok.mp h
  rfl

theorem allocateCross_tables {ns : Bytes} {u : Unit} (h : (allocateCross g ns).run m = .ok u m') :
    m'.blockTables = m.blockTables := by
  rw [allocateCross, run_get_bind, run_raiseIf_bind_ok, run_lift_bind_ok] at h
  obtain ⟨-, -, -, h⟩ := h
  split at h
  · obtain ⟨-, rfl⟩ := run_pure_ok.mp h
    rfl
  · obtain ⟨t, m₁, h₁, h⟩ := run_bind_ok.mp h
    obtain rfl := run_modify_ok.mp h
    rw [allocateSequence, run_get_bind] at h₁
    dsimp only at h₁
    rcases run_ite_ok.mp h₁ with ⟨-, h₁⟩ | ⟨-, h₁⟩
    · obtain ⟨-, rfl⟩ := run_pure_ok.mp h₁
      rfl
    · show m₁.blockTables = m.blockTables
      exact onAllocator_tables h₁

theorem allocate_renewed {ns encoderNs : Bytes} {u : Unit} (hm : m.Tabled)
    (hne : ∀ seq ∈ g.getSeqs .waiting, seq.data.getTokenIds ≠ [])
    (h : (allocate g ns encoderNs).run m = .ok u m') :
    Renewed ((g.getSeqs .waiting).map (·.seqId)) m m' := by
  rw [allocate, run_get_bind, run_raiseIf_bind_ok] at h
  obtain ⟨-, h⟩ := h
  split at h
  · cases run_throw_ok.mp h
  · next seq rest hseqs =>
    rw [hseqs]
    obtain ⟨t, m₁, h₁, h⟩ := run_bind_ok.mp h
    have hprompt := hne seq (hseqs ▸ List.mem_cons_self)
    have hids : t.blockIds ≠ [] := by
      rw [allocateSequence, run_get_bind] at h₁
      dsimp only at h₁
      rw [if_neg hprompt] at h₁
      obtain ⟨d, hd, -⟩ := onAllocator_ok.mp h₁
      exact BlockTable.allocate_ids hm.ready hm.blockSize hm.window hd
    obtain ⟨d, rfl, hact, hok, hgpu⟩ := allocateSequence_ok hm h₁
    obtain ⟨_, m₂, h₂, h⟩ := run_bind_ok.mp h
    obtain rfl := run_modify_ok.mp h₂
    obtain ⟨_, m₃, h₃, h⟩ := run_bind_ok.mp h
    obtain ⟨l, rfl⟩ := trackSeq_ok h₃
    obtain ⟨_, m₄, h₄, h⟩ := run_bind_ok.mp h
    have hfork := forkTables_renewed ((hm.setSeq hact disjoint_nil hok).tracked l) hok hgpu h₄
    have hfirst : Renewed [seq.seqId] m { m with
        blockAllocator := d
        blockTables := m.blockTables.set seq.seqId t
        seqLastAccess := l } := .of_set hids rfl
    have hcross : Renewed [] m₄ m' := .of_same (allocateCross_tables h)
    have hall := (hfirst.trans hfork).trans hcross
    rwa [List.append_nil] at hall

/-- A fork of a table that is there, on the GPU. -/
theorem fork_renewed {parent child : Sequence} {u : Unit} (hm : m.Tabled)
    (hgpu : ∀ t, m.blockTables.get? parent.seqId = some t → OnGpu m.blockAllocator.gpu t)
    (h : (fork parent child).run m = .ok u m') :
    (parent.seqId ∉ m.blockTables ∧ m' = m) ∨
      (parent.seqId ∈ m.blockTables ∧ Renewed [child.seqId] m m') := by
  rw [fork, run_get_bind] at h
  split at h
  · next hnone =>
    obtain ⟨-, rfl⟩ := run_pure_ok.mp h
    exact .inl ⟨Dict.get?_eq_none.mp hnone, rfl⟩
  · next t ht =>
    obtain ⟨forked, m₁, h₁, h⟩ := run_bind_ok.mp h
    obtain ⟨d, hd, rfl⟩ := onAllocator_ok.mp h₁
    obtain ⟨_, m₂, h₂, h⟩ := run_bind_ok.mp h
    obtain rfl := run_modify_ok.mp h₂
    obtain ⟨l, rfl⟩ := trackSeq_ok h
    have hok := hm.table (.seq parent.seqId) t ht
    exact .inr ⟨Dict.mem_of_get? ht,
      .of_set (BlockTable.fork_ids hm.ready hok (hgpu t ht) hd) rfl⟩

theorem free_tables {u : Unit} (h : (free seq).run m = .ok u m') :
    (seq.seqId ∉ m.blockTables ∧ m' = m) ∨
      (seq.seqId ∈ m.blockTables ∧ m'.blockTables = m.blockTables.erase seq.seqId) := by
  rw [free, run_get_bind] at h
  split at h
  · next hnone =>
    obtain ⟨-, rfl⟩ := run_pure_ok.mp h
    exact .inl ⟨Dict.get?_eq_none.mp hnone, rfl⟩
  · next t ht =>
    refine .inr ⟨Dict.mem_of_get? ht, ?_⟩
    rw [run_getOrRaise_bind_ok] at h
    obtain ⟨lastAccess, -, h⟩ := h
    have hrest : ∀ m₁ : BlockSpaceManager H, m₁.blockTables = m.blockTables →
        (do
          modify fun m => { m with seqLastAccess := m.seqLastAccess.erase seq.seqId }
          onAllocator t.free
          modify fun m => { m with blockTables := m.blockTables.erase seq.seqId }
          : ManagerM H Unit).run m₁ = .ok u m' →
        m'.blockTables = m.blockTables.erase seq.seqId := by
      intro m₁ hm₁ h
      rw [run_modify_bind] at h
      obtain ⟨_, m₂, h₂, h⟩ := run_bind_ok.mp h
      obtain rfl := run_modify_ok.mp h
      show m₂.blockTables.erase seq.seqId = _
      rw [onAllocator_tables h₂, hm₁]
    split at h
    · exact hrest m rfl h
    · obtain ⟨_, m₁, h₁, h⟩ := run_bind_ok.mp h
      exact hrest m₁ (onAllocator_tables h₁) h

theorem freeCross_tables {u : Unit} (h : (freeCross g).run m = .ok u m') :
    m'.blockTables = m.blockTables := by
  rw [freeCross, run_get_bind] at h
  split at h
  · obtain ⟨-, rfl⟩ := run_pure_ok.mp h
    rfl
  · obtain ⟨_, m₁, h₁, h⟩ := run_bind_ok.mp h
    obtain rfl := run_modify_ok.mp h
    show m₁.blockTables = m.blockTables
    exact onAllocator_tables h₁

omit [DecidableEq H] [Sha256 H] in
theorem accessAllBlocksInSeq_tables {now : Int} {u : Unit}
    (h : (accessAllBlocksInSeq seq now).run m = .ok u m') : m'.blockTables = m.blockTables := by
  rw [accessAllBlocksInSeq, run_get_bind, run_ite_ok] at h
  rcases h with ⟨-, h⟩ | ⟨-, h⟩
  · rw [run_raiseUnless_bind_ok, run_set_ok] at h
    obtain ⟨-, rfl⟩ := h
    rfl
  · obtain ⟨-, rfl⟩ := run_pure_ok.mp h
    rfl

omit [DecidableEq H] [Sha256 H] in
/-- The tables that are swapped get the ids of their blocks. -/
theorem swapTables_renewed {swap : List Ref → DeviceM H (Dict Nat Nat)} {seqs : List Sequence}
    {l : List (Nat × Nat)} (h : (swapTables swap seqs).run m = .ok l m') :
    Renewed (seqs.map (·.seqId)) m m' ∧
      ∀ seqId, seqId ∈ m'.blockTables → seqId ∈ m.blockTables := by
  induction seqs generalizing m l with
  | nil =>
    obtain ⟨-, rfl⟩ := run_pure_ok.mp h
    exact ⟨.of_same rfl, fun _ hmem => hmem⟩
  | cons seq rest ih =>
    rw [swapTables] at h
    obtain ⟨t, ht, h⟩ := getBlockTable_bind_ok h
    rcases run_ite_ok.mp h with ⟨-, h⟩ | ⟨hne, h⟩
    · have hsame : Renewed [seq.seqId] m m := .of_same rfl
      exact ⟨hsame.trans (ih h).1, (ih h).2⟩
    · obtain ⟨mapping, m₁, h₁, h⟩ := run_bind_ok.mp h
      obtain ⟨ids, m₂, h₂, h⟩ := run_bind_ok.mp h
      obtain ⟨_, m₃, h₃, h⟩ := run_bind_ok.mp h
      obtain rfl := run_modify_ok.mp h₃
      obtain ⟨l', m₄, h₄, h⟩ := run_bind_ok.mp h
      obtain ⟨-, rfl⟩ := run_pure_ok.mp h
      have htables := (onAllocator_tables h₂).trans (onAllocator_tables h₁)
      obtain ⟨d, hd, -⟩ := onAllocator_ok.mp h₂
      have hids : ids ≠ [] := by
        rintro rfl
        have hlen := length_getBlockIds hd
        exact hne (List.length_eq_zero_iff.mp hlen.symm)
      have hset : Renewed [seq.seqId] m
          { m₂ with blockTables := m₂.blockTables.set seq.seqId { t with blockIds := ids } } := by
        refine .of_set (t := { t with blockIds := ids }) hids ?_
        rw [htables]
      obtain ⟨hrest, hdomain⟩ := ih h₄
      refine ⟨hset.trans hrest, fun seqId hmem => ?_⟩
      rcases Dict.mem_set.mp (hdomain seqId hmem) with rfl | hmem
      · exact Dict.mem_of_get? ht
      · exact htables ▸ hmem

/-- Appending leaves the ids before the tokens that it appends. -/
theorem appendSlots_ids {k : Nat} {cows : List (Nat × Nat)} (hm : m.Tabled) (hids : m.HasIds)
    (h : (appendSlots seq k).run m = .ok cows m') :
    Renewed [seq.seqId] m m' ∧ ∃ t t', m.blockTables.get? seq.seqId = some t ∧
      m'.blockTables.get? seq.seqId = some t' ∧ ∀ ids, ids <+: t.blockIds.dropLast →
        (t.getUnseenTokenIds seq.data.getTokenIds ≠ [] →
          ids.length ≤ t.numFullSlots / t.blockSize) → ids <+: t'.blockIds.dropLast := by
  rw [appendSlots] at h
  obtain ⟨t, ht, h⟩ := getBlockTable_bind_ok h
  obtain ⟨t', m₁, h₁, h⟩ := run_bind_ok.mp h
  obtain ⟨_, m₂, h₂, h⟩ := run_bind_ok.mp h
  obtain rfl := run_modify_ok.mp h₂
  have htables : m'.blockTables = m.blockTables.set seq.seqId t' := by
    rw [onAllocator_tables h, ← onAllocator_tables h₁]
  obtain ⟨d, hd, -⟩ := onAllocator_ok.mp h₁
  have hw := (hm.table _ t ht).window
  obtain ⟨hne, hleave⟩ := BlockTable.appendTokenIds_ids hw (hids _ t ht) hd
  refine ⟨.of_set hne htables, t, t', ht, ?_, hleave⟩
  rw [htables, Dict.get?_set_self]

end BlockSpaceManager

/-! ## Runs -/

omit [DecidableEq H] [Sha256 H] in
/-- The tracker knows a sequence, and remembers a prefix of the ids. -/
def ComputedBlocksTracker.Knows (c : ComputedBlocksTracker) (seqId : Nat) (blockIds : List Nat) :
    Prop :=
  ∃ e, c.cachedComputedSeqBlocks.get? seqId = some e ∧ e.1 <+: blockIds.dropLast

/-- Every sequence with a table is tracked. -/
structure TrackedManager.Tracked (m : TrackedManager H) : Prop where
  tabled : m.manager.Tabled
  ids : m.manager.HasIds
  knows : ∀ seqId t, m.manager.blockTables.get? seqId = some t →
    m.computedBlocksTracker.Knows seqId t.blockIds

section

omit [DecidableEq H] [Sha256 H]

theorem addSeqs_ok {seqs : List Sequence} {c c' : ComputedBlocksTracker}
    (h : seqs.foldlM (fun c seq => c.addSeq seq.seqId) c = .ok c') (seqId : Nat) :
    (seqId ∈ seqs.map (·.seqId) → c'.cachedComputedSeqBlocks.get? seqId = some ([], false)) ∧
      (seqId ∉ seqs.map (·.seqId) →
        c'.cachedComputedSeqBlocks.get? seqId = c.cachedComputedSeqBlocks.get? seqId) := by
  induction seqs generalizing c with
  | nil =>
    obtain rfl := pure_eq_ok.mp h
    exact ⟨fun hmem => absurd hmem List.not_mem_nil, fun _ => rfl⟩
  | cons seq rest ih =>
    rw [List.foldlM_cons] at h
    obtain ⟨c₁, h₁, h⟩ := bind_eq_ok.mp h
    obtain ⟨-, h₁⟩ := guardNot_bind_eq_ok.mp h₁
    obtain rfl := pure_eq_ok.mp h₁
    obtain ⟨hin, hout⟩ := ih h
    rw [List.map_cons, List.mem_cons]
    by_cases hmem : seqId ∈ rest.map (·.seqId)
    · exact ⟨fun _ => hin hmem, fun hn => absurd (.inr hmem) hn⟩
    · rw [hout hmem, Dict.get?_set]
      refine ⟨fun hor => if_pos (hor.resolve_right hmem), fun hn => if_neg fun e => hn (.inl e)⟩

theorem call_ok {α : Type} {m m' : TrackedManager H} {x : ManagerM H α} (h : m.call x = .ok m') :
    ∃ a manager, x.run m.manager = .ok a manager ∧ m' = { m with manager } := by
  unfold TrackedManager.call at h
  cases hx : x.run m.manager with
  | ok a manager =>
    rw [hx] at h
    exact ⟨a, manager, rfl, pure_eq_ok.mp h⟩
  | error e manager =>
    rw [hx] at h
    cases h

theorem track_ok {m m' : TrackedManager H}
    {f : ComputedBlocksTracker → Except Err ComputedBlocksTracker} (h : m.track f = .ok m') :
    ∃ c, f m.computedBlocksTracker = .ok c ∧ m' = { m with computedBlocksTracker := c } := by
  obtain ⟨c, hc, h⟩ := bind_eq_ok.mp h
  exact ⟨c, hc, pure_eq_ok.mp h⟩

theorem getComputed_eq {m : TrackedManager H} {seq : Sequence} {t : BlockTable}
    (ht : m.manager.blockTables.get? seq.seqId = some t) (c : ComputedBlocksTracker) :
    m.getComputed seq c =
      c.getCachedComputedBlocksAndUpdate m.manager.blockAllocator.gpu seq.seqId t.blockIds := by
  unfold TrackedManager.getComputed
  rw [ht]

/-- Asking the tracker. -/
theorem getComputed_knows {m : TrackedManager H} {seq : Sequence} {c c' : ComputedBlocksTracker}
    (hc : ∀ seqId t, m.manager.blockTables.get? seqId = some t → c.Knows seqId t.blockIds)
    (h : Prod.snd <$> m.getComputed seq c = .ok c') :
    ∀ seqId t, m.manager.blockTables.get? seqId = some t → c'.Knows seqId t.blockIds := by
  obtain ⟨⟨ids, c₁⟩, hget, rfl⟩ := map_eq_ok.mp h
  cases ht : m.manager.blockTables.get? seq.seqId with
  | none =>
    unfold TrackedManager.getComputed at hget
    rw [ht] at hget
    cases hget
  | some t =>
    rw [getComputed_eq ht] at hget
    obtain ⟨e, he, hpre⟩ := hc _ t ht
    obtain ⟨hids, rfl | ⟨gap, rfl⟩⟩ := getCachedComputedBlocksAndUpdate_ok
      (fun e' he' => Option.some.inj (he.symm.trans he') ▸ hpre) hget
    · exact hc
    · intro seqId t' ht'
      by_cases heq : seqId = seq.seqId
      · subst heq
        obtain rfl := Option.some.inj (ht.symm.trans ht')
        exact ⟨_, Dict.get?_set_self _ _ _, hids⟩
      · obtain ⟨e', he', hpre'⟩ := hc seqId t' ht'
        exact ⟨e', (Dict.get?_set_of_ne heq _ _).trans he', hpre'⟩

end

variable {m m' : TrackedManager H}

namespace TrackedManager.Tracked

omit [DecidableEq H] [Sha256 H] in
theorem eq_of_get? {c : ComputedBlocksTracker} {seqId : Nat} {blockIds : List Nat}
    (h : c.Knows seqId blockIds) {c' : ComputedBlocksTracker} {blockIds' : List Nat}
    (hc : c'.cachedComputedSeqBlocks.get? seqId = c.cachedComputedSeqBlocks.get? seqId)
    (hids : ∀ ids, ids <+: blockIds.dropLast → ids <+: blockIds'.dropLast) :
    c'.Knows seqId blockIds' := by
  obtain ⟨e, he, hpre⟩ := h
  exact ⟨e, hc.trans he, hids _ hpre⟩

/-- New tables are tracked anew. -/
theorem renew {seqs : List Sequence} {manager : BlockSpaceManager H} {c : ComputedBlocksTracker}
    (hm : m.Tracked) (htabled : manager.Tabled)
    (hren : Renewed (seqs.map (·.seqId)) m.manager manager)
    (hc : seqs.foldlM (fun c seq => c.addSeq seq.seqId) m.computedBlocksTracker = .ok c) :
    Tracked ⟨manager, c⟩ := by
  refine ⟨htabled, hren.ids hm.ids, fun seqId t ht => ?_⟩
  obtain ⟨hin, hout⟩ := addSeqs_ok hc seqId
  by_cases hmem : seqId ∈ seqs.map (·.seqId)
  · exact ⟨_, hin hmem, List.nil_prefix⟩
  · have ht₀ := (hren.others seqId hmem).symm.trans ht
    exact eq_of_get? (hm.knows seqId t ht₀) (hout hmem) fun _ h => h

/-- Of the tables that change nothing is remembered. -/
theorem forget {seqs : List Sequence} {manager : BlockSpaceManager H} (hm : m.Tracked)
    (htabled : manager.Tabled) (hren : Renewed (seqs.map (·.seqId)) m.manager manager)
    (hdomain : ∀ seqId, seqId ∈ manager.blockTables → seqId ∈ m.manager.blockTables)
    (hnone : ∀ seq ∈ seqs, m.remembered seq.seqId = []) :
    Tracked { m with manager } := by
  refine ⟨htabled, hren.ids hm.ids, fun seqId t ht => ?_⟩
  by_cases hmem : seqId ∈ seqs.map (·.seqId)
  · obtain ⟨seq, hseq, rfl⟩ := List.mem_map.mp hmem
    obtain ⟨t₀, ht₀⟩ := Dict.mem_iff.mp (hdomain _ (Dict.mem_of_get? ht))
    obtain ⟨e, he, -⟩ := hm.knows _ t₀ ht₀
    have hnil := hnone seq hseq
    unfold TrackedManager.remembered at hnil
    rw [he] at hnil
    have hnil : e.1 = [] := hnil
    exact ⟨e, he, hnil ▸ List.nil_prefix⟩
  · exact hm.knows seqId t ((hren.others seqId hmem).symm.trans ht)

/-- No table changes. -/
theorem same {manager : BlockSpaceManager H} (hm : m.Tracked) (htabled : manager.Tabled)
    (h : manager.blockTables = m.manager.blockTables) : Tracked { m with manager } := by
  refine ⟨htabled, fun seqId t ht => ?_, fun seqId t ht => ?_⟩
  · exact hm.ids seqId t (h ▸ ht)
  · exact hm.knows seqId t (h ▸ ht)

end TrackedManager.Tracked

/-- What a call of the manager, and then of the tracker, does. -/
theorem TrackedManager.Tracked.step {c : ManagerCall H} (hm : m.Tracked) (hp : m.Promised c)
    (hleave : LeavesPrefix m c) (h : m.run c = .ok m') : m'.Tracked := by
  cases c with
  | allocate g ns encoderNs =>
    obtain ⟨m₁, h₁, h⟩ := bind_eq_ok.mp h
    obtain ⟨_, manager, hrun, rfl⟩ := call_ok h₁
    obtain ⟨c, hc, rfl⟩ := track_ok h
    exact hm.renew ((ManagerOp.allocate hrun).tabled hm.tabled)
      (allocate_renewed hm.tabled hp hrun) hc
  | appendSlots seq k =>
    obtain ⟨_, manager, hrun, rfl⟩ := call_ok h
    obtain ⟨hren, t, t', ht, ht', hids⟩ := appendSlots_ids hm.tabled hm.ids hrun
    refine ⟨(ManagerOp.appendSlots hrun).tabled hm.tabled, hren.ids hm.ids, fun seqId t₁ ht₁ => ?_⟩
    by_cases heq : seqId = seq.seqId
    · subst heq
      obtain rfl := Option.some.inj (ht'.symm.trans ht₁)
      obtain ⟨e, he, hpre⟩ := hm.knows _ t ht
      have hroom := hleave t ht
      unfold TrackedManager.remembered at hroom
      rw [he] at hroom
      exact ⟨e, he, hids e.1 hpre hroom⟩
    · have hn : seqId ∉ [seq.seqId] := fun hmem => heq (List.mem_singleton.mp hmem)
      exact hm.knows seqId t₁ ((hren.others seqId hn).symm.trans ht₁)
  | fork parentSeq childSeq =>
    obtain ⟨m₁, h₁, h⟩ := bind_eq_ok.mp h
    obtain ⟨_, manager, hrun, rfl⟩ := call_ok h₁
    have htabled := (ManagerOp.fork hp hrun).tabled hm.tabled
    rcases fork_renewed hm.tabled hp hrun with ⟨hno, rfl⟩ | ⟨hmem, hren⟩
    · rw [if_neg hno] at h
      obtain rfl := pure_eq_ok.mp h
      exact hm
    · rw [if_pos hmem] at h
      obtain ⟨c, hc, rfl⟩ := track_ok h
      have hren : Renewed ([childSeq].map (·.seqId)) m.manager manager := hren
      refine hm.renew htabled hren ?_
      rw [List.foldlM_cons, hc]
      rfl
  | free seq =>
    obtain ⟨m₁, h₁, h⟩ := bind_eq_ok.mp h
    obtain ⟨_, manager, hrun, rfl⟩ := call_ok h₁
    have htabled := (ManagerOp.free hrun).tabled hm.tabled
    rcases free_tables hrun with ⟨hno, rfl⟩ | ⟨hmem, htables⟩
    · rw [if_neg hno] at h
      obtain rfl := pure_eq_ok.mp h
      exact hm
    · rw [if_pos hmem] at h
      obtain ⟨c, hc, rfl⟩ := track_ok h
      obtain ⟨-, hc⟩ := guardNot_bind_eq_ok.mp hc
      obtain rfl := pure_eq_ok.mp hc
      have hget : ∀ seqId t, manager.blockTables.get? seqId = some t →
          seqId ≠ seq.seqId ∧ m.manager.blockTables.get? seqId = some t := fun seqId t ht => by
        rw [htables, Dict.get?_erase] at ht
        split at ht
        · cases ht
        · exact ⟨‹_›, ht⟩
      refine ⟨htabled, fun seqId t ht => hm.ids seqId t (hget seqId t ht).2, fun seqId t ht => ?_⟩
      obtain ⟨hne, ht⟩ := hget seqId t ht
      exact eq_of_get? (hm.knows seqId t ht) (Dict.get?_erase_of_ne hne _) fun _ h => h
  | freeCross g =>
    obtain ⟨_, manager, hrun, rfl⟩ := call_ok h
    exact hm.same ((ManagerOp.freeCross hrun).tabled hm.tabled) (freeCross_tables hrun)
  | swapOut g =>
    obtain ⟨_, manager, hrun, rfl⟩ := call_ok h
    obtain ⟨hren, hdomain⟩ := swapTables_renewed hrun
    exact hm.forget ((ManagerOp.swapOut hrun).tabled hm.tabled) hren hdomain hleave
  | swapIn g =>
    obtain ⟨_, manager, hrun, rfl⟩ := call_ok h
    obtain ⟨hren, hdomain⟩ := swapTables_renewed hrun
    exact hm.forget ((ManagerOp.swapIn hrun).tabled hm.tabled) hren hdomain hleave
  | accessAllBlocksInSeq seq now =>
    obtain ⟨_, manager, hrun, rfl⟩ := call_ok h
    exact hm.same ((ManagerOp.accessAllBlocksInSeq hrun).tabled hm.tabled)
      (accessAllBlocksInSeq_tables hrun)
  | markBlocksAsComputed =>
    obtain ⟨_, manager, hrun, rfl⟩ := call_ok h
    exact hm.same ((ManagerOp.markBlocksAsComputed hrun).tabled hm.tabled) (onAllocator_tables hrun)
  | getCommonComputedBlockIds seqs =>
    obtain ⟨c, hc, rfl⟩ := track_ok
      (f := fun c => seqs.foldlM (fun c seq => Prod.snd <$> m.getComputed seq c) c) h
    refine ⟨hm.tabled, hm.ids, ?_⟩
    exact (foldlM_eq_ok (fun c => ∀ seqId t, m.manager.blockTables.get? seqId = some t →
      c.Knows seqId t.blockIds) (fun _ => True)
      (fun c seq c' hc h => ⟨getComputed_knows hc h, trivial⟩) hm.knows hc).1
  | tier c =>
    obtain rfl := pure_eq_ok.mp h
    exact hm.same ((ManagerOp.tier c).tabled hm.tabled) rfl

theorem tracked_of_reachable (h : (trackedSys H LeavesPrefix).Reachable m) : m.Tracked := by
  refine h.invariant (fun m hm => ?_) fun m m' _ hm hs => ?_
  · obtain ⟨hfresh, hcaching, htracker⟩ := hm
    have hfresh' := hfresh
    obtain ⟨blockSize, numGpu, numCpu, watermark, window, caching, policy, offload, limit, -, hw,
      heq⟩ := hfresh
    have hnone : m.manager.maxBlockSlidingWindow = none := by
      rw [heq] at hcaching ⊢
      have hcaching : caching = true := hcaching
      show window.map _ = none
      rw [hw hcaching]
      rfl
    have hempty : ∀ seqId t, m.manager.blockTables.get? seqId ≠ some t := by
      rw [heq]
      exact fun _ _ => nofun
    exact ⟨tabled_of_fresh hfresh' hnone, fun seqId t ht => absurd ht (hempty seqId t),
      fun seqId t ht => absurd ht (hempty seqId t)⟩
  · obtain ⟨c, hp, hleave, hrun⟩ := hs
    exact hm.step hp hleave hrun

/-- While the calls leave the ids that the tracker remembers, it returns prefixes of the tables. -/
theorem tracked_prefix (h : (trackedSys H LeavesPrefix).Reachable m) : ReturnsPrefixes m := by
  have hm := tracked_of_reachable h
  intro seq t ht
  obtain ⟨e, he, hpre⟩ := hm.knows _ t ht
  rw [getComputed_eq ht]
  exact ⟨getCachedComputedBlocksAndUpdate_ne he (hm.ids _ t ht) hpre, fun ids c hok =>
    (getCachedComputedBlocksAndUpdate_ok (fun e' he' => Option.some.inj (he.symm.trans he') ▸ hpre)
      hok).1⟩

/-- Calls in a row, whose conditions do not depend on the state. -/
theorem reachable_of_calls {ok : TrackedManager H → ManagerCall H → Prop}
    {calls : List (ManagerCall H)} (h : (trackedSys H ok).Reachable m) (hok : ∀ c ∈ calls, ∀ m, m.Promised c ∧ ok m c)
    (hrun : calls.foldlM TrackedManager.run m = .ok m') : (trackedSys H ok).Reachable m' := by
  induction calls generalizing m with
  | nil =>
    obtain rfl := pure_eq_ok.mp hrun
    exact h
  | cons c rest ih =>
    rw [List.foldlM_cons] at hrun
    obtain ⟨m₁, h₁, hrun⟩ := bind_eq_ok.mp hrun
    obtain ⟨hc, hrest⟩ := List.forall_mem_cons.mp hok
    exact ih (h.step ⟨c, (hc m).1, (hc m).2, h₁⟩) hrest hrun

/-! ## A sequence that is swapped -/

def oneSequence (seqId : Nat) (promptTokenIds : List Nat) (status : SequenceStatus) :
    SequenceGroup :=
  ⟨"r", [⟨seqId, .fromSeqs promptTokenIds, status⟩], none⟩

omit [DecidableEq H] [Sha256 H] in
theorem promised_oneSequence {seqId : Nat} {promptTokenIds : List Nat} (h : promptTokenIds ≠ [])
    (m : TrackedManager H) :
    m.Promised (.allocate (oneSequence seqId promptTokenIds .waiting) [] []) := by
  intro seq hseq
  obtain ⟨hseq, -⟩ := List.mem_filter.mp hseq
  obtain rfl := List.mem_singleton.mp hseq
  show promptTokenIds ++ [] ≠ []
  rwa [List.append_nil]

/-- Three blocks of one token on the GPU, and two on the CPU. -/
def threeTracked : TrackedManager PlainDigest :=
  ⟨.init PlainDigest 1 3 2 0 none true .lru false 16, ⟨∅⟩⟩

theorem threeTracked_reachable {ok : TrackedManager PlainDigest → ManagerCall PlainDigest → Prop} :
    (trackedSys PlainDigest ok).Reachable threeTracked :=
  .init ⟨⟨1, 3, 2, 0, none, true, .lru, false, 16, by decide, fun _ => rfl, rfl⟩, rfl, rfl⟩

/-- The tracker is asked about a prompt of two tokens. -/
def promptCalls : List (ManagerCall PlainDigest) :=
  [.allocate (oneSequence 0 [1, 2] .waiting) [] [], .markBlocksAsComputed,
    .getCommonComputedBlockIds [⟨0, .fromSeqs [1, 2], .running⟩]]

/-- Its first block goes to another prompt while it is on the CPU. -/
def swapCalls : List (ManagerCall PlainDigest) :=
  promptCalls ++ [.swapOut (oneSequence 0 [1, 2] .running),
    .allocate (oneSequence 1 [3, 4, 5] .waiting) [] [], .free ⟨1, .fromSeqs [3, 4, 5], .running⟩,
    .allocate (oneSequence 2 [9] .waiting) [] [], .swapIn (oneSequence 0 [1, 2] .swapped)]

/-- The prompt of two tokens: the tracker remembers the first block. -/
theorem tracked_prefix_prompt : ∃ m, promptCalls.foldlM TrackedManager.run threeTracked = .ok m ∧
    m.remembered 0 = [0] ∧ ReturnsPrefixes m := by
  obtain ⟨m, hrun, hremembered⟩ := exists_of_any
    (x := promptCalls.foldlM TrackedManager.run threeTracked) (P := fun m => m.remembered 0 = [0]) (by decide +kernel)
  refine ⟨m, hrun, hremembered, tracked_prefix (reachable_of_calls threeTracked_reachable ?_ hrun)⟩
  simp only [promptCalls, List.forall_mem_cons]
  exact ⟨fun m => ⟨promised_oneSequence (by decide) m, trivial⟩,
    fun _ => ⟨trivial, trivial⟩, fun _ => ⟨trivial, trivial⟩, fun _ h => absurd h List.not_mem_nil⟩

/-- The table has the blocks 1 and 2, and the tracker says that block 0 is computed. -/
theorem swapped_ids_differ : ¬ ∀ m : TrackedManager PlainDigest,
    (trackedSys PlainDigest fun _ _ => True).Reachable m → ReturnsPrefixes m := by
  obtain ⟨m, hrun, hids, hcomputed⟩ := exists_of_any
    (x := swapCalls.foldlM TrackedManager.run threeTracked)
    (P := fun m => (m.manager.blockTables.get? 0).map (·.blockIds) = some [1, 2] ∧
      (m.getComputed ⟨0, .fromSeqs [1, 2], .running⟩ m.computedBlocksTracker).toOption.map Prod.fst =
        some [0]) (by decide +kernel)
  intro hall
  obtain ⟨t, ht, hblocks⟩ := Option.map_eq_some_iff.mp hids
  have hreach : (trackedSys PlainDigest fun _ _ => True).Reachable m := by
    refine reachable_of_calls threeTracked_reachable ?_ hrun
    simp only [swapCalls, promptCalls, List.cons_append, List.nil_append, List.forall_mem_cons]
    exact ⟨fun m => ⟨promised_oneSequence (by decide) m, trivial⟩,
      fun _ => ⟨trivial, trivial⟩, fun _ => ⟨trivial, trivial⟩, fun _ => ⟨trivial, trivial⟩,
      fun m => ⟨promised_oneSequence (by decide) m, trivial⟩, fun _ => ⟨trivial, trivial⟩,
      fun m => ⟨promised_oneSequence (by decide) m, trivial⟩, fun _ => ⟨trivial, trivial⟩,
      fun _ h => absurd h List.not_mem_nil⟩
  obtain ⟨-, hprefix⟩ := hall m hreach ⟨0, .fromSeqs [1, 2], .running⟩ t ht
  cases hget : m.getComputed ⟨0, .fromSeqs [1, 2], .running⟩ m.computedBlocksTracker with
  | error e =>
    rw [hget] at hcomputed
    cases hcomputed
  | ok r =>
    rw [hget] at hcomputed
    have hr : r.1 = [0] := Option.some.inj hcomputed
    have hbad := hprefix r.1 r.2 hget
    rw [hr, hblocks] at hbad
    exact absurd hbad (by decide)

end Bi100
