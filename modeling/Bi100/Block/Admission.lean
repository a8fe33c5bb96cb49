import Bi100.Block.Windowed

/-!
# Admission by counting blocks

`can_append_slots` counts blocks before anything is allocated.

- `touched`: the blocks that appending to a sequence touches.
- `append_slots_suffice`: the blocks that are counted are enough, for all running sequences of a
  group in turn.
-/

namespace Bi100

open Py CpuGpuBlockAllocator BlockSpaceManager

variable {H : Type} [DecidableEq H] [Sha256 H]

namespace BlockSpaceManager

variable {m m' : BlockSpaceManager H} {n k : Nat} {seq : Sequence} {t : BlockTable}

/-- What a call may use of the free blocks. -/
abbrev Costs {α : Type} (n : Nat) (x : ManagerM H α) (m : BlockSpaceManager H) : Prop :=
  Spends getNumFreeGpuBlocks .noFreeBlocksError n x m

omit [DecidableEq H] [Sha256 H] in
theorem onAllocator_error {α : Type} {x : DeviceM H α} {e : Err} :
    (onAllocator x).run m = .error e m' ↔
      ∃ d, x.run m.blockAllocator = .error e d ∧ m' = { m with blockAllocator := d } := by
  cases hx : x.run m.blockAllocator with
  | ok b s =>
    have hrun : (onAllocator x).run m = .ok b { m with blockAllocator := s } := by
      unfold onAllocator EStateM.run
      dsimp only
      rw [show x m.blockAllocator = _ from hx]
    rw [hrun]
    simp
  | error e' s =>
    have hrun : (onAllocator x).run m = .error e' { m with blockAllocator := s } := by
      unfold onAllocator EStateM.run
      dsimp only
      rw [show x m.blockAllocator = _ from hx]
    rw [hrun]
    simp only [EStateM.Result.error.injEq]
    constructor
    · rintro ⟨h₁, h₂⟩
      exact ⟨s, ⟨h₁, rfl⟩, h₂.symm⟩
    · rintro ⟨_, ⟨h₁, h₂⟩, h⟩
      exact ⟨h₁, h₂ ▸ h.symm⟩

theorem onAllocator_costs {α : Type} {x : DeviceM H α}
    (h : CpuGpuBlockAllocator.Costs n x m.blockAllocator) : Costs n (onAllocator x) m := by
  refine ⟨fun a m' hr => ?_, fun e m' hr => ?_, fun m' hr => ?_⟩
  · obtain ⟨d, hd, rfl⟩ := onAllocator_ok.mp hr
    exact h.ok a d hd
  · obtain ⟨d, hd, rfl⟩ := onAllocator_error.mp hr
    exact h.error e d hd
  · obtain ⟨d, hd, rfl⟩ := onAllocator_error.mp hr
    exact h.raises d hd

/-! ## Appending -/

/-- The loop of the scheduler's `_append_slots`. -/
def appendSlotsInTurn (numLookaheadSlots : Nat) : List Sequence → ManagerM H (List (Nat × Nat))
  | [] => pure []
  | seq :: rest => do
    let cows ← appendSlots seq numLookaheadSlots
    let more ← appendSlotsInTurn numLookaheadSlots rest
    pure (cows ++ more)

/-- The blocks that appending to a sequence touches. -/
def touched (m : BlockSpaceManager H) (k : Nat) (seq : Sequence) : Nat :=
  match m.blockTables.get? seq.seqId with
  | none => 0
  | some t => cdiv (t.numFullSlots % t.blockSize +
      ((t.getUnseenTokenIds seq.data.getTokenIds).length + k)) t.blockSize

theorem appendSlots_costs (hm : m.Tabled) : Costs (m.touched k seq) (appendSlots seq k) m := by
  unfold appendSlots getBlockTable touched
  rw [bind_assoc]
  refine .get_bind (.getOrRaise_bind nofun fun t ht => ?_)
  rw [ht]
  have hok := hm.table (.seq seq.seqId) t ht
  refine (onAllocator_costs (BlockTable.appendTokenIds_costs hm.ready hok)).bind_zero fun _ _ _ => ?_
  exact .modify_bind (l := 0) (onAllocator_costs
    (onGpu_costs PrefixCachingBlockAllocator.clearCopyOnWrites_costs)) (Nat.le_refl _)

/-- Appending to one sequence does not change what appending to another touches. -/
theorem touched_of_ne {other : Sequence} {cows : List (Nat × Nat)} (hm : m.Tabled)
    (h : (appendSlots seq k).run m = .ok cows m') (hne : other.seqId ≠ seq.seqId) :
    m'.touched k other = m.touched k other := by
  rw [touched, touched, (appendSlots_ok hm h).2 other.seqId hne]

/-- Each sequence uses what it touches. -/
theorem appendSlotsInTurn_costs {seqs : List Sequence} (hm : m.Tabled)
    (hids : (seqs.map Sequence.seqId).Nodup) :
    Costs (seqs.map (m.touched k)).sum (appendSlotsInTurn k seqs) m := by
  induction seqs generalizing m with
  | nil => exact .ret
  | cons seq rest ih =>
    rw [List.map_cons] at hids
    obtain ⟨hnot, hids⟩ := List.nodup_cons.mp hids
    rw [List.map_cons, List.sum_cons, appendSlotsInTurn]
    refine (appendSlots_costs hm).bind fun cows m₁ h₁ => ?_
    have hsame : rest.map (m.touched k) = rest.map (m₁.touched k) :=
      List.map_congr_left fun other ho => (touched_of_ne hm h₁ fun he =>
        hnot (he ▸ List.mem_map_of_mem ho)).symm
    rw [hsame]
    exact (ih (appendSlots_ok hm h₁).1 hids).bind_zero fun _ _ _ => .ret

/-- `can_append_slots` counts what the sequences touch. -/
theorem touched_sum {seqs : List Sequence} {l : List Int} (hm : m.Tabled)
    (h : seqs.mapM (m.numBlocksTouched k) = .ok l) :
    l.sum = ((seqs.map (m.touched k)).sum : Nat) := by
  induction seqs generalizing l with
  | nil =>
    rw [List.mapM_nil] at h
    obtain rfl := pure_eq_ok.mp h
    rfl
  | cons seq rest ih =>
    rw [List.mapM_cons] at h
    obtain ⟨x, hx, h⟩ := bind_eq_ok.mp h
    obtain ⟨xs, hxs, h⟩ := bind_eq_ok.mp h
    obtain rfl := pure_eq_ok.mp h
    rw [List.sum_cons, List.map_cons, List.sum_cons, ih hxs, Nat.cast_add]
    congr 1
    rw [numBlocksTouched] at hx
    split at hx
    · cases hx
    · next t ht =>
      obtain rfl := pure_eq_ok.mp hx
      have hok := hm.table (.seq seq.seqId) t ht
      rw [BlockTable.touched_eq (hok.blockSize ▸ hm.ready.pos), touched, ht]

/-- If `can_append_slots` says yes, appending to all running sequences does not run out of blocks. -/
theorem append_slots_suffice {g : SequenceGroup} (h : (managerSys H).Reachable m)
    (hw : m.maxBlockSlidingWindow = none) (hids : (g.seqs.map Sequence.seqId).Nodup)
    (hcan : m.canAppendSlots g k = .ok true) (m' : BlockSpaceManager H) :
    (appendSlotsInTurn k (g.getSeqs .running)).run m ≠ .error .noFreeBlocksError m' := by
  have hm := tabled_of_reachable h hw
  have hrun : ((g.getSeqs .running).map Sequence.seqId).Nodup :=
    hids.sublist (List.filter_sublist.map _)
  obtain ⟨l, hl, hle⟩ := bind_eq_ok.mp hcan
  have hle : l.sum ≤ m.getNumFreeGpuBlocks := of_decide_eq_true (pure_eq_ok.mp hle).symm
  refine (appendSlotsInTurn_costs hm hrun).not_error ?_ m'
  rw [touched_sum hm hl] at hle
  exact_mod_cast hle

/-! ## Two sequences of one prompt -/

/-- Two sequences with the prompt `1, 2, 3`. -/
def pair (status : SequenceStatus) (outputTokenIds outputTokenIds' : List Nat) : SequenceGroup where
  requestId := "r"
  seqs := [⟨0, ⟨[1, 2, 3], outputTokenIds, 0, .prefill⟩, status⟩,
    ⟨1, ⟨[1, 2, 3], outputTokenIds', 0, .prefill⟩, status⟩]
  encoderSeq := none

/-- Eight blocks of two tokens. -/
def eightBlocks : BlockSpaceManager PlainDigest := .init PlainDigest 2 8 0 0 none true .lru false 16

theorem fresh_eightBlocks : eightBlocks.Fresh :=
  ⟨2, 8, 0, 0, none, true, .lru, false, 16, by decide, fun _ => rfl, rfl⟩

/-- Both sequences append a token to the block that they share. -/
theorem append_slots_suffice_pair : ∃ m, (managerSys PlainDigest).Reachable m ∧
    m.canAppendSlots (pair .running [4] [5]) 1 = .ok true ∧ ∀ m',
      (appendSlotsInTurn 1 ((pair .running [4] [5]).getSeqs .running)).run m ≠
        .error .noFreeBlocksError m' := by
  obtain ⟨_, m, hrun, hcan⟩ := check_eq_true.mp (show check (allocate (pair .waiting [] []) [] [])
    eightBlocks (fun _ m => m.maxBlockSlidingWindow = none ∧
      m.canAppendSlots (pair .running [4] [5]) 1 = .ok true) = true by decide +kernel)
  obtain ⟨hw, hcan⟩ := of_decide_eq_true hcan
  have hm : (managerSys PlainDigest).Reachable m := .step (.init fresh_eightBlocks) (.allocate hrun)
  exact ⟨m, hm, hcan, append_slots_suffice hm hw (by decide) hcan⟩

end BlockSpaceManager

end Bi100
