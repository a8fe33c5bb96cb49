import Bi100.Dp.Coverage
import Bi100.Lib.Collective

/-!
# Gather and scatter around the experts (`models/qwen3_5.py`, `layers/fused_moe.py`)

The rows of the replicas are gathered, the experts run on all of them, and each replica takes its own
rows of the output. `torch.distributed.all_gather` is the collective; a token count is a number of
rows.

- `dp_runs`: all ranks finish, and each one has the output of its own rows.
- `wrapper_eq_mixin`: the mixin does the same.
-/

namespace Bi100.Dp

open Py Collective

variable {α : Type}

/-- The calls of `all_gather`. -/
inductive AllGather where
  /-- Every rank sends as many rows as this one. -/
  | equal (rows : Nat)
  | variable (tokenCounts : List Nat)
deriving DecidableEq, Repr

instance : Shape AllGather where
  rows
    | .equal rows, _ => rows
    | .variable tokenCounts, rank => tokenCounts.getD rank 0

abbrev Rank (α β : Type) := Prog Err AllGather α β

/-- The metadata that the wrapper reads. -/
structure Metadata where
  dpTokenCounts : List Nat
  dpIsDecode : Option (List Int)
  isPrefill : Bool
  isChunkedPrefill : Bool
  /-- `execution_state is not None` -/
  executionState : Bool
deriving DecidableEq, Repr

/-- `tensor.narrow(0, start, length)` -/
def narrow (rows : List α) (start length : Nat) : Rank α (List α) :=
  if start + length ≤ rows.length then .done ((rows.drop start).take length)
  else .fail (.runtimeError
    s!"start ({start}) + length ({length}) exceeds dimension size ({rows.length}).")

/-- `_dp_all_gather` -/
def dpAllGather {β : Type} (tensor : List α) (worldSize : Nat) (next : List α → Rank α β) :
    Rank α β :=
  if worldSize ≤ 1 then next tensor else .gather (.equal tensor.length) tensor next

/-- `_dp_all_gather_variable` -/
def dpAllGatherVariable {β : Type} (tensor : List α) (tokenCounts : List Nat) (dpRank : Nat)
    (next : List α → Rank α β) : Rank α β :=
  match tokenCounts[dpRank]? with
  | none => .fail (.indexError "list index out of range")
  | some count => .gather (.variable tokenCounts) (tensor.take count) next

/-- `dp_is_decode is not None and all(dp_is_decode)` -/
def allDecode (dpIsDecode : Option (List Int)) : Bool := dpIsDecode.any fun flags => flags.all (· ≠ 0)

/-- `F.pad(hidden_states, (0, 0, 0, pad_size))`, if the size is positive. -/
def padRows (zero : α) (hiddenStates : List α) (paddedTokens : Nat) : List α :=
  hiddenStates ++ List.replicate (paddedTokens - hiddenStates.length) zero

/-- `dp_forward_moe_wrapper` -/
def dpForwardMoeWrapper (originalForward : List α → List α) (zero : α) (dpSize dpRank : Nat)
    (hiddenStates : List α) (metadata : Metadata) : Rank α (List α) :=
  if dpSize ≤ 1 then .done (originalForward hiddenStates)
  else if metadata.dpTokenCounts.length ≠ dpSize then .fail (.runtimeError
    s!"expected {dpSize} DP token counts, got {metadata.dpTokenCounts.length}")
  else
    let localTokens := hiddenStates.length
    let isPrefill := metadata.isPrefill || metadata.isChunkedPrefill
    if metadata.executionState || isPrefill || !allDecode metadata.dpIsDecode then
      let paddedTokens := metadata.dpTokenCounts.max?.getD 0
      dpAllGather (padRows zero hiddenStates paddedTokens) dpSize fun gathered =>
        let output := originalForward gathered
        if 0 < paddedTokens then narrow output (dpRank * paddedTokens) localTokens
        else .done output
    else
      dpAllGatherVariable hiddenStates metadata.dpTokenCounts dpRank fun gathered =>
        let output := originalForward gathered
        narrow output (metadata.dpTokenCounts.take dpRank).sum localTokens

/-! ## The mixin -/

namespace DPAwareMoEMixin

/-- `_dp_gather_inputs` -/
def dpGatherInputs (zero : α) (dpSize dpRank : Nat) (hiddenStates : List α)
    (dpTokenCounts : List Nat) (isGraph isPrefill : Bool) (dpIsDecode : Option (List Int)) :
    Rank α (List α × Nat × Bool) :=
  if isGraph || isPrefill || !allDecode dpIsDecode then
    let paddedTokens := dpTokenCounts.max?.getD 0
    dpAllGather (padRows zero hiddenStates paddedTokens) dpSize fun gathered =>
      .done (gathered, paddedTokens, false)
  else
    dpAllGatherVariable hiddenStates dpTokenCounts dpRank fun gathered => .done (gathered, 0, true)

/-- `_dp_scatter_output` -/
def dpScatterOutput (dpRank : Nat) (output : List α) (localTokens paddedTokens : Nat)
    (useCompactGather : Bool) (dpTokenCounts : List Nat) : Rank α (List α) :=
  if useCompactGather then narrow output (dpTokenCounts.take dpRank).sum localTokens
  else if 0 < paddedTokens then narrow output (dpRank * paddedTokens) localTokens
  else .done output

end DPAwareMoEMixin

theorem wrapper_eq_mixin (originalForward : List α → List α) (zero : α) {dpSize : Nat} (dpRank : Nat)
    (hiddenStates : List α) (metadata : Metadata) (hdp : 1 < dpSize)
    (hlen : metadata.dpTokenCounts.length = dpSize) :
    dpForwardMoeWrapper originalForward zero dpSize dpRank hiddenStates metadata =
      (DPAwareMoEMixin.dpGatherInputs zero dpSize dpRank hiddenStates metadata.dpTokenCounts
        metadata.executionState (metadata.isPrefill || metadata.isChunkedPrefill)
        metadata.dpIsDecode).bind fun (gathered, paddedTokens, useCompactGather) =>
          DPAwareMoEMixin.dpScatterOutput dpRank (originalForward gathered) hiddenStates.length
            paddedTokens useCompactGather metadata.dpTokenCounts := by
  unfold dpForwardMoeWrapper DPAwareMoEMixin.dpGatherInputs dpAllGather dpAllGatherVariable
  rw [if_neg (by omega), if_neg (not_not_intro hlen)]
  dsimp only
  split
  · rw [if_neg (by omega), if_neg (by omega)]
    rfl
  · split <;> rfl

/-! ## The ranks -/

section Ranks

variable {n : Nat} {rows : Fin n → List α} {dpIsDecode : Option (List Int)}

/-- What the ranks of a step are given: the same counts and decode flags, a prefill flag only where
the rank does not decode, and an execution state exactly where the graph runner has a key. -/
structure StepMetadata (maxBatch : Int) (rows : Fin n → List α) (dpIsDecode : Option (List Int))
    (metadata : Fin n → Metadata) : Prop where
  tokenCounts : ∀ r, (metadata r).dpTokenCounts = List.ofFn fun i => (rows i).length
  isDecode : ∀ r, (metadata r).dpIsDecode = dpIsDecode
  prefill : ∀ r flags, ((metadata r).isPrefill || (metadata r).isChunkedPrefill) = true →
    dpIsDecode = some flags → flags[r.val]? = some 0
  graph : ∀ r, (metadata r).executionState = true ↔
    ∃ key, (DecodeCudaGraphRunner.new maxBatch n r r.isLt).graphKey (rows r).length
      (some ((metadata r).dpTokenCounts.map fun (c : Nat) => (c : Int))) dpIsDecode = .ok (some key)

variable {maxBatch : Int} {metadata : Fin n → Metadata}

/-- Whether a rank pads its rows. -/
def padded (m : Metadata) : Bool :=
  m.executionState || (m.isPrefill || m.isChunkedPrefill) || !allDecode m.dpIsDecode

/-- **All ranks take the same strategy.** -/
theorem StepMetadata.padded_eq (h : StepMetadata maxBatch rows dpIsDecode metadata) (r r' : Fin n) :
    padded (metadata r) = padded (metadata r') := by
  unfold padded
  rw [h.isDecode, h.isDecode]
  cases hall : allDecode dpIsDecode with
  | false => simp
  | true =>
    obtain ⟨flags, hflags, hones⟩ := (Option.any_eq_true _ _).mp hall
    have hdecode : ∀ fs, dpIsDecode = some fs → ∀ d ∈ fs, d ≠ 0 := fun fs hfs d hd => by
      obtain rfl := Option.some.inj (hflags.symm.trans hfs)
      exact of_decide_eq_true (List.all_eq_true.mp hones d hd)
    have hprefill : ∀ r, ((metadata r).isPrefill || (metadata r).isChunkedPrefill) = false := by
      intro r
      refine Bool.eq_false_iff.mpr fun hp => ?_
      exact hdecode flags hflags 0 (List.mem_of_getElem? (h.prefill r flags hp hflags)) rfl
    have hgraph : ∀ r, (metadata r).executionState =
        ((DecodeCudaGraphRunner.new maxBatch n r r.isLt).keyFor
          (largest (List.ofFn fun i => (rows i).length))).isSome := by
      intro r
      have hcount : (List.ofFn fun i => (rows i).length)[r.val]? = some (rows r).length := by simp
      have hkey := graphKey_ranks maxBatch List.length_ofFn hdecode r.isLt hcount
      have hiff := h.graph r
      rw [h.tokenCounts r, hkey] at hiff
      rw [Bool.eq_iff_iff, hiff, Option.isSome_iff_exists]
      exact exists_congr fun key => by rw [Except.ok.injEq]
    rw [hprefill, hprefill, hgraph, hgraph]
    rfl

/-! ## The output of a rank -/

theorem length_padRows (zero : α) {hiddenStates : List α} {p : Nat} (h : hiddenStates.length ≤ p) :
    (padRows zero hiddenStates p).length = p := by
  rw [padRows, List.length_append, List.length_replicate]
  omega

theorem narrow_map (f : α → α) {xs ys : List α} {start length : Nat}
    (h : (xs.drop start).take length = ys) (hle : start + length ≤ xs.length) :
    narrow (xs.map f) start length = .done (ys.map f) := by
  rw [narrow, List.length_map, if_pos hle, ← List.map_drop, ← List.map_take, h]

/-- The strategy with padding. -/
theorem runs_padded (f : α → α) (zero : α) (hn : 1 < n)
    (hm : StepMetadata maxBatch rows dpIsDecode metadata) (hp : ∀ r, padded (metadata r) = true) :
    Runs (fun r : Fin n => dpForwardMoeWrapper (List.map f) zero n r (rows r) (metadata r))
      fun r => (rows r).map f := by
  generalize hmax : (List.ofFn fun i => (rows i).length).max?.getD 0 = p
  have hle : ∀ r, (rows r).length ≤ p := fun r =>
    hmax ▸ List.le_max?_getD_of_mem (List.mem_ofFn.mpr ⟨r, rfl⟩)
  have hlen : ∀ r, (padRows zero (rows r) p).length = p := fun r => length_padRows zero (hle r)
  have hprogram : (fun r : Fin n =>
      dpForwardMoeWrapper (List.map f) zero n r (rows r) (metadata r)) = fun r =>
        .gather (AllGather.equal p) (padRows zero (rows r) p) fun gathered =>
          if 0 < p then narrow (gathered.map f) (r * p) (rows r).length
          else .done (gathered.map f) := by
    funext r
    have hstrategy := hp r
    unfold padded at hstrategy
    unfold dpForwardMoeWrapper dpAllGather
    rw [hm.tokenCounts r, if_neg (by omega), if_neg (not_not_intro List.length_ofFn),
      if_pos hstrategy, if_neg (by omega), hmax, hlen r]
  rw [hprogram]
  refine .gather (AllGather.equal p) hlen ?_
  have hrest : (fun r : Fin n =>
      if 0 < p then narrow ((gathered fun r => padRows zero (rows r) p).map f) (r * p) (rows r).length
      else .done ((gathered fun r => padRows zero (rows r) p).map f)) =
        fun r => (.done ((rows r).map f) : Rank α (List α)) := by
    funext r
    obtain ⟨hslice, hfit⟩ := slice_padded (fun r => padRows zero (rows r) p) hlen r
    have hown : ((gathered fun r => padRows zero (rows r) p).drop (r * p)).take (rows r).length =
        rows r := by
      have htake := congrArg (List.take (rows r).length) hslice
      rw [List.take_take, Nat.min_eq_left (hle r), padRows, List.take_left' rfl] at htake
      exact htake
    have hler := hle r
    split
    · exact narrow_map f hown (by omega)
    · -- No rank has rows.
      have hnone : (gathered fun r => padRows zero (rows r) p) = [] := by
        refine List.flatten_eq_nil_iff.mpr fun l hl => ?_
        obtain ⟨i, rfl⟩ := List.mem_ofFn.mp hl
        exact List.eq_nil_of_length_eq_zero (by rw [hlen i]; omega)
      rw [hnone, List.eq_nil_of_length_eq_zero (by omega : (rows r).length = 0)]
  rw [hrest]
  exact .done _

/-- The compact strategy. -/
theorem runs_compact (f : α → α) (zero : α) (hn : 1 < n)
    (hm : StepMetadata maxBatch rows dpIsDecode metadata) (hp : ∀ r, padded (metadata r) = false) :
    Runs (fun r : Fin n => dpForwardMoeWrapper (List.map f) zero n r (rows r) (metadata r))
      fun r => (rows r).map f := by
  have hprogram : (fun r : Fin n =>
      dpForwardMoeWrapper (List.map f) zero n r (rows r) (metadata r)) = fun r =>
        .gather (AllGather.variable (List.ofFn fun i => (rows i).length)) (rows r) fun gathered =>
          narrow (gathered.map f) ((List.ofFn fun i => (rows i).length).take r).sum
            (rows r).length := by
    funext r
    have hstrategy := hp r
    have hcount : (List.ofFn fun i => (rows i).length)[r.val]? = some (rows r).length := by simp
    unfold padded at hstrategy
    unfold dpForwardMoeWrapper dpAllGatherVariable
    rw [hm.tokenCounts r, if_neg (by omega), if_neg (not_not_intro List.length_ofFn)]
    simp only [hstrategy, hcount, List.take_length]
    rfl
  rw [hprogram]
  refine .gather (AllGather.variable _) (fun r => ?_) ?_
  · show _ = (List.ofFn fun i => (rows i).length).getD r 0
    simp
  · have hrest : (fun r : Fin n => narrow ((gathered rows).map f)
        ((List.ofFn fun i => (rows i).length).take r).sum (rows r).length) =
          fun r => (.done ((rows r).map f) : Rank α (List α)) :=
      funext fun r => narrow_map f (slice_gathered rows r) (offset_add_le rows r)
    rw [hrest]
    exact .done _

/-- **Gather and scatter are transparent.** All ranks make the same call, with the rows that it
expects of them, and each one returns the output of its own rows. -/
theorem dp_moe_transparent (hn : 0 < n) (f : α → α) (zero : α)
    (hm : StepMetadata maxBatch rows dpIsDecode metadata) :
    Runs (fun r : Fin n => dpForwardMoeWrapper (List.map f) zero n r (rows r) (metadata r))
        (fun r => (rows r).map f) ∧
      ∀ result, Runs (fun r : Fin n =>
        dpForwardMoeWrapper (List.map f) zero n r (rows r) (metadata r)) result →
          result = fun r => (rows r).map f := by
  have hruns : Runs (fun r : Fin n =>
      dpForwardMoeWrapper (List.map f) zero n r (rows r) (metadata r)) fun r => (rows r).map f := by
    by_cases hone : n ≤ 1
    · have hprogram : (fun r : Fin n =>
          dpForwardMoeWrapper (List.map f) zero n r (rows r) (metadata r)) =
            fun r => .done ((rows r).map f) := funext fun r => if_pos hone
      rw [hprogram]
      exact .done _
    · have hn : 1 < n := Nat.lt_of_not_le hone
      cases hstrategy : padded (metadata ⟨0, by omega⟩) with
      | true => exact runs_padded f zero hn hm fun r => (hm.padded_eq r _).trans hstrategy
      | false => exact runs_compact f zero hn hm fun r => (hm.padded_eq r _).trans hstrategy
  exact ⟨hruns, fun result h => h.unique hn hruns⟩

end Ranks

/-- The rows of two decoding ranks. -/
def twoRanks : Fin 2 → List Nat := fun r => if r = 0 then [5] else [6, 7]

/-- Their metadata: both have a graph for eight rows. -/
def twoMetadata : Fin 2 → Metadata := fun _ => ⟨[1, 2], some [1, 1], false, false, true⟩

theorem twoMetadata_step : StepMetadata 16 twoRanks (some [1, 1]) twoMetadata := by
  refine ⟨by decide, fun _ => rfl, fun r flags h => Bool.noConfusion h, fun r => ?_⟩
  refine iff_of_true rfl ⟨(8, [8, 8]), ?_⟩
  match r with
  | 0 => rfl
  | 1 => rfl

theorem dp_moe_transparent_two :
    Runs (fun r : Fin 2 =>
        dpForwardMoeWrapper (List.map (· * 2)) 0 2 r (twoRanks r) (twoMetadata r))
        (fun r => (twoRanks r).map (· * 2)) ∧
      ∀ result, Runs (fun r : Fin 2 =>
        dpForwardMoeWrapper (List.map (· * 2)) 0 2 r (twoRanks r) (twoMetadata r)) result →
          result = fun r => (twoRanks r).map (· * 2) :=
  dp_moe_transparent (by decide) (· * 2) 0 twoMetadata_step

end Bi100.Dp
