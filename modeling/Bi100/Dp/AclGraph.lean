import Bi100.Dp.Coverage

/-!
# The ACL graph runner (`decode_acl_graph.py`)

- `warmup_canExecute`: what the runner admits.
- `captured_covers_iff`: for which capacities the captured graphs cover what is admitted.
-/

namespace Bi100.Dp

open Py

structure AclStaticAttentionMetadata where
  slotMapping : List Int
  pagedKvIndptr : List Int
  pagedKvIndices : List Int
  pagedKvLastPageLen : List Int
  isPrefill : Bool
  isChunkedPrefill : Bool
  dpTokenCounts : List Int
  dpIsDecode : List Int
deriving DecidableEq, Repr

structure DecodeAclGraphRunner where
  maxBatch : Int
  dpSize : Nat
  dpRank : Nat
  numDecodingTokens : Int
  decodeBatchSizeLimit : Option Int
  dpRank_lt : dpRank < dpSize
  graphs : Dict Int AclStaticAttentionMetadata
  warmedUp : Bool

namespace DecodeAclGraphRunner

/-- `__init__` -/
def mk? (maxBatch dpSize dpRank : Int) (decodeBatchSizeLimit : Option Int)
    (numDecodingTokens : Int) : Except Err DecodeAclGraphRunner := do
  let h ← checkRank dpSize dpRank
  pure {
    maxBatch := (maxBatch + dpSize - 1) / dpSize
    dpSize := dpSize.toNat
    dpRank := dpRank.toNat
    numDecodingTokens
    decodeBatchSizeLimit
    dpRank_lt := toNat_rank_lt h
    graphs := ∅
    warmedUp := false }

variable (r : DecodeAclGraphRunner)

/-- `_validate_dp_token_counts` -/
def validateDpTokenCounts (dpTokenCounts : Option (List Int)) : Except Err Unit :=
  guardNot (1 < r.dpSize ∧ ¬ dpTokenCounts.any fun counts => counts.length = r.dpSize)
    (.runtimeError (s!"ACL graph DP replay requires dp_token_counts of length {r.dpSize} (got " ++
      (match dpTokenCounts with
        | some (c :: counts) => toString (c :: counts).length
        | _ => "None") ++ "). All DP ranks must use the same graph shape."))

/-- The batch sizes of `warmup`. -/
def batchSizes : List Int :=
  ([1, 2, 4, 8] ++ pyRange 16 (r.maxBatch + 1) 16).filter fun b => b ≤ r.maxBatch

/-- The metadata of `warmup` for a padded size. -/
def staticMetadata (padded : Int) : AclStaticAttentionMetadata where
  slotMapping := List.replicate padded.toNat 0
  pagedKvIndptr := (List.range (padded + 1).toNat).map fun (i : Nat) => (i : Int)
  pagedKvIndices := List.replicate padded.toNat 0
  pagedKvLastPageLen := List.replicate padded.toNat 1
  isPrefill := false
  isChunkedPrefill := false
  dpTokenCounts := if 1 < r.dpSize then List.replicate r.dpSize padded else []
  dpIsDecode := if 1 < r.dpSize then List.replicate r.dpSize 1 else []

/-- `warmup` for one batch size. -/
def capture (graphs : Dict Int AclStaticAttentionMetadata) (batchSize : Int) :
    Dict Int AclStaticAttentionMetadata :=
  let padded := batchSize * r.numDecodingTokens
  graphs.set padded (r.staticMetadata padded)

/-- `warmup` -/
def warmup : DecodeAclGraphRunner :=
  if r.warmedUp then r
  else { r with graphs := r.batchSizes.reverse.foldl r.capture r.graphs, warmedUp := true }

/-- `can_execute`, for `input_ids` with `rows` rows. -/
def canExecute (rows : Nat) (dpTokenCounts : Option (List Int)) : Except Err Bool :=
  if r.warmedUp then do
    r.validateDpTokenCounts dpTokenCounts
    pure (decide ((rows : Int) ≤ r.maxBatch * r.numDecodingTokens))
  else pure false

/-! ## What is captured -/

variable {r}

theorem mem_batchSizes {b : Int} : b ∈ r.batchSizes ↔
    b ≤ r.maxBatch ∧ (b ∈ [1, 2, 4, 8] ∨ ∃ k, 1 ≤ k ∧ b = 16 * k) := by
  unfold batchSizes
  rw [List.mem_filter, List.mem_append, mem_pyRange, decide_eq_true_iff]
  constructor
  · rintro ⟨hs | ⟨k, hk, -, rfl⟩, hle⟩
    · exact ⟨hle, .inl hs⟩
    · exact ⟨hle, .inr ⟨k, hk, rfl⟩⟩
  · rintro ⟨hle, hs | ⟨k, hk, rfl⟩⟩
    · exact ⟨.inl hs, hle⟩
    · exact ⟨.inr ⟨k, hk, hle, rfl⟩, hle⟩

theorem mem_foldl_capture {l : List Int} {graphs : Dict Int AclStaticAttentionMetadata} {p : Int} :
    p ∈ l.foldl r.capture graphs ↔ p ∈ graphs ∨ ∃ b ∈ l, p = b * r.numDecodingTokens := by
  induction l generalizing graphs with
  | nil => simp
  | cons b l ih =>
    rw [List.foldl_cons, ih, capture, Dict.mem_set]
    constructor
    · rintro ((rfl | hp) | ⟨b', hb', rfl⟩)
      · exact .inr ⟨b, List.mem_cons_self, rfl⟩
      · exact .inl hp
      · exact .inr ⟨b', List.mem_cons_of_mem b hb', rfl⟩
    · rintro (hp | ⟨b', hb', rfl⟩)
      · exact .inl (.inr hp)
      · rcases List.mem_cons.mp hb' with rfl | hb'
        · exact .inl (.inl rfl)
        · exact .inr ⟨b', hb', rfl⟩

/-- The sizes of the graphs after the first `warmup`. -/
theorem mem_warmup {p : Int} (hgraphs : r.graphs = ∅) (hwarm : r.warmedUp = false) :
    p ∈ r.warmup.graphs ↔ ∃ b ∈ r.batchSizes, p = b * r.numDecodingTokens := by
  rw [warmup, hwarm, if_neg Bool.false_ne_true]
  show p ∈ r.batchSizes.reverse.foldl r.capture r.graphs ↔ _
  rw [mem_foldl_capture, hgraphs]
  simp

/-- Whenever the warmed runner admits a batch, a graph is at least as large. -/
def Covers (r : DecodeAclGraphRunner) : Prop :=
  ∀ (rows : Nat) (dpTokenCounts : Option (List Int)),
    r.warmup.canExecute rows dpTokenCounts = .ok true → ∃ p ∈ r.warmup.graphs, (rows : Int) ≤ p

theorem warmup_canExecute {rows : Nat} {dpTokenCounts : Option (List Int)} :
    r.warmup.canExecute rows dpTokenCounts = .ok true ↔
      (1 < r.dpSize → ∃ counts, dpTokenCounts = some counts ∧ counts.length = r.dpSize) ∧
        (rows : Int) ≤ r.maxBatch * r.numDecodingTokens := by
  have hsame : r.warmup.warmedUp = true ∧ r.warmup.dpSize = r.dpSize ∧
      r.warmup.maxBatch = r.maxBatch ∧ r.warmup.numDecodingTokens = r.numDecodingTokens := by
    unfold warmup
    split
    · next h => exact ⟨h, rfl, rfl, rfl⟩
    · exact ⟨rfl, rfl, rfl, rfl⟩
  obtain ⟨hwarm, hdp, hmax, hndt⟩ := hsame
  unfold canExecute validateDpTokenCounts
  rw [if_pos hwarm, guardNot_bind_eq_ok, pure_eq_ok, hdp, hmax, hndt]
  refine and_congr ?_ (eq_comm.trans decide_eq_true_iff)
  rw [not_and, not_not, Option.any_eq_true]
  simp

/-- **The captured graphs cover what is admitted**, unless the capacity of a rank is zero, or is no
captured batch size. -/
theorem captured_covers_iff (hgraphs : r.graphs = ∅) (hwarm : r.warmedUp = false)
    (hndt : 1 ≤ r.numDecodingTokens) :
    r.Covers ↔ r.maxBatch < 0 ∨ r.maxBatch ∈ [1, 2, 4, 8] ∨ ∃ k, 1 ≤ k ∧ r.maxBatch = 16 * k := by
  constructor
  · intro h
    by_cases hneg : r.maxBatch < 0
    · exact .inl hneg
    have hnonneg : 0 ≤ r.maxBatch * r.numDecodingTokens := Int.mul_nonneg (by omega) (by omega)
    obtain ⟨p, hp, hle⟩ := h (r.maxBatch * r.numDecodingTokens).toNat
      (some (List.replicate r.dpSize 0)) (warmup_canExecute.mpr
        ⟨fun _ => ⟨_, rfl, List.length_replicate⟩, by omega⟩)
    obtain ⟨b, hb, rfl⟩ := (mem_warmup hgraphs hwarm).mp hp
    obtain ⟨hbmax, hb⟩ := mem_batchSizes.mp hb
    rw [Int.toNat_of_nonneg hnonneg] at hle
    have hge := Int.le_of_mul_le_mul_right hle (by omega)
    obtain rfl : b = r.maxBatch := by omega
    exact .inr hb
  · intro h rows counts hadmitted
    obtain ⟨-, hrows⟩ := warmup_canExecute.mp hadmitted
    rcases h with hneg | hmem
    · have hlt := Int.mul_neg_of_neg_of_pos hneg (by omega : 0 < r.numDecodingTokens)
      omega
    · exact ⟨_, (mem_warmup hgraphs hwarm).mpr
        ⟨r.maxBatch, mem_batchSizes.mpr ⟨Int.le_refl _, hmem⟩, rfl⟩, hrows⟩

end DecodeAclGraphRunner

end Bi100.Dp
