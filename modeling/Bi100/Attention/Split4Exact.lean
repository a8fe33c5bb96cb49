import Bi100.Attention.FusedExact

/-!
# The split4 extension is exact

- `groupScores_at`, `gather_at`: the buffers, element by element.
- `normalizeSplit_eq`: a split of a row is a tile of the online softmax.
- `runGroup_spec`, `runGroups_spec`: what a row has seen after a group, and after all groups.
-/

namespace Bi100.Attention

open Py OnlineSoftmax BlockReduce

variable {K : Type} [OrderedExpField K]

namespace Split4

/-! ## Buffers -/

theorem row_div {n b : Nat} (h : b < n) (a : Nat) : (a * n + b) / n = a := by
  rw [Nat.mul_comm, Nat.mul_add_div (by omega), Nat.div_eq_of_lt h, Nat.add_zero]

theorem row_mod {n b : Nat} (h : b < n) (a : Nat) : (a * n + b) % n = b := by
  rw [Nat.mul_comm, Nat.mul_add_mod, Nat.mod_eq_of_lt h]

theorem row_lt {n b a m : Nat} (h : b < n) (ha : a < m) : a * n + b < m * n := by
  have hle := Nat.mul_le_mul_right n (Nat.succ_le_of_lt ha)
  rw [Nat.succ_mul] at hle
  omega

omit [OrderedExpField K] in
/-- A call for a split. -/
theorem forSplits_at {strideOut i : Nat} (hi : i < strideOut) (f : Nat → Nat → K) (split : Nat) :
    forSplits strideOut f (split * strideOut + i) = f split i := by
  rw [forSplits, row_div hi, row_mod hi]

/-- An element of a product. -/
theorem gemm_at {transA : Bool} {k ldc n : Nat} {A B : Nat → K} {lda strideA ldb strideB row col : Nat}
    (hrow : row < ldc) (hcol : col < n) (batch : Nat) :
    gemmStridedBatched transA k A lda strideA B ldb strideB ldc (n * ldc)
        (batch * (n * ldc) + (col * ldc + row)) =
      ∑ l ∈ Finset.range k, A (batch * strideA + if transA then row * lda + l else l * lda + row) *
        B (batch * strideB + col * ldb + l) := by
  unfold gemmStridedBatched
  dsimp only
  rw [row_div (row_lt hrow hcol), row_mod (row_lt hrow hcol), row_div hrow, row_mod hrow]

/-- An element of the gathered keys or values. -/
theorem gather_at {new cache : Nat → K} {cacheIndex : Nat → Nat → Nat → Nat} {blockTable : Nat → Int}
    {ctx qLen groupStart groupTokens split col dim : Nat} (hcol : col < kTileTokens)
    (hdim : dim < kHeadDim) (hshown : col < splitTokens groupTokens split)
    (htoken : groupStart + split * kTileTokens + col < ctx + qLen) :
    gatherKvGroupKernel new cache cacheIndex blockTable ctx qLen groupStart groupTokens
        (split * (kTileTokens * kHeadDim) + (col * kHeadDim + dim)) =
      QueryTiled.loadKv new cache cacheIndex blockTable (groupStart + split * kTileTokens + col) ctx
        dim := by
  have hsplit := row_div (row_lt hdim hcol) split
  have helement : split * (kTileTokens * kHeadDim) + (col * kHeadDim + dim) -
      split * (kTileTokens * kHeadDim) = col * kHeadDim + dim := Nat.add_sub_cancel_left _ _
  have hoffset := row_div hdim col
  have hrest : col * kHeadDim + dim - col * kHeadDim = dim := Nat.add_sub_cancel_left _ _
  unfold gatherKvGroupKernel QueryTiled.loadKv
  dsimp only
  rw [hsplit, helement, hoffset, hrest, if_neg (by omega)]
  by_cases hctx : groupStart + split * kTileTokens + col < ctx
  · rw [if_pos hctx, if_pos hctx]
  · rw [if_neg hctx, if_neg hctx, if_pos htoken]

/-- An element of the converted query. -/
theorem convertQuery_at {query : Nat → K} {qLen head t dim : Nat} {scale : K} (ht : t < qLen)
    (hdim : dim < kHeadDim) :
    convertQueryKernel query qLen scale (head * (qLen * kHeadDim) + t * kHeadDim + dim) =
      query ((t * kNumQueryHeads + head) * kHeadDim + dim) * scale := by
  have hindex : head * (qLen * kHeadDim) + t * kHeadDim + dim = (head * qLen + t) * kHeadDim + dim := by
    ring
  have hhead : ((head * qLen + t) * kHeadDim + dim) / (kHeadDim * qLen) = head := by
    rw [← Nat.div_div_eq_div_mul, row_div hdim, row_div ht]
  unfold convertQueryKernel
  dsimp only
  rw [hindex, hhead, row_mod hdim, row_div hdim, row_mod ht]

/-! ## The scores of a group -/

section Group

variable {a : SegmentArgs K} {head t groupStart groupTokens split : Nat} {causal : Bool}

theorem contextLen_eq : contextLen a.entryArgs = a.contextLen := rfl

theorem queryLen_eq : queryLen a.entryArgs = a.queryLen := rfl

theorem row_lt_rows (hhead : head < 4) (ht : t < a.queryLen) :
    head * a.queryLen + t < rows a.entryArgs := row_lt ht hhead

/-- The offset of a score. -/
theorem score_index (a : SegmentArgs K) (head t split col : Nat) :
    (split * rows a.entryArgs + (head * a.queryLen + t)) * kTileTokens + col =
      split * (rows a.entryArgs * kTileTokens) +
        (head * (a.queryLen * kTileTokens) + (t * kTileTokens + col)) := by
  ring

theorem score_offset_lt {col : Nat} (hhead : head < 4) (ht : t < a.queryLen) (hcol : col < kTileTokens) :
    head * (a.queryLen * kTileTokens) + (t * kTileTokens + col) < rows a.entryArgs * kTileTokens := by
  have h := row_lt (row_lt hcol ht) hhead
  rw [← Nat.mul_assoc 4] at h
  exact h

/-- A product of `qk_batched`. -/
theorem qk_at {col : Nat} (hhead : head < 4) (ht : t < a.queryLen) (hcol : col < kTileTokens)
    (hshown : col < splitTokens groupTokens split)
    (htoken : groupStart + split * kTileTokens + col < a.contextLen + a.queryLen) :
    forSplits (rows a.entryArgs * kTileTokens) (fun split => qkBatched
        (fun i => gatherKvGroupKernel a.key.data a.keyCache.data keyIndex a.activeBlockTable.data
          a.contextLen a.queryLen groupStart groupTokens (split * (kTileTokens * kHeadDim) + i))
        (convertQueryKernel a.query.data a.queryLen a.scale) a.queryLen)
      ((split * rows a.entryArgs + (head * a.queryLen + t)) * kTileTokens + col) =
    ∑ c : Fin 256, a.queryAt t head c * a.scale *
      a.keyAt (groupStart + split * kTileTokens + col) c := by
  rw [score_index, forSplits_at (score_offset_lt hhead ht hcol), qkBatched, gemm_at hcol ht]
  refine (Finset.sum_range _).trans (Finset.sum_congr rfl fun c _ => ?_)
  rw [if_pos rfl, Nat.mul_zero, Nat.zero_add, gather_at hcol c.isLt hshown htoken,
    convertQuery_at ht c.isLt, mul_comm]
  rfl

/-- An element of the masked scores. -/
theorem mask_at {col : Nat} (scores : Nat → WithBot K) (hhead : head < 4) (ht : t < a.queryLen)
    (hcol : col < kTileTokens) :
    maskGroupScoresKernel scores a.queryLen a.contextLen groupStart groupTokens (rows a.entryArgs) causal
        ((split * rows a.entryArgs + (head * a.queryLen + t)) * kTileTokens + col) =
      if splitTokens groupTokens split ≤ col ∨
          (causal = true ∧ groupStart + split * kTileTokens + col > a.contextLen + t) then ⊥
      else scores ((split * rows a.entryArgs + (head * a.queryLen + t)) * kTileTokens + col) := by
  have hoffset := score_offset_lt hhead ht hcol
  have hindex : head * (a.queryLen * kTileTokens) + (t * kTileTokens + col) =
      (head * a.queryLen + t) * kTileTokens + col := by ring
  have hsub : split * (rows a.entryArgs * kTileTokens) +
      (head * (a.queryLen * kTileTokens) + (t * kTileTokens + col)) -
      split * (rows a.entryArgs * kTileTokens) = (head * a.queryLen + t) * kTileTokens + col := by
    rw [Nat.add_sub_cancel_left, hindex]
  unfold maskGroupScoresKernel
  dsimp only
  rw [score_index, row_div hoffset, hsub, row_mod hcol, row_div hcol, row_mod ht]

/-- A score of a row. -/
theorem groupScores_at {col : Nat} (hhead : head < 4) (ht : t < a.queryLen) (hcol : col < kTileTokens)
    (hshown : col < splitTokens groupTokens split)
    (hpos : groupStart + split * kTileTokens + col < a.contextLen + t + 1) :
    rowScores (groupScores a.entryArgs groupStart groupTokens causal) (rows a.entryArgs)
        (head * a.queryLen + t) split col =
      (a.entryAt head t (groupStart + split * kTileTokens + col)).1 := by
  have htoken : groupStart + split * kTileTokens + col < a.contextLen + a.queryLen := by omega
  have hproduct := qk_at hhead ht hcol hshown htoken
  unfold rowScores groupScores
  split
  · rw [contextLen_eq, queryLen_eq, mask_at _ hhead ht hcol, if_neg (by omega)]
    exact congrArg _ hproduct
  · exact congrArg _ hproduct

/-- A masked score of a row. -/
theorem groupScores_masked {col : Nat} (hhead : head < 4) (ht : t < a.queryLen)
    (hcol : col < kTileTokens) (hsplit : split * kTileTokens < groupTokens)
    (hmasked : splitTokens groupTokens split ≤ col ∨
      causal = true ∧ a.contextLen + t < groupStart + split * kTileTokens + col) :
    rowScores (groupScores a.entryArgs groupStart groupTokens causal) (rows a.entryArgs)
        (head * a.queryLen + t) split col = ⊥ := by
  unfold rowScores groupScores
  split
  · rw [contextLen_eq, queryLen_eq, mask_at _ hhead ht hcol, if_pos hmasked]
  · next hnone =>
    -- Without a mask the group is not causal and has no tail.
    rw [not_or, not_not] at hnone
    obtain ⟨hcausal, hfull⟩ := hnone
    rcases hmasked with htail | ⟨htrue, -⟩
    · rw [hfull] at hsplit
      have hpos := Nat.sub_pos_of_lt (Nat.lt_of_mul_lt_mul_right hsplit)
      have hle := Nat.le_mul_of_pos_left kTileTokens hpos
      rw [Nat.sub_mul, ← hfull] at hle
      rw [splitTokens, Nat.min_eq_right hle] at htail
      omega
    · exact absurd htrue hcausal

end Group

/-! ## A split of a row -/

theorem blockReduce_tile {α : Type} (op : α → α → α) (e : α) [Std.Associative op] [Std.Commutative op]
    [Std.LawfulIdentity op e] (f : Nat → α) :
    blockReduce op e kThreadBits kTileTokens f = fold op e f kTileTokens :=
  blockReduce_eq op e f 8 2

theorem nextMax_eq (scores : Nat → WithBot K) (s : RowState K) :
    nextMax scores s = max s.stateMax (fold max ⊥ scores kTileTokens) := by
  rw [nextMax, blockReduce_tile]

theorem correction_eq (scores : Nat → WithBot K) (s : RowState K) :
    correction scores s = correctionAt 1 (nextMax scores s) s.stateMax := by
  unfold correction
  cases hM : nextMax scores s with
  | bot =>
    rw [nextMax] at hM
    rw [if_pos ⟨(max_eq_bot.mp hM).1, rfl⟩]
    rfl
  | coe M =>
    rw [if_neg fun h => WithBot.coe_ne_bot h.2]
    rfl

theorem probability_eq (scores : Nat → WithBot K) (s : RowState K) (column : Nat) :
    probability scores s column = weightAt (nextMax scores s) (scores column) := by
  unfold probability
  split
  · next h =>
    rw [h.2]
    rfl
  · rfl

/-- A split of a row is a tile of the online softmax. -/
theorem normalizeSplit_eq {ι : Type} (tile : Nat → Entry K ι) (s : RowState K) (out : ι → K) :
    advance 1 ⟨s.stateMax, s.stateSum, out⟩ ((List.range kTileTokens).map tile) =
      ⟨(normalizeSplit (fun j => (tile j).1) s).stateMax,
        (normalizeSplit (fun j => (tile j).1) s).stateSum,
        fun i => out i * correction (fun j => (tile j).1) s +
          fold (· + ·) 0 (fun j => probability (fun j => (tile j).1) s j * (tile j).2 i)
            kTileTokens⟩ := by
  have hprobability : probability (fun j => (tile j).1) s =
      fun j => weightAt (nextMax (fun j => (tile j).1) s) (tile j).1 :=
    funext fun j => probability_eq _ s j
  rw [advance_range 1 _ tile kTileTokens (nextMax_eq _ s).symm, normalizeSplit]
  simp only [correction_eq, hprobability, blockReduce_tile]

/-! ## A group -/

section Run

variable {a : SegmentArgs K} {head t groupStart groupTokens : Nat} {causal : Bool}

/-- The running values of a row. -/
def State.running (st : State K) (row : Nat) : Running K (Fin 256) :=
  ⟨st.runningMax row, st.runningSum row, fun c => st.runningOutput (row * kHeadDim + c)⟩

/-- The columns of a split. -/
def splitTile (a : SegmentArgs K) (groupStart groupTokens : Nat) (causal : Bool)
    (head t split col : Nat) : Entry K (Fin 256) :=
  (rowScores (groupScores a.entryArgs groupStart groupTokens causal) (rows a.entryArgs)
      (head * a.queryLen + t) split col,
    fun c => valueTiles a.entryArgs groupStart groupTokens
      (split * (kTileTokens * kHeadDim) + (col * kHeadDim + c)))

/-- An element of `split_output`. -/
theorem splitOutput_at (st : State K) (hhead : head < 4) (ht : t < a.queryLen) (split : Nat)
    (c : Fin 256) :
    splitOutput a.entryArgs (valueTiles a.entryArgs groupStart groupTokens)
        (probabilities (groupScores a.entryArgs groupStart groupTokens causal) (rows a.entryArgs) st)
        (split * (rows a.entryArgs * kHeadDim) + ((head * a.queryLen + t) * kHeadDim + c)) =
      fold (· + ·) 0 (fun col =>
        probability (fun j => (splitTile a groupStart groupTokens causal head t split j).1)
          (normalizeSplits (groupScores a.entryArgs groupStart groupTokens causal) (rows a.entryArgs)
            (head * a.queryLen + t) (st.row (head * a.queryLen + t)) split) col *
          (splitTile a groupStart groupTokens causal head t split col).2 c) kTileTokens := by
  have hrow : head * a.queryLen + t < rows a.entryArgs := row_lt_rows hhead ht
  have hc : (c : Nat) < kHeadDim := c.isLt
  have hindex : (head * a.queryLen + t) * kHeadDim + c =
      head * (a.queryLen * kHeadDim) + (t * kHeadDim + c) := by ring
  rw [splitOutput, forSplits_at (row_lt hc hrow), hindex, pvBatched, queryLen_eq, gemm_at hc ht,
    fold_add_eq_sum]
  refine Finset.sum_congr rfl fun col hcol => ?_
  have hcol' : col < kTileTokens := Finset.mem_range.mp hcol
  have hscore : split * (rows a.entryArgs * kTileTokens) +
      (head * (a.queryLen * kTileTokens) + t * kTileTokens + col) =
      (split * rows a.entryArgs + (head * a.queryLen + t)) * kTileTokens + col := by ring
  have hprobability : probabilities (groupScores a.entryArgs groupStart groupTokens causal)
      (rows a.entryArgs) st (split * (rows a.entryArgs * kTileTokens) +
        (head * (a.queryLen * kTileTokens) + t * kTileTokens + col)) =
      probability (fun j => (splitTile a groupStart groupTokens causal head t split j).1)
        (normalizeSplits (groupScores a.entryArgs groupStart groupTokens causal) (rows a.entryArgs)
          (head * a.queryLen + t) (st.row (head * a.queryLen + t)) split) col := by
    unfold probabilities
    rw [hscore, row_mod hcol', row_div hcol', row_mod hrow, row_div hrow]
    rfl
  rw [hprobability, Nat.mul_zero, Nat.zero_add, mul_comm]
  rfl

/-- The running values of a row after `n` splits. -/
def afterSplits (a : SegmentArgs K) (groupStart groupTokens : Nat) (causal : Bool) (st : State K)
    (row n : Nat) : Running K (Fin 256) :=
  let scores := groupScores a.entryArgs groupStart groupTokens causal
  let output := splitOutput a.entryArgs (valueTiles a.entryArgs groupStart groupTokens)
    (probabilities scores (rows a.entryArgs) st)
  ⟨(normalizeSplits scores (rows a.entryArgs) row (st.row row) n).stateMax,
    (normalizeSplits scores (rows a.entryArgs) row (st.row row) n).stateSum,
    fun c => mergeSplits (st.runningOutput (row * kHeadDim + c))
      (fun split => output (split * (rows a.entryArgs * kHeadDim) + (row * kHeadDim + c)))
      (fun split => corrections scores (rows a.entryArgs) st (split * rows a.entryArgs + row)) n⟩

theorem afterSplits_succ (st : State K) (hhead : head < 4) (ht : t < a.queryLen) (n : Nat) :
    afterSplits a groupStart groupTokens causal st (head * a.queryLen + t) (n + 1) =
      advance 1 (afterSplits a groupStart groupTokens causal st (head * a.queryLen + t) n)
        ((List.range kTileTokens).map (splitTile a groupStart groupTokens causal head t n)) := by
  have hrow : head * a.queryLen + t < rows a.entryArgs := row_lt_rows hhead ht
  have hcorrection : corrections (groupScores a.entryArgs groupStart groupTokens causal)
      (rows a.entryArgs) st (n * rows a.entryArgs + (head * a.queryLen + t)) =
      correction (fun j => (splitTile a groupStart groupTokens causal head t n j).1)
        (normalizeSplits (groupScores a.entryArgs groupStart groupTokens causal) (rows a.entryArgs)
          (head * a.queryLen + t) (st.row (head * a.queryLen + t)) n) := by
    unfold corrections
    rw [row_div hrow, row_mod hrow]
    rfl
  refine Eq.trans ?_ (normalizeSplit_eq _ _ _).symm
  refine congrArg (Running.mk _ _) (funext fun c => ?_)
  rw [mergeSplits, splitOutput_at st hhead ht, hcorrection]

/-- What a row has seen after `n` splits. -/
theorem afterSplits_seen {st : State K} (hhead : head < 4) (ht : t < a.queryLen)
    (hcausal : causal = true ∨ groupStart + groupTokens ≤ a.contextLen)
    (h : Summarizes ((List.range (min groupStart (a.contextLen + t + 1))).map (a.entryAt head t))
      (st.running (head * a.queryLen + t))) (n : Nat) (hn : (n - 1) * kTileTokens < groupTokens) :
    Summarizes ((List.range (min (groupStart + min (n * kTileTokens) groupTokens)
        (a.contextLen + t + 1))).map (a.entryAt head t))
      (afterSplits a groupStart groupTokens causal st (head * a.queryLen + t) n) := by
  induction n with
  | zero =>
    rw [Nat.zero_mul, Nat.zero_min, Nat.add_zero]
    exact h
  | succ n ih =>
    rw [Nat.add_sub_cancel] at hn
    have hprev : (n - 1) * kTileTokens < groupTokens :=
      (Nat.mul_le_mul_right _ (Nat.sub_le n 1)).trans_lt hn
    have hseen := ih hprev
    rw [Nat.min_eq_left hn.le] at hseen
    rw [afterSplits_succ st hhead ht, Nat.succ_mul]
    refine hseen.window (by omega) (by omega) (fun j hj hpos => ?_) (fun j hj hmasked => ?_) 1
    · have hshown : j < splitTokens groupTokens n := by
        unfold splitTokens
        omega
      have hcol : j < kTileTokens := hshown.trans_le (Nat.min_le_right _ _)
      have htoken : groupStart + n * kTileTokens + j < a.contextLen + a.queryLen := by omega
      refine Prod.ext (groupScores_at hhead ht hcol hshown (by omega)) (funext fun c => ?_)
      exact gather_at hcol c.isLt hshown htoken
    · refine groupScores_masked hhead ht hj hn ?_
      by_cases hshown : j < splitTokens groupTokens n
      · right
        unfold splitTokens at hshown
        rcases hcausal with hcausal | hctx
        · exact ⟨hcausal, by omega⟩
        · omega
      · exact .inl (Nat.le_of_not_lt hshown)

/-- What the rows have seen after the tokens before `p`. -/
def Seen (a : SegmentArgs K) (p : Nat) (st : State K) : Prop :=
  ∀ head < 4, ∀ t < a.queryLen,
    Summarizes ((List.range (min p (a.contextLen + t + 1))).map (a.entryAt head t))
      (st.running (head * a.queryLen + t))

theorem runGroup_spec {st : State K} (h : Seen a groupStart st) (hpos : 0 < groupTokens)
    (hle : groupTokens ≤ kGroupTokens)
    (hcausal : causal = true ∨ groupStart + groupTokens ≤ a.contextLen) :
    ∃ st', runGroup a.entryArgs groupStart groupTokens causal st = .ok st' ∧
      Seen a (groupStart + groupTokens) st' := by
  have hgroup : kGroupTokens = 4 * kTileTokens := rfl
  have htile : 0 < kTileTokens := by decide
  have hactive : (groupTokens + kTileTokens - 1) / kTileTokens > 0 ∧
      (groupTokens + kTileTokens - 1) / kTileTokens ≤ kSplitCount := by
    refine ⟨Nat.div_pos (by omega) htile, ?_⟩
    show _ ≤ 4
    rw [Nat.div_le_iff_le_mul_add_pred htile, Nat.mul_comm]
    omega
  have hlast : ((groupTokens + kTileTokens - 1) / kTileTokens - 1) * kTileTokens < groupTokens := by
    have hdiv := Nat.div_mul_le_self (groupTokens + kTileTokens - 1) kTileTokens
    rw [Nat.sub_mul, Nat.one_mul]
    omega
  have hcover : groupTokens ≤ (groupTokens + kTileTokens - 1) / kTileTokens * kTileTokens := by
    have hdiv := Nat.div_add_mod (groupTokens + kTileTokens - 1) kTileTokens
    have hmod := Nat.mod_lt (groupTokens + kTileTokens - 1) htile
    rw [Nat.mul_comm] at hdiv
    omega
  refine ⟨_, torchCheck_bind_ok.mpr ⟨hactive, rfl⟩, fun head hhead t ht => ?_⟩
  have hseen := afterSplits_seen hhead ht hcausal (h head hhead t ht) _ hlast
  rw [Nat.min_eq_right hcover] at hseen
  refine (congrArg (Summarizes _) ?_).mpr hseen
  refine congrArg (Running.mk _ _) (funext fun c => ?_)
  have hrow : ((head * a.queryLen + t) * kHeadDim + (c : Nat)) / kHeadDim = head * a.queryLen + t :=
    row_div c.isLt _
  dsimp only
  rw [hrow]

/-- The loop over the groups of the context or of the query. -/
theorem runGroups_spec {start tokens : Nat} {st : State K} (h : Seen a start st)
    (hcausal : causal = true ∨ start + tokens ≤ a.contextLen) :
    ∃ st', runGroups a.entryArgs start tokens causal st = .ok st' ∧ Seen a (start + tokens) st' := by
  have hgroup : 0 < kGroupTokens := by decide
  have hlast : ∀ i < (tokens + kGroupTokens - 1) / kGroupTokens, i * kGroupTokens < tokens := by
    intro i hi
    rw [Nat.lt_div_iff_mul_lt hgroup] at hi
    omega
  have hcover : tokens ≤ (tokens + kGroupTokens - 1) / kGroupTokens * kGroupTokens := by
    have hdiv := Nat.div_add_mod (tokens + kGroupTokens - 1) kGroupTokens
    have hmod := Nat.mod_lt (tokens + kGroupTokens - 1) hgroup
    rw [Nat.mul_comm] at hdiv
    omega
  have hstep : ∀ i < (tokens + kGroupTokens - 1) / kGroupTokens, ∀ st,
      Seen a (start + min (i * kGroupTokens) tokens) st →
      ∃ st', runGroup a.entryArgs (start + i * kGroupTokens)
          (min kGroupTokens (tokens - i * kGroupTokens)) causal st = .ok st' ∧
        Seen a (start + min ((i + 1) * kGroupTokens) tokens) st' := by
    intro i hi st hseen
    have hlt := hlast i hi
    rw [Nat.min_eq_left hlt.le] at hseen
    have hend : start + i * kGroupTokens + min kGroupTokens (tokens - i * kGroupTokens) =
        start + min ((i + 1) * kGroupTokens) tokens := by
      rw [Nat.succ_mul]
      omega
    rw [← hend]
    exact runGroup_spec hseen (by omega) (Nat.min_le_left _ _) (hcausal.imp_right (by omega))
  obtain ⟨st', hrun, hseen⟩ := foldlM_range_ok
    (fun st i => runGroup a.entryArgs (start + i * kGroupTokens)
      (min kGroupTokens (tokens - i * kGroupTokens)) causal st)
    (fun i => Seen a (start + min (i * kGroupTokens) tokens)) _
    (by rw [Nat.zero_mul, Nat.zero_min, Nat.add_zero]; exact h) hstep
  rw [Nat.min_eq_right hcover] at hseen
  exact ⟨st', hrun, hseen⟩

/-- **The split4 extension**: the checks pass, and every row is the softmax-weighted average. -/
theorem fused_spec (h : a.Admits 1) (hblocks : a.BlocksValid) (hscale : 0 < a.scale) :
    ∃ out, fusedPagedPrefillForward a.entryArgs = .ok out ∧
      ∀ t < a.queryLen, ∀ head < 4, ∀ c : Fin 256, out t head c =
        some (average ((List.range (a.contextLen + t + 1)).map (a.entryAt head t)) c) := by
  have hrequired : (a.entryArgs.contextLenArg + kBlockSize - 1) / kBlockSize =
      a.blockContextLen / 16 := by
    have haligned := h.context_aligned
    show (a.blockContextLen + 16 - 1) / 16 = _
    omega
  have hchecks := SegmentArgs.checks_ok h hblocks hscale
  rw [← hrequired] at hchecks
  have hrows : a.entryArgs.query.size 0 ≤ 2147483647 / kNumQueryHeads :=
    h.query_le.trans (by decide)
  have hinit : Seen a 0 ⟨fun _ => ⊥, fun _ => 0, fun _ => 0⟩ := fun head _ t _ => by
    rw [Nat.zero_min]
    exact Summarizes.init
  obtain ⟨st₁, hcontext, hseen₁⟩ := runGroups_spec hinit (.inr (Nat.zero_add a.contextLen).le)
  rw [Nat.zero_add] at hseen₁
  obtain ⟨st₂, hquery, hseen₂⟩ : ∃ st', runGroups a.entryArgs a.contextLen a.queryLen true st₁ =
      .ok st' ∧ Seen a (a.contextLen + a.queryLen) st' := runGroups_spec hseen₁ (.inl rfl)
  refine ⟨output a.entryArgs st₂, ?_, fun t ht head hhead c => ?_⟩
  · unfold fusedPagedPrefillForward
    rw [hchecks]
    refine torchCheck_bind_ok.mpr ⟨hrows, ?_⟩
    dsimp only
    rw [contextLen_eq, queryLen_eq, hcontext]
    show (runGroups a.entryArgs a.contextLen a.queryLen true st₁ >>= _) = _
    rw [hquery]
    rfl
  · have hrow := hseen₂ head hhead t ht
    rw [Nat.min_eq_right (by omega)] at hrow
    have hvisible : Visible ((List.range (a.contextLen + t + 1)).map (a.entryAt head t)) :=
      ⟨_, List.mem_map_of_mem (List.mem_range.mpr (Nat.succ_pos _)), WithBot.coe_ne_bot⟩
    have hsum : st₂.runningSum (head * queryLen a.entryArgs + t) ≠ 0 := (hrow.sum_pos hvisible).ne'
    rw [output, if_neg hsum]
    exact congrArg some (hrow.average hvisible c)

end Run

end Split4

end Bi100.Attention
