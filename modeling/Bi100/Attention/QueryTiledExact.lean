import Bi100.Attention.Split4Exact

/-!
# The query-tiled extension is exact, and both agree with the plain path

- `scoreTile_at`, `runningOutput_at`: the tile products, element by element.
- `runGroup_eq`: a group of a row is a tile of the online softmax.
- `runPhase_spec`: what a row has seen after a phase.
- `fused_agrees`: the comparison with the plain path.
-/

namespace Bi100.Attention

open Py OnlineSoftmax BlockReduce

variable {K : Type} [OrderedExpField K]

namespace QueryTiled

/-! ## Tile products -/

/-- A sequence of tile products. -/
theorem foldl_mmaSync (A B : Nat → Nat → Nat → K) (tiles : List Nat) (init : Nat → Nat → K)
    (row column : Nat) :
    tiles.foldl (fun acc i => mmaSync (A i) (B i) acc) init row column =
      init row column +
        (tiles.map fun i => fold (· + ·) 0 (fun k => A i row k * B i k column) kMmaK).sum := by
  induction tiles generalizing init with
  | nil => exact (add_zero _).symm
  | cons i tiles ih =>
    rw [List.foldl_cons, ih, List.map_cons, List.sum_cons, mmaSync, add_assoc]

section Scores

variable {a : SegmentArgs K} {queryStart head row : Nat} {g : Group}

theorem contextLen_eq : contextLen a.entryArgs = a.contextLen := rfl

theorem queryLen_eq : queryLen a.entryArgs = a.queryLen := rfl

/-- A score of a row that exists. -/
theorem scoreTile_at (hrow : row < activeRows a.entryArgs queryStart) {j : Nat}
    (hj : g.groupStart + j < g.phaseTokens) :
    scoreTile a.entryArgs queryStart head g (j / kKeyTile) row (j % kKeyTile) =
      ∑ c : Fin 256, a.queryAt (queryStart + row) head c * a.scale *
        a.keyAt (g.phaseBase + g.groupStart + j) c := by
  have hoffset : g.groupStart + j / kKeyTile * kKeyTile + j % kKeyTile = g.groupStart + j := by
    rw [Nat.add_assoc, Nat.mul_comm, Nat.div_add_mod]
  have htoken : g.phaseBase + (g.groupStart + j / kKeyTile * kKeyTile) + j % kKeyTile =
      g.phaseBase + g.groupStart + j := by
    rw [Nat.add_assoc, hoffset, Nat.add_assoc]
  rw [scoreTile, foldl_mmaSync, zero_add, sum_range_map]
  have hcell : ∀ dimTile k, queryFragment a.entryArgs queryStart head dimTile row k *
      keyFragment a.entryArgs g (j / kKeyTile) dimTile k (j % kKeyTile) =
      a.queryAt (queryStart + row) head (dimTile * kMmaK + k) * a.scale *
        a.keyAt (g.phaseBase + g.groupStart + j) (dimTile * kMmaK + k) := by
    intro dimTile k
    unfold queryFragment keyFragment
    dsimp only
    rw [if_pos hrow, hoffset, if_pos hj, htoken]
    rfl
  simp only [hcell]
  refine (fold_rows (α := K) (· + ·) 0 (fun dim => a.queryAt (queryStart + row) head dim *
    a.scale * a.keyAt (g.phaseBase + g.groupStart + j) dim) kMmaK kDimTiles).trans ?_
  rw [fold_add_eq_sum]
  exact Finset.sum_range _

/-- The columns of a group, for a row. -/
def groupTile (a : SegmentArgs K) (queryStart head : Nat) (g : Group) (row j : Nat) :
    Entry K (Fin 256) :=
  (rowScore a.entryArgs queryStart head g row j,
    fun c => a.valueAt (g.phaseBase + g.groupStart + j) c)

/-- A visible column. -/
theorem groupTile_shown (hrow : row < activeRows a.entryArgs queryStart) {j : Nat}
    (hj : g.groupStart + j < g.phaseTokens)
    (hpos : g.phaseBase + g.groupStart + j < a.contextLen + (queryStart + row) + 1) :
    groupTile a queryStart head g row j =
      a.entryAt head (queryStart + row) (g.phaseBase + g.groupStart + j) := by
  refine Prod.ext ?_ rfl
  show rowScore a.entryArgs queryStart head g row j = _
  unfold rowScore
  dsimp only
  rw [contextLen_eq, if_pos (by omega)]
  exact congrArg _ (scoreTile_at hrow hj)

/-- A masked column. -/
theorem groupTile_masked {j : Nat}
    (hpos : ¬ g.phaseBase + g.groupStart + j < a.contextLen + (queryStart + row) + 1) :
    (groupTile a queryStart head g row j).1 = ⊥ := by
  show rowScore a.entryArgs queryStart head g row j = _
  unfold rowScore
  dsimp only
  rw [contextLen_eq, if_neg (by omega)]

/-! ## The output of a group -/

/-- The four partial products of `n` key tiles. -/
theorem pv_splits (f : Nat → K) {n : Nat} (hn : n ≤ kKeyTilesPerReduction) :
    let part := fun split => fold (· + ·) 0 (fun i => f (split * kKeyTilesPerPvSplit + i))
      (min n (split * kKeyTilesPerPvSplit + kKeyTilesPerPvSplit) - split * kKeyTilesPerPvSplit)
    part 0 + part 1 + (part 2 + part 3) = fold (· + ·) 0 f n := by
  intro part
  have hstep : ∀ split, fold (· + ·) 0 f (min n (split * kKeyTilesPerPvSplit)) + part split =
      fold (· + ·) 0 f (min n ((split + 1) * kKeyTilesPerPvSplit)) := by
    intro split
    by_cases hle : split * kKeyTilesPerPvSplit ≤ n
    · have hlen : min n ((split + 1) * kKeyTilesPerPvSplit) = split * kKeyTilesPerPvSplit +
          (min n (split * kKeyTilesPerPvSplit + kKeyTilesPerPvSplit) -
            split * kKeyTilesPerPvSplit) := by
        rw [Nat.succ_mul]
        omega
      rw [hlen, fold_add (α := K) (· + ·) 0, Nat.min_eq_right hle]
    · have hend := Nat.le_of_not_le hle
      have hlen : min n ((split + 1) * kKeyTilesPerPvSplit) = min n (split * kKeyTilesPerPvSplit) := by
        rw [Nat.succ_mul]
        omega
      have hnone : min n (split * kKeyTilesPerPvSplit + kKeyTilesPerPvSplit) -
          split * kKeyTilesPerPvSplit = 0 := by omega
      show _ + fold _ _ _ (min n (split * kKeyTilesPerPvSplit + kKeyTilesPerPvSplit) -
          split * kKeyTilesPerPvSplit) = _
      rw [hlen, hnone]
      exact add_zero _
  have hall : min n ((3 + 1) * kKeyTilesPerPvSplit) = n := Nat.min_eq_left hn
  have hnothing : fold (· + ·) 0 f (min n (0 * kKeyTilesPerPvSplit)) = 0 := by
    rw [Nat.zero_mul, Nat.min_zero]
    rfl
  rw [← hall, ← hstep 3, ← hstep 2, ← hstep 1, ← hstep 0, hnothing]
  ring

/-- A term of the products for an output element, by key offset. -/
def outputTerm (a : SegmentArgs K) (queryStart head : Nat) (g : Group) (oldMax : Nat → WithBot K)
    (row dim j : Nat) : K :=
  scoreOf a.entryArgs queryStart head g oldMax row j *
    if g.groupStart + j < g.phaseTokens then a.valueAt (g.phaseBase + g.groupStart + j) dim else 0

theorem partialOutput_at (oldMax : Nat → WithBot K) (dim split : Nat) :
    partialOutput a.entryArgs queryStart head g oldMax (dim / kMmaK) split row (dim % kMmaK) =
      fold (· + ·) 0 (fun i => fold (· + ·) 0 (fun k => outputTerm a queryStart head g oldMax row dim
        ((split * kKeyTilesPerPvSplit + i) * kKeyTile + k)) kMmaK)
      (min g.groupKeyTiles (split * kKeyTilesPerPvSplit + kKeyTilesPerPvSplit) -
        split * kKeyTilesPerPvSplit) := by
  have hdim : dim / kMmaK * kMmaK + dim % kMmaK = dim := by
    rw [Nat.mul_comm]
    exact Nat.div_add_mod _ _
  have hcell : ∀ keyTile k, scoreOf a.entryArgs queryStart head g oldMax row (keyTile * kKeyTile + k) *
      valueFragment a.entryArgs g keyTile (dim / kMmaK) k (dim % kMmaK) =
      outputTerm a queryStart head g oldMax row dim (keyTile * kKeyTile + k) := by
    intro keyTile k
    have hoffset : g.groupStart + keyTile * kKeyTile + k = g.groupStart + (keyTile * kKeyTile + k) :=
      Nat.add_assoc _ _ _
    have htoken : g.phaseBase + (g.groupStart + keyTile * kKeyTile) + k =
        g.phaseBase + g.groupStart + (keyTile * kKeyTile + k) := by omega
    unfold outputTerm valueFragment
    dsimp only
    rw [hoffset, htoken, hdim]
    rfl
  rw [partialOutput, foldl_mmaSync, zero_add]
  simp only [hcell]
  rw [List.range'_eq_map_range, List.map_map, sum_range_map]
  rfl

/-- The terms after the group are zero. -/
theorem outputTerm_sum (hrow : row < activeRows a.entryArgs queryStart) (oldMax : Nat → WithBot K)
    (dim : Nat) :
    fold (· + ·) 0 (outputTerm a queryStart head g oldMax row dim) (g.groupKeyTiles * kKeyTile) =
      fold (· + ·) 0 (fun j => probability a.entryArgs queryStart head g row (oldMax row) j *
        a.valueAt (g.phaseBase + g.groupStart + j) dim) g.groupTokens := by
  have hcover : g.groupKeyTiles * kKeyTile =
      g.groupTokens + (g.groupKeyTiles * kKeyTile - g.groupTokens) := by
    have hdiv := Nat.div_add_mod (g.groupTokens + kKeyTile - 1) kKeyTile
    have hmod := Nat.mod_lt (g.groupTokens + kKeyTile - 1) (show 0 < kKeyTile by decide)
    rw [Nat.mul_comm] at hdiv
    unfold Group.groupKeyTiles
    omega
  have htail : fold (· + ·) 0 (fun i => outputTerm a queryStart head g oldMax row dim (g.groupTokens + i))
      (g.groupKeyTiles * kKeyTile - g.groupTokens) = 0 := by
    refine (fold_congr (· + ·) 0 fun i _ => ?_).trans (fold_const (· + ·) 0 _)
    rw [outputTerm, scoreOf, if_neg (by omega), zero_mul]
  rw [hcover, fold_add (α := K) (· + ·) 0, htail, add_zero]
  refine fold_congr (· + ·) 0 fun j hj => ?_
  have hshown : g.groupStart + j < g.phaseTokens := by
    unfold Group.groupTokens at hj
    omega
  rw [outputTerm, scoreOf, if_pos ⟨hrow, hj⟩, if_pos hshown]

/-- What a group adds to the output. -/
theorem runningOutput_at (hrow : row < activeRows a.entryArgs queryStart) (st : State K) (dim : Nat) :
    (runGroup a.entryArgs queryStart head g st).runningOutput row dim =
      st.runningOutput row dim * correction a.entryArgs queryStart head g row (st.runningMax row) +
        fold (· + ·) 0 (fun j => probability a.entryArgs queryStart head g row (st.runningMax row) j *
          a.valueAt (g.phaseBase + g.groupStart + j) dim) g.groupTokens := by
  have htiles : g.groupKeyTiles ≤ kKeyTilesPerReduction := by
    have hle : g.groupTokens ≤ 512 := Nat.min_le_left _ _
    show (g.groupTokens + 16 - 1) / 16 ≤ 32
    omega
  have hsplits := pv_splits (fun i => fold (· + ·) 0 (fun k =>
    outputTerm a queryStart head g st.runningMax row dim (i * kKeyTile + k)) kMmaK) htiles
  have hrows := fold_rows (α := K) (· + ·) 0 (outputTerm a queryStart head g st.runningMax row dim)
    kMmaK g.groupKeyTiles
  unfold runGroup
  dsimp only at hsplits ⊢
  rw [partialOutput_at, partialOutput_at, partialOutput_at, partialOutput_at, ← outputTerm_sum hrow]
  exact congrArg _ (hsplits.trans hrows)

/-! ## A group of a row -/

theorem correction_eq (hrow : row < activeRows a.entryArgs queryStart) (oldMax : WithBot K) :
    correction a.entryArgs queryStart head g row oldMax =
      correctionAt 0 (newMax a.entryArgs queryStart head g row oldMax) oldMax := by
  rw [correction, if_pos hrow]
  cases oldMax with
  | bot =>
    rw [if_pos rfl]
    cases newMax a.entryArgs queryStart head g row ⊥ <;> rfl
  | coe M =>
    rw [if_neg WithBot.coe_ne_bot]
    cases newMax a.entryArgs queryStart head g row (M : WithBot K) <;> rfl

theorem probability_eq (oldMax : WithBot K) (j : Nat) :
    probability a.entryArgs queryStart head g row oldMax j =
      weightAt (newMax a.entryArgs queryStart head g row oldMax)
        (rowScore a.entryArgs queryStart head g row j) := by
  unfold probability
  dsimp only
  split
  · next h =>
    rw [h]
    cases newMax a.entryArgs queryStart head g row oldMax <;> rfl
  · rfl

/-- The running values of a row. -/
def State.running (st : State K) (row : Nat) : Running K (Fin 256) :=
  ⟨st.runningMax row, st.runningSum row, fun c => st.runningOutput row c⟩

/-- A group of a row is a tile of the online softmax. -/
theorem runGroup_eq (hrow : row < activeRows a.entryArgs queryStart) (st : State K) :
    (runGroup a.entryArgs queryStart head g st).running row =
      advance 0 (st.running row)
        ((List.range g.groupTokens).map (groupTile a queryStart head g row)) := by
  have hprobability : probability a.entryArgs queryStart head g row (st.runningMax row) =
      fun j => weightAt (newMax a.entryArgs queryStart head g row (st.runningMax row))
        (groupTile a queryStart head g row j).1 :=
    funext fun j => probability_eq _ j
  have hout : (fun c : Fin 256 => (runGroup a.entryArgs queryStart head g st).runningOutput row c) =
      fun c : Fin 256 => st.runningOutput row c * correctionAt 0
          (newMax a.entryArgs queryStart head g row (st.runningMax row)) (st.runningMax row) +
        fold (· + ·) 0 (fun j => weightAt
          (newMax a.entryArgs queryStart head g row (st.runningMax row))
          (groupTile a queryStart head g row j).1 * (groupTile a queryStart head g row j).2 c)
          g.groupTokens :=
    funext fun c => by
      rw [runningOutput_at hrow, correction_eq hrow, hprobability]
      rfl
  rw [State.running, hout]
  refine Eq.trans ?_ (advance_range 0 _ _ _ rfl).symm
  unfold runGroup
  dsimp only
  rw [if_pos hrow, if_pos hrow, correction_eq hrow, hprobability]
  rfl

/-! ## A phase -/

/-- What the rows of a block have seen after the tokens before `p`. -/
def Seen (a : SegmentArgs K) (queryStart head p : Nat) (st : State K) : Prop :=
  ∀ row < activeRows a.entryArgs queryStart,
    Summarizes ((List.range (min p (a.contextLen + (queryStart + row) + 1))).map
      (a.entryAt head (queryStart + row))) (st.running row)

theorem runGroup_spec (g : Group) {st : State K} (h : Seen a queryStart head (g.phaseBase + g.groupStart) st) :
    Seen a queryStart head (g.phaseBase + g.groupStart + g.groupTokens)
      (runGroup a.entryArgs queryStart head g st) := by
  intro row hrow
  rw [runGroup_eq hrow]
  refine (h row hrow).window (by omega) (by omega) (fun j hj hpos => ?_) (fun j hj hmasked => ?_) 0
  · refine groupTile_shown hrow ?_ hpos
    have hlt : j < g.groupTokens := by omega
    unfold Group.groupTokens at hlt
    omega
  · exact groupTile_masked fun hpos => hmasked ⟨by omega, hpos⟩

/-- The loop over the groups of a phase. -/
theorem runPhase_spec {phaseBase : Nat} (phaseTokens : Nat) {st : State K}
    (h : Seen a queryStart head phaseBase st) :
    Seen a queryStart head (phaseBase + phaseTokens)
      (runPhase a.entryArgs queryStart head phaseBase phaseTokens st) := by
  have hpos : 0 < kReductionTokens := by decide
  have hgroups : ∀ n ≤ (phaseTokens + kReductionTokens - 1) / kReductionTokens, Seen a queryStart head (phaseBase + min (n * kReductionTokens) phaseTokens)
      ((List.range n).foldl (fun st i => runGroup a.entryArgs queryStart head
        ⟨phaseBase, phaseTokens, i * kReductionTokens⟩ st) st) := by
    intro n
    induction n with
    | zero =>
      intro _
      rw [Nat.zero_mul, Nat.zero_min, Nat.add_zero]
      exact h
    | succ n ih =>
      intro hn
      have hlt : n * kReductionTokens < phaseTokens := by
        have hdiv := (Nat.le_div_iff_mul_le hpos).mp hn
        rw [Nat.succ_mul] at hdiv
        omega
      have hseen := ih (Nat.le_of_succ_le hn)
      rw [Nat.min_eq_left hlt.le] at hseen
      have hend : phaseBase + min ((n + 1) * kReductionTokens) phaseTokens =
          phaseBase + n * kReductionTokens +
            Group.groupTokens ⟨phaseBase, phaseTokens, n * kReductionTokens⟩ := by
        show _ = _ + min kReductionTokens (phaseTokens - n * kReductionTokens)
        rw [Nat.succ_mul]
        omega
      rw [List.range_succ, List.foldl_append, hend]
      exact runGroup_spec ⟨phaseBase, phaseTokens, n * kReductionTokens⟩ hseen
  have hcover : phaseTokens ≤
      (phaseTokens + kReductionTokens - 1) / kReductionTokens * kReductionTokens := by
    have hdiv := Nat.div_add_mod (phaseTokens + kReductionTokens - 1) kReductionTokens
    have hmod := Nat.mod_lt (phaseTokens + kReductionTokens - 1) hpos
    rw [Nat.mul_comm] at hdiv
    omega
  have hall := hgroups _ (Nat.le_refl _)
  rw [Nat.min_eq_right hcover] at hall
  exact hall

/-- **The query-tiled extension**: the checks pass, and every row is the softmax-weighted
average. -/
theorem queryTiled_spec (h : a.Admits 1) (hblocks : a.BlocksValid) (hscale : 0 < a.scale) :
    ∃ out, queryTiledPagedPrefillForward a.entryArgs = .ok out ∧
      ∀ t < a.queryLen, ∀ head < 4, ∀ c : Fin 256, out t head c =
        some (average ((List.range (a.contextLen + t + 1)).map (a.entryAt head t)) c) := by
  have hchecks := SegmentArgs.checks_ok h hblocks hscale
  refine ⟨output a.entryArgs, ?_, fun t ht head hhead c => ?_⟩
  · unfold queryTiledPagedPrefillForward
    show (a.entryArgs.checks (a.blockContextLen / 16) >>= _) = _
    rw [hchecks]
    rfl
  · have ht' : t / kQueryTile * kQueryTile + t % kQueryTile = t := by
      rw [Nat.mul_comm]
      exact Nat.div_add_mod _ _
    have hmod : t % kQueryTile < kQueryTile := Nat.mod_lt _ (by decide)
    have hrow : t % kQueryTile < activeRows a.entryArgs (t / kQueryTile * kQueryTile) := by
      unfold activeRows
      rw [queryLen_eq]
      omega
    have hinit : Seen a (t / kQueryTile * kQueryTile) head 0
        ⟨fun _ => ⊥, fun _ => 0, fun _ _ => 0⟩ := fun row _ => by
      rw [Nat.zero_min]
      exact Summarizes.init
    have hcontext := runPhase_spec a.contextLen hinit
    rw [Nat.zero_add] at hcontext
    have hall := runPhase_spec (min (t / kQueryTile * kQueryTile + kQueryTile) a.queryLen)
      hcontext _ hrow
    rw [Nat.min_eq_right (by omega), ht'] at hall
    have hvisible : Visible ((List.range (a.contextLen + t + 1)).map (a.entryAt head t)) :=
      ⟨_, List.mem_map_of_mem (List.mem_range.mpr (Nat.succ_pos _)), WithBot.coe_ne_bot⟩
    have hsum : (kernel a.entryArgs (t / kQueryTile) head).runningSum (t % kQueryTile) ≠ 0 :=
      (hall.sum_pos hvisible).ne'
    rw [output, if_neg hsum]
    exact congrArg some (hall.average hvisible c)

end Scores

end QueryTiled

/-! ## The comparison -/

/-- The result of an extension and the rows of the plain path are the same numbers. -/
def SegmentArgs.Agrees {d : Nat} (a : SegmentArgs K) (out : Nat → Nat → Nat → Option K)
    (rows : List (OutRow K d)) : Prop :=
  ∀ t < a.query.size 0, ∀ head < a.query.size 1, ∀ c : Fin d, ∃ x,
    out t head c = some x ∧ rows[t]?.bind (fun row => row head c) = some x

/-- Results that are the same averages agree. -/
theorem SegmentArgs.agrees_of_averages {a : SegmentArgs K} (h : a.Admits 1)
    (hblocks : a.BlocksValid) (htile : 0 < a.tileSz) {out : Nat → Nat → Nat → Option K}
    (hout : ∀ t < a.queryLen, ∀ head < 4, ∀ c : Fin 256, out t head c =
      some (average ((List.range (a.contextLen + t + 1)).map (a.entryAt head t)) c)) :
    ∃ rows, forwardPrefixSegmentPytorch (a.segment a.headDim) = .ok rows ∧ a.Agrees out rows := by
  have hheads : a.query.size 1 = 4 := by
    show a.query.shape.getD 1 0 = 4
    rw [h.query]
    rfl
  rw [h.headDim]
  obtain ⟨rows, hrows, hplain⟩ := plain_eq h hblocks htile
  refine ⟨rows, hrows, fun t ht head hhead c => ⟨_, hout t ht head (hheads ▸ hhead) c, ?_⟩⟩
  exact hplain t ht head (hheads ▸ hhead) c

/-- **The fused prefill path agrees with the plain one.** On the segments that
`_is_supported_corex_fused_paged_prefill_segment` admits, the checks of the split4 extension pass and
its result is that of the plain path; the query-tiled extension also takes shorter queries. -/
theorem fused_agrees (a : SegmentArgs K) (hblocks : a.BlocksValid) (hscale : 0 < a.scale)
    (htile : 0 < a.tileSz) :
    (a.isSupported = true → ∃ out rows, fusedPagedPrefillForward a.entryArgs = .ok out ∧
      forwardPrefixSegmentPytorch (a.segment a.headDim) = .ok rows ∧ a.Agrees out rows) ∧
    (a.Admits 1 → ∃ out rows, queryTiledPagedPrefillForward a.entryArgs = .ok out ∧
      forwardPrefixSegmentPytorch (a.segment a.headDim) = .ok rows ∧ a.Agrees out rows) := by
  constructor
  · intro hsupported
    have h := (SegmentArgs.admits_of_isSupported hsupported).mono (by decide : 1 ≤ 17)
    obtain ⟨out, hrun, hout⟩ := Split4.fused_spec h hblocks hscale
    obtain ⟨rows, hplain, hagrees⟩ := SegmentArgs.agrees_of_averages h hblocks htile hout
    exact ⟨out, rows, hrun, hplain, hagrees⟩
  · intro h
    obtain ⟨out, hrun, hout⟩ := QueryTiled.queryTiled_spec h hblocks hscale
    obtain ⟨rows, hplain, hagrees⟩ := SegmentArgs.agrees_of_averages h hblocks htile hout
    exact ⟨out, rows, hrun, hplain, hagrees⟩

/-- A contiguous half tensor of ones on the device. -/
def onesTensor (shape : List Nat) : Tensor ℝ where
  shape := shape
  dtype := .float16
  isCuda := true
  device := 0
  contiguous := true
  elem _ := 1
  data _ := 1
  layout _ _ _ := rfl

/-- Seventeen tokens after one block of context. -/
noncomputable def seventeenTokens : SegmentArgs ℝ where
  query := onesTensor [17, 4, 256]
  key := onesTensor [17, 1, 256]
  value := onesTensor [17, 1, 256]
  prefixKey := onesTensor [0, 1, 256]
  prefixValue := onesTensor [0, 1, 256]
  keyCache := onesTensor [2, 1, 32, 16, 8]
  valueCache := onesTensor [2, 1, 256, 16]
  blockTables := ⟨⟨[1, 3], .int32, true, 0, true⟩, fun _ => 1, fun _ => 1, fun _ _ _ => rfl⟩
  seqIndex := 0
  blockContextLen := 16
  numQHeads := 4
  numKvHeads := 1
  headDim := 256
  gqaRatio := 4
  blockSize := 16
  tileSz := 512
  scale := 1 / 16
  allowCap := false

theorem seventeenTokens_blocksValid : seventeenTokens.BlocksValid := fun _ _ =>
  (by decide : (0 : Int) ≤ 1 ∧ (1 : Int) < 2)

theorem seventeenTokens_scale : 0 < seventeenTokens.scale := by norm_num [seventeenTokens]

theorem fused_agrees_seventeen :
    (∃ out rows, fusedPagedPrefillForward seventeenTokens.entryArgs = .ok out ∧
      forwardPrefixSegmentPytorch (seventeenTokens.segment seventeenTokens.headDim) = .ok rows ∧
      seventeenTokens.Agrees out rows) ∧
    ∃ out rows, queryTiledPagedPrefillForward seventeenTokens.entryArgs = .ok out ∧
      forwardPrefixSegmentPytorch (seventeenTokens.segment seventeenTokens.headDim) = .ok rows ∧
      seventeenTokens.Agrees out rows := by
  have hsupported : seventeenTokens.isSupported = true := by decide
  have h := fused_agrees seventeenTokens seventeenTokens_blocksValid seventeenTokens_scale (by decide)
  exact ⟨h.1 hsupported, h.2 ((SegmentArgs.admits_of_isSupported hsupported).mono (by decide))⟩

end Bi100.Attention
