import Bi100.Attention.Causal
import Bi100.Attention.Fused

/-!
# A warm and a cold request reduce in the same order

- `tilePositions`: the absolute positions of the tiles of a segment, in the order of the updates.
- `Tiled`: the rows of a segment are computed from these tiles, whatever holds their tokens.
- `strictTiles`: the tiles of the segment that starts at the strict prefix boundary.
-/

namespace Bi100.Attention

open Py OnlineSoftmax

variable {K : Type} [OrderedExpField K] {d : Nat}

/-! ## Positions -/

namespace Segment

/-- The positions of a context tile: cached tokens, then earlier tokens of the query. -/
def contextPositions (s : Segment K d) (span : Nat × Nat × Nat × Nat) : List Nat :=
  let (blockStart, blockEnd, prefixStart, prefixEnd) := span
  List.range' blockStart (blockEnd - blockStart) ++
    List.range' (s.blockContextLen + prefixStart) (prefixEnd - prefixStart)

/-- The positions of a tile of the segment's own tokens. -/
def currentPositions (s : Segment K d) (i : Nat) : List Nat :=
  let keyStart := i * s.tileSz
  let keyEnd := min (keyStart + s.tileSz) s.query.length
  List.range' (s.blockContextLen + s.prefixKey.length + keyStart) (keyEnd - keyStart)

/-- The positions of all tiles. -/
def tilePositions (s : Segment K d) : Except PrefixError (List (List Nat)) := do
  let spans ← prefixContextTileSpans s.blockContextLen s.prefixKey.length s.tileSz
  pure (spans.map s.contextPositions ++
    (List.range ((s.query.length + s.tileSz - 1) / s.tileSz)).map s.currentPositions)

end Segment

/-- The tiles of `n` positions from `start` on. -/
def rangeTiles (start n size : Nat) : List (List Nat) :=
  (List.range ((n + size - 1) / size)).map fun i =>
    List.range' (start + i * size) (min (i * size + size) n - i * size)

/-- The strict prefix of a prompt. -/
def strictPrefixLen (totalLen blockSize : Nat) : Nat := (totalLen - 1) / blockSize * blockSize

/-- The tiles of the segment that starts at the strict prefix. -/
def strictTiles (totalLen blockSize tileSz : Nat) : List (List Nat) :=
  rangeTiles 0 (strictPrefixLen totalLen blockSize) tileSz ++
    rangeTiles (strictPrefixLen totalLen blockSize)
      (totalLen - strictPrefixLen totalLen blockSize) tileSz

/-- Where a range is cut does not matter. -/
theorem range'_cut {a b : Nat} (cut : Nat) (hab : a ≤ b) :
    List.range' (min a cut) (min b cut - min a cut) ++
      List.range' (cut + (a - cut)) (b - cut - (a - cut)) = List.range' a (b - a) := by
  rcases Nat.le_total cut a with hcut | hcut
  · rw [Nat.min_eq_right hcut, Nat.min_eq_right (hcut.trans hab), Nat.sub_self, List.range'_zero,
      List.nil_append, Nat.add_sub_cancel' hcut]
    congr 1
    omega
  · rw [Nat.min_eq_left hcut, Nat.sub_eq_zero_of_le hcut, Nat.add_zero, Nat.sub_zero]
    rcases Nat.le_total b cut with hb | hb
    · rw [Nat.min_eq_left hb, Nat.sub_eq_zero_of_le hb, List.range'_zero, List.append_nil]
    · have hlen : b - a = (cut - a) + (b - cut) := by omega
      have hstart : cut = a + (cut - a) := by omega
      rw [Nat.min_eq_right hb, hlen, ← List.range'_append_1, ← hstart]

variable {s : Segment K d}

/-- **The tiles depend on the length of the context only**, not on where it is held. -/
theorem Segment.tilePositions_eq (hs : s.Valid) : s.tilePositions =
    .ok (rangeTiles 0 (s.blockContextLen + s.prefixKey.length) s.tileSz ++
      rangeTiles (s.blockContextLen + s.prefixKey.length) s.query.length s.tileSz) := by
  unfold tilePositions
  rw [spans_ok hs, length_contextK]
  refine congrArg Except.ok (congrArg₂ (· ++ ·) ?_ ?_)
  · rw [List.map_map]
    refine List.map_congr_left fun i hi => ?_
    have hlt := Nat.lt_of_lt_of_le (List.mem_range.mp hi) (Nat.le_refl _)
    have hstart : i * s.tileSz ≤ s.blockContextLen + s.prefixKey.length := by
      have hmul := Nat.div_mul_le_self (s.blockContextLen + s.prefixKey.length + s.tileSz - 1) s.tileSz
      have hle := Nat.mul_le_mul_right s.tileSz (Nat.succ_le_of_lt hlt)
      rw [Nat.succ_mul] at hle
      have hpos := hs.tileSz
      omega
    show List.range' _ _ ++ List.range' _ _ = _
    rw [range'_cut _ (by omega), Nat.zero_add]
  · exact List.map_congr_left fun i _ => rfl

/-! ## What is read at a position -/

theorem slice_range {n a b : Nat} (h : b ≤ n) : slice (List.range n) a b = List.range' a (b - a) := by
  rw [slice, List.take_range, Nat.min_eq_left h, List.range_eq_range', List.drop_range',
    Nat.zero_add, Nat.mul_one]

omit [OrderedExpField K] in
/-- Rows that are read at positions, and masked after row `row`. -/
theorem mapIdx_range' (score : Nat → K) (row a start n : Nat) :
    ((List.range' (a + start) n).map score).mapIdx (fun j (x : K) =>
      if row < start + j then ⊥ else (x : WithBot K)) =
    (List.range' (a + start) n).map fun p => if a + row < p then ⊥ else (score p : WithBot K) := by
  refine List.ext_getElem? fun j => ?_
  rw [List.getElem?_mapIdx, List.getElem?_map, List.getElem?_map, Option.map_map]
  by_cases hj : j < n
  · rw [List.getElem?_range' hj, Option.map_some, Option.map_some, Function.comp_apply, Nat.one_mul]
    refine congrArg some ?_
    by_cases hrow : row < start + j
    · rw [if_pos hrow, if_pos (by omega)]
    · rw [if_neg hrow, if_neg (by omega)]
  · rw [List.getElem?_eq_none (by rw [List.length_range']; omega)]
    rfl

namespace Segment

variable {keyAt valueAt : Nat → Row K d} {n : Nat}

/-- An update with the tokens at `positions`, where those after `pos` are masked. -/
def tileStep (s : Segment K d) (keyAt valueAt : Nat → Row K d) (head pos : Nat) (q : Row K d)
    (running : Option (Running K (Fin d))) (positions : List Nat) : Option (Running K (Fin d)) :=
  updateOnlineSoftmaxFromScores
    (positions.map fun p => if pos < p then ⊥ else
      ((∑ c, q head c * s.scale * keyAt p (head / s.gqaRatio) c : K) : WithBot K))
    (positions.map fun p => valueAt p (head / s.gqaRatio)) running

omit [OrderedExpField K] in
/-- A slice of the first part of a list that is read by position. -/
theorem slice_left {first rest : List (Row K d)} (h : first ++ rest = (List.range n).map keyAt)
    (x : Nat) {y : Nat} (hy : y ≤ first.length) :
    slice first x y = (List.range' x (y - x)).map keyAt := by
  have hlen := congrArg List.length h
  rw [List.length_append, List.length_map, List.length_range] at hlen
  have hfirst : slice first x y = slice (first ++ rest) x y := by
    rw [← slice_take (first ++ rest) x hy, List.take_left]
  rw [hfirst, h, ← map_slice, slice_range (by omega)]

omit [OrderedExpField K] in
/-- A slice of the second part. -/
theorem slice_right {first rest : List (Row K d)} (h : first ++ rest = (List.range n).map keyAt)
    (x : Nat) {y : Nat} (hy : y ≤ rest.length) :
    slice rest x y = (List.range' (first.length + x) (y - x)).map keyAt := by
  have hlen := congrArg List.length h
  rw [List.length_append, List.length_map, List.length_range] at hlen
  have hrest : slice (first ++ rest) (first.length + x) (first.length + y) = slice rest x y := by
    rw [slice_append, slice_nil_of_le (by omega), Nat.add_sub_cancel_left, Nat.add_sub_cancel_left,
      List.nil_append]
  rw [← hrest, h, ← map_slice, slice_range (by omega), Nat.add_sub_add_left]

theorem runContext_tiles (hs : s.Valid) (hkeys : s.contextK ++ s.key = (List.range n).map keyAt)
    (hvalues : s.contextV ++ s.value = (List.range n).map valueAt)
    {spans : List (Nat × Nat × Nat × Nat)}
    (hspans : prefixContextTileSpans s.blockContextLen s.prefixKey.length s.tileSz = .ok spans)
    (head row : Nat) (q : Row K d) (running : Option (Running K (Fin d))) :
    s.runContext head q (spans.map s.contextTile) running =
      (rangeTiles 0 s.contextK.length s.tileSz).foldl
        (s.tileStep keyAt valueAt head (s.contextK.length + row) q) running := by
  have hV : s.contextV.length = s.contextK.length := by rw [length_contextV hs, length_contextK]
  -- No position of the context is masked.
  have hstep : ∀ (running : Option (Running K (Fin d))) (x y : Nat), y ≤ s.contextK.length →
      updateOnlineSoftmax (s.scores head q (slice s.contextK x y))
        (s.headValues head (slice s.contextV x y)) running =
      s.tileStep keyAt valueAt head (s.contextK.length + row) q running (List.range' x (y - x)) := by
    intro running x y hy
    rw [slice_left hkeys x hy, slice_left hvalues x (hV ▸ hy), updateOnlineSoftmax, scores,
      headValues, List.map_map, List.map_map, List.map_map, tileStep]
    refine congrArg (updateOnlineSoftmaxFromScores · _ _) (List.map_congr_left fun p hp => ?_)
    obtain ⟨hle, hlt⟩ := List.mem_range'_1.mp hp
    rw [if_neg (by omega)]
    rfl
  rw [spans_ok hs] at hspans
  rw [← Except.ok.inj hspans, runContext, List.map_map, List.foldl_map, rangeTiles, List.foldl_map]
  congr 1
  funext running i
  rw [Nat.zero_add, ← hstep running _ _ (Nat.min_le_right _ _), Function.comp_apply,
    contextTile_eq hs]

theorem runCurrent_tiles (hs : s.Valid) (hkeys : s.contextK ++ s.key = (List.range n).map keyAt)
    (hvalues : s.contextV ++ s.value = (List.range n).map valueAt)
    (head row : Nat) (q : Row K d) (running : Option (Running K (Fin d))) :
    s.runCurrent head row q running =
      (rangeTiles s.contextK.length s.query.length s.tileSz).foldl
        (s.tileStep keyAt valueAt head (s.contextK.length + row) q) running := by
  have hV : s.contextV.length = s.contextK.length := by rw [length_contextV hs, length_contextK]
  have hkey : ∀ x, min x s.query.length ≤ s.key.length := fun x => by
    rw [hs.key]
    exact Nat.min_le_right _ _
  have hvalue : ∀ x, min x s.query.length ≤ s.value.length := fun x => by
    rw [hs.value]
    exact Nat.min_le_right _ _
  rw [runCurrent, rangeTiles, List.foldl_map]
  congr 1
  funext running i
  dsimp only
  rw [slice_right hkeys _ (hkey _), slice_right hvalues _ (hvalue _), hV, scores, headValues,
    List.map_map, List.map_map]
  exact congrArg (updateOnlineSoftmaxFromScores · _ _) (mapIdx_range' _ row _ _ _)

/-- The rows of a segment are computed from `tiles`, by position, and not by the fused kernels. -/
structure Tiled (s : Segment K d) (keyAt valueAt : Nat → Row K d) (tiles : List (List Nat)) :
    Prop where
  positions : s.tilePositions = .ok tiles
  rows : forwardPrefixSegmentPytorch s = .ok (s.query.mapIdx fun row q head =>
    divide (tiles.foldl
      (s.tileStep keyAt valueAt head (s.blockContextLen + s.prefixKey.length + row) q)
      (some Running.init)))
  not_fused : ∀ a : SegmentArgs K, a.segment d = s → a.isSupported = false

omit [OrderedExpField K] in
/-- The fused kernels do not get a segment of one block. -/
theorem not_supported {a : SegmentArgs K} (h : a.query.size 0 ≤ a.blockSize) :
    a.isSupported = false := by
  have hnext : ∀ {p q : Prop} [Decidable p] [Decidable q] {r : Bool}, q →
      (if p then false else if q then false else r) = false := by
    intro p q _ _ r hq
    by_cases hp : p
    · rw [if_pos hp]
    · rw [if_neg hp, if_pos hq]
  unfold SegmentArgs.isSupported
  by_cases hlen : a.query.size 0 ≤ 16
  · exact if_pos (.inl hlen)
  · refine hnext fun hshape => ?_
    rw [Prod.mk.injEq, Prod.mk.injEq, Prod.mk.injEq, Prod.mk.injEq] at hshape
    omega

theorem tiled (hs : s.Valid) (hkeys : s.contextK ++ s.key = (List.range n).map keyAt)
    (hvalues : s.contextV ++ s.value = (List.range n).map valueAt)
    (hlen : s.query.length ≤ s.cache.blockSize) :
    s.Tiled keyAt valueAt (rangeTiles 0 (s.blockContextLen + s.prefixKey.length) s.tileSz ++
      rangeTiles (s.blockContextLen + s.prefixKey.length) s.query.length s.tileSz) where
  positions := tilePositions_eq hs
  rows := by
    have hspans := spans_ok hs
    rw [forwardPrefixSegment_ok hs hspans]
    refine congrArg Except.ok (congrArg (List.mapIdx · s.query) ?_)
    funext row q head
    rw [runContext_tiles hs hkeys hvalues hspans head row, runCurrent_tiles hs hkeys hvalues,
      ← List.foldl_append, length_contextK]
  not_fused := by
    rintro a rfl
    refine not_supported ?_
    have htokens : (a.segment d).query.length = a.query.size 0 :=
      (List.length_map _).trans List.length_range
    rw [htokens] at hlen
    exact hlen

end Segment

/-! ## The segment at the strict prefix -/

namespace Batch

variable {b : Batch K d} {i segStart tileSz : Nat}

/-- The inputs of the segment of sequence `i` from `segStart` on, for any tile size. -/
def lastSegment (b : Batch K d) (i segStart tileSz : Nat) : Segment K d :=
  { b.segment i segStart (b.qLen i) with tileSz := tileSz }

omit [OrderedExpField K] in
/-- The code has tiles of `blocksPerTile` blocks. -/
theorem lastSegment_eq (b : Batch K d) (i segStart : Nat) :
    b.lastSegment i segStart (b.blocksPerTile * b.cache.blockSize) =
      b.segment i segStart (b.qLen i) := rfl

theorem lastSegment_valid (hb : b.Valid) (hi : i < b.contextLens.length) (hle : segStart ≤ b.qLen i)
    (ht : 0 < tileSz) : (b.lastSegment i segStart tileSz).Valid :=
  { segment_valid hb hi hle (Nat.le_refl _) with tileSz := ht }

/-- The keys and the values of a segment, by position. -/
theorem lastSegment_tokens (hb : b.Valid) (hi : i < b.contextLens.length)
    (hle : segStart ≤ b.qLen i) (tileSz : Nat) :
    (b.lastSegment i segStart tileSz).contextK ++ (b.lastSegment i segStart tileSz).key =
        (List.range (b.contextLen i + b.qLen i)).map (b.logicalKey i) ∧
      (b.lastSegment i segStart tileSz).contextV ++ (b.lastSegment i segStart tileSz).value =
        (List.range (b.contextLen i + b.qLen i)).map (b.logicalValue i) := by
  have hquery := hb.query i hi
  have hstop := hb.queryEnd i hi
  unfold qLen at hquery hle
  have hlen : b.qStart i + b.qLen i = b.qStart (i + 1) := by
    unfold qLen
    omega
  constructor
  · rw [← logicalKeys_eq hb hi (hlen.trans_le hstop), Segment.contextK, List.append_assoc]
    refine congrArg _ (slice_append_slice _ (by omega) (by omega) ?_)
    rw [hb.key, hlen]
    exact hstop
  · rw [← logicalValues_eq hb hi (hlen.trans_le hstop), Segment.contextV, List.append_assoc]
    refine congrArg _ (slice_append_slice _ (by omega) (by omega) ?_)
    rw [hb.value, hlen]
    exact hstop

/-- The last segment of a query starts at the strict prefix. -/
theorem strictPrefix_last {contextLen queryLen blockSize : Nat} (hpos : 0 < queryLen)
    (haligned : blockSize ∣ contextLen) :
    contextLen ≤ strictPrefixLen (contextLen + queryLen) blockSize ∧
      (strictPrefixQuerySegments contextLen queryLen blockSize).getLast? =
        some (strictPrefixLen (contextLen + queryLen) blockSize - contextLen, queryLen,
          strictPrefixLen (contextLen + queryLen) blockSize) := by
  obtain ⟨m, rfl⟩ := haligned
  have hle : blockSize * m ≤ strictPrefixLen (blockSize * m + queryLen) blockSize := by
    rcases Nat.eq_zero_or_pos blockSize with rfl | hsize
    · simp
    · unfold strictPrefixLen
      rw [Nat.mul_comm]
      refine Nat.mul_le_mul_right _ ((Nat.le_div_iff_mul_le hsize).mpr ?_)
      rw [Nat.mul_comm]
      omega
  have hlt : strictPrefixLen (blockSize * m + queryLen) blockSize < blockSize * m + queryLen := by
    have hmul := Nat.div_mul_le_self (blockSize * m + queryLen - 1) blockSize
    unfold strictPrefixLen
    omega
  refine ⟨hle, ?_⟩
  unfold strictPrefixQuerySegments
  rw [if_neg hpos.ne']
  dsimp only
  change (if 0 < strictPrefixLen (blockSize * m + queryLen) blockSize - blockSize * m ∧
    strictPrefixLen (blockSize * m + queryLen) blockSize - blockSize * m < queryLen then _ else
    _ : List (Nat × Nat × Nat)).getLast? = _
  by_cases hsplit : 0 < strictPrefixLen (blockSize * m + queryLen) blockSize - blockSize * m
  · rw [if_pos ⟨hsplit, by omega⟩]
    rfl
  · rw [if_neg fun h => hsplit h.1]
    have heq : strictPrefixLen (blockSize * m + queryLen) blockSize = blockSize * m := by omega
    rw [heq, Nat.sub_self]
    rfl

/-- What `_forward_prefix_pytorch` does with the last segment of sequence `i`. -/
def RunsStrict (b : Batch K d) (i tileSz : Nat) (tiles : List (List Nat)) : Prop :=
  ∃ segStart, (strictPrefixQuerySegments (b.ctxLen i) (b.qLen i) b.cache.blockSize).getLast? =
      some (segStart, b.qLen i,
        strictPrefixLen (b.contextLen i + b.qLen i) b.cache.blockSize) ∧
    b.contextLen i + segStart = strictPrefixLen (b.contextLen i + b.qLen i) b.cache.blockSize ∧
    (b.lastSegment i segStart tileSz).Tiled (b.logicalKey i) (b.logicalValue i) tiles

theorem runsStrict (hb : b.Valid) (hi : i < b.contextLens.length) (ht : 0 < tileSz)
    (haligned : b.cache.blockSize ∣ b.contextLen i) :
    b.RunsStrict i tileSz (strictTiles (b.contextLen i + b.qLen i) b.cache.blockSize tileSz) := by
  have hquery := hb.query i hi
  have hstop := hb.queryEnd i hi
  obtain ⟨hle, hlast⟩ := strictPrefix_last hquery haligned
  generalize hstrict : strictPrefixLen (b.contextLen i + b.qLen i) b.cache.blockSize = strict at *
  have hlt : strict < b.contextLen i + b.qLen i := by
    have hmul := Nat.div_mul_le_self (b.contextLen i + b.qLen i - 1) b.cache.blockSize
    unfold strictPrefixLen at hstrict
    omega
  have hblock : b.contextLen i + b.qLen i - strict ≤ b.cache.blockSize := by
    have hdiv := Nat.div_add_mod (b.contextLen i + b.qLen i - 1) b.cache.blockSize
    have hmod := Nat.mod_lt (b.contextLen i + b.qLen i - 1) hb.blockSize
    unfold strictPrefixLen at hstrict
    rw [Nat.mul_comm] at hdiv
    omega
  have hstart : strict - b.contextLen i ≤ b.qLen i := by omega
  refine ⟨strict - b.contextLen i, ?_, ?_, ?_⟩
  · rw [ctxLen_eq hb hi, hstrict]
    exact hlast
  · rw [hstrict]
    omega
  · have hs := lastSegment_valid hb hi hstart ht
    obtain ⟨hkeys, hvalues⟩ := lastSegment_tokens hb hi hstart tileSz
    have hbefore : (b.lastSegment i (strict - b.contextLen i) tileSz).blockContextLen +
        (b.lastSegment i (strict - b.contextLen i) tileSz).prefixKey.length = strict := by
      show b.ctxLen i + (slice b.key _ _).length = _
      unfold qLen at hquery hstart
      rw [ctxLen_eq hb hi, length_slice (by rw [hb.key]; omega)]
      omega
    have hown : (b.lastSegment i (strict - b.contextLen i) tileSz).query.length =
        b.contextLen i + b.qLen i - strict := by
      show (slice b.query _ _).length = _
      unfold qLen at hquery hstart ⊢
      rw [length_slice (by omega)]
      omega
    have htiled := Segment.tiled hs hkeys hvalues (hown.trans_le hblock)
    rw [hbefore, hown] at htiled
    rw [strictTiles, hstrict]
    exact htiled

/-- **A warm and a cold request reduce in the same order.** -/
theorem same_tiles {c : Batch K d} {j : Nat} (hb : b.Valid) (hc : c.Valid)
    (hi : i < b.contextLens.length) (hj : j < c.contextLens.length)
    (hsize : b.cache.blockSize = c.cache.blockSize)
    (htotal : b.contextLen i + b.qLen i = c.contextLen j + c.qLen j)
    (hwarm : b.cache.blockSize ∣ b.contextLen i) (hcold : c.cache.blockSize ∣ c.contextLen j)
    (ht : 0 < tileSz) :
    ∃ tiles, b.RunsStrict i tileSz tiles ∧ c.RunsStrict j tileSz tiles := by
  refine ⟨_, runsStrict hb hi ht hwarm, ?_⟩
  rw [hsize, htotal]
  exact runsStrict hc hj ht hcold

/-- Two prompts of nine tokens, in blocks of four; the first block of one is cached. -/
def warmAndCold : Batch ℝ 1 where
  query := List.replicate 14 fun _ _ => 1
  key := List.replicate 14 fun _ _ => 1
  value := List.replicate 14 fun _ _ => 1
  cache := ⟨4, 1, fun _ _ _ _ _ => 1, fun b _ _ s => ((b * 4 + s : ℕ) : ℝ)⟩
  blockTables := [[1, 0, 2], [3, 4, 5]]
  queryStartLoc := [0, 5, 14]
  contextLens := [4, 0]
  gqaRatio := 1
  blocksPerTile := 1
  scale := 1
  allowCap := false

theorem warmAndCold_valid : warmAndCold.Valid where
  blockSize := by decide
  blocksPerTile := by decide
  query := by decide
  queryEnd := by decide
  key := rfl
  value := rfl
  context := by decide

/-- Tiles of three tokens. -/
theorem same_tiles_warmAndCold :
    ∃ tiles, warmAndCold.RunsStrict 0 3 tiles ∧ warmAndCold.RunsStrict 1 3 tiles :=
  same_tiles warmAndCold_valid warmAndCold_valid (by decide) (by decide) rfl (by decide)
    (by decide) (by decide) (by decide)

end Batch

end Bi100.Attention
