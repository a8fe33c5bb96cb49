import Bi100.Attention.Exact

/-!
# Prefix attention of a batch is causal

- `logicalKey`, `logicalValue`: the token at a position, from the cache or from the chunk.
- `causal`: the softmax-weighted sum over the positions up to the own one.
- `runSegments_spec`, `runBatch_spec`: every row is written once, with this sum.
-/

namespace Bi100.Attention

open Py OnlineSoftmax ExpField

variable {K : Type} [OrderedExpField K] {d : Nat}

namespace Batch

/-- The context length of sequence `i`. -/
def contextLen (b : Batch K d) (i : Nat) : Nat := (b.contextLens.getD i 0).toNat

def qLen (b : Batch K d) (i : Nat) : Nat := b.qStart (i + 1) - b.qStart i

/-- The key at a position of sequence `i`. -/
def logicalKey (b : Batch K d) (i p : Nat) : Row K d :=
  if p < b.contextLen i then fun head c =>
    b.cache.keyCache ((b.blockTables.getD i []).getD (p / b.cache.blockSize) 0) head
      (c / b.cache.x) (p % b.cache.blockSize) (c % b.cache.x)
  else b.key.getD (b.qStart i + (p - b.contextLen i)) fun _ _ => 0

/-- The value at a position of sequence `i`. -/
def logicalValue (b : Batch K d) (i p : Nat) : Row K d :=
  if p < b.contextLen i then fun head c =>
    b.cache.valueCache ((b.blockTables.getD i []).getD (p / b.cache.blockSize) 0) head c
      (p % b.cache.blockSize)
  else b.value.getD (b.qStart i + (p - b.contextLen i)) fun _ _ => 0

/-- The exponential of the scaled score of a position. -/
def expScore (b : Batch K d) (i head : Nat) (q : Row K d) (p : Nat) : K :=
  exp (∑ c, q head c * b.scale * b.logicalKey i p (head / b.gqaRatio) c)

/-- The softmax-weighted sum of the values at the positions up to `pos`. -/
def causal (b : Batch K d) (i pos : Nat) (q : Row K d) : OutRow K d := fun head c =>
  some ((∑ p ∈ Finset.range (pos + 1),
      b.expScore i head q p * b.logicalValue i p (head / b.gqaRatio) c) /
    ∑ p ∈ Finset.range (pos + 1), b.expScore i head q p)

/-- What the callers of `_forward_prefix_pytorch` provide. -/
structure Valid (b : Batch K d) : Prop where
  blockSize : 0 < b.cache.blockSize
  blocksPerTile : 0 < b.blocksPerTile
  query : ∀ i < b.contextLens.length, 1 ≤ b.qLen i
  queryEnd : ∀ i < b.contextLens.length, b.qStart (i + 1) ≤ b.query.length
  key : b.key.length = b.query.length
  value : b.value.length = b.query.length
  context : ∀ i < b.contextLens.length, 0 ≤ b.contextLens.getD i 0 ∧
    b.contextLen i ≤ (b.blockTables.getD i []).length * b.cache.blockSize

variable {b : Batch K d} {i : Nat}

/-! ## The logical sequence -/

theorem ctxLen_eq (hb : b.Valid) (hi : i < b.contextLens.length) : b.ctxLen i = b.contextLen i := by
  obtain ⟨hpos, hle⟩ := hb.context i hi
  unfold contextLen at hle
  unfold ctxLen contextLen
  rw [if_neg (by omega)]

/-- A list that continues with a slice, by position. -/
theorem range_append_slice {first : Nat → Row K d} {tokens : List (Row K d)} {n qs a : Nat}
    (ha : qs + a ≤ tokens.length) :
    (List.range n).map first ++ slice tokens qs (qs + a) = (List.range (n + a)).map fun p =>
      if p < n then first p else tokens.getD (qs + (p - n)) fun _ _ => 0 := by
  refine List.ext_getElem? fun p => ?_
  rw [List.getElem?_append, List.length_map, List.length_range, List.getElem?_map,
    List.getElem?_map, getElem?_slice]
  by_cases hp : p < n
  · rw [if_pos hp, List.getElem?_range hp, List.getElem?_range (by omega), Option.map_some,
      Option.map_some, if_pos hp]
  · rw [if_neg hp]
    by_cases hlt : p < n + a
    · have hget : qs + (p - n) < tokens.length := by omega
      rw [if_pos (by omega), List.getElem?_range hlt, Option.map_some, if_neg hp,
        List.getD_eq_getElem?_getD, List.getElem?_eq_getElem hget, Option.getD_some]
    · rw [if_neg (by omega), List.getElem?_eq_none (by rw [List.length_range]; omega)]
      rfl

theorem logicalKeys_eq (hb : b.Valid) (hi : i < b.contextLens.length) {a : Nat}
    (ha : b.qStart i + a ≤ b.query.length) :
    b.cache.contextKeys d (b.blockTables.getD i []) (b.ctxLen i) ++
        slice b.key (b.qStart i) (b.qStart i + a) =
      (List.range (b.contextLen i + a)).map (b.logicalKey i) := by
  rw [PagedCache.contextKeys, ctxLen_eq hb hi, range_append_slice (hb.key.symm ▸ ha)]
  rfl

theorem logicalValues_eq (hb : b.Valid) (hi : i < b.contextLens.length) {a : Nat}
    (ha : b.qStart i + a ≤ b.query.length) :
    b.cache.contextValues d (b.blockTables.getD i []) (b.ctxLen i) ++
        slice b.value (b.qStart i) (b.qStart i + a) =
      (List.range (b.contextLen i + a)).map (b.logicalValue i) := by
  rw [PagedCache.contextValues, ctxLen_eq hb hi, range_append_slice (hb.value.symm ▸ ha)]
  rfl

theorem sum_range_map {f : Nat → K} (n : Nat) :
    ((List.range n).map f).sum = ∑ p ∈ Finset.range n, f p := by
  induction n with
  | zero => rfl
  | succ n ih => rw [List.range_succ, List.map_append, List.sum_append, ih, Finset.sum_range_succ,
      List.map_singleton, List.sum_singleton]

/-- Attention to a prefix of the logical sequence. -/
theorem attend_eq_causal {n pos : Nat} (hpos : pos < n) (head : Nat) (q : Row K d) (c : Fin d) :
    some (attend b.scale b.gqaRatio head q ((List.range n).map (b.logicalKey i))
      ((List.range n).map (b.logicalValue i)) (pos + 1) c) = b.causal i pos q head c := by
  have hentries : (entries b.scale b.gqaRatio head q ((List.range n).map (b.logicalKey i))
      ((List.range n).map (b.logicalValue i))).take (pos + 1) =
      (List.range (pos + 1)).map fun p =>
        entry b.scale b.gqaRatio head q (b.logicalKey i p) (b.logicalValue i p) := by
    rw [entries, List.take_zipWith, ← List.map_take, ← List.map_take, List.take_range,
      Nat.min_eq_left hpos, List.zipWith_map, List.zipWith_self]
  have hweight : ∀ p, weight 0
      (entry b.scale b.gqaRatio head q (b.logicalKey i p) (b.logicalValue i p)).1 =
      b.expScore i head q p := fun p => congrArg exp (sub_zero _)
  refine congrArg some ?_
  rw [attend, hentries, average, totalOut, total, List.map_map, List.map_map, ← sum_range_map,
    ← sum_range_map]
  congr 2
  · refine List.map_congr_left fun p _ => ?_
    rw [Function.comp_apply, hweight]
    rfl
  · exact List.map_congr_left fun p _ => hweight p

/-! ## The segments of a sequence -/

/-- Segments that follow each other from `start` to `stop`. -/
def Consecutive : Nat → List (Nat × Nat × Nat) → Nat → Prop
  | start, [], stop => start = stop
  | start, (segStart, segEnd, _) :: rest, stop =>
    segStart = start ∧ start ≤ segEnd ∧ Consecutive segEnd rest stop

theorem Consecutive.le {segs : List (Nat × Nat × Nat)} {start stop : Nat}
    (h : Consecutive start segs stop) : start ≤ stop := by
  induction segs generalizing start with
  | nil => exact Nat.le_of_eq h
  | cons seg rest ih => exact h.2.1.trans (ih h.2.2)

/-- The segments cover the query. -/
theorem strictPrefix_consecutive (contextLen queryLen blockSize : Nat) :
    Consecutive 0 (strictPrefixQuerySegments contextLen queryLen blockSize) queryLen := by
  unfold strictPrefixQuerySegments
  split
  · next h => exact h.symm
  · dsimp only
    split
    · next h => exact ⟨rfl, Nat.zero_le _, rfl, h.2.le, rfl⟩
    · exact ⟨rfl, Nat.zero_le _, rfl⟩

theorem segment_valid (hb : b.Valid) (hi : i < b.contextLens.length) {segStart segEnd : Nat}
    (hle : segStart ≤ segEnd) (hend : segEnd ≤ b.qLen i) : (b.segment i segStart segEnd).Valid := by
  have hquery := hb.query i hi
  have hstop := hb.queryEnd i hi
  unfold qLen at hquery hend
  exact {
    blockSize := hb.blockSize
    tileSz := Nat.mul_pos hb.blocksPerTile hb.blockSize
    table := by
      show b.ctxLen i ≤ (b.blockTables.getD i []).length * b.cache.blockSize
      rw [ctxLen_eq hb hi]
      exact (hb.context i hi).2
    key := by
      show (slice b.key _ _).length = (slice b.query _ _).length
      rw [length_slice (by rw [hb.key]; omega), length_slice (by omega)]
    value := by
      show (slice b.value _ _).length = (slice b.query _ _).length
      rw [length_slice (by rw [hb.value]; omega), length_slice (by omega)]
    prefixes := by
      show (slice b.value _ _).length = (slice b.key _ _).length
      rw [length_slice (by rw [hb.value]; omega), length_slice (by rw [hb.key]; omega)] }

/-- The rows of a segment. -/
theorem segment_rows (hb : b.Valid) (hi : i < b.contextLens.length) {segStart segEnd : Nat}
    (hle : segStart ≤ segEnd) (hend : segEnd ≤ b.qLen i) :
    forwardPrefixSegmentPytorch (b.segment i segStart segEnd) =
      .ok ((slice b.query (b.qStart i + segStart) (b.qStart i + segEnd)).mapIdx fun row =>
        b.causal i (b.contextLen i + segStart + row)) := by
  have hs := segment_valid hb hi hle hend
  have hquery := hb.query i hi
  have hstop := hb.queryEnd i hi
  unfold qLen at hquery hend
  have hkeys : (b.segment i segStart segEnd).contextK ++ (b.segment i segStart segEnd).key =
      (List.range (b.contextLen i + segEnd)).map (b.logicalKey i) := by
    rw [← logicalKeys_eq hb hi (by omega), Segment.contextK, List.append_assoc]
    refine congrArg _ (slice_append_slice _ (by omega) (by omega) ?_)
    rw [hb.key]
    omega
  have hvalues : (b.segment i segStart segEnd).contextV ++ (b.segment i segStart segEnd).value =
      (List.range (b.contextLen i + segEnd)).map (b.logicalValue i) := by
    rw [← logicalValues_eq hb hi (by omega), Segment.contextV, List.append_assoc]
    refine congrArg _ (slice_append_slice _ (by omega) (by omega) ?_)
    rw [hb.value]
    omega
  have hcontext : (b.segment i segStart segEnd).contextK.length = b.contextLen i + segStart := by
    rw [Segment.length_contextK, ← ctxLen_eq hb hi]
    refine congrArg _ ((length_slice ?_).trans (Nat.add_sub_cancel_left _ _))
    rw [hb.key]
    omega
  rw [Segment.forwardPrefixSegment_exact hs, hkeys, hvalues, hcontext]
  refine congrArg Except.ok (List.ext_getElem? fun row => ?_)
  rw [List.getElem?_mapIdx, List.getElem?_mapIdx]
  show ((slice b.query _ _)[row]?).map _ = _
  rw [getElem?_slice]
  by_cases hrow : b.qStart i + segStart + row < b.qStart i + segEnd
  · rw [if_pos hrow]
    refine congrArg (Option.map · _) (funext fun q => funext fun head => funext fun c => ?_)
    exact attend_eq_causal (by omega) head q c
  · rw [if_neg hrow]
    rfl

theorem write_row {rows : List (OutRow K d)} {j : Nat} (h : j < rows.length) (output : Output K d)
    (start : Nat) : output.write start rows (start + j) = rows[j]? := by
  rw [Output.write, if_pos (by omega), Nat.add_sub_cancel_left]

theorem write_other {rows : List (OutRow K d)} {start t : Nat}
    (h : t < start ∨ start + rows.length ≤ t) (output : Output K d) :
    output.write start rows t = output t := by
  rw [Output.write, if_neg (by omega)]

/-- The rows of the sequence from `start` to `stop` are written, the others are left. -/
theorem runSegments_spec (hb : b.Valid) (hi : i < b.contextLens.length)
    {segs : List (Nat × Nat × Nat)} {start stop : Nat} (h : Consecutive start segs stop)
    (hstop : stop ≤ b.qLen i) (output : Output K d) :
    ∃ output', b.runSegments i segs output = .ok output' ∧
      (∀ r, start ≤ r → r < stop → output' (b.qStart i + r) =
        b.query[b.qStart i + r]?.map (b.causal i (b.contextLen i + r))) ∧
      ∀ t, (t < b.qStart i + start ∨ b.qStart i + stop ≤ t) → output' t = output t := by
  induction segs generalizing start output with
  | nil =>
    obtain rfl : start = stop := h
    exact ⟨output, rfl, fun r _ _ => by omega, fun t _ => rfl⟩
  | cons seg rest ih =>
    obtain ⟨segStart, segEnd, _⟩ := seg
    obtain ⟨rfl, hle, hrest⟩ := h
    have hseg := hrest.le
    have hquery := hb.query i hi
    have hend := hb.queryEnd i hi
    unfold qLen at hquery hstop
    have hrows := segment_rows hb hi hle (hseg.trans hstop)
    have hlen : ((slice b.query (b.qStart i + segStart) (b.qStart i + segEnd)).mapIdx fun row =>
        b.causal i (b.contextLen i + segStart + row)).length = segEnd - segStart := by
      rw [List.length_mapIdx, length_slice (by omega)]
      omega
    obtain ⟨output', hrun, hwritten, hother⟩ := ih hrest (output.write (b.qStart i + segStart)
      ((slice b.query (b.qStart i + segStart) (b.qStart i + segEnd)).mapIdx fun row =>
        b.causal i (b.contextLen i + segStart + row)))
    refine ⟨output', ?_, fun r hstart hr => ?_, fun t ht => ?_⟩
    · rw [runSegments, hrows]
      exact hrun
    · by_cases hnext : segEnd ≤ r
      · exact hwritten r hnext hr
      · have hidx : b.qStart i + r = b.qStart i + segStart + (r - segStart) := by omega
        have hpos : b.contextLen i + segStart + (r - segStart) = b.contextLen i + r := by omega
        rw [hother _ (.inl (by omega)), hidx, write_row (by omega), List.getElem?_mapIdx,
          getElem?_slice, if_pos (by omega), hpos]
    · rw [hother t (by omega), write_other (by omega)]

/-! ## The batch -/

/-- The sequences from `i` on are written. -/
theorem runBatch_spec (hb : b.Valid) {n : Nat} (hi : i + n ≤ b.contextLens.length)
    (output : Output K d) :
    ∃ output', b.runBatch (List.range' i n) output = .ok output' ∧
      (∀ j, i ≤ j → j < i + n → ∀ r < b.qLen j, output' (b.qStart j + r) =
        b.query[b.qStart j + r]?.map (b.causal j (b.contextLen j + r))) ∧
      ∀ t < b.qStart i, output' t = output t := by
  induction n generalizing i output with
  | zero => exact ⟨output, rfl, fun j _ _ => by omega, fun t _ => rfl⟩
  | succ n ih =>
    have hquery := hb.query i (by omega)
    have hcover := strictPrefix_consecutive (b.ctxLen i) (b.qLen i) b.cache.blockSize
    obtain ⟨output₁, hrun, hwritten, hother⟩ :=
      runSegments_spec hb (by omega) hcover (Nat.le_refl _) output
    obtain ⟨output₂, hrest, hnext, hkept⟩ := ih (i := i + 1) (by omega) output₁
    have hqLen : b.qLen i = b.qStart (i + 1) - b.qStart i := rfl
    refine ⟨output₂, ?_, fun j hij hj r hr => ?_, fun t ht => ?_⟩
    · rw [List.range'_succ, runBatch]
      rw [hqLen] at hrun
      rw [hrun]
      exact hrest
    · by_cases hji : j = i
      · subst hji
        rw [hkept _ (by omega), hwritten r (Nat.zero_le r) hr]
      · exact hnext j (by omega) (by omega) r hr
    · rw [hkept t (by omega), hother t (.inl (by omega))]

/-- **Prefix attention is exact causal attention.** Every query token of every sequence gets the
softmax-weighted sum of the values at the positions up to its own. -/
theorem forwardPrefix_causal (hb : b.Valid) : ∃ output, forwardPrefixPytorch b = .ok output ∧
    ∀ i < b.contextLens.length, ∀ r < b.qLen i, ∃ q, b.query[b.qStart i + r]? = some q ∧
      output (b.qStart i + r) = some (b.causal i (b.contextLen i + r) q) := by
  obtain ⟨output, hrun, hwritten, -⟩ :=
    runBatch_spec hb (i := 0) (Nat.le_of_eq (Nat.zero_add _)) fun _ => none
  refine ⟨output, ?_, fun i hi r hr => ?_⟩
  · rw [forwardPrefixPytorch, List.range_eq_range']
    exact hrun
  · have hend := hb.queryEnd i hi
    have hrow : b.qStart i + r < b.query.length := by
      unfold qLen at hr
      omega
    refine ⟨_, List.getElem?_eq_getElem hrow, ?_⟩
    rw [hwritten i (Nat.zero_le i) (by omega) r hr, List.getElem?_eq_getElem hrow]
    rfl

/-- Six tokens of context in blocks of four, then a sequence without context. -/
def twoSequences : Batch ℝ 1 where
  query := List.replicate 5 fun _ _ => 1
  key := List.replicate 5 fun _ _ => 1
  value := List.replicate 5 fun _ _ => 1
  cache := ⟨4, 1, fun _ _ _ _ _ => 1, fun b _ _ s => b * 4 + s⟩
  blockTables := [[1, 0], [2, 2]]
  queryStartLoc := [0, 3, 5]
  contextLens := [6, 0]
  gqaRatio := 1
  blocksPerTile := 1
  scale := 1
  allowCap := false

theorem twoSequences_valid : twoSequences.Valid where
  blockSize := by decide
  blocksPerTile := by decide
  query := by decide
  queryEnd := by decide
  key := rfl
  value := rfl
  context := by decide

/-- The last token of the first sequence. -/
theorem forwardPrefix_causal_twoSequences : ∃ output,
    forwardPrefixPytorch twoSequences = .ok output ∧
      output 2 = some (twoSequences.causal 0 8 fun _ _ => 1) := by
  obtain ⟨output, hrun, hrows⟩ := forwardPrefix_causal twoSequences_valid
  obtain ⟨q, hq, hrow⟩ := hrows 0 (by decide) 2 (by decide)
  obtain rfl : (fun _ _ => 1) = q := Option.some.inj hq
  exact ⟨output, hrun, hrow⟩

end Batch

end Bi100.Attention
