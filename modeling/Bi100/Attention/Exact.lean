import Bi100.Attention.Prefix

/-!
# Prefix attention is exact causal attention

- `contextKeys`, `contextValues`: the tokens of the context, by position, through the block table.
- `contextTiles_flatten`: the context tiles are these tokens and the earlier tokens of the query.
- `forwardPrefixSegment_exact`: a segment, from the running values of its tiles.
-/

namespace Bi100.Attention

open Py OnlineSoftmax

variable {K : Type} [OrderedExpField K] {d : Nat}

/-! ## Exact attention -/

/-- The keys of the context, by position. -/
def PagedCache.contextKeys (cache : PagedCache K) (d : Nat) (table : List Nat) (n : Nat) :
    List (Row K d) :=
  (List.range n).map fun p head c =>
    cache.keyCache (table.getD (p / cache.blockSize) 0) head (c / cache.x) (p % cache.blockSize)
      (c % cache.x)

/-- The values of the context, by position. -/
def PagedCache.contextValues (cache : PagedCache K) (d : Nat) (table : List Nat) (n : Nat) :
    List (Row K d) :=
  (List.range n).map fun p head c =>
    cache.valueCache (table.getD (p / cache.blockSize) 0) head c (p % cache.blockSize)

/-- The scaled score of a key, and its value. -/
def entry (scale : K) (gqaRatio head : Nat) (q k v : Row K d) : Entry K (Fin d) :=
  ((∑ c, q head c * scale * k (head / gqaRatio) c : K), v (head / gqaRatio))

/-- The entries of all keys. -/
def entries (scale : K) (gqaRatio head : Nat) (q : Row K d) (keys values : List (Row K d)) :
    List (Entry K (Fin d)) :=
  List.zipWith (entry scale gqaRatio head q) keys values

/-- Attention to the first `n` keys. -/
def attend (scale : K) (gqaRatio head : Nat) (q : Row K d) (keys values : List (Row K d)) (n : Nat)
    (c : Fin d) : K :=
  average ((entries scale gqaRatio head q keys values).take n) c

/-! ## Paged blocks -/

section Paged

variable {cache : PagedCache K} {table : List Nat}

theorem getElem?_blocks {g : Nat → Nat → Row K d} {size n : Nat} (hsize : 0 < size)
    (hn : n ≤ table.length * size) :
    (table.flatMap fun b => (List.range size).map (g b)).take n =
      (List.range n).map fun p => g (table.getD (p / size) 0) (p % size) := by
  refine List.ext_getElem? fun p => ?_
  rw [List.getElem?_map]
  by_cases hp : p < n
  · have hblock : p / size < table.length := (Nat.div_lt_iff_lt_mul hsize).mpr (hp.trans_le hn)
    rw [List.getElem?_take_of_lt hp, List.getElem?_range hp,
      getElem?_flatMap_rows (fun b => (List.length_map _).trans List.length_range) hsize,
      List.getElem?_eq_getElem hblock, Option.bind_some, List.getElem?_map,
      List.getElem?_range (Nat.mod_lt p hsize)]
    simp [hblock]
  · rw [List.getElem?_eq_none (by rw [List.length_take]; omega),
      List.getElem?_eq_none (by rw [List.length_range]; omega)]
    rfl

/-- The blocks of a range of positions. -/
theorem slice_blocks {g : Nat → Nat → Row K d} {size n a b : Nat} (hsize : 0 < size)
    (hn : n ≤ table.length * size) (hab : a < b) (hb : b ≤ n) :
    slice ((slice table (a / size) ((b + size - 1) / size)).flatMap fun blk =>
        (List.range size).map (g blk)) (a - a / size * size) (a - a / size * size + (b - a)) =
      slice ((List.range n).map fun p => g (table.getD (p / size) 0) (p % size)) a b := by
  have hfirst := Nat.div_mul_le_self a size
  have hlast : b ≤ (b + size - 1) / size * size := by
    have hdiv := Nat.div_add_mod (b + size - 1) size
    have hmod := Nat.mod_lt (b + size - 1) hsize
    rw [Nat.mul_comm] at hdiv
    omega
  have hstart : a / size * size + (a - a / size * size) = a := by omega
  have hend : a / size * size + (a - a / size * size + (b - a)) = b := by omega
  rw [flatMap_slice (fun blk => (List.length_map _).trans List.length_range) hsize,
    slice_slice _ (by omega), hstart, hend, ← getElem?_blocks hsize hn, slice_take _ _ hb]

end Paged

/-! ## The tiles of a segment -/

namespace Segment

variable {s : Segment K d}

/-- The context of a segment: the cached tokens and the earlier tokens of the query. -/
def contextK (s : Segment K d) : List (Row K d) :=
  s.cache.contextKeys d s.blockTable s.blockContextLen ++ s.prefixKey

def contextV (s : Segment K d) : List (Row K d) :=
  s.cache.contextValues d s.blockTable s.blockContextLen ++ s.prefixValue

/-- What the callers of a segment provide. -/
structure Valid (s : Segment K d) : Prop where
  blockSize : 0 < s.cache.blockSize
  tileSz : 0 < s.tileSz
  table : s.blockContextLen ≤ s.blockTable.length * s.cache.blockSize
  key : s.key.length = s.query.length
  value : s.value.length = s.query.length
  prefixes : s.prefixValue.length = s.prefixKey.length

theorem length_contextK (s : Segment K d) :
    s.contextK.length = s.blockContextLen + s.prefixKey.length := by
  rw [contextK, List.length_append, PagedCache.contextKeys, List.length_map, List.length_range]

theorem length_contextV (hs : s.Valid) :
    s.contextV.length = s.blockContextLen + s.prefixKey.length := by
  rw [contextV, List.length_append, PagedCache.contextValues, List.length_map, List.length_range,
    hs.prefixes]

/-- A tile is a slice of the context. -/
theorem contextTile_eq (hs : s.Valid) (a b : Nat) :
    s.contextTile (min a s.blockContextLen, min b s.blockContextLen, a - s.blockContextLen,
      b - s.blockContextLen) = (slice s.contextK a b, slice s.contextV a b) := by
  have hof : ∀ (blocks : List (Row K d)) (context : List (Row K d)) (tokens : List (Row K d)),
      context.length = s.blockContextLen →
      (min a s.blockContextLen < min b s.blockContextLen →
        slice blocks (min a s.blockContextLen - min a s.blockContextLen / s.cache.blockSize *
          s.cache.blockSize) (min a s.blockContextLen - min a s.blockContextLen / s.cache.blockSize *
          s.cache.blockSize + (min b s.blockContextLen - min a s.blockContextLen)) =
          slice context (min a s.blockContextLen) (min b s.blockContextLen)) →
      ((if min a s.blockContextLen < min b s.blockContextLen then slice blocks
          (min a s.blockContextLen - min a s.blockContextLen / s.cache.blockSize *
            s.cache.blockSize) (min a s.blockContextLen - min a s.blockContextLen /
            s.cache.blockSize * s.cache.blockSize +
            (min b s.blockContextLen - min a s.blockContextLen)) else []) ++
        if a - s.blockContextLen < b - s.blockContextLen then
          slice tokens (a - s.blockContextLen) (b - s.blockContextLen) else []) =
        slice (context ++ tokens) a b := by
    intro blocks context tokens hlen hblocks
    rw [slice_append, hlen]
    congr 1
    · split
      · next h => exact hblocks h
      · next h => exact (slice_nil_of_le (Nat.le_of_not_lt h)).symm
    · split
      · rfl
      · next h => exact (slice_nil_of_le (Nat.le_of_not_lt h)).symm
  refine Prod.ext ?_ ?_
  · refine hof _ (s.cache.contextKeys d s.blockTable s.blockContextLen) _ ?_ fun h => ?_
    · rw [PagedCache.contextKeys, List.length_map, List.length_range]
    · exact slice_blocks hs.blockSize hs.table h (Nat.min_le_right _ _)
  · refine hof _ (s.cache.contextValues d s.blockTable s.blockContextLen) _ ?_ fun h => ?_
    · rw [PagedCache.contextValues, List.length_map, List.length_range]
    · exact slice_blocks hs.blockSize hs.table h (Nat.min_le_right _ _)

theorem spans_ok (hs : s.Valid) :
    prefixContextTileSpans s.blockContextLen s.prefixKey.length s.tileSz =
      .ok ((List.range ((s.contextK.length + s.tileSz - 1) / s.tileSz)).map fun i =>
        (min (i * s.tileSz) s.blockContextLen,
          min (min (i * s.tileSz + s.tileSz) s.contextK.length) s.blockContextLen,
          i * s.tileSz - s.blockContextLen,
          min (i * s.tileSz + s.tileSz) s.contextK.length - s.blockContextLen)) := by
  rw [prefixContextTileSpans, guardNot_bind, if_neg hs.tileSz.ne', length_contextK]
  rfl

end Segment

/-! ## The running values -/

theorem tileMax_zip {scores : List (WithBot K)} {values : List (Fin d → K)}
    (h : scores.length = values.length) : tileMax (scores.zip values) = scores.foldr max ⊥ := by
  induction scores generalizing values with
  | nil => rfl
  | cons s scores ih =>
    cases values with
    | nil => cases h
    | cons v values => exact congrArg (max s) (ih (Nat.succ.inj h))

theorem updateFromScores_eq {scores : List (WithBot K)} {values : List (Fin d → K)}
    (h : scores.length = values.length) (running : Option (Running K (Fin d))) :
    updateOnlineSoftmaxFromScores scores values running =
      running.bind (update · (scores.zip values)) := by
  cases running with
  | none => rfl
  | some r =>
    show updateOnlineSoftmaxFromScores scores values (some r) = update r (scores.zip values)
    unfold updateOnlineSoftmaxFromScores update
    rw [Option.bind_eq_bind, Option.bind_some, tileMax_zip h]
    dsimp only
    cases max r.max (scores.foldr max ⊥) with
    | bot => rfl
    | coe M =>
      have hsum : (scores.map (weight M)).sum = total M (scores.zip values) := by
        conv_lhs => rw [← List.map_fst_zip h.le]
        rw [List.map_map]
        rfl
      have hout : ∀ c, (List.zipWith (fun p (v : Fin d → K) => p * v c) (scores.map (weight M))
          values).sum = totalOut M (scores.zip values) c := fun c => by
        rw [List.zipWith_map_left, totalOut, List.map_zip_eq_zipWith]
        rfl
      refine congrArg some ?_
      unfold Running.rescale
      rw [hsum]
      simp only [hout]

/-! ## A segment -/

theorem zip_scores (scale : K) (gqaRatio head : Nat) (q : Row K d) (keys values : List (Row K d)) :
    ((keys.map fun k => ∑ c, q head c * scale * k (head / gqaRatio) c).map
        fun (s : K) => (s : WithBot K)).zip (values.map fun v => v (head / gqaRatio)) =
      entries scale gqaRatio head q keys values := by
  rw [List.map_map, List.zip_map, entries, ← List.map_uncurry_zip_eq_zipWith]
  rfl

theorem length_entries (scale : K) (gqaRatio head : Nat) (q : Row K d) {keys values : List (Row K d)}
    (h : values.length = keys.length) :
    (entries scale gqaRatio head q keys values).length = keys.length := by
  rw [entries, List.length_zipWith, h, Nat.min_self]

/-- No score is masked before `masked_fill_`. -/
theorem entries_ne_bot (scale : K) (gqaRatio head : Nat) (q : Row K d)
    {keys values : List (Row K d)} :
    ∀ e ∈ entries scale gqaRatio head q keys values, e.1 ≠ ⊥ := by
  intro e he
  rw [entries, ← List.map_uncurry_zip_eq_zipWith, List.mem_map] at he
  obtain ⟨kv, -, rfl⟩ := he
  exact WithBot.coe_ne_bot

theorem slice_entries (scale : K) (gqaRatio head : Nat) (q : Row K d) (keys values : List (Row K d))
    (a b : Nat) : slice (entries scale gqaRatio head q keys values) a b =
      entries scale gqaRatio head q (slice keys a b) (slice values a b) := by
  rw [slice, entries, List.take_zipWith, List.drop_zipWith]
  rfl

omit [OrderedExpField K] in
/-- A tile of the masked entries. -/
theorem slice_maskAfter (row : Nat) (es : List (Entry K (Fin d))) (a b : Nat) :
    slice (maskAfter row es) a b =
      (slice es a b).mapIdx fun j e => if row < a + j then (⊥, e.2) else e := by
  refine List.ext_getElem? fun j => ?_
  rw [getElem?_slice, maskAfter, List.getElem?_mapIdx, List.getElem?_mapIdx, getElem?_slice]
  by_cases h : a + j < b
  · rw [if_pos h, if_pos h]
  · rw [if_neg h, if_neg h]
    rfl

namespace Segment

variable {s : Segment K d}

/-- A tile without a mask. -/
theorem updateOnlineSoftmax_eq (head : Nat) (q : Row K d) {keys values : List (Row K d)}
    (h : values.length = keys.length) (running : Option (Running K (Fin d))) :
    updateOnlineSoftmax (s.scores head q keys) (s.headValues head values) running =
      running.bind (update · (entries s.scale s.gqaRatio head q keys values)) := by
  unfold updateOnlineSoftmax scores headValues
  rw [updateFromScores_eq (by rw [List.length_map, List.length_map, List.length_map, h]),
    zip_scores]

theorem zip_masked (head row a : Nat) (q : Row K d) (keys values : List (Row K d)) :
    ((s.scores head q keys).mapIdx fun j (score : K) =>
        if row < a + j then ⊥ else (score : WithBot K)).zip (s.headValues head values) =
      (entries s.scale s.gqaRatio head q keys values).mapIdx fun j e =>
        if row < a + j then (⊥, e.2) else e := by
  refine List.ext_getElem? fun j => ?_
  rw [List.getElem?_mapIdx, entries, List.getElem?_zipWith, List.zip, List.getElem?_zipWith,
    List.getElem?_mapIdx, scores, headValues, List.getElem?_map, List.getElem?_map]
  cases hk : keys[j]? with
  | none => rfl
  | some k =>
    cases hv : values[j]? with
    | none => rfl
    | some v =>
      by_cases h : row < a + j
      · simp only [Option.map_some, if_pos h, entry]
      · simp only [Option.map_some, if_neg h, entry]

/-- The loop over the context tiles. -/
theorem runContext_spec (hs : s.Valid) (head : Nat) (q : Row K d)
    {spans : List (Nat × Nat × Nat × Nat)}
    (hspans : prefixContextTileSpans s.blockContextLen s.prefixKey.length s.tileSz = .ok spans) :
    ∃ r, s.runContext head q (spans.map s.contextTile) (some Running.init) = some r ∧
      Summarizes (entries s.scale s.gqaRatio head q s.contextK s.contextV) r := by
  have hlen : s.contextV.length = s.contextK.length := by
    rw [length_contextV hs, length_contextK]
  obtain ⟨r, hr, hsum⟩ := Summarizes.init.tiles hs.tileSz
    (entries s.scale s.gqaRatio head q s.contextK s.contextV)
    (.inr fun e he => entries_ne_bot _ _ _ _ e (List.mem_of_mem_head? he))
  refine ⟨r, ?_, hsum⟩
  rw [spans_ok hs] at hspans
  rw [← hr, ← Except.ok.inj hspans, length_entries _ _ _ _ hlen, runContext, List.map_map,
    List.foldl_map, List.foldl_map]
  have hstep : ∀ (running : Option (Running K (Fin d))) (i : Nat),
      updateOnlineSoftmax
        (s.scores head q (s.contextTile (min (i * s.tileSz) s.blockContextLen,
          min (min (i * s.tileSz + s.tileSz) s.contextK.length) s.blockContextLen,
          i * s.tileSz - s.blockContextLen,
          min (i * s.tileSz + s.tileSz) s.contextK.length - s.blockContextLen)).1)
        (s.headValues head (s.contextTile (min (i * s.tileSz) s.blockContextLen,
          min (min (i * s.tileSz + s.tileSz) s.contextK.length) s.blockContextLen,
          i * s.tileSz - s.blockContextLen,
          min (i * s.tileSz + s.tileSz) s.contextK.length - s.blockContextLen)).2) running =
        running.bind (update · (slice (entries s.scale s.gqaRatio head q s.contextK s.contextV)
          (i * s.tileSz) (min (i * s.tileSz + s.tileSz) s.contextK.length))) := by
    intro running i
    have htile : (slice s.contextV (i * s.tileSz)
        (min (i * s.tileSz + s.tileSz) s.contextK.length)).length = (slice s.contextK (i * s.tileSz)
        (min (i * s.tileSz + s.tileSz) s.contextK.length)).length := by
      rw [length_slice (hlen.symm ▸ Nat.min_le_right _ _), length_slice (Nat.min_le_right _ _)]
    rw [contextTile_eq hs, updateOnlineSoftmax_eq head q htile, slice_entries]
  exact congrArg (fun f => List.foldl f _ _) (funext fun running => funext fun i => hstep running i)

/-- The loop over the tiles of the segment's own tokens. -/
theorem runCurrent_spec (hs : s.Valid) (head row : Nat) (q : Row K d)
    {seen : List (Entry K (Fin d))} {r : Running K (Fin d)} (h : Summarizes seen r) :
    ∃ r', s.runCurrent head row q (some r) = some r' ∧
      Summarizes (seen ++ maskAfter row (entries s.scale s.gqaRatio head q s.key s.value)) r' := by
  have hown : s.value.length = s.key.length := by rw [hs.value, hs.key]
  have hlen : (maskAfter row (entries s.scale s.gqaRatio head q s.key s.value)).length =
      s.query.length := by
    rw [maskAfter, List.length_mapIdx, length_entries _ _ _ _ hown, hs.key]
  have hfirst : ∀ e ∈ (maskAfter row (entries s.scale s.gqaRatio head q s.key s.value)).head?,
      e.1 ≠ ⊥ := by
    intro e he
    rw [maskAfter, List.head?_eq_getElem?, List.getElem?_mapIdx, Option.mem_def,
      Option.map_eq_some_iff] at he
    obtain ⟨e', he', rfl⟩ := he
    rw [if_neg (Nat.not_lt_zero row)]
    exact entries_ne_bot _ _ _ _ e' (List.mem_of_getElem? he')
  obtain ⟨r', hr', hsum⟩ := h.tiles hs.tileSz _ (.inr hfirst)
  refine ⟨r', ?_, hsum⟩
  rw [← hr', runCurrent, hlen, List.foldl_map]
  refine congrArg (fun f => List.foldl f _ _) (funext fun running => funext fun i => ?_)
  have htile : (slice s.value (i * s.tileSz) (min (i * s.tileSz + s.tileSz) s.query.length)).length =
      (slice s.key (i * s.tileSz) (min (i * s.tileSz + s.tileSz) s.query.length)).length := by
    rw [length_slice (hs.value.symm ▸ Nat.min_le_right _ _),
      length_slice (hs.key.symm ▸ Nat.min_le_right _ _)]
  rw [updateFromScores_eq (by
    rw [List.length_mapIdx, scores, headValues, List.length_map, List.length_map, htile]),
    slice_maskAfter, slice_entries, zip_masked]

/-- The quotient of a row. -/
theorem divide_eq {seen : List (Entry K (Fin d))} {r : Running K (Fin d)} (h : Summarizes seen r)
    (hv : Visible seen) (c : Fin d) : divide (some r) c = some (average seen c) := by
  show (if r.sum = 0 then none else some (r.out c / r.sum)) = _
  rw [if_neg (h.sum_pos hv).ne', h.average hv]

/-- The entries of a row, with those after it masked. -/
theorem average_row (scale : K) (gqaRatio head row : Nat) (q : Row K d)
    {contextK contextV key value : List (Row K d)} (hcontext : contextV.length = contextK.length)
    (c : Fin d) :
    average (entries scale gqaRatio head q contextK contextV ++
        maskAfter row (entries scale gqaRatio head q key value)) c =
      attend scale gqaRatio head q (contextK ++ key) (contextV ++ value)
        (contextK.length + row + 1) c := by
  obtain ⟨masked, hsplit, hmasked⟩ := maskAfter_split row (entries scale gqaRatio head q key value)
  have hentries : entries scale gqaRatio head q (contextK ++ key) (contextV ++ value) =
      entries scale gqaRatio head q contextK contextV ++ entries scale gqaRatio head q key value :=
    List.zipWith_append hcontext.symm
  have hlen : (entries scale gqaRatio head q contextK contextV).length = contextK.length :=
    length_entries _ _ _ _ hcontext
  rw [hsplit, ← List.append_assoc, average_append_masked hmasked, attend, hentries, Nat.add_assoc,
    ← hlen, List.take_length_add_append]

theorem row_exact (hs : s.Valid) {spans : List (Nat × Nat × Nat × Nat)}
    (hspans : prefixContextTileSpans s.blockContextLen s.prefixKey.length s.tileSz = .ok spans)
    {row : Nat} (hrow : row < s.query.length) (head : Nat) (q : Row K d) (c : Fin d) :
    divide (s.runCurrent head row q
        (s.runContext head q (spans.map s.contextTile) (some Running.init))) c =
      some (attend s.scale s.gqaRatio head q (s.contextK ++ s.key) (s.contextV ++ s.value)
        (s.contextK.length + row + 1) c) := by
  obtain ⟨r, hr, hcontext⟩ := runContext_spec hs head q hspans
  obtain ⟨r', hr', hall⟩ := runCurrent_spec hs head row q hcontext
  have hown : s.value.length = s.key.length := by rw [hs.value, hs.key]
  have hvisible : Visible (maskAfter row (entries s.scale s.gqaRatio head q s.key s.value)) := by
    have hlt : row < (entries s.scale s.gqaRatio head q s.key s.value).length := by
      rw [length_entries _ _ _ _ hown, hs.key]
      exact hrow
    refine ⟨_, List.mem_of_getElem? (i := row) ?_,
      entries_ne_bot s.scale s.gqaRatio head q _ (List.getElem_mem hlt)⟩
    rw [maskAfter, List.getElem?_mapIdx, List.getElem?_eq_getElem hlt, Option.map_some,
      if_neg (Nat.lt_irrefl row)]
  rw [hr, hr', divide_eq hall (visible_append.mpr (.inr hvisible)),
    average_row _ _ _ _ _ (by rw [length_contextV hs, length_contextK])]

/-- A segment of valid inputs passes the checks. -/
theorem forwardPrefixSegment_ok (hs : s.Valid) {spans : List (Nat × Nat × Nat × Nat)}
    (hspans : prefixContextTileSpans s.blockContextLen s.prefixKey.length s.tileSz = .ok spans) :
    forwardPrefixSegmentPytorch s = .ok (s.query.mapIdx fun row q head =>
      divide (s.runCurrent head row q
        (s.runContext head q (spans.map s.contextTile) (some Running.init)))) := by
  have hblocks : (s.blockContextLen + s.cache.blockSize - 1) / s.cache.blockSize ≤
      s.blockTable.length := by
    have hsize := hs.blockSize
    have htable := hs.table
    rw [Nat.div_le_iff_le_mul_add_pred hsize, Nat.mul_comm]
    omega
  have hguard : validatePrefixBlockTable s.allowCap s.seqIndex
      ((s.blockContextLen + s.cache.blockSize - 1) / s.cache.blockSize) s.blockTable.length
      s.blockContextLen = .ok ((s.blockContextLen + s.cache.blockSize - 1) / s.cache.blockSize) := by
    rw [validatePrefixBlockTable, if_pos hblocks]
    rfl
  unfold forwardPrefixSegmentPytorch
  rw [hspans]
  by_cases hctx : 0 < s.blockContextLen
  · rw [if_pos hctx]
    dsimp only
    rw [hguard]
    rfl
  · rw [if_neg hctx]
    rfl

/-- **A segment.** Every row attends to the context, to the earlier tokens of the segment and to
itself. -/
theorem forwardPrefixSegment_exact (hs : s.Valid) :
    forwardPrefixSegmentPytorch s = .ok (s.query.mapIdx fun row q head c =>
      some (attend s.scale s.gqaRatio head q (s.contextK ++ s.key) (s.contextV ++ s.value)
        (s.contextK.length + row + 1) c)) := by
  have hspans := spans_ok hs
  rw [forwardPrefixSegment_ok hs hspans]
  refine congrArg Except.ok (List.ext_getElem? fun row => ?_)
  rw [List.getElem?_mapIdx, List.getElem?_mapIdx]
  cases hq : s.query[row]? with
  | none => rfl
  | some q =>
    have hrow : row < s.query.length := (List.getElem?_eq_some_iff.mp hq).1
    exact congrArg some (funext fun head => funext fun c => row_exact hs hspans hrow head q c)

end Segment

end Bi100.Attention
