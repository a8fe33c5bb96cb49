import Bi100.Attention.DecodeExact

/-!
# Attention in partitions (`paged_attention_v2_pytorch.py`)

Phase 2 multiplies the outputs of the partitions, which are not divided by their sums, with the sums
once more. With one partition that does not happen.

- `singleTile_eq`: one partition is softmax attention.
- `combine_gt`: if all values are 1, several partitions give more than 1.
- `pagedAttentionV2_exact_iff`: the output is softmax attention for all values exactly as long as
  the tokens fit one partition (or the values are scaled by 0).
-/

namespace Bi100.Attention

open Py OnlineSoftmax ExpField

variable {K : Type} [OrderedExpField K] {d : Nat}

/-! ## Weights of a partition -/

theorem weight_self (M : K) : weight M (M : WithBot K) = 1 :=
  (congrArg exp (sub_self M)).trans exp_zero

section Entries

variable {ι : Type} {es : List (Entry K ι)} {M : K}

theorem exists_of_tileMax (h : tileMax es = (M : WithBot K)) : ∃ e ∈ es, e.1 = (M : WithBot K) := by
  induction es with
  | nil => exact absurd h.symm WithBot.coe_ne_bot
  | cons e rest ih =>
    have h : max e.1 (tileMax rest) = (M : WithBot K) := h
    rcases max_choice e.1 (tileMax rest) with he | he
    · exact ⟨e, List.mem_cons_self, he.symm.trans h⟩
    · obtain ⟨e', hmem, he'⟩ := ih (he.symm.trans h)
      exact ⟨e', List.mem_cons_of_mem e hmem, he'⟩

theorem total_nonneg (M : K) (es : List (Entry K ι)) : 0 ≤ total M es :=
  List.sum_nonneg fun x hx => by
    obtain ⟨e, -, rfl⟩ := List.mem_map.mp hx
    exact weight_nonneg M e.1

/-- The maximum has the weight 1, and the other entries of the partition add to it. -/
theorem total_eq_of_max (h : tileMax es = (M : WithBot K)) :
    ∃ l₁ e l₂, es = l₁ ++ e :: l₂ ∧ total M es = 1 + total M (l₁ ++ l₂) := by
  obtain ⟨e, he, hM⟩ := exists_of_tileMax h
  obtain ⟨l₁, l₂, rfl⟩ := List.append_of_mem he
  refine ⟨l₁, e, l₂, rfl, ?_⟩
  have hcons : total M (e :: l₂) = weight M e.1 + total M l₂ := rfl
  rw [total_append, total_append, hcons, hM, weight_self]
  ring

theorem one_le_total (h : tileMax es = (M : WithBot K)) : 1 ≤ total M es := by
  obtain ⟨l₁, e, l₂, -, htotal⟩ := total_eq_of_max h
  rw [htotal]
  exact le_add_of_nonneg_right (total_nonneg M _)

theorem one_lt_total (h : tileMax es = (M : WithBot K)) (hv : ∀ e ∈ es, e.1 ≠ ⊥)
    (hlen : 2 ≤ es.length) : 1 < total M es := by
  obtain ⟨l₁, e, l₂, rfl, htotal⟩ := total_eq_of_max h
  rw [htotal]
  refine lt_add_of_pos_right 1 (total_pos ?_ M)
  rw [List.length_append, List.length_cons] at hlen
  have hlt : 0 < (l₁ ++ l₂).length := by
    rw [List.length_append]
    omega
  refine ⟨_, List.getElem_mem hlt, hv _ ?_⟩
  rw [List.mem_append, List.mem_cons]
  rcases List.mem_append.mp (List.getElem_mem hlt) with hm | hm
  · exact .inl hm
  · exact .inr (.inr hm)

/-- If all visible values are `a`, so is the average times the sum of the weights. -/
theorem totalOut_const {c : ι} {a : K} (h : ∀ e ∈ es, e.1 ≠ ⊥ → e.2 c = a) :
    totalOut M es c = total M es * a := by
  rw [totalOut, total, ← List.sum_map_mul_right]
  refine congrArg List.sum (List.map_congr_left fun e he => ?_)
  by_cases hb : e.1 = ⊥
  · rw [hb]
    exact (zero_mul _).trans (zero_mul _).symm
  · rw [h e he hb]

theorem average_eq (M : K) (es : List (Entry K ι)) (c : ι) :
    average es c = totalOut M es c / total M es := by
  rw [average, total_shift M 0, totalOut_shift M 0,
    mul_div_mul_right _ _ (OrderedExpField.exp_pos _).ne']

end Entries

/-! ## One partition -/

section Single

variable {scores : List (WithBot K)} {values : List (Fin d → K)}

theorem sum_weights (M : K) (h : scores.length = values.length) :
    (scores.map (weight M)).sum = total M (scores.zip values) := by
  conv_lhs => rw [← List.map_fst_zip h.le]
  rw [List.map_map]
  rfl

theorem sum_weighted (M : K) (scores : List (WithBot K)) (values : List (Fin d → K)) (c : Fin d) :
    (List.zipWith (fun p (v : Fin d → K) => p * v c) (scores.map (weight M)) values).sum =
      totalOut M (scores.zip values) c := by
  rw [List.zipWith_map_left, totalOut, List.map_zip_eq_zipWith]
  rfl

/-- The maximum, the sum and the output of a partition with a token. -/
theorem partition_eq (h : scores.length = values.length) (hv : Visible (scores.zip values)) :
    ∃ M : K, tileMax (scores.zip values) = M ∧ partition scores values =
      some ⟨M, total M (scores.zip values), totalOut M (scores.zip values)⟩ := by
  obtain ⟨M, hM⟩ := WithBot.ne_bot_iff_exists.mp fun hbot => tileMax_eq_bot.mp hbot hv
  refine ⟨M, hM.symm, ?_⟩
  rw [partition, ← tileMax_zip h, ← hM]
  dsimp only
  rw [sum_weights M h]
  simp only [sum_weighted]

end Single

/-- The fast path is softmax attention. -/
theorem singleTile_eq {scores : List K} {values : List (Fin d → K)} (hne : scores ≠ [])
    (h : scores.length = values.length) : ∃ r, DecodeBatchV2.singleTile scores values = some r ∧
      ∀ c, r.output c = average ((scores.map fun (s : K) => (s : WithBot K)).zip values) c := by
  obtain ⟨bots, hbots⟩ : ∃ bots, bots = scores.map fun (s : K) => (s : WithBot K) := ⟨_, rfl⟩
  have hlen : bots.length = values.length := by rw [hbots, List.length_map, h]
  have hv : Visible (bots.zip values) := by
    cases scores with
    | nil => exact absurd rfl hne
    | cons s rest =>
      cases values with
      | nil => cases h
      | cons v values =>
        rw [hbots]
        exact ⟨(s, v), List.mem_cons_self, WithBot.coe_ne_bot⟩
  obtain ⟨M, hM⟩ := WithBot.ne_bot_iff_exists.mp fun hbot => tileMax_eq_bot.mp hbot hv
  have hweights : (scores.map fun s => exp (s - M)) = bots.map (weight M) := by
    rw [hbots, List.map_map]
    rfl
  rw [DecodeBatchV2.singleTile, ← hbots, ← tileMax_zip hlen, ← hM]
  refine ⟨_, rfl, fun c => ?_⟩
  dsimp only
  rw [average_eq M, ← sum_weights M hlen, ← sum_weighted, ← hweights, List.zipWith_map_left,
    List.zipWith_map_left, ← List.map_uncurry_zip_eq_zipWith, ← List.map_uncurry_zip_eq_zipWith,
    div_eq_mul_inv, ← List.sum_map_mul_right]
  refine congrArg List.sum (List.map_congr_left fun e _ => ?_)
  show exp (e.1 - M) / _ * e.2 c = exp (e.1 - M) * e.2 c * _
  ring

/-! ## Several partitions -/

namespace DecodeBatchV2

/-- The entries of the padded scores and values. -/
def padded (numPartitions : Nat) (scores : List K) (values : List (Fin d → K)) :
    List (Entry K (Fin d)) :=
  (scores.map fun (s : K) => (s : WithBot K)).zip values ++
    List.replicate (numPartitions * partitionSize - scores.length) (⊥, fun _ => 0)

def tileEntries (numPartitions : Nat) (scores : List K) (values : List (Fin d → K)) (p : Nat) :
    List (Entry K (Fin d)) :=
  slice (padded numPartitions scores values) (p * partitionSize) (p * partitionSize + partitionSize)

variable {n : Nat} {scores : List K} {values : List (Fin d → K)}

omit [OrderedExpField K] in
theorem slice_zip (l : List (WithBot K)) (l' : List (Fin d → K)) (a b : Nat) :
    (slice l a b).zip (slice l' a b) = slice (l.zip l') a b := by
  rw [slice, slice, slice, List.zip_eq_zipWith, List.zip_eq_zipWith, List.take_zipWith,
    List.drop_zipWith]

/-- The tiles are those of the padded lists. -/
theorem zip_padded (h : scores.length = values.length) :
    (scores.map (fun (s : K) => (s : WithBot K)) ++
        List.replicate (n * partitionSize - scores.length) ⊥).zip
      (values ++ List.replicate (n * partitionSize - values.length) fun _ => 0) =
      padded n scores values := by
  rw [padded, List.zip_append (by rw [List.length_map, h]), ← h, List.zip_replicate, Nat.min_self]

theorem length_padded (h : scores.length = values.length) (hn : scores.length ≤ n * partitionSize) :
    (padded n scores values).length = n * partitionSize := by
  rw [padded, List.length_append, List.length_zip, List.length_map, List.length_replicate, ← h,
    Nat.min_self]
  omega

/-- An entry of a token. -/
theorem padded_of_lt (h : scores.length = values.length) {i : Nat} (hi : i < scores.length) :
    ∃ e ∈ (padded n scores values)[i]?, e.1 ≠ ⊥ := by
  have hv : i < values.length := h ▸ hi
  refine ⟨((scores[i] : WithBot K), values[i]), ?_, WithBot.coe_ne_bot⟩
  have hz : ((scores.map fun (s : K) => (s : WithBot K)).zip values)[i]? =
      some ((scores[i] : WithBot K), values[i]) := by
    rw [List.zip_eq_zipWith, List.getElem?_zipWith, List.getElem?_map, List.getElem?_eq_getElem hi,
      List.getElem?_eq_getElem hv]
    rfl
  rw [padded, List.getElem?_append_left (by rw [List.length_zip, List.length_map]; omega), hz]
  rfl

/-- Every partition has a token. -/
theorem visible_tile (h : scores.length = values.length) {p : Nat}
    (hp : p * partitionSize < scores.length) : Visible (tileEntries n scores values p) := by
  obtain ⟨e, he, hne⟩ := padded_of_lt (n := n) h hp
  refine ⟨e, List.mem_of_getElem? (i := 0) ?_, hne⟩
  rw [tileEntries, getElem?_slice, Nat.add_zero,
    if_pos (Nat.lt_add_of_pos_right (show 0 < partitionSize by decide))]
  exact he

theorem mapM_eq_some {α β : Type} {l : List α} {f : α → Option β} {g : α → β}
    (h : ∀ a ∈ l, f a = some (g a)) : l.mapM f = some (l.map g) := by
  induction l with
  | nil => rfl
  | cons a rest ih =>
    rw [List.mapM_cons, h a List.mem_cons_self, ih fun b hb => h b (List.mem_cons_of_mem a hb)]
    rfl

/-- The scores of partition `p`. -/
def tileScores (n : Nat) (scores : List K) (p : Nat) : List (WithBot K) :=
  slice (scores.map (fun (s : K) => (s : WithBot K)) ++
      List.replicate (n * partitionSize - scores.length) ⊥)
    (p * partitionSize) (p * partitionSize + partitionSize)

/-- The values of partition `p`. -/
def tileValues (n : Nat) (values : List (Fin d → K)) (p : Nat) : List (Fin d → K) :=
  slice (values ++ List.replicate (n * partitionSize - values.length) fun _ => 0)
    (p * partitionSize) (p * partitionSize + partitionSize)

/-- The maximum, the sum and the output of partition `p`, which has a token. -/
theorem partition_tile (h : scores.length = values.length) {p : Nat}
    (hp : p * partitionSize < scores.length) :
    ∃ M : K, tileMax (tileEntries n scores values p) = (M : WithBot K) ∧
      partition (tileScores n scores p) (tileValues n values p) =
        some ⟨M, total M (tileEntries n scores values p),
          totalOut M (tileEntries n scores values p)⟩ := by
  have hlen : (tileScores n scores p).length = (tileValues n values p).length := by
    rw [tileScores, tileValues, slice, slice, List.length_drop, List.length_take, List.length_drop,
      List.length_take, List.length_append, List.length_append, List.length_map,
      List.length_replicate, List.length_replicate, h]
  have hzip : (tileScores n scores p).zip (tileValues n values p) =
      tileEntries n scores values p := by
    rw [tileScores, tileValues, slice_zip, zip_padded h, tileEntries]
  obtain ⟨M, hM, hpart⟩ := partition_eq hlen (by
    rw [hzip]
    exact visible_tile h hp)
  rw [hzip] at hM hpart
  exact ⟨M, hM, hpart⟩

/-- The partitions, from the entries. -/
theorem partitions_eq (h : scores.length = values.length)
    (hp : ∀ p < n, p * partitionSize < scores.length) : ∃ M : Nat → K,
      (∀ p < n, tileMax (tileEntries n scores values p) = (M p : WithBot K)) ∧
      partitions n scores values =
        (combine ((List.range n).map fun p =>
          (⟨M p, total (M p) (tileEntries n scores values p),
            totalOut (M p) (tileEntries n scores values p)⟩ : Running K (Fin d)))).map
          fun output => ⟨output,
            (List.range n).map fun p => (M p : WithBot K),
            (List.range n).map fun p => total (M p) (tileEntries n scores values p),
            (List.range n).map fun p => totalOut (M p) (tileEntries n scores values p)⟩ := by
  have hpart : ∀ p, ∃ M : K, p < n → tileMax (tileEntries n scores values p) = (M : WithBot K) ∧
      partition (tileScores n scores p) (tileValues n values p) =
        some ⟨M, total M (tileEntries n scores values p),
          totalOut M (tileEntries n scores values p)⟩ := by
    intro p
    by_cases hlt : p < n
    · obtain ⟨M, hM⟩ := partition_tile h (hp p hlt)
      exact ⟨M, fun _ => hM⟩
    · exact ⟨0, fun h => absurd h hlt⟩
  choose M hM using hpart
  refine ⟨M, fun p hlt => (hM p hlt).1, ?_⟩
  have hparts : (List.range n).mapM (fun p => partition (tileScores n scores p)
      (tileValues n values p)) = some ((List.range n).map fun p =>
        (⟨M p, total (M p) (tileEntries n scores values p),
          totalOut (M p) (tileEntries n scores values p)⟩ : Running K (Fin d))) :=
    mapM_eq_some fun p hmem => (hM p (List.mem_range.mp hmem)).2
  rw [partitions]
  erw [hparts]
  rw [Option.bind_eq_bind, Option.bind_some]
  cases combine (K := K) (d := d) _ with
  | none => rfl
  | some output =>
    rw [Option.bind_eq_bind, Option.bind_some, List.map_map, List.map_map, List.map_map]
    rfl

/-- Phase 2, for the maxima `M p`. -/
theorem combine_eq {n : Nat} (hn : n ≠ 0) (M S : Nat → K) (O : Nat → Fin d → K) :
    ∃ w : Nat → K, (∀ p, 0 < w p) ∧ combine ((List.range n).map fun p =>
        (⟨M p, S p, O p⟩ : Running K (Fin d))) =
      some fun c => ((List.range n).map fun p => w p * S p * O p c).sum /
        ((List.range n).map fun p => w p * S p).sum := by
  obtain ⟨G, hG⟩ : ∃ G : K, (G : WithBot K) =
      (((List.range n).map fun p => (⟨M p, S p, O p⟩ : Running K (Fin d))).map
        Running.max).foldr max ⊥ := by
    refine WithBot.ne_bot_iff_exists.mp ?_
    obtain ⟨m, rfl⟩ := Nat.exists_eq_succ_of_ne_zero hn
    rw [List.range_succ_eq_map]
    show max (M 0 : WithBot K) _ ≠ ⊥
    rw [ne_eq, max_eq_bot, not_and_or]
    exact .inl WithBot.coe_ne_bot
  refine ⟨fun p => exp (M p - G), fun p => OrderedExpField.exp_pos _, ?_⟩
  rw [combine, ← hG]
  refine congrArg some (funext fun c => ?_)
  rw [List.zipWith_map_left, List.zipWith_map, List.zipWith_self, List.map_map]
  rfl

/-- The values are 1: each partition has as much output as weight, and that is more than 1 for the
first one. -/
theorem combine_gt {n : Nat} (hn : 2 ≤ n) (M S : Nat → K) (O : Nat → Fin d → K) {c : Fin d}
    (hS : ∀ p < n, 1 ≤ S p) (hfirst : 1 < S 0) (hO : ∀ p < n, O p c = S p) :
    ∃ output, combine ((List.range n).map fun p => (⟨M p, S p, O p⟩ : Running K (Fin d))) =
      some output ∧ 1 < output c := by
  obtain ⟨w, hw, hcombine⟩ := combine_eq (n := n) (by omega) M S O
  have hpos : ∀ p < n, 0 < w p * S p := fun p hp =>
    mul_pos (hw p) (zero_lt_one.trans_le (hS p hp))
  refine ⟨_, hcombine, ?_⟩
  have hsum : 0 < ((List.range n).map fun p => w p * S p).sum := by
    refine List.sum_pos _ (fun x hx => ?_) fun hnil => ?_
    · obtain ⟨p, hp, rfl⟩ := List.mem_map.mp hx
      exact hpos p (List.mem_range.mp hp)
    · rw [List.map_eq_nil_iff, List.range_eq_nil] at hnil
      omega
  rw [one_lt_div hsum]
  refine List.sum_lt_sum _ _ (fun p hp => ?_) ⟨0, List.mem_range.mpr (by omega), ?_⟩
  · have hp := List.mem_range.mp hp
    rw [hO p hp]
    exact le_mul_of_one_le_right (hpos p hp).le (hS p hp)
  · rw [hO 0 (by omega)]
    exact lt_mul_of_one_lt_right (hpos 0 (by omega)) hfirst

/-! ## The output of a sequence -/

variable {b : DecodeBatchV2 K d} {i : Nat}

omit [OrderedExpField K] in
/-- The tokens of a sequence, gathered from blocks that cover them. -/
theorem length_gathered {row : Nat → Nat → Row K d} (h : b.Covered i) :
    (((b.blkIds i).flatMap fun blk => (List.range b.cache.blockSize).map (row blk)).take
      (b.seqLen i)).length = b.seqLen i := by
  have hblocks : b.seqLen i ≤ b.numBlocks i * b.cache.blockSize :=
    (ceil_le_iff h.blockSize).mp (Nat.le_refl _)
  have hrows : ∀ ids : List Nat, (ids.flatMap fun blk =>
      (List.range b.cache.blockSize).map (row blk)).length = ids.length * b.cache.blockSize := by
    intro ids
    induction ids with
    | nil => rw [List.flatMap_nil, List.length_nil, List.length_nil, Nat.zero_mul]
    | cons blk ids ih =>
      rw [List.flatMap_cons, List.length_append, ih, List.length_map, List.length_range,
        List.length_cons, Nat.add_one_mul, Nat.add_comm]
  rw [List.length_take, hrows, DecodeBatch.blkIds, List.length_take, ← Nat.mul_min_mul_right,
    Nat.min_eq_left (Nat.le_min.mpr ⟨hblocks, h.table⟩)]

theorem length_scoresAll (h : b.Covered i) (head : Nat) (q : Row K d) :
    (b.scoresAll i head q).length = b.seqLen i := by
  have hk : (b.kFlat i).length = b.seqLen i := by
    rw [kFlat]
    split
    · exact length_gathered h
    · rw [List.length_map]
      exact length_gathered h
  rw [scoresAll]
  cases b.alibiSlopes with
  | none => rw [List.length_map, hk]
  | some slopes => rw [List.length_mapIdx, List.length_map, hk]

theorem length_values (h : b.Covered i) (head : Nat) : (b.values i head).length = b.seqLen i := by
  rw [values, List.length_map, vFlat]
  split
  · exact length_gathered h
  · rw [List.length_map]
    exact length_gathered h

/-- The same batch, with other values in the cache. -/
def withValues (b : DecodeBatchV2 K d) (valueCache : Nat → Nat → Nat → Nat → K) :
    DecodeBatchV2 K d :=
  { b with cache := { b.cache with valueCache := valueCache } }

omit [OrderedExpField K] in
theorem withValues_covered (h : b.Covered i) (valueCache : Nat → Nat → Nat → Nat → K) :
    (b.withValues valueCache).Covered i :=
  ⟨h.blockSize, h.table⟩

/-- The scores and the values of a head of sequence `i`. -/
def headEntries (b : DecodeBatchV2 K d) (i head : Nat) (q : Row K d) : List (Entry K (Fin d)) :=
  ((b.scoresAll i head q).map fun (s : K) => (s : WithBot K)).zip (b.values i head)

/-- What a constant cache holds for every token. -/
theorem values_const (a : K) {head : Nat} {v : Fin d → K}
    (hv : v ∈ (b.withValues fun _ _ _ _ => a).values i head) (c : Fin d) : v c = a * b.vScale := by
  obtain ⟨row, hrow, rfl⟩ := List.mem_map.mp hv
  have hblocks : ∀ row ∈ ((b.withValues fun _ _ _ _ => a).cache.vBlocks d (b.blkIds i)).take
      (b.seqLen i), row = fun _ _ => a := by
    intro row hrow
    obtain ⟨blk, -, hrow⟩ := List.mem_flatMap.mp (List.mem_of_mem_take hrow)
    obtain ⟨s, -, rfl⟩ := List.mem_map.mp hrow
    rfl
  rw [vFlat] at hrow
  split at hrow
  · next hone =>
    have hone : b.vScale = 1 := hone
    rw [hblocks row hrow, hone, mul_one]
  · obtain ⟨row', hrow', rfl⟩ := List.mem_map.mp hrow
    rw [hblocks row' hrow']
    rfl

/-- The first partition of a sequence that needs a second one. -/
theorem one_lt_first (h : scores.length = values.length) (hlen : partitionSize < scores.length)
    {M : K} (hM : tileMax (tileEntries n scores values 0) = (M : WithBot K)) (hn : 2 ≤ n) :
    1 < total M (tileEntries n scores values 0) := by
  have hpad : (tileEntries n scores values 0).length = partitionSize := by
    have hpart : 0 < partitionSize := by decide
    have hmul : 2 * partitionSize ≤ n * partitionSize := Nat.mul_le_mul_right _ hn
    rw [tileEntries, slice, Nat.zero_mul, Nat.zero_add, List.drop_zero, List.length_take, padded,
      List.length_append, List.length_zip, List.length_map, List.length_replicate, ← h,
      Nat.min_self]
    omega
  refine one_lt_total hM (fun e he => ?_) (by rw [hpad]; decide)
  obtain ⟨i, hi, rfl⟩ := List.mem_iff_getElem.mp he
  have hi' : i < partitionSize := hpad ▸ hi
  obtain ⟨e, he, hne⟩ := padded_of_lt (n := n) h (i := i) (by omega)
  have hget : (tileEntries n scores values 0)[i]? = some e := by
    rw [tileEntries, getElem?_slice, Nat.zero_mul, Nat.zero_add, Nat.zero_add, if_pos hi']
    exact he
  rw [List.getElem?_eq_getElem hi, Option.some_inj] at hget
  rw [hget]
  exact hne

/-- More tokens than a partition has, with values that are all 1: the output exceeds 1. -/
theorem partitions_gt (h : scores.length = values.length) (hlen : partitionSize < scores.length)
    (hp : ∀ p < n, p * partitionSize < scores.length) (hn : 2 ≤ n) {c : Fin d}
    (hone : ∀ v ∈ values, v c = 1) : ∃ r, partitions n scores values = some r ∧ 1 < r.output c := by
  obtain ⟨M, hM, hparts⟩ := partitions_eq (n := n) h hp
  have hentry : ∀ p, ∀ e ∈ tileEntries n scores values p, e.1 ≠ ⊥ → e.2 c = 1 := by
    intro p e he hne
    rcases List.mem_append.mp (List.mem_of_mem_take (List.mem_of_mem_drop he)) with he | he
    · exact hone _ (List.of_mem_zip he).2
    · exact absurd (congrArg Prod.fst (List.eq_of_mem_replicate he)) hne
  obtain ⟨output, hcombine, hgt⟩ := combine_gt hn M
    (fun p => total (M p) (tileEntries n scores values p))
    (fun p => totalOut (M p) (tileEntries n scores values p)) (c := c)
    (fun p hlt => one_le_total (hM p hlt))
    (one_lt_first h hlen (hM 0 (by omega)) hn)
    (fun p _ => by rw [totalOut_const (hentry p), mul_one])
  rw [hparts, hcombine]
  exact ⟨_, rfl, hgt⟩

/-- Values that are all 0 give 0. -/
theorem partitions_zero (h : scores.length = values.length)
    (hp : ∀ p < n, p * partitionSize < scores.length) (hn : n ≠ 0) {c : Fin d}
    (hzero : ∀ v ∈ values, v c = 0) :
    ∃ r, partitions n scores values = some r ∧ r.output c = 0 := by
  obtain ⟨M, hM, hparts⟩ := partitions_eq (n := n) h hp
  obtain ⟨w, hw, hcombine⟩ := combine_eq hn M
    (fun p => total (M p) (tileEntries n scores values p))
    (fun p => totalOut (M p) (tileEntries n scores values p))
  have hout : ∀ p, totalOut (M p) (tileEntries n scores values p) c = 0 := by
    intro p
    have hentry : ∀ e ∈ tileEntries n scores values p, e.1 ≠ ⊥ → e.2 c = 0 := by
      intro e he hne
      rcases List.mem_append.mp (List.mem_of_mem_take (List.mem_of_mem_drop he)) with he | he
      · exact hzero _ (List.of_mem_zip he).2
      · exact absurd (congrArg Prod.fst (List.eq_of_mem_replicate he)) hne
    rw [totalOut_const hentry, mul_zero]
  rw [hparts, hcombine]
  refine ⟨_, rfl, ?_⟩
  simp only [hout, mul_zero, List.map_const', List.sum_replicate, smul_zero, zero_div]

omit [OrderedExpField K] in
theorem numPartitions_le_iff {k : Nat} : b.numPartitions i ≤ k ↔ b.seqLen i ≤ k * partitionSize :=
  ceil_le_iff (by decide)

/-- The tokens fit one partition. -/
theorem row_short (h : b.Covered i) (hpos : b.seqLen i ≠ 0) (hshort : b.seqLen i ≤ partitionSize)
    (head : Nat) (q : Row K d) :
    ∃ r, b.row i q head = some r ∧ ∀ c, r.output c = average (b.headEntries i head q) c := by
  have hone : b.numPartitions i = 1 := by
    have hle : b.numPartitions i ≤ 1 := numPartitions_le_iff.mpr (by omega)
    have hne : ¬ b.numPartitions i ≤ 0 := fun h0 => hpos (by
      have := numPartitions_le_iff.mp h0
      omega)
    omega
  rw [row, if_neg hpos, if_pos hone]
  refine singleTile_eq (fun hnil => hpos ?_) ?_
  · rw [← length_scoresAll h head q, hnil, List.length_nil]
  · rw [length_scoresAll h, length_values h]

/-- The tokens need several partitions. -/
theorem row_long (h : b.Covered i) (hlong : partitionSize < b.seqLen i) (head : Nat) (q : Row K d) :
    2 ≤ b.numPartitions i ∧
      (∀ p < b.numPartitions i, p * partitionSize < (b.scoresAll i head q).length) ∧
      b.row i q head =
        partitions (b.numPartitions i) (b.scoresAll i head q) (b.values i head) := by
  have htwo : 2 ≤ b.numPartitions i := by
    have hne : ¬ b.numPartitions i ≤ 1 := fun h1 => by
      have := numPartitions_le_iff.mp h1
      omega
    omega
  refine ⟨htwo, fun p hp => ?_, ?_⟩
  · rw [length_scoresAll h]
    exact Nat.lt_of_not_le fun hle => Nat.not_le_of_lt hp (numPartitions_le_iff.mpr hle)
  · rw [row, if_neg (by omega), if_neg (by omega)]

/-- Softmax attention over values that are all `a`. -/
theorem average_const (h : b.Covered i) (hpos : b.seqLen i ≠ 0) {head : Nat} {c : Fin d} {a : K}
    (ha : ∀ v ∈ b.values i head, v c = a) (q : Row K d) :
    average (b.headEntries i head q) c = a := by
  have hlen : 0 < (b.headEntries i head q).length := by
    rw [headEntries, List.length_zip, List.length_map, length_scoresAll h, length_values h]
    omega
  have hfirst : ∀ e ∈ b.headEntries i head q, e.1 ≠ ⊥ := by
    intro e he
    obtain ⟨s, -, hs⟩ := List.mem_map.mp (List.of_mem_zip he).1
    exact hs ▸ WithBot.coe_ne_bot
  have hvisible : Visible (b.headEntries i head q) :=
    ⟨_, List.getElem_mem hlen, hfirst _ (List.getElem_mem hlen)⟩
  have hout : totalOut 0 (b.headEntries i head q) c = total 0 (b.headEntries i head q) * a :=
    totalOut_const fun e he _ => ha _ (List.of_mem_zip he).2
  rw [average_eq 0, hout, mul_div_cancel_left₀ _ (total_pos hvisible 0).ne']

/-- **Partitions.** What `paged_attention_v2_pytorch` writes for a sequence is softmax attention
over its tokens, with every value cache, exactly if they fit one partition or the values are scaled
by 0. With more tokens the outputs of the partitions are weighted with their sums once too often. -/
theorem pagedAttentionV2_exact_iff (h : b.Covered i) (hpos : b.seqLen i ≠ 0) (head : Nat)
    (q : Row K d) (c : Fin d) :
    (∀ valueCache, ∃ r, (b.withValues valueCache).row i q head = some r ∧
        r.output c = average ((b.withValues valueCache).headEntries i head q) c) ↔
      b.seqLen i ≤ partitionSize ∨ b.vScale = 0 := by
  have hlen : ∀ valueCache, ((b.withValues valueCache).scoresAll i head q).length =
      ((b.withValues valueCache).values i head).length := fun valueCache => by
    rw [length_scoresAll (withValues_covered h valueCache),
      length_values (withValues_covered h valueCache)]
  have hscores : ∀ valueCache, ((b.withValues valueCache).scoresAll i head q).length = b.seqLen i :=
    fun valueCache => length_scoresAll (withValues_covered h valueCache) head q
  constructor
  · intro hexact
    by_contra hcon
    rw [not_or, not_le] at hcon
    obtain ⟨hlong, hscale⟩ := hcon
    -- A cache that makes all values 1.
    obtain ⟨a, ha⟩ : ∃ a, a = 1 / b.vScale := ⟨_, rfl⟩
    have hcov := withValues_covered h fun _ _ _ _ => a
    have hone : ∀ v ∈ (b.withValues fun _ _ _ _ => a).values i head, v c = 1 := fun v hv => by
      rw [values_const a hv, ha, one_div_mul_cancel hscale]
    obtain ⟨htwo, htokens, hrow⟩ := row_long hcov hlong head q
    obtain ⟨r, hr, hgt⟩ := partitions_gt (hlen _) ((hscores _).symm ▸ hlong) htokens htwo hone
    obtain ⟨r', hrow', hr'⟩ := hexact fun _ _ _ _ => a
    rw [hrow, hr, Option.some_inj] at hrow'
    rw [average_const hcov hpos hone, ← hrow'] at hr'
    exact hgt.ne' hr'
  · rintro hcond valueCache
    have hcov := withValues_covered h valueCache
    rcases Nat.lt_or_ge partitionSize (b.seqLen i) with hlong | hshort
    · have hscale : b.vScale = 0 := hcond.resolve_left (Nat.not_le_of_lt hlong)
      have hzero : ∀ v ∈ (b.withValues valueCache).values i head, v c = 0 := fun v hv => by
        obtain ⟨row, hrow, rfl⟩ := List.mem_map.mp hv
        have hne : ¬ (b.withValues valueCache).vScale = 1 := fun h1 =>
          zero_ne_one (hscale.symm.trans h1)
        rw [vFlat, if_neg hne] at hrow
        obtain ⟨row', -, rfl⟩ := List.mem_map.mp hrow
        show row' (head / b.gqaRatio) c * b.vScale = 0
        rw [hscale, mul_zero]
      obtain ⟨htwo, htokens, hrow⟩ := row_long hcov hlong head q
      obtain ⟨r, hr, hout⟩ := partitions_zero (hlen _) htokens (by omega) hzero
      exact ⟨r, hrow.trans hr, by rw [hout, average_const hcov hpos hzero]⟩
    · obtain ⟨r, hrow, hr⟩ := row_short hcov hpos hshort head q
      exact ⟨r, hrow, hr c⟩

/-- 1025 tokens, in blocks of 16. -/
noncomputable def longBatch : DecodeBatchV2 ℝ 1 where
  query := [fun _ _ => 1]
  cache := ⟨16, 1, fun _ _ _ _ _ => 1, fun _ _ _ _ => 1⟩
  blockTables := [List.range 65]
  seqLens := [1025]
  gqaRatio := 1
  scale := 1
  alibiSlopes := none
  kScale := 1
  vScale := 1

theorem pagedAttentionV2_inexact_long : ¬ ∀ valueCache, ∃ r,
    (longBatch.withValues valueCache).row 0 (fun _ _ => 1) 0 = some r ∧
      r.output 0 = average ((longBatch.withValues valueCache).headEntries 0 0 fun _ _ => 1) 0 := by
  have hcov : longBatch.Covered 0 := ⟨by decide, by decide⟩
  have hlen : longBatch.seqLen 0 = 1025 := rfl
  rw [pagedAttentionV2_exact_iff hcov (by rw [hlen]; decide), hlen, not_or]
  exact ⟨by decide, one_ne_zero⟩

end DecodeBatchV2

end Bi100.Attention
