import Bi100.Dp.CudaGraph
import Mathlib.Algebra.Order.Group.Int
import Mathlib.Data.List.Basic

/-!
# Which decode batches have a graph

- `graphKey_ok`: the ranks agree on the key of the largest count.
- `warmup_ok`: of the buckets with one key, the smallest is kept.
- `graph_covered_iff`: the batches whose key is found, with an entry of its size.
-/

namespace Bi100.Dp

open Py

/-! ## The buckets -/

theorem le_max?_getD {counts : List Int} {c : Int} (h : c ∈ counts) : c ≤ counts.max?.getD 0 := by
  cases hmax : counts.max? with
  | none =>
    rw [List.max?_eq_none_iff.mp hmax] at h
    exact absurd h List.not_mem_nil
  | some m => exact (List.max?_eq_some_iff.mp hmax).2 c h

theorem decodeBucket_mono {a b : Int} (h : a ≤ b) : decodeBucket a ≤ decodeBucket b := by
  unfold decodeBucket
  split <;> split <;> try split
  all_goals omega

theorem le_decodeBucket (a : Int) : a ≤ decodeBucket a := by
  unfold decodeBucket
  split <;> try split
  all_goals omega

theorem decodeBucket_of_large {a : Int} (h : 8 < a) :
    decodeBucket a = (a + 15) / 16 * 16 ∧ 16 ≤ decodeBucket a := by
  have heq : decodeBucket a = (a + 15) / 16 * 16 := by
    rw [decodeBucket, if_neg (by omega), if_neg (by omega)]
  exact ⟨heq, by omega⟩

/-- A multiple of 16 is its own bucket. -/
theorem decodeBucket_mul {k : Int} (h : 1 ≤ k) : decodeBucket (16 * k) = 16 * k := by
  rw [decodeBucket, if_neg (by omega), if_neg (by omega)]
  omega

theorem mem_pyRange {g s : Int} : s ∈ pyRange 16 (g + 1) 16 ↔ ∃ k, 1 ≤ k ∧ 16 * k ≤ g ∧ s = 16 * k := by
  unfold pyRange
  rw [List.mem_map]
  constructor
  · rintro ⟨i, hi, rfl⟩
    have hi := List.mem_range.mp hi
    exact ⟨i + 1, by omega, by omega, by omega⟩
  · rintro ⟨k, hk, hle, rfl⟩
    exact ⟨(k - 1).toNat, List.mem_range.mpr (by omega), by omega⟩

theorem getLast?_pyRange {g : Int} (h : 16 ≤ g) :
    (pyRange 16 (g + 1) 16).getLast? = some (16 * (g / 16)) := by
  have hlen : ((g + 1 - 16 + 16 - 1) / 16).toNat = (g / 16 - 1).toNat + 1 := by omega
  rw [pyRange, hlen, List.range_succ, List.map_append, List.map_singleton, List.getLast?_concat]
  exact congrArg some (by omega)

/-- The largest graph that the buckets allow. -/
def maxGraphBatch (maxBatch : Int) (dpSize : Nat) : Int :=
  min (decodeBucket ((maxBatch + dpSize - 1) / dpSize)) maxBatch

section Buckets

variable {maxBatch : Int} {dpSize : Nat} {s p : Int}

theorem buckets_eq : decodeGraphBuckets maxBatch dpSize =
    ([1, 2, 4, 8].filter fun size => size ≤ maxGraphBatch maxBatch dpSize) ++
      pyRange 16 (maxGraphBatch maxBatch dpSize + 1) 16 := rfl

theorem mem_buckets : s ∈ decodeGraphBuckets maxBatch dpSize ↔
    s ≤ maxGraphBatch maxBatch dpSize ∧ (s ∈ [1, 2, 4, 8] ∨ ∃ k, 1 ≤ k ∧ s = 16 * k) := by
  rw [buckets_eq, List.mem_append, List.mem_filter, mem_pyRange, decide_eq_true_iff]
  constructor
  · rintro (⟨hs, hle⟩ | ⟨k, hk, hle, rfl⟩)
    · exact ⟨hle, .inl hs⟩
    · exact ⟨hle, .inr ⟨k, hk, rfl⟩⟩
  · rintro ⟨hle, hs | ⟨k, hk, rfl⟩⟩
    · exact .inl ⟨hs, hle⟩
    · exact .inr ⟨k, hk, hle, rfl⟩

/-- The capacity, compared with a multiple of 16. -/
theorem le_last_iff {k : Int} (hk : 1 ≤ k) :
    16 * k ≤ (decodeGraphBuckets maxBatch dpSize).getLast?.getD 0 ↔
      16 * k ≤ maxGraphBatch maxBatch dpSize := by
  rw [buckets_eq, List.getLast?_append]
  by_cases hg : 16 ≤ maxGraphBatch maxBatch dpSize
  · rw [getLast?_pyRange hg]
    show 16 * k ≤ 16 * (maxGraphBatch maxBatch dpSize / 16) ↔ _
    omega
  · have hnil : pyRange 16 (maxGraphBatch maxBatch dpSize + 1) 16 = [] := by
      refine List.eq_nil_iff_forall_not_mem.mpr fun s hs => ?_
      obtain ⟨k, hk, hle, -⟩ := mem_pyRange.mp hs
      omega
    rw [hnil]
    refine iff_of_false (fun hle => ?_) (by omega)
    cases hlast : (List.filter (fun size : Int =>
        decide (size ≤ maxGraphBatch maxBatch dpSize)) [1, 2, 4, 8]).getLast? with
    | none =>
      rw [hlast] at hle
      have hle : 16 * k ≤ 0 := hle
      omega
    | some last =>
      rw [hlast] at hle
      have hle : 16 * k ≤ last := hle
      have hmem := List.mem_of_mem_filter (List.mem_of_getLast? hlast)
      simp only [List.mem_cons, List.not_mem_nil, or_false] at hmem
      omega

/-- The smallest bucket is 1. -/
theorem buckets_cons (dpSize : Nat) (h : 1 ≤ maxBatch) : ∃ rest, decodeGraphBuckets maxBatch dpSize = 1 :: rest := by
  have hg : 1 ≤ maxGraphBatch maxBatch dpSize := by
    have hbucket : 1 ≤ decodeBucket ((maxBatch + dpSize - 1) / dpSize) := by
      unfold decodeBucket
      split <;> try split
      all_goals omega
    exact le_min hbucket h
  rw [buckets_eq, List.filter_cons, if_pos (decide_eq_true hg)]
  exact ⟨_, rfl⟩

/-- No bucket is rounded to 1. -/
theorem find?_one : (decodeGraphBuckets maxBatch dpSize).find? (fun s => decodeBucket s = 1) = none := by
  refine List.find?_eq_none.mpr fun s hs => ?_
  have hpos : 1 ≤ s := by
    rcases (mem_buckets.mp hs).2 with hs | ⟨k, hk, rfl⟩
    · simp only [List.mem_cons, List.not_mem_nil, or_false] at hs
      omega
    · omega
  have hmono := decodeBucket_mono hpos
  have h8 : decodeBucket 1 = 8 := rfl
  rw [decide_eq_true_iff]
  omega

/-- The bucket 1 is rounded to 8. -/
theorem find?_eight (h : 1 ≤ maxBatch) :
    (decodeGraphBuckets maxBatch dpSize).find? (fun s => decodeBucket s = 8) = some 1 := by
  obtain ⟨rest, heq⟩ := buckets_cons dpSize h
  rw [heq, List.find?_cons_of_pos]
  rfl

/-- Only a multiple of 16 is rounded to itself. -/
theorem find?_mul {k : Int} (hk : 1 ≤ k) (hle : 16 * k ≤ maxGraphBatch maxBatch dpSize) :
    (decodeGraphBuckets maxBatch dpSize).find? (fun s => decodeBucket s = 16 * k) =
      some (16 * k) := by
  have hmem : 16 * k ∈ decodeGraphBuckets maxBatch dpSize := mem_buckets.mpr ⟨hle, .inr ⟨k, hk, rfl⟩⟩
  cases hfind : (decodeGraphBuckets maxBatch dpSize).find? fun s => decodeBucket s = 16 * k with
  | none =>
    have hself := List.find?_eq_none.mp hfind _ hmem
    exact absurd (decide_eq_true (decodeBucket_mul hk)) hself
  | some s =>
    have hself := List.find?_some hfind
    have heq := of_decide_eq_true hself
    rcases (mem_buckets.mp (List.mem_of_find?_eq_some hfind)).2 with hs | ⟨k', hk', rfl⟩
    · have hle8 : s ≤ 8 := by
        simp only [List.mem_cons, List.not_mem_nil, or_false] at hs
        omega
      have hmono := decodeBucket_mono hle8
      have h8 : decodeBucket 8 = 8 := rfl
      omega
    · rw [decodeBucket_mul hk'] at heq
      rw [heq]

end Buckets

/-! ## The keys -/

namespace DecodeCudaGraphRunner

variable {r : DecodeCudaGraphRunner} {counts : List Int} {dpIsDecode : Option (List Int)}

/-- What `graph_key` returns for a largest count. -/
def keyFor (r : DecodeCudaGraphRunner) (count : Int) : Option (Int × List Int) :=
  if r.buckets.getLast?.getD 0 < decodeBucket count then none
  else some (decodeBucket count, List.replicate r.dpSize (decodeBucket count))

/-- **The key depends on the counts only**, on a rank that has as many rows as it has declared. -/
theorem graphKey_ok (hlen : counts.length = r.dpSize) (hpos : ∀ c ∈ counts, 0 ≤ c) {rows : Nat}
    (hrows : counts[r.dpRank]? = some (rows : Int))
    (hdecode : ∀ flags, dpIsDecode = some flags → ∀ d ∈ flags, d ≠ 0) :
    r.graphKey rows (some counts) dpIsDecode = .ok (r.keyFor (counts.max?.getD 0)) := by
  obtain ⟨hrank, hown⟩ := List.getElem?_eq_some_iff.mp hrows
  have hmem : (rows : Int) ∈ counts := hown ▸ List.getElem_mem hrank
  unfold graphKey keyFor
  dsimp only
  by_cases hone : r.dpSize = 1
  · obtain ⟨c, rfl⟩ := List.length_eq_one_iff.mp (hlen.trans hone)
    obtain rfl := List.mem_singleton.mp hmem
    rw [if_pos hone, hone]
    show (if _ then _ else _) = Except.ok (if _ < decodeBucket ↑rows then _ else _)
    split <;> rfl
  · have hflags : (dpIsDecode.any fun flags => ¬ flags.all (· ≠ 0)) = false := by
      cases dpIsDecode with
      | none => rfl
      | some flags => simpa using fun h => hdecode flags rfl 0 h rfl
    have hneg : ¬ (counts.any (· < 0)) = true := by simpa using hpos
    have hmax : max (counts.max?.getD 0) (rows : Int) = counts.max?.getD 0 :=
      max_eq_left (le_max?_getD hmem)
    rw [if_neg hone, dif_neg (not_not_intro hlen), if_neg (by simpa using hflags), if_neg hneg,
      if_neg (by rw [List.get_eq_getElem, hown]; omega), hmax]
    split <;> rfl

/-! ## The entries -/

/-- The entry that `warmup` makes for a bucket. -/
def entryFor (r : DecodeCudaGraphRunner) (s : Int) : DecodeGraphEntry := ⟨s, r.staticMetadata s⟩

/-- The entries, with the one for a bucket. -/
def withEntry (r : DecodeCudaGraphRunner) (graphs : Dict (Int × List Int) DecodeGraphEntry)
    (s : Int) : Dict (Int × List Int) DecodeGraphEntry :=
  match r.keyFor s with
  | none => graphs
  | some key => graphs.set key (r.entryFor s)

theorem capture_ok {s : Int} (hs : 0 ≤ s) (graphs : Dict (Int × List Int) DecodeGraphEntry) :
    r.capture graphs s = .ok (r.withEntry graphs s) := by
  have hmax : (List.replicate r.dpSize s).max?.getD 0 = s := by
    have h := List.max?_replicate_of_pos (a := s) r.dpSize_pos
    rw [h]
    rfl
  have hrows : (List.replicate r.dpSize s)[r.dpRank]? = some (s.toNat : Int) := by
    rw [List.getElem?_replicate, if_pos r.dpRank_lt, Int.toNat_of_nonneg hs]
  have hdecode : ∀ flags, some (List.replicate r.dpSize (1 : Int)) = some flags →
      ∀ d ∈ flags, d ≠ 0 := fun flags hflags d hd => by
    obtain rfl := Option.some.inj hflags
    rw [List.eq_of_mem_replicate hd]
    decide
  have hkey := graphKey_ok List.length_replicate (fun c hc => List.eq_of_mem_replicate hc ▸ hs)
    hrows hdecode
  rw [hmax] at hkey
  unfold capture
  refine bind_eq_ok.mpr ⟨_, hkey, ?_⟩
  unfold withEntry
  cases r.keyFor s <;> rfl

/-- Of the buckets with one key, the first in the list is kept. -/
theorem captures_ok {l : List Int} (hl : ∀ s ∈ l, 0 ≤ s) :
    ∃ graphs, l.reverse.foldlM r.capture ∅ = .ok graphs ∧
      ∀ p ≤ r.buckets.getLast?.getD 0, graphs.get? (p, List.replicate r.dpSize p) =
        (l.find? fun s => decodeBucket s = p).map r.entryFor := by
  induction l with
  | nil => exact ⟨∅, rfl, fun p _ => rfl⟩
  | cons s l ih =>
    obtain ⟨graphs, hrun, hget⟩ := ih fun s' hs' => hl s' (List.mem_cons_of_mem s hs')
    refine ⟨r.withEntry graphs s, ?_, fun p hp => ?_⟩
    · rw [List.reverse_cons, List.foldlM_append, hrun]
      show (List.foldlM r.capture graphs [s] : Except Err _) = _
      rw [List.foldlM_cons, capture_ok (hl s List.mem_cons_self)]
      rfl
    · have hget := hget p hp
      rw [List.find?_cons]
      unfold withEntry keyFor
      by_cases hs : decodeBucket s = p
      · subst hs
        rw [if_neg (by omega)]
        simp
      · rw [decide_eq_false hs]
        split
        · exact hget
        · next key hkey =>
          have hne : (p, List.replicate r.dpSize p) ≠ key := fun heq => by
            split at hkey
            · cases hkey
            · cases hkey
              exact hs (Prod.ext_iff.mp heq).1.symm
          rw [Dict.get?_set_of_ne hne, hget]

/-- **The entries after `warmup`.** -/
theorem warmup_ok (maxBatch : Int) {dpSize rank : Nat} (h : rank < dpSize) :
    ∃ warmed, (new maxBatch dpSize rank h).warmup = .ok warmed ∧
      ∀ p ≤ (decodeGraphBuckets maxBatch dpSize).getLast?.getD 0,
        warmed.graphs.get? (p, List.replicate dpSize p) =
          ((decodeGraphBuckets maxBatch dpSize).find? fun s => decodeBucket s = p).map
            (new maxBatch dpSize rank h).entryFor := by
  have hpos : ∀ s ∈ decodeGraphBuckets maxBatch dpSize, 0 ≤ s := fun s hs => by
    rcases (mem_buckets.mp hs).2 with hs | ⟨k, hk, rfl⟩
    · simp only [List.mem_cons, List.not_mem_nil, or_false] at hs
      omega
    · omega
  obtain ⟨graphs, hrun, hget⟩ := captures_ok (r := new maxBatch dpSize rank h) hpos
  exact ⟨{ new maxBatch dpSize rank h with graphs := graphs, warmedUp := true },
    bind_eq_ok.mpr ⟨graphs, hrun, rfl⟩, hget⟩

end DecodeCudaGraphRunner

/-! ## The coverage -/

/-- The tensors have `b` rows. -/
structure StaticAttentionMetadata.HasRows (m : StaticAttentionMetadata) (dpSize : Nat) (b : Int) :
    Prop where
  slotMapping : (m.slotMapping.length : Int) = b
  pagedKvIndptr : (m.pagedKvIndptr.length : Int) = b + 1
  pagedKvIndices : (m.pagedKvIndices.length : Int) = b
  pagedKvLastPageLen : (m.pagedKvLastPageLen.length : Int) = b
  dpTokenCounts : m.dpTokenCounts = List.replicate dpSize b
  dpIsDecode : m.dpIsDecode.length = dpSize

theorem staticMetadata_hasRows (r : DecodeCudaGraphRunner) {b : Int} (h : 0 ≤ b) :
    (r.staticMetadata b).HasRows r.dpSize b := by
  refine ⟨?_, ?_, ?_, ?_, rfl, List.length_replicate⟩
  all_goals
    simp only [DecodeCudaGraphRunner.staticMetadata, List.length_replicate, List.length_map,
      List.length_range]
    omega

/-- The ranks find a key for their counts, and after `warmup` an entry of its size. -/
def Covered (maxBatch : Int) (dpSize : Nat) (counts : List Nat) (dpIsDecode : Option (List Int)) :
    Prop :=
  ∃ b : Int, (∀ c ∈ counts, (c : Int) ≤ b) ∧
    ∀ (rank : Nat) (h : rank < dpSize) (rows : Nat), counts[rank]? = some rows →
      let r := DecodeCudaGraphRunner.new maxBatch dpSize rank h
      r.graphKey rows (some (counts.map fun (c : Nat) => (c : Int))) dpIsDecode =
        .ok (some (b, List.replicate dpSize b)) ∧
      ∃ warmed entry, r.warmup = .ok warmed ∧
        warmed.graphs.get? (b, List.replicate dpSize b) = some entry ∧
        entry.batchSize = b ∧ entry.staticMetadata.HasRows dpSize b

section Covered

variable {maxBatch : Int} {dpSize : Nat} {counts : List Nat} {dpIsDecode : Option (List Int)}

/-- The largest count. -/
def largest (counts : List Nat) : Int := (counts.map fun (c : Nat) => (c : Int)).max?.getD 0

theorem le_largest {c : Nat} (h : c ∈ counts) : (c : Int) ≤ largest counts :=
  le_max?_getD (List.mem_map_of_mem h)

theorem largest_mem (h : counts ≠ []) : ∃ c ∈ counts, largest counts = c := by
  unfold largest
  cases hmax : (counts.map fun (c : Nat) => (c : Int)).max? with
  | none => exact absurd (List.map_eq_nil_iff.mp (List.max?_eq_none_iff.mp hmax)) h
  | some m =>
    obtain ⟨c, hc, rfl⟩ := List.mem_map.mp (List.max?_eq_some_iff.mp hmax).1
    exact ⟨c, hc, rfl⟩

/-- All ranks have the key of the largest count. -/
theorem graphKey_ranks (maxBatch : Int) (hlen : counts.length = dpSize)
    (hdecode : ∀ flags, dpIsDecode = some flags → ∀ d ∈ flags, d ≠ 0) {rank rows : Nat}
    (h : rank < dpSize) (hrows : counts[rank]? = some rows) :
    (DecodeCudaGraphRunner.new maxBatch dpSize rank h).graphKey rows
        (some (counts.map fun (c : Nat) => (c : Int))) dpIsDecode =
      .ok ((DecodeCudaGraphRunner.new maxBatch dpSize rank h).keyFor (largest counts)) := by
  refine DecodeCudaGraphRunner.graphKey_ok ((List.length_map _).trans hlen) (fun c hc => ?_) ?_ hdecode
  · obtain ⟨c, -, rfl⟩ := List.mem_map.mp hc
    exact Int.natCast_nonneg c
  · rw [List.getElem?_map]
    exact congrArg (Option.map _) hrows

/-- A covered batch has a count above 8, and fits after rounding. -/
theorem Covered.large (hmax : 1 ≤ maxBatch) (hdp : 0 < dpSize) (hlen : counts.length = dpSize)
    (hdecode : ∀ flags, dpIsDecode = some flags → ∀ d ∈ flags, d ≠ 0)
    (h : Covered maxBatch dpSize counts dpIsDecode) :
    8 < largest counts ∧ decodeBucket (largest counts) ≤ maxBatch := by
  obtain ⟨b, -, h⟩ := h
  have hrows := List.getElem?_eq_getElem (hlen ▸ hdp : 0 < counts.length)
  obtain ⟨hkey, warmed, entry, hrun, hentry, hsize, -⟩ := h 0 hdp _ hrows
  obtain ⟨warmed', hrun', hget⟩ := DecodeCudaGraphRunner.warmup_ok maxBatch hdp
  obtain rfl := Except.ok.inj (hrun'.symm.trans hrun)
  rw [graphKey_ranks maxBatch hlen hdecode hdp hrows] at hkey
  have hkey := Except.ok.inj hkey
  unfold DecodeCudaGraphRunner.keyFor at hkey
  split at hkey
  · cases hkey
  · next hle =>
    have hb : decodeBucket (largest counts) = b := (Prod.ext_iff.mp (Option.some.inj hkey)).1
    have hle : b ≤ (decodeGraphBuckets maxBatch dpSize).getLast?.getD 0 := hb ▸ Int.not_lt.mp hle
    rw [hget b hle] at hentry
    by_cases hlarge : 8 < largest counts
    · obtain ⟨heq, hge⟩ := decodeBucket_of_large hlarge
      have hb16 : b = 16 * ((largest counts + 15) / 16) := by omega
      refine ⟨hlarge, ?_⟩
      rw [hb16] at hle
      have hg := (le_last_iff (by omega)).mp hle
      have hmin : maxGraphBatch maxBatch dpSize ≤ maxBatch := min_le_right _ _
      omega
    · -- The smaller keys have no entry, or that of the bucket 1.
      exfalso
      by_cases hzero : largest counts ≤ 0
      · have hb1 : b = 1 := by rw [← hb, decodeBucket, if_pos hzero]
        rw [hb1, find?_one] at hentry
        cases hentry
      · have hb8 : b = 8 := by rw [← hb, decodeBucket, if_neg hzero, if_pos (by omega)]
        rw [hb8, find?_eight hmax] at hentry
        obtain rfl := Option.some.inj hentry
        have hone : (1 : Int) = b := hsize
        omega

/-- A batch with a count above 8 that fits after rounding is covered. -/
theorem covered_of_large (hdp : 0 < dpSize) (hlen : counts.length = dpSize)
    (hlocal : ∀ c ∈ counts, (c : Int) ≤ (maxBatch + dpSize - 1) / dpSize)
    (hdecode : ∀ flags, dpIsDecode = some flags → ∀ d ∈ flags, d ≠ 0)
    (hlarge : 8 < largest counts) (hfits : decodeBucket (largest counts) ≤ maxBatch) :
    Covered maxBatch dpSize counts dpIsDecode := by
  obtain ⟨heq, hge⟩ := decodeBucket_of_large hlarge
  have hb : decodeBucket (largest counts) = 16 * ((largest counts + 15) / 16) := by omega
  have hk : 1 ≤ (largest counts + 15) / 16 := by omega
  have hne : counts ≠ [] := fun hnil => by
    rw [hnil] at hlen
    exact absurd hlen.symm (Nat.ne_of_gt hdp)
  have hg : 16 * ((largest counts + 15) / 16) ≤ maxGraphBatch maxBatch dpSize := by
    obtain ⟨c, hc, hmax⟩ := largest_mem hne
    rw [← hb]
    exact le_min (decodeBucket_mono (hmax ▸ hlocal c hc)) hfits
  refine ⟨decodeBucket (largest counts),
    fun c hc => (le_largest hc).trans (le_decodeBucket _), fun rank h rows hrows => ⟨?_, ?_⟩⟩
  · rw [graphKey_ranks maxBatch hlen hdecode h hrows, DecodeCudaGraphRunner.keyFor, if_neg]
    · rfl
    · show ¬ (decodeGraphBuckets maxBatch dpSize).getLast?.getD 0 < _
      rw [hb]
      exact Int.not_lt.mpr ((le_last_iff hk).mpr hg)
  · obtain ⟨warmed, hrun, hget⟩ := DecodeCudaGraphRunner.warmup_ok maxBatch h
    refine ⟨warmed, (DecodeCudaGraphRunner.new maxBatch dpSize rank h).entryFor
      (decodeBucket (largest counts)), hrun, ?_, rfl, staticMetadata_hasRows _ (by omega)⟩
    rw [hget _ (by rw [hb]; exact (le_last_iff hk).mpr hg), hb, find?_mul hk hg]
    rfl

/-- **When a batch is covered**: some rank decodes more than 8 rows, and the rounded counts are at
most the largest batch. -/
theorem graph_covered_iff (hmax : 1 ≤ maxBatch) (hdp : 0 < dpSize) (hlen : counts.length = dpSize)
    (hlocal : ∀ c ∈ counts, (c : Int) ≤ (maxBatch + dpSize - 1) / dpSize)
    (hdecode : ∀ flags, dpIsDecode = some flags → ∀ d ∈ flags, d ≠ 0) :
    Covered maxBatch dpSize counts dpIsDecode ↔
      (∃ c ∈ counts, 8 < c) ∧ ∀ c ∈ counts, decodeBucket c ≤ maxBatch := by
  have hne : counts ≠ [] := fun hnil => by
    rw [hnil] at hlen
    exact absurd hlen.symm (Nat.ne_of_gt hdp)
  obtain ⟨m, hm, hlargest⟩ := largest_mem hne
  constructor
  · intro h
    obtain ⟨hlarge, hfits⟩ := h.large hmax hdp hlen hdecode
    exact ⟨⟨m, hm, by omega⟩, fun c hc => (decodeBucket_mono (le_largest hc)).trans hfits⟩
  · rintro ⟨⟨c, hc, hlarge⟩, hfits⟩
    have hle := le_largest hc
    exact covered_of_large hdp hlen hlocal hdecode (by omega) (hlargest ▸ hfits m hm)

end Covered

theorem graph_covered_iff_two : Covered 32 2 [12, 3] (some [1, 1]) ↔
    (∃ c ∈ [12, 3], 8 < c) ∧ ∀ c ∈ [12, 3], decodeBucket (c : Nat) ≤ 32 :=
  graph_covered_iff (by decide) (by decide) (by decide) (by decide)
    (fun flags h d hd => by obtain rfl := Option.some.inj h; simp_all)

/-- Two ranks with four and three rows have the key of 8, whose entry has one row. -/
theorem graph_not_covered : (∀ c ∈ [4, 3], ((c : Nat) : Int) ≤ (32 + (2 : Nat) - 1) / (2 : Nat)) ∧
    ¬ Covered 32 2 [4, 3] (some [1, 1]) := by
  refine ⟨by decide, fun h => ?_⟩
  have hlarge := (h.large (by decide) (by decide) rfl fun flags h d hd => by
    obtain rfl := Option.some.inj h
    simp_all).1
  exact absurd hlarge (by decide)

end Bi100.Dp
