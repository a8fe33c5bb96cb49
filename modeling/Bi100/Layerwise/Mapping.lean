import Bi100.Layerwise.Layout
import Mathlib.Algebra.BigOperators.Group.List.Basic
import Mathlib.Data.Int.CardIntervalMod

/-!
# The layout splits every layer and is balanced

- `Splits`: the ranks of a layer are distinct, and their heads are a partition of the layer's heads
  into ranges of almost equal length.
- **Slots**: layers with fewer heads than ranks are dealt to the ranks one head after the other. The
  `rr_offset` is the number of heads dealt so far modulo the number of ranks.
- `ilu_layout_correct`: a layout is computed exactly for positive numbers of heads.
-/

namespace Bi100

open Py

/-! ## What a layout should do -/

namespace LayerShardSpec

/-- The first head of an entry. -/
def startOffset (s : LayerShardSpec) (i : Nat) : Int := (s.headsPerRank.take i).sum

/-- The layer's heads are divided between distinct ranks. -/
structure Splits (worldSize totalHeads : Int) (s : LayerShardSpec) : Prop where
  nodup : s.assignedRanks.Nodup
  ranks : ∀ r ∈ s.assignedRanks, 0 ≤ r ∧ r < worldSize
  length : s.headsPerRank.length = s.assignedRanks.length
  positive : ∀ n ∈ s.headsPerRank, 0 < n
  total : s.totalHeads = totalHeads
  even : ∀ n ∈ s.headsPerRank, ∀ n' ∈ s.headsPerRank, n ≤ n' + 1
  tiles : ∀ x, 0 ≤ x → x < totalHeads →
    ∃! i, i < s.headsPerRank.length ∧ s.startOffset i ≤ x ∧ x < s.startOffset (i + 1)

end LayerShardSpec

/-- How many of the layers with fewer heads than ranks are on a rank. -/
def numDealtLayers (worldSize : Int) (layers : List (LayerShardSpec × Int)) (rank : Int) : Nat :=
  layers.countP fun p => p.2 < worldSize ∧ p.1.rankOwnsLayer rank = true

/-! ## The layout in natural numbers -/

variable {w T h n : Nat}

/-- A layer, when `T` heads have been dealt before. -/
def layerSpec (w lid T h : Nat) : LayerShardSpec where
  layerId := lid
  assignedRanks :=
    if w ≤ h then (List.range w).map Int.ofNat
    else (List.range h).map fun j => (((T + j) % w : Nat) : Int)
  headsPerRank := (List.range (min w h)).map fun r =>
    ((h / min w h + if r < h % min w h then 1 else 0 : Nat) : Int)

/-- The heads that have been dealt after the layer. -/
def dealt (w T h : Nat) : Nat := if w ≤ h then T else T + h

/-- The layers from `lid` on. -/
def layerSpecs (w : Nat) : Nat → Nat → List Nat → List LayerShardSpec
  | _, _, [] => []
  | lid, T, h :: rest => layerSpec w lid T h :: layerSpecs w (lid + 1) (dealt w T h) rest

theorem splitHeads_ok {c : Nat} (hc : 0 < c) : splitHeads h c =
    .ok ((List.range c).map fun r => ((h / c + if r < h % c then 1 else 0 : Nat) : Int)) := by
  have hc' : ¬ (c : Int) = 0 := by omega
  unfold splitHeads
  rw [guardNot_bind, if_neg hc', Int.tdiv_eq_ediv_of_nonneg (Int.natCast_nonneg h),
    Int.tmod_eq_emod_of_nonneg (Int.natCast_nonneg h)]
  refine congrArg Except.ok (List.map_congr_left fun r _ => ?_)
  rw [Nat.cast_add, Int.natCast_ediv, ← Int.natCast_emod]
  congr 1
  split
  · next hlt => rw [if_pos (by exact_mod_cast hlt)]; rfl
  · next hlt => rw [if_neg (by exact_mod_cast hlt)]; rfl

theorem int32_ok {x : Nat} (hx : x < 2 ^ 31) : int32 x = .ok x := by
  unfold int32
  rw [if_pos (by omega)]
  rfl

theorem computeLayer_ok {lid : Nat} (hw : 0 < w) (hmax : w ≤ h ∨ T % w + h < 2 ^ 31) (hh : 0 < h) :
    computeLayer lid h w (T % w : Nat) = .ok (layerSpec w lid T h, (dealt w T h % w : Nat)) := by
  unfold computeLayer dealt layerSpec
  by_cases hle : w ≤ h
  · rw [if_pos (by exact_mod_cast hle), if_pos hle, if_pos hle, splitHeads_ok hw, Nat.min_eq_left hle]
    rfl
  · have hlt : h < w := Nat.lt_of_not_le hle
    have hmax := hmax.resolve_left hle
    rw [if_neg (by exact_mod_cast hle), if_neg hle, if_neg hle, Nat.min_eq_right hlt.le]
    have hcast : castInt32 h = h := by
      unfold castInt32
      rw [Int.bmod_def]
      omega
    have hrank : ∀ j ≤ h, int32 ((T % w : Nat) + (j : Int)) = .ok (T % w + j : Nat) := fun j hj => by
      rw [← Nat.cast_add]
      exact int32_ok (by omega)
    have hranks : ((List.range h).mapM fun (j : Nat) => do
        let rank ← int32 ((T % w : Nat) + (j : Int))
        pure (rank.tmod w) : Cpp (List Int)) =
        .ok ((List.range h).map fun j => (((T + j) % w : Nat) : Int)) := by
      refine mapM_eq_ok_map fun j hj => ?_
      rw [hrank j (List.mem_range.mp hj).le, ← Nat.mod_add_mod T w j, Int.natCast_emod,
        ← Int.tmod_eq_emod_of_nonneg (Int.natCast_nonneg _)]
      rfl
    dsimp only
    rw [hcast, Int.toNat_natCast, hranks, splitHeads_ok hh, hrank h (Nat.le_refl h),
      ← Nat.mod_add_mod T w h, Int.natCast_emod, ← Int.tmod_eq_emod_of_nonneg (Int.natCast_nonneg _)]
    rfl

theorem computeLayer_overflow (lid : Nat) (hmax : w < 2 ^ 31)
    (hfit : ¬ (w ≤ h ∨ T % w + h < 2 ^ 31)) (r : LayerShardSpec × Int) :
    computeLayer lid h w (T % w : Nat) ≠ .ok r := by
  intro hr
  rw [not_or] at hfit
  have hcast : castInt32 h = h := by
    unfold castInt32
    rw [Int.bmod_def]
    omega
  rw [computeLayer, if_neg (by exact_mod_cast hfit.1), hcast] at hr
  dsimp only at hr
  obtain ⟨ranks, -, hr⟩ := bind_eq_ok.mp hr
  obtain ⟨shares, -, hr⟩ := bind_eq_ok.mp hr
  obtain ⟨next, hnext, -⟩ := bind_eq_ok.mp hr
  -- The cursor overflows before it is reduced.
  unfold int32 at hnext
  rw [if_neg (by omega)] at hnext
  cases hnext

/-- A layer that is returned, whatever the number of ranks. -/
theorem computeLayer_eq_ok (lid : Nat) (hw : 0 < w) (hmax : w < 2 ^ 31) (hh : 0 < h)
    {r : LayerShardSpec × Int} (hr : computeLayer lid h w (T % w : Nat) = .ok r) :
    r = (layerSpec w lid T h, ((dealt w T h % w : Nat) : Int)) := by
  by_cases hfit : w ≤ h ∨ T % w + h < 2 ^ 31
  · exact Except.ok.inj (hr.symm.trans (computeLayer_ok hw hfit hh))
  · exact absurd hr (computeLayer_overflow lid hmax hfit r)

theorem computeLayers_ok {heads : List Nat} (lid : Nat) (hw : 0 < w) (hmax : w ≤ 2 ^ 30)
    (hpos : ∀ h ∈ heads, 0 < h) :
    computeLayers w lid (T % w : Nat) (heads.map Nat.cast) = .ok (layerSpecs w lid T heads) := by
  induction heads generalizing lid T with
  | nil => rfl
  | cons h rest ih =>
    have hrest := ih (T := dealt w T h) (lid + 1) fun h' hh => hpos h' (List.mem_cons_of_mem h hh)
    have hT : T % w < w := Nat.mod_lt _ hw
    rw [List.map_cons, computeLayers, computeLayer_ok hw (by omega) (hpos h List.mem_cons_self)]
    show (computeLayers w (lid + 1) (dealt w T h % w : Nat) (rest.map Nat.cast) >>= _) = _
    rw [← Nat.cast_succ, hrest]
    rfl

theorem computeLayers_eq_ok {heads : List Nat} {lid : Nat} (hw : 0 < w) (hmax : w < 2 ^ 31)
    (hpos : ∀ h ∈ heads, 0 < h) {specs : List LayerShardSpec}
    (hr : computeLayers w lid (T % w : Nat) (heads.map Nat.cast) = .ok specs) :
    specs = layerSpecs w lid T heads := by
  induction heads generalizing lid T specs with
  | nil => exact (Except.ok.inj hr).symm
  | cons h rest ih =>
    rw [List.map_cons, computeLayers, bind_eq_ok] at hr
    obtain ⟨⟨s, rr⟩, hlayer, hr⟩ := hr
    dsimp only at hr
    obtain ⟨rfl, rfl⟩ := Prod.mk.inj (computeLayer_eq_ok lid hw hmax (hpos h List.mem_cons_self) hlayer)
    obtain ⟨specs', hrest, hr⟩ := bind_eq_ok.mp hr
    rw [← Nat.cast_succ] at hrest
    obtain rfl := pure_eq_ok.mp hr
    rw [layerSpecs, ih (fun h' hh => hpos h' (List.mem_cons_of_mem h hh)) hrest]

/-! ## Every layer is split -/

theorem sum_even {c : Nat} (hc : 0 < c) (k : Nat) (hk : k ≤ c) :
    ((List.range k).map fun r => ((h / c + if r < h % c then 1 else 0 : Nat) : Int)).sum =
      (k * (h / c) + min k (h % c) : Nat) := by
  induction k with
  | zero => simp
  | succ k ih =>
    rw [List.range_succ, List.map_append, List.sum_append, ih (Nat.le_of_succ_le hk),
      List.map_singleton, List.sum_singleton, ← Nat.cast_add, Nat.succ_mul]
    congr 1
    split
    · omega
    · omega

/-- A growing sequence of offsets from `0` on tiles what is below the last one. -/
theorem existsUnique_tile {f : Nat → Nat} (hf : Monotone f) (h0 : f 0 = 0) {c : Nat} {x : Nat}
    (hx : x < f c) : ∃! i, i < c ∧ f i ≤ x ∧ x < f (i + 1) := by
  have hex : ∃ i, i < c ∧ f i ≤ x ∧ x < f (i + 1) := by
    induction c with
    | zero => omega
    | succ c ih =>
      by_cases hc : x < f c
      · obtain ⟨i, hi, hle, hlt⟩ := ih hc
        exact ⟨i, Nat.lt_succ_of_lt hi, hle, hlt⟩
      · exact ⟨c, Nat.lt_succ_self c, Nat.le_of_not_lt hc, hx⟩
  obtain ⟨i, hi, hle, hlt⟩ := hex
  refine ⟨i, ⟨hi, hle, hlt⟩, fun j ⟨_, hle', hlt'⟩ => ?_⟩
  rcases Nat.lt_trichotomy i j with hij | rfl | hji
  · have := hf (show i + 1 ≤ j from hij)
    omega
  · rfl
  · have := hf (show j + 1 ≤ i from hji)
    omega

/-- The first head of an entry of a layer. -/
def offset (c h i : Nat) : Nat := i * (h / c) + min i (h % c)

theorem offset_mono (c h : Nat) : Monotone (offset c h) := by
  intro i j hij
  have := Nat.mul_le_mul_right (h / c) hij
  unfold offset
  omega

theorem offset_total {c : Nat} (hc : 0 < c) (h : Nat) : offset c h c = h := by
  have hmod := Nat.mod_lt h hc
  have hdiv := Nat.div_add_mod h c
  unfold offset
  rw [Nat.min_eq_right hmod.le]
  exact hdiv

theorem startOffset_layerSpec {lid i : Nat} (hc : 0 < min w h) (hi : i ≤ min w h) :
    (layerSpec w lid T h).startOffset i = (offset (min w h) h i : Nat) := by
  rw [LayerShardSpec.startOffset, layerSpec, ← List.map_take, List.take_range, Nat.min_eq_left hi]
  exact sum_even hc i hi

theorem mod_injOn {i j : Nat} (hi : i < w) (hj : j < w) (h : (T + i) % w = (T + j) % w) : i = j :=
  (Nat.ModEq.add_left_cancel' T h).eq_of_lt_of_lt hi hj

theorem layerSpec_ranks (lid : Nat) :
    (layerSpec w lid T h).assignedRanks.length = min w h := by
  unfold layerSpec
  dsimp only
  split
  · next hle => rw [List.length_map, List.length_range, Nat.min_eq_left hle]
  · next hle => rw [List.length_map, List.length_range, Nat.min_eq_right (Nat.le_of_not_le hle)]

theorem layerSpec_splits (lid : Nat) (hw : 0 < w) (hh : 0 < h) :
    (layerSpec w lid T h).Splits w h := by
  have hc : 0 < min w h := Nat.lt_min.mpr ⟨hw, hh⟩
  have hq : 0 < h / min w h := Nat.div_pos (Nat.min_le_right w h) hc
  have hheads : (layerSpec w lid T h).headsPerRank = (List.range (min w h)).map fun r =>
    ((h / min w h + if r < h % min w h then 1 else 0 : Nat) : Int) := rfl
  have hlen : (layerSpec w lid T h).headsPerRank.length = min w h := by
    rw [hheads, List.length_map, List.length_range]
  have hmem : ∀ n ∈ (layerSpec w lid T h).headsPerRank,
      n = (h / min w h : Nat) ∨ n = (h / min w h : Nat) + 1 := by
    intro n hn
    obtain ⟨r, -, rfl⟩ := List.mem_map.mp (hheads ▸ hn)
    split
    · exact .inr (Nat.cast_succ _)
    · exact .inl rfl
  refine ⟨?_, fun r hr => ?_, hlen.trans (layerSpec_ranks lid).symm, fun n hn => ?_, ?_,
    fun n hn n' hn' => ?_, fun x hx0 hx => ?_⟩
  · unfold layerSpec
    dsimp only
    split
    · exact List.nodup_range.map fun i j hij => Int.ofNat.inj hij
    · next hle =>
      refine List.nodup_range.map_on fun i hi j hj hij => ?_
      have hi := List.mem_range.mp hi
      have hj := List.mem_range.mp hj
      exact mod_injOn (by omega) (by omega) (Int.ofNat.inj hij)
  · unfold layerSpec at hr
    dsimp only at hr
    split at hr
    · obtain ⟨i, hi, rfl⟩ := List.mem_map.mp hr
      exact ⟨Int.natCast_nonneg i, Int.ofNat_lt.mpr (List.mem_range.mp hi)⟩
    · obtain ⟨j, -, rfl⟩ := List.mem_map.mp hr
      exact ⟨Int.natCast_nonneg _, Int.ofNat_lt.mpr (Nat.mod_lt _ hw)⟩
  · rcases hmem n hn with rfl | rfl
    · exact_mod_cast hq
    · omega
  · rw [LayerShardSpec.totalHeads, hheads, sum_even hc _ (Nat.le_refl _)]
    exact congrArg Nat.cast (offset_total hc h)
  · rcases hmem n hn with rfl | rfl
    · rcases hmem n' hn' with rfl | rfl
      · omega
      · omega
    · rcases hmem n' hn' with rfl | rfl
      · omega
      · omega
  · obtain ⟨x, rfl⟩ := Int.eq_ofNat_of_zero_le hx0
    have hx : x < offset (min w h) h (min w h) := by
      rw [offset_total hc h]
      exact_mod_cast hx
    obtain ⟨i, ⟨hi, hle, hlt⟩, huniq⟩ := existsUnique_tile (offset_mono _ h) (by simp [offset]) hx
    refine ⟨i, ⟨hlen.symm ▸ hi, ?_, ?_⟩, fun j ⟨hj, hle', hlt'⟩ => huniq j ?_⟩
    · rw [startOffset_layerSpec hc hi.le]
      exact_mod_cast hle
    · rw [startOffset_layerSpec hc hi]
      exact_mod_cast hlt
    · rw [hlen] at hj
      rw [startOffset_layerSpec hc hj.le] at hle'
      rw [startOffset_layerSpec hc hj] at hlt'
      exact ⟨hj, by exact_mod_cast hle', by exact_mod_cast hlt'⟩

/-! ## The ranks are dealt the same number of layers -/

variable {r : Nat}

theorem count_of_unique {p : Nat → Prop} [DecidablePred p]
    (h1 : ∀ i < n, ∀ j < n, p i → p j → i = j) :
    Nat.count p n = if ∃ j < n, p j then 1 else 0 := by
  rw [Nat.count_eq_card_filter_range]
  split
  · next hex =>
    obtain ⟨j, hj, hp⟩ := hex
    rw [Finset.card_eq_one]
    refine ⟨j, Finset.eq_singleton_iff_unique_mem.mpr ⟨?_, fun i hi => ?_⟩⟩
    · exact Finset.mem_filter.mpr ⟨Finset.mem_range.mpr hj, hp⟩
    · obtain ⟨hi, hpi⟩ := Finset.mem_filter.mp hi
      exact h1 i (Finset.mem_range.mp hi) j hj hpi hp
  · next hex =>
    rw [Finset.card_eq_zero, Finset.filter_eq_empty_iff]
    exact fun j hj hp => hex ⟨j, Finset.mem_range.mp hj, hp⟩

/-- The rank is dealt a head of the layer. -/
theorem owns_layerSpec {lid : Nat} (hlt : h < w) :
    (layerSpec w lid T h).rankOwnsLayer r = true ↔ ∃ j < h, (T + j) % w = r := by
  unfold layerSpec
  rw [LayerShardSpec.rankOwnsLayer, if_neg (Nat.not_le_of_lt hlt), List.any_eq_true]
  constructor
  · rintro ⟨x, hx, he⟩
    obtain ⟨j, hj, rfl⟩ := List.mem_map.mp hx
    exact ⟨j, List.mem_range.mp hj, Int.ofNat.inj (of_decide_eq_true he)⟩
  · rintro ⟨j, hj, he⟩
    exact ⟨_, List.mem_map.mpr ⟨j, List.mem_range.mpr hj, rfl⟩, decide_eq_true (congrArg _ he)⟩

theorem dealt_count (lid : Nat) (hr : r < w) :
    Nat.count (· ≡ r [MOD w]) (dealt w T h) = Nat.count (· ≡ r [MOD w]) T +
      if h < w ∧ (layerSpec w lid T h).rankOwnsLayer r = true then 1 else 0 := by
  unfold dealt
  by_cases hlt : h < w
  · have hone : ∀ i < h, ∀ j < h, T + i ≡ r [MOD w] → T + j ≡ r [MOD w] → i = j :=
      fun i hi j hj h₁ h₂ => mod_injOn (hi.trans hlt) (hj.trans hlt) (h₁.trans h₂.symm)
    rw [if_neg (Nat.not_le_of_lt hlt), Nat.count_add, count_of_unique hone]
    congr 1
    refine if_congr ?_ rfl rfl
    rw [owns_layerSpec hlt]
    refine ⟨fun ⟨j, hj, he⟩ => ⟨hlt, j, hj, ?_⟩, fun ⟨_, j, hj, he⟩ => ⟨j, hj, ?_⟩⟩
    · exact Eq.trans he (Nat.mod_eq_of_lt hr)
    · exact Eq.trans he (Nat.mod_eq_of_lt hr).symm
  · rw [if_pos (Nat.le_of_not_lt hlt), if_neg fun hc => hlt hc.1, Nat.add_zero]

/-- The layers dealt to a rank are the heads dealt to it. -/
theorem numDealtLayers_count {l : List Nat} (lid : Nat) (hr : r < w) :
    numDealtLayers w ((layerSpecs w lid T l).zip (l.map Nat.cast)) r +
      Nat.count (· ≡ r [MOD w]) T = Nat.count (· ≡ r [MOD w]) (l.foldl (dealt w) T) := by
  induction l generalizing lid T with
  | nil => exact Nat.zero_add _
  | cons h rest ih =>
    have hrest := ih (T := dealt w T h) (lid + 1)
    rw [dealt_count lid hr] at hrest
    rw [List.foldl_cons, ← hrest, layerSpecs, List.map_cons, List.zip_cons_cons, numDealtLayers,
      List.countP_cons]
    have hcond : (decide ((h : Int) < w ∧ (layerSpec w lid T h).rankOwnsLayer r = true) = true) ↔
        h < w ∧ (layerSpec w lid T h).rankOwnsLayer r = true := by
      rw [decide_eq_true_iff, Int.ofNat_lt]
    simp only [hcond, numDealtLayers]
    omega

theorem layerSpecs_take {heads : List Nat} {lid : Nat} (n : Nat) :
    (layerSpecs w lid T heads).take n = layerSpecs w lid T (heads.take n) := by
  induction heads generalizing lid T n with
  | nil => simp [layerSpecs]
  | cons h rest ih =>
    cases n with
    | zero => rfl
    | succ n => rw [layerSpecs, List.take_succ_cons, ih, List.take_succ_cons, layerSpecs]

/-- Over any number of layers, two ranks are dealt almost the same number of them. -/
theorem numDealtLayers_balanced {heads : List Nat} {r' : Nat} (hr : r < w) (hr' : r' < w) :
    numDealtLayers w ((layerSpecs w 0 0 heads).zip (heads.map Nat.cast)) r ≤
      numDealtLayers w ((layerSpecs w 0 0 heads).zip (heads.map Nat.cast)) r' + 1 := by
  have hw : 0 < w := Nat.zero_lt_of_lt hr
  have hc := numDealtLayers_count (T := 0) (r := r) (l := heads) 0 hr
  have hc' := numDealtLayers_count (T := 0) (r := r') (l := heads) 0 hr'
  rw [Nat.count_zero, Nat.add_zero, Nat.count_modEq_card _ hw] at hc hc'
  rw [hc, hc']
  split
  · split
    · omega
    · omega
  · omega

/-! ## What the code does for other numbers of heads -/

theorem computeLayer_pos {lid h w rr rr' : Int} {s : LayerShardSpec} (hw : 0 < w)
    (hr : computeLayer lid h w rr = .ok (s, rr')) (hs : s.isValid = true) : 0 < h := by
  unfold computeLayer at hr
  split at hr
  · omega
  · obtain ⟨ranks, -, hr⟩ := bind_eq_ok.mp hr
    obtain ⟨heads, hheads, hr⟩ := bind_eq_ok.mp hr
    obtain ⟨next, -, hr⟩ := bind_eq_ok.mp hr
    obtain ⟨rfl, -⟩ := Prod.mk.inj (pure_eq_ok.mp hr)
    obtain ⟨hne, hlen, hpos⟩ := of_decide_eq_true hs
    dsimp only at hne hlen hpos
    rw [splitHeads, guardNot_bind_eq_ok] at hheads
    obtain ⟨-, hheads⟩ := hheads
    obtain rfl := pure_eq_ok.mp hheads
    by_contra hle
    -- The first rank gets no head.
    have hcount : (castInt32 h).toNat ≠ 0 := fun h0 => by
      rw [h0] at hlen
      exact (not_or.mp hne).2 (List.length_eq_zero_iff.mp hlen)
    have hfirst := hpos _ (List.mem_map.mpr ⟨0, List.mem_range.mpr (Nat.pos_of_ne_zero hcount), rfl⟩)
    have hneg : 0 ≤ -h := by omega
    have hdiv := Int.tdiv_nonneg hneg (Int.natCast_nonneg (castInt32 h).toNat)
    have hmod := Int.tmod_nonneg (castInt32 h) hneg
    rw [Int.toNat_of_nonneg (by omega), Int.neg_tdiv] at hdiv
    rw [Int.neg_tmod] at hmod
    rw [if_neg (by omega)] at hfirst
    omega

theorem computeLayers_pos {heads : List Int} {lid w rr : Int} {specs : List LayerShardSpec}
    (hw : 0 < w) (hr : computeLayers w lid rr heads = .ok specs)
    (hs : validateFrom lid specs = .ok ()) : ∀ h ∈ heads, 0 < h := by
  induction heads generalizing lid rr specs with
  | nil => exact fun h hh => absurd hh List.not_mem_nil
  | cons h rest ih =>
    rw [computeLayers, bind_eq_ok] at hr
    obtain ⟨⟨s, rr'⟩, hlayer, hr⟩ := hr
    obtain ⟨specs', hrest, hr⟩ := bind_eq_ok.mp hr
    obtain rfl := pure_eq_ok.mp hr
    rw [validateFrom, checkThat, guardNot_bind_eq_ok, checkThat, guardNot_bind_eq_ok] at hs
    obtain ⟨hvalid, -, hs⟩ := hs
    intro h' hh
    rcases List.mem_cons.mp hh with rfl | hh
    · exact computeLayer_pos hw hlayer (not_not.mp hvalid)
    · exact ih hrest hs h' hh

theorem validateFrom_layerSpecs {heads : List Nat} (lid : Nat) (hw : 0 < w)
    (hpos : ∀ h ∈ heads, 0 < h) : validateFrom lid (layerSpecs w lid T heads) = .ok () := by
  induction heads generalizing lid T with
  | nil => rfl
  | cons h rest ih =>
    have hrest := ih (T := dealt w T h) (lid + 1) fun h' hh => hpos h' (List.mem_cons_of_mem h hh)
    have hs := layerSpec_splits (T := T) lid hw (hpos h List.mem_cons_self)
    rw [layerSpecs, validateFrom, checkThat, guardNot_bind_eq_ok, checkThat, guardNot_bind_eq_ok]
    refine ⟨not_not.mpr (decide_eq_true ⟨?_, hs.length.symm, hs.positive⟩), not_not.mpr rfl, hrest⟩
    rintro (hneg | hnil)
    · exact absurd hneg (Int.not_lt.mpr (Int.natCast_nonneg lid))
    · have hlen := layerSpec_ranks (w := w) (h := h) (T := T) lid
      rw [hnil, List.length_nil] at hlen
      have := Nat.lt_min.mpr ⟨hw, hpos h List.mem_cons_self⟩
      omega

theorem mk?_ok {specs : List LayerShardSpec} {l : LayerwiseSplitLayout} :
    LayerwiseSplitLayout.mk? specs = .ok l ↔ validateFrom 0 specs = .ok () ∧ l.specs = specs := by
  unfold LayerwiseSplitLayout.mk?
  split
  · next hv =>
    refine ⟨fun h => ⟨hv, ?_⟩, fun ⟨_, h⟩ => ?_⟩
    · rw [← Except.ok.inj h]
    · cases l
      cases h
      rfl
  · next e hv =>
    rw [hv]
    exact ⟨fun h => (nomatch h), fun h => (nomatch h.1)⟩

/-- A run that returns a layout. -/
theorem computeIluLayerwiseLayout_ok (heads : List Int) {worldSize : Int} (hpos : 0 < worldSize)
    {l : LayerwiseSplitLayout} :
    computeIluLayerwiseLayout heads.length heads worldSize = .ok l ↔
      computeLayers worldSize 0 0 heads = .ok l.specs := by
  unfold computeIluLayerwiseLayout
  rw [checkThat, guardNot_bind_eq_ok, checkThat, guardNot_bind_eq_ok, bind_eq_ok]
  constructor
  · rintro ⟨-, -, specs, hrun, hl⟩
    rw [(mk?_ok.mp hl).2]
    exact hrun
  · intro hrun
    exact ⟨not_not.mpr rfl, not_not.mpr hpos, l.specs, hrun, mk?_ok.mpr ⟨l.valid, rfl⟩⟩

theorem getElem?_layerSpecs {heads : List Nat} (lid : Nat) (hw : 0 < w)
    (hpos : ∀ h ∈ heads, 0 < h)
    {i : Nat} {s : LayerShardSpec} (hs : (layerSpecs w lid T heads)[i]? = some s)
    (hh : heads[i]? = some h) : s.layerId = (lid + i : Nat) ∧ s.Splits w h := by
  induction heads generalizing lid T i with
  | nil => cases hh
  | cons h' rest ih =>
    cases i with
    | zero =>
      obtain rfl := Option.some.inj hs
      obtain rfl := Option.some.inj hh
      exact ⟨rfl, layerSpec_splits lid hw (hpos h' List.mem_cons_self)⟩
    | succ i =>
      obtain ⟨hid, hsplit⟩ := ih (T := dealt w T h') (lid + 1)
        (fun x hx => hpos x (List.mem_cons_of_mem h' hx)) hs hh
      exact ⟨hid.trans (congrArg Nat.cast (by omega)), hsplit⟩

theorem length_layerSpecs {heads : List Nat} {lid : Nat} :
    (layerSpecs w lid T heads).length = heads.length := by
  induction heads generalizing lid T with
  | nil => rfl
  | cons h rest ih => rw [layerSpecs, List.length_cons, ih, List.length_cons]

theorem exists_nats {heads : List Int} (hheads : ∀ h ∈ heads, 0 < h) :
    ∃ nats : List Nat, (∀ h ∈ nats, 0 < h) ∧ heads = nats.map Nat.cast := by
  refine ⟨heads.map Int.toNat, fun h hh => ?_, ?_⟩
  · obtain ⟨x, hx, rfl⟩ := List.mem_map.mp hh
    have := hheads x hx
    omega
  · rw [List.map_map]
    exact (List.map_id' heads).symm.trans (List.map_congr_left fun x hx =>
      (Int.toNat_of_nonneg (hheads x hx).le).symm)

/-- The layers of a layout are those in natural numbers. -/
theorem ilu_layout_specs {heads : List Int} {worldSize : Int} (hmax : worldSize < 2 ^ 31)
    {l : LayerwiseSplitLayout}
    (hl : computeIluLayerwiseLayout heads.length heads worldSize = .ok l) :
    ∃ (w : Nat) (nats : List Nat), 0 < w ∧ worldSize = w ∧ heads = nats.map Nat.cast ∧
      (∀ h ∈ nats, 0 < h) ∧ l.specs = layerSpecs w 0 0 nats := by
  have hpos : 0 < worldSize := by
    unfold computeIluLayerwiseLayout at hl
    rw [checkThat, guardNot_bind_eq_ok, checkThat, guardNot_bind_eq_ok] at hl
    exact not_not.mp hl.2.1
  obtain ⟨w, rfl⟩ := Int.eq_ofNat_of_zero_le hpos.le
  have hw : 0 < w := Int.ofNat_lt.mp hpos
  have hrun := (computeIluLayerwiseLayout_ok _ hpos).mp hl
  obtain ⟨nats, hnats, rfl⟩ := exists_nats (computeLayers_pos hpos hrun l.valid)
  refine ⟨w, nats, hw, rfl, rfl, hnats, ?_⟩
  refine computeLayers_eq_ok hw (Int.ofNat_lt.mp hmax) hnats ?_
  rw [Nat.zero_mod]
  exact hrun

/-- The layout of `compute_ilu_layerwise_layout` splits every layer, and deals the layers with fewer
heads than ranks evenly. Up to `2 ^ 30` ranks there is one for all positive numbers of heads. -/
theorem ilu_layout_correct (heads : List Int) {worldSize : Int} (hpos : 0 < worldSize)
    (hmax : worldSize < 2 ^ 31) :
    (worldSize ≤ 2 ^ 30 →
      ((∃ l, computeIluLayerwiseLayout heads.length heads worldSize = .ok l) ↔ ∀ h ∈ heads, 0 < h)) ∧
    ∀ l, computeIluLayerwiseLayout heads.length heads worldSize = .ok l →
      l.specs.length = heads.length ∧
      (∀ (i : Nat) s h, l.specs[i]? = some s → heads[i]? = some h →
        LayerShardSpec.layerId s = i ∧ LayerShardSpec.Splits worldSize h s) ∧
      ∀ n r r', 0 ≤ r → r < worldSize → 0 ≤ r' → r' < worldSize →
        numDealtLayers worldSize ((l.specs.take n).zip (heads.take n)) r ≤
          numDealtLayers worldSize ((l.specs.take n).zip (heads.take n)) r' + 1 := by
  obtain ⟨w, rfl⟩ := Int.eq_ofNat_of_zero_le hpos.le
  have hw : 0 < w := Int.ofNat_lt.mp hpos
  refine ⟨fun hle => ⟨fun ⟨l, hl⟩ => ?_, fun hheads => ?_⟩, fun l hl => ?_⟩
  · exact computeLayers_pos hpos ((computeIluLayerwiseLayout_ok _ hpos).mp hl) l.valid
  · obtain ⟨nats, hnats, rfl⟩ := exists_nats hheads
    have hrun := computeLayers_ok (T := 0) 0 hw (Int.ofNat_le.mp hle) hnats
    rw [Nat.zero_mod] at hrun
    exact ⟨⟨_, validateFrom_layerSpecs 0 hw hnats⟩, (computeIluLayerwiseLayout_ok _ hpos).mpr hrun⟩
  · obtain ⟨w', nats, -, hw', rfl, hnats, hspecs⟩ := ilu_layout_specs hmax hl
    obtain rfl := Int.ofNat_inj.mp hw'
    rw [hspecs]
    refine ⟨length_layerSpecs.trans (List.length_map _).symm, fun i s h hs hh => ?_,
      fun n r r' hr hrw hr' hrw' => ?_⟩
    · rw [List.getElem?_map, Option.map_eq_some_iff] at hh
      obtain ⟨x, hx, rfl⟩ := hh
      obtain ⟨hid, hsplit⟩ := getElem?_layerSpecs 0 hw hnats hs hx
      exact ⟨hid.trans (congrArg Nat.cast (Nat.zero_add i)), hsplit⟩
    · obtain ⟨r, rfl⟩ := Int.eq_ofNat_of_zero_le hr
      obtain ⟨r', rfl⟩ := Int.eq_ofNat_of_zero_le hr'
      rw [layerSpecs_take, ← List.map_take]
      exact numDealtLayers_balanced (Int.ofNat_lt.mp hrw) (Int.ofNat_lt.mp hrw')

/-- Three layers on four ranks. -/
theorem ilu_layout_correct_four :
    (∃ l, computeIluLayerwiseLayout 3 [8, 2, 1] 4 = .ok l) ∧
    ∀ l, computeIluLayerwiseLayout 3 [8, 2, 1] 4 = .ok l → l.specs.length = 3 := by
  obtain ⟨hex, hall⟩ := ilu_layout_correct [8, 2, 1] (show (0 : Int) < 4 by decide) (by decide)
  exact ⟨(hex (by decide)).mpr (by decide), fun l hl => (hall l hl).1⟩

/-- How many of the layers have one owner, and it is the rank. -/
def numSoleLayers (specs : List LayerShardSpec) (rank : Int) : Nat :=
  specs.countP fun s => s.assignedRanks = [rank]

/-- Two layers with one head less than there are ranks. -/
theorem ilu_layout_overflow (hlow : 2 ^ 30 ≤ h) (hmax : h + 1 < 2 ^ 31) (l : LayerwiseSplitLayout) :
    computeIluLayerwiseLayout 2 [(h : Int), (h : Int)] (h + 1 : Nat) ≠ .ok l := by
  intro hl
  have hpos : (0 : Int) < (h + 1 : Nat) := Int.natCast_pos.mpr (Nat.succ_pos h)
  have hrun : computeLayers (h + 1 : Nat) 0 (0 % (h + 1) : Nat) [(h : Int), (h : Int)] = .ok l.specs := by
    rw [Nat.zero_mod]
    exact (computeIluLayerwiseLayout_ok [(h : Int), (h : Int)] hpos).mp hl
  obtain ⟨⟨s, rr⟩, hfirst, hrun⟩ := bind_eq_ok.mp hrun
  obtain ⟨-, rfl⟩ := Prod.mk.inj
    (computeLayer_eq_ok 0 (Nat.succ_pos h) hmax (by omega) hfirst)
  obtain ⟨specs, hrest, -⟩ := bind_eq_ok.mp hrun
  obtain ⟨r, hsecond, -⟩ := bind_eq_ok.mp hrest
  refine computeLayer_overflow 1 hmax ?_ r hsecond
  rw [dealt, if_neg (by omega), Nat.zero_add, Nat.mod_eq_of_lt (Nat.lt_succ_self h)]
  omega

/-- The layers with one owner can all be on one rank, a layer without heads is not divided, and the
cursor of very many ranks overflows. -/
theorem ilu_layout_sole_owners :
    ((computeIluLayerwiseLayout 3 [1, 2, 1] 3).map fun l =>
      (numSoleLayers l.specs 0, numSoleLayers l.specs 1)) = .ok (2, 0) ∧
    (computeIluLayerwiseLayout 1 [0] 4).map LayerwiseSplitLayout.specs = .error .divisionByZero ∧
    ∀ l, computeIluLayerwiseLayout 2 [(2 ^ 30 : Nat), (2 ^ 30 : Nat)] (2 ^ 30 + 1 : Nat) ≠ .ok l :=
  ⟨by decide, by decide, ilu_layout_overflow (Nat.le_refl _) (by decide)⟩

end Bi100
