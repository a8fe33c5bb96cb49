import Bi100.Layerwise.Mapping
import Bi100.Layerwise.Estimate
import Mathlib.Algebra.BigOperators.Ring.Finset
import Mathlib.Algebra.Order.BigOperators.Group.List

/-!
# The layerwise peak and the uniform layout

- `headsListed_layerSpecs`: the heads of a rank are its shares of the layers with a head for every
  rank, and its share of all the other heads, which are dealt one after the other.
- The first rank has the largest share of each, so the peak rounds the average up in several places.
  The uniform layout of the estimate is the average rounded down.
- `within_uniform_iff`: the peak is within the uniform layout exactly if nothing is rounded.
-/

namespace Bi100

open Py

variable {w T h r : Nat}

/-! ## Shares -/

/-- What rank `r` of `w` gets of `h` heads. -/
def share (w r h : Nat) : Nat := h / w + if r < h % w then 1 else 0

theorem share_le (w r h : Nat) : share w r h ≤ share w 0 h := by
  unfold share
  split
  · next hlt => rw [if_pos (Nat.zero_lt_of_lt hlt)]
  · exact Nat.le_add_right _ _

theorem le_mul_share (hw : 0 < w) (h : Nat) : h ≤ w * share w 0 h := by
  have hdiv := Nat.div_add_mod h w
  have hmod := Nat.mod_lt h hw
  unfold share
  rw [Nat.mul_add]
  split
  · omega
  · omega

/-- Nothing is rounded. -/
theorem mul_share_le_iff (hw : 0 < w) (h : Nat) : w * share w 0 h ≤ h ↔ w ∣ h := by
  have hdiv := Nat.div_add_mod h w
  have hmod := Nat.mod_lt h hw
  unfold share
  rw [Nat.mul_add, Nat.dvd_iff_mod_eq_zero]
  split
  · omega
  · omega

theorem sum_le_mul_shares (hw : 0 < w) (parts : List Nat) :
    parts.sum ≤ w * (parts.map (share w 0)).sum := by
  induction parts with
  | nil => exact Nat.zero_le _
  | cons h rest ih =>
    have hfirst := le_mul_share hw h
    rw [List.sum_cons, List.map_cons, List.sum_cons, Nat.mul_add]
    omega

theorem mul_shares_le_iff (hw : 0 < w) (parts : List Nat) :
    w * (parts.map (share w 0)).sum ≤ parts.sum ↔ ∀ h ∈ parts, w ∣ h := by
  induction parts with
  | nil => exact ⟨fun _ => List.forall_mem_nil _, fun _ => Nat.le_refl 0⟩
  | cons h rest ih =>
    have hfirst := le_mul_share hw h
    have hrest := sum_le_mul_shares hw rest
    rw [List.sum_cons, List.map_cons, List.sum_cons, Nat.mul_add, List.forall_mem_cons, ← ih,
      ← mul_share_le_iff hw h]
    omega

/-- The shares of the first rank are within the average exactly if nothing is rounded, and then they
are the average. -/
theorem shares_le_average_iff (hw : 0 < w) (parts : List Nat) :
    (parts.map (share w 0)).sum ≤ parts.sum / w ↔ ∀ h ∈ parts, w ∣ h := by
  rw [← mul_shares_le_iff hw, Nat.le_div_iff_mul_le hw, Nat.mul_comm]

theorem average_le_shares (hw : 0 < w) (parts : List Nat) :
    parts.sum / w ≤ (parts.map (share w 0)).sum :=
  Nat.div_le_of_le_mul (sum_le_mul_shares hw parts)

/-! ## The heads of a rank -/

theorem entriesHeads_map (ranks heads : Nat → Int) (n : Nat) (rank : Int) :
    entriesHeads (((List.range n).map ranks).zip ((List.range n).map heads)) rank =
      ((List.range n).map fun j => if ranks j = rank then heads j else 0).sum := by
  rw [List.zip_map', entriesHeads, List.map_map]
  rfl

/-- A rank gets its share of a layer with a head for every rank. -/
theorem entriesHeads_sharded (lid T : Nat) (hr : r < w) (hle : w ≤ h) :
    entriesHeads ((layerSpec w lid T h).assignedRanks.zip (layerSpec w lid T h).headsPerRank) r =
      (share w r h : Nat) := by
  unfold layerSpec
  dsimp only
  rw [if_pos hle, Nat.min_eq_left hle, entriesHeads_map]
  have hcond : ∀ j : Nat, (if Int.ofNat j = (r : Int) then
      ((h / w + if j < h % w then 1 else 0 : Nat) : Int) else 0) =
      if j = r then ((share w j h : Nat) : Int) else 0 :=
    fun j => if_congr Int.ofNat_inj rfl rfl
  simp only [hcond]
  rw [List.sum_map_ite_eq, List.count_eq_one_of_mem List.nodup_range (List.mem_range.mpr hr)]
  simp

theorem sum_range_ite (p : Nat → Prop) [DecidablePred p] (n : Nat) :
    ((List.range n).map fun j => if p j then (1 : Int) else 0).sum = Nat.count p n := by
  induction n with
  | zero => rfl
  | succ n ih =>
    rw [List.range_succ, List.map_append, List.sum_append, ih, Nat.count_succ, Nat.cast_add,
      Nat.cast_ite, List.map_singleton, List.sum_singleton]
    rfl

/-- The heads of the other layers are dealt to the ranks one after the other. -/
theorem entriesHeads_dealt (lid : Nat) (hr : r < w) (hlt : h < w) :
    entriesHeads ((layerSpec w lid T h).assignedRanks.zip (layerSpec w lid T h).headsPerRank) r +
      Nat.count (· ≡ r [MOD w]) T = Nat.count (· ≡ r [MOD w]) (T + h) := by
  unfold layerSpec
  dsimp only
  rw [if_neg (Nat.not_le_of_lt hlt), Nat.min_eq_right hlt.le, entriesHeads_map, Nat.count_add,
    Nat.cast_add, Int.add_comm, ← sum_range_ite fun k => T + k ≡ r [MOD w]]
  refine congrArg (fun l : List Int => _ + l.sum) ?_
  refine List.map_congr_left fun j hj => ?_
  have hpos : 0 < h := Nat.zero_lt_of_lt (List.mem_range.mp hj)
  rw [Nat.div_self hpos, Nat.mod_self, if_neg (Nat.not_lt_zero j)]
  refine if_congr ?_ rfl rfl
  rw [Int.ofNat_inj, Nat.ModEq, Nat.mod_eq_of_lt hr]

/-- The heads of the layers with a head for every rank, and all the other heads together. -/
def headParts (w : Nat) (heads : List Nat) : List Nat :=
  (heads.filter (· < w)).sum :: heads.filter (w ≤ ·)

theorem filter_dealt (hlt : h < w) (rest : List Nat) :
    (h :: rest).filter (· < w) = h :: rest.filter (· < w) ∧
      (h :: rest).filter (w ≤ ·) = rest.filter (w ≤ ·) :=
  ⟨List.filter_cons_of_pos (decide_eq_true hlt),
    List.filter_cons_of_neg fun hle => Nat.not_le_of_lt hlt (of_decide_eq_true hle)⟩

theorem filter_sharded (hle : w ≤ h) (rest : List Nat) :
    (h :: rest).filter (· < w) = rest.filter (· < w) ∧
      (h :: rest).filter (w ≤ ·) = h :: rest.filter (w ≤ ·) :=
  ⟨List.filter_cons_of_neg fun hlt => Nat.not_le_of_lt (of_decide_eq_true hlt) hle,
    List.filter_cons_of_pos (decide_eq_true hle)⟩

theorem sum_headParts (w : Nat) (heads : List Nat) : (headParts w heads).sum = heads.sum := by
  unfold headParts
  induction heads with
  | nil => rfl
  | cons h rest ih =>
    rw [List.sum_cons] at ih
    rcases Nat.lt_or_ge h w with hlt | hle
    · obtain ⟨hlow, hhigh⟩ := filter_dealt hlt rest
      rw [hlow, hhigh]
      simp only [List.sum_cons]
      omega
    · obtain ⟨hlow, hhigh⟩ := filter_sharded hle rest
      rw [hlow, hhigh]
      simp only [List.sum_cons]
      omega

theorem headsListed_count (heads : List Nat) (lid : Nat) (hr : r < w) :
    ((layerSpecs w lid T heads).map fun s =>
        entriesHeads (s.assignedRanks.zip s.headsPerRank) r).sum + Nat.count (· ≡ r [MOD w]) T =
      (((heads.filter (w ≤ ·)).map (share w r)).sum : Nat) +
        Nat.count (· ≡ r [MOD w]) (T + (heads.filter (· < w)).sum) := by
  induction heads generalizing lid T with
  | nil => rfl
  | cons h rest ih =>
    have hrest := ih (T := dealt w T h) (lid + 1)
    rw [layerSpecs, List.map_cons, List.sum_cons]
    unfold dealt at hrest ⊢
    rcases Nat.lt_or_ge h w with hlt | hle
    · obtain ⟨hlow, hhigh⟩ := filter_dealt hlt rest
      have hlayer := entriesHeads_dealt (T := T) lid hr hlt
      rw [if_neg (Nat.not_le_of_lt hlt)] at hrest ⊢
      rw [hlow, hhigh, List.sum_cons, ← Nat.add_assoc, ← hrest]
      omega
    · obtain ⟨hlow, hhigh⟩ := filter_sharded hle rest
      rw [if_pos hle] at hrest ⊢
      rw [hlow, hhigh, entriesHeads_sharded lid T hr hle, List.map_cons, List.sum_cons, Nat.cast_add]
      omega

/-- The heads of a rank. -/
theorem headsListed_layerSpecs {layout : LayerwiseSplitLayout} {heads : List Nat} (hr : r < w)
    (hspecs : layout.specs = layerSpecs w 0 0 heads) :
    layout.headsListed r = (((headParts w heads).map (share w r)).sum : Nat) := by
  have hcount := headsListed_count (T := 0) heads 0 hr
  rw [Nat.count_zero, Nat.cast_zero, Int.add_zero, Nat.zero_add,
    Nat.count_modEq_card _ (Nat.zero_lt_of_lt hr), Nat.mod_eq_of_lt hr] at hcount
  rw [LayerwiseSplitLayout.headsListed, hspecs, hcount, headParts, List.map_cons, List.sum_cons,
    Nat.cast_add, Int.add_comm]
  rfl

theorem totalHeads_layerSpecs {heads : List Nat} (lid : Nat) (hw : 0 < w)
    (hpos : ∀ h ∈ heads, 0 < h) :
    ((layerSpecs w lid T heads).map LayerShardSpec.totalHeads).sum = (heads.sum : Nat) := by
  induction heads generalizing lid T with
  | nil => rfl
  | cons h rest ih =>
    have hfirst := (layerSpec_splits (T := T) lid hw (hpos h List.mem_cons_self)).total
    rw [layerSpecs, List.map_cons, List.sum_cons, hfirst, List.sum_cons, Nat.cast_add,
      ih (lid + 1) fun h' hh => hpos h' (List.mem_cons_of_mem h hh)]

/-! ## The estimate -/

/-- The peak is within the uniform layout, and the saving is between 0 and 100 percent. -/
def LayerwiseKVMemoryEstimate.WithinUniform (est : LayerwiseKVMemoryEstimate) : Prop :=
  est.peakPerRankBytes ≤ est.uniformPerRankBytes ∧ 0 ≤ est.savingsVsUniformPct ∧
    est.savingsVsUniformPct ≤ 100

/-- The number of ranks divides the heads of every layer with a head for every rank, and the other
heads together. -/
def DealtEvenly (heads : List Int) (worldSize : Int) : Prop :=
  (∀ h ∈ heads, worldSize ≤ h → worldSize ∣ h) ∧ worldSize ∣ (heads.filter (· < worldSize)).sum

theorem foldl_max_eq {l : List Int} {x : Int} (h : ∀ y ∈ l, y ≤ x) : l.foldl max x = x := by
  induction l with
  | nil => rfl
  | cons y rest ih =>
    rw [List.foldl_cons, max_eq_left (h y List.mem_cons_self)]
    exact ih fun z hz => h z (List.mem_cons_of_mem y hz)

theorem paddedHeadDim_pos (b : Build) {headDim : Int} (hd : 0 < headDim) :
    0 < paddedHeadDim b headDim := by
  unfold paddedHeadDim alignUp kWarpSize
  split
  · rw [Int.tdiv_eq_ediv_of_nonneg (by omega)]
    omega
  · exact hd

theorem dtypeBytes_pos (dtype : Int) : 0 < dtypeBytes dtype := by
  unfold dtypeBytes
  grind

theorem ranks_layerSpecs {heads : List Nat} (hw : 0 < w) (hpos : ∀ h ∈ heads, 0 < h) :
    ∀ s ∈ layerSpecs w 0 0 heads, ∀ rank ∈ s.assignedRanks, 0 ≤ rank ∧ rank < w := by
  intro s hs
  obtain ⟨i, hi, rfl⟩ := List.mem_iff_getElem.mp hs
  have hlength : (layerSpecs w 0 0 heads).length = heads.length := length_layerSpecs
  have hlen : i < heads.length := hlength ▸ hi
  exact (getElem?_layerSpecs 0 hw hpos (List.getElem?_eq_getElem hi)
    (List.getElem?_eq_getElem hlen)).2.ranks

/-- The peak is that of the first rank, and the uniform layout is the average. -/
theorem estimate_layerSpecs {heads : List Nat} {nBlocks blockSize headDim dtype : Int} (b : Build)
    (hw : 0 < w) (hpos : ∀ h ∈ heads, 0 < h) {layout : LayerwiseSplitLayout}
    (hspecs : layout.specs = layerSpecs w 0 0 heads) {est : LayerwiseKVMemoryEstimate}
    (hest : estimateLayerwiseKvMemory b layout nBlocks blockSize headDim dtype w = .ok est) :
    let headBytes := 2 * nBlocks * blockSize * paddedHeadDim b headDim * dtypeBytes dtype
    0 ≤ headBytes →
      est.peakPerRankBytes = (((headParts w heads).map (share w 0)).sum : Nat) * headBytes ∧
        est.uniformPerRankBytes = ((headParts w heads).sum / w : Nat) * headBytes := by
  intro headBytes hbytes
  have hlayers : 0 < layout.numLayers := by
    unfold estimateLayerwiseKvMemory at hest
    rw [checkThat, guardNot_bind_eq_ok] at hest
    exact not_not.mp hest.1
  have hrun := estimate_eq b nBlocks blockSize headDim dtype (Int.natCast_pos.mpr hw) hlayers
    (hspecs ▸ ranks_layerSpecs hw hpos)
  obtain rfl := Except.ok.inj (hest.symm.trans hrun)
  constructor
  · show List.foldl max _ _ = _
    have hfirst : ((List.range (w : Int).toNat).map fun r : Nat =>
        layout.headsListed r * headBytes).headD 0 = layout.headsListed (0 : Nat) * headBytes := by
      rw [Int.toNat_natCast, ← Nat.succ_pred_eq_of_pos hw, List.range_succ_eq_map]
      rfl
    rw [hfirst, headsListed_layerSpecs hw hspecs]
    refine foldl_max_eq fun y hy => ?_
    obtain ⟨r, hr, rfl⟩ := List.mem_map.mp hy
    rw [Int.toNat_natCast, List.mem_range] at hr
    rw [headsListed_layerSpecs hr hspecs]
    refine Int.mul_le_mul_of_nonneg_right (Int.ofNat_le.mpr ?_) hbytes
    exact List.sum_le_sum fun h _ => share_le w r h
  · show Int.tdiv _ _ * headBytes = _
    rw [hspecs, totalHeads_layerSpecs 0 hw hpos, ← sum_headParts w heads,
      Int.tdiv_eq_ediv_of_nonneg (Int.natCast_nonneg _), Int.natCast_ediv]

theorem dealtEvenly_iff {heads : List Nat} :
    DealtEvenly (heads.map Nat.cast) w ↔ ∀ h ∈ headParts w heads, w ∣ h := by
  have hfilter : (heads.map (Nat.cast : Nat → Int)).filter (· < (w : Int)) =
      (heads.filter (· < w)).map Nat.cast := by
    rw [List.filter_map]
    refine congrArg _ (List.filter_congr fun h _ => ?_)
    exact decide_eq_decide.mpr Int.ofNat_lt
  unfold DealtEvenly headParts
  rw [hfilter, ← Nat.cast_list_sum, Int.natCast_dvd_natCast, List.forall_mem_map,
    List.forall_mem_cons, List.forall_mem_filter, and_comm]
  simp only [Nat.cast_le, Int.natCast_dvd_natCast, decide_eq_true_iff]

theorem savings_eq_zero {est : LayerwiseKVMemoryEstimate}
    (h : est.peakPerRankBytes = est.uniformPerRankBytes) : est.savingsVsUniformPct = 0 := by
  unfold LayerwiseKVMemoryEstimate.savingsVsUniformPct
  split
  · next hpos =>
    have hne : (est.uniformPerRankBytes : Rat) ≠ 0 := by exact_mod_cast hpos.ne'
    rw [h, div_self hne, sub_self, mul_zero]
  · rfl

/-- **The peak is within the uniform layout exactly if there are no bytes, or the ranks divide the
heads of every layer with a head for every rank, and the other heads together.** -/
theorem within_uniform_iff (heads : List Int) {worldSize nBlocks blockSize headDim : Int}
    (b : Build) (dtype : Int) (hmax : worldSize < 2 ^ 31) (hn : 0 ≤ nBlocks) (hblock : 0 ≤ blockSize)
    (hd : 0 ≤ headDim) {layout : LayerwiseSplitLayout} {est : LayerwiseKVMemoryEstimate}
    (hlayout : computeIluLayerwiseLayout heads.length heads worldSize = .ok layout)
    (hest : estimateLayerwiseKvMemory b layout nBlocks blockSize headDim dtype worldSize = .ok est) :
    est.WithinUniform ↔
      nBlocks = 0 ∨ blockSize = 0 ∨ headDim = 0 ∨ DealtEvenly heads worldSize := by
  obtain ⟨w, nats, hw, rfl, rfl, hpos, hspecs⟩ := ilu_layout_specs hmax hlayout
  have hpad : 0 ≤ paddedHeadDim b headDim ∧ (paddedHeadDim b headDim = 0 ↔ headDim = 0) := by
    rcases hd.eq_or_lt with rfl | hd
    · cases b <;> decide
    · have hpos := paddedHeadDim_pos b hd
      exact ⟨hpos.le, iff_of_false hpos.ne' hd.ne'⟩
  have hdtype := dtypeBytes_pos dtype
  generalize hbytes : 2 * nBlocks * blockSize * paddedHeadDim b headDim * dtypeBytes dtype = headBytes
  have hzero : headBytes = 0 ↔ nBlocks = 0 ∨ blockSize = 0 ∨ headDim = 0 := by
    rw [← hbytes, ← hpad.2]
    simp [hdtype.ne', or_assoc]
  have hnonneg : 0 ≤ headBytes := by
    rw [← hbytes]
    exact mul_nonneg (mul_nonneg (mul_nonneg (mul_nonneg (by decide) hn) hblock) hpad.1) hdtype.le
  obtain ⟨hpeak, huniform⟩ := estimate_layerSpecs b hw hpos hspecs hest (hbytes.symm ▸ hnonneg)
  rw [hbytes] at hpeak huniform
  rw [← or_assoc, ← or_assoc, or_assoc (a := nBlocks = 0), ← hzero, dealtEvenly_iff,
    ← shares_le_average_iff hw]
  unfold LayerwiseKVMemoryEstimate.WithinUniform
  constructor
  · rintro ⟨hle, -⟩
    rw [hpeak, huniform] at hle
    rcases hnonneg.eq_or_lt with h0 | hlt
    · exact .inl h0.symm
    · exact .inr (Int.ofNat_le.mp (Int.le_of_mul_le_mul_right hle hlt))
  · intro h
    have heq : est.peakPerRankBytes = est.uniformPerRankBytes := by
      rw [hpeak, huniform]
      rcases h with rfl | hle
      · rw [Int.mul_zero, Int.mul_zero]
      · rw [Nat.le_antisymm hle (average_le_shares hw _)]
    rw [savings_eq_zero heq]
    exact ⟨heq.le, le_refl 0, by decide⟩

/-- A layer with two heads for each of four ranks, and two layers with two heads. -/
def evenLayout : LayerwiseSplitLayout :=
  ⟨[⟨0, [0, 1, 2, 3], [2, 2, 2, 2]⟩, ⟨1, [0, 1], [1, 1]⟩, ⟨2, [2, 3], [1, 1]⟩], rfl⟩

theorem within_uniform_iff_even :
    ∃ est, computeIluLayerwiseLayout 3 [8, 2, 2] 4 = .ok evenLayout ∧
      estimateLayerwiseKvMemory .ilu evenLayout 256 16 128 15 4 = .ok est ∧ est.WithinUniform := by
  have hlayout : computeIluLayerwiseLayout 3 [8, 2, 2] 4 = .ok evenLayout := rfl
  refine ⟨_, hlayout, rfl, ?_⟩
  refine (within_uniform_iff [8, 2, 2] .ilu 15 ?_ ?_ ?_ ?_ hlayout rfl).mpr ?_
  · decide
  · decide
  · decide
  · decide
  · exact .inr (.inr (.inr (by unfold DealtEvenly; decide)))

/-- Three layers with two heads on four ranks: two ranks get two heads, and the average rounded down
is one head. -/
theorem peak_above_uniform :
    ∃ layout est, computeIluLayerwiseLayout 3 [2, 2, 2] 4 = .ok layout ∧
      estimateLayerwiseKvMemory .ilu layout 256 16 128 15 4 = .ok est ∧
      ¬ est.WithinUniform ∧ est.savingsVsUniformPct = -100 := by
  refine ⟨⟨[⟨0, [0, 1], [1, 1]⟩, ⟨1, [2, 3], [1, 1]⟩, ⟨2, [0, 1], [1, 1]⟩], rfl⟩, _, rfl, rfl, fun h => absurd h.1 ?_, ?_⟩
  · decide
  · decide +kernel

end Bi100
