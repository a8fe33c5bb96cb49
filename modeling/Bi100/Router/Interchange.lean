import Bi100.Router.Kernels
import Mathlib.Data.Finset.Lattice.Fold

/-!
# Replacing one top-k kernel by another

- `warpTopk_spec`: the kernel of the factor finds the first experts by logit, and by index on ties.
- `v3_spec`: that of v3 finds the first ones by what the threads have as their softmax, and by
  bit-reversed index on ties.
- `interchangeable_iff`: when the kernels select the same experts.
-/

namespace Bi100.Router

open BlockReduce Selection ExpField

variable {K : Type} [ExpOrderedField K]

/-! ## The kernel of the factor -/

/-- The better of two, or both equal. -/
def Worse (x y : K × Nat) : Prop := x.1 < y.1 ∨ x.1 = y.1 ∧ y.2 ≤ x.2

theorem better_comm (x y : K × Nat) : better x y = better y x := by
  unfold better
  rcases lt_trichotomy x.1 y.1 with hlt | heq | hgt
  · rw [if_pos (.inl hlt), if_neg]
    rintro (h | ⟨h, -⟩)
    · exact lt_asymm hlt h
    · exact hlt.ne h
  · rcases Nat.lt_trichotomy x.2 y.2 with hlt | heq' | hgt
    · rw [if_neg, if_pos (.inr ⟨heq, hlt⟩)]
      rintro (h | ⟨-, h⟩)
      · exact h.ne heq
      · exact Nat.lt_asymm hlt h
    · rw [Prod.ext heq heq']
    · rw [if_pos (.inr ⟨heq.symm, hgt⟩), if_neg]
      rintro (h | ⟨-, h⟩)
      · exact h.ne heq.symm
      · exact Nat.lt_asymm hgt h
  · rw [if_neg, if_pos (.inl hgt)]
    rintro (h | ⟨h, -⟩)
    · exact lt_asymm hgt h
    · exact hgt.ne h

theorem better_keeps : Keeps (better (K := K)) Worse where
  refl _ := .inr ⟨rfl, Nat.le_refl _⟩
  trans x y z := by
    rintro (hxy | ⟨hxy, hxy'⟩) (hyz | ⟨hyz, hyz'⟩)
    · exact .inl (hxy.trans hyz)
    · exact .inl (hxy.trans_eq hyz)
    · exact .inl (hxy.trans_lt hyz)
    · exact .inr ⟨hxy.trans hyz, hyz'.trans hxy'⟩
  or x y := by
    unfold better
    split
    · exact .inr rfl
    · exact .inl rfl
  left x y := by
    unfold better
    split
    · next h => exact h.imp id fun h => ⟨h.1.symm, h.2.le⟩
    · exact .inr ⟨rfl, Nat.le_refl _⟩
  right x y := by
    unfold better
    split
    · exact .inr ⟨rfl, Nat.le_refl _⟩
    · next h =>
      obtain ⟨hlt, htie⟩ := not_or.mp h
      rcases (not_lt.mp hlt).lt_or_eq with hlt | heq
      · exact .inl hlt
      · exact .inr ⟨heq, Nat.le_of_not_lt fun hidx => htie ⟨heq, hidx⟩⟩

/-- What a lane has is one of its two experts, and no worse than either. -/
theorem laneArgmax_spec (val : Nat → K) (lane : Nat) :
    (∃ i < kVpt, laneArgmax (fun lane i => val (lane * kVpt + i)) lane =
      (val (lane * kVpt + i), lane * kVpt + i)) ∧
    ∀ i < kVpt, Worse (val (lane * kVpt + i), lane * kVpt + i)
      (laneArgmax (fun lane i => val (lane * kVpt + i)) lane) := by
  unfold laneArgmax
  split
  · next h =>
    refine ⟨⟨1, by decide, rfl⟩, fun i hi => ?_⟩
    unfold kVpt at hi
    interval_cases i
    · exact .inl h
    · exact .inr ⟨rfl, Nat.le_refl _⟩
  · next h =>
    refine ⟨⟨0, by decide, rfl⟩, fun i hi => ?_⟩
    unfold kVpt at hi
    interval_cases i
    · exact .inr ⟨rfl, Nat.le_refl _⟩
    · rcases (not_lt.mp h).lt_or_eq with hlt | heq
      · exact .inl hlt
      · exact .inr ⟨heq, Nat.le_add_right _ 1⟩

/-- The experts of the lanes have these values. -/
def Holds (rowChunk : Nat → Nat → K) (val : Nat → K) : Prop :=
  ∀ lane < 32, ∀ i < kVpt, rowChunk lane i = val (lane * kVpt + i)

/-- The result of every lane is the best expert. -/
theorem warpArgmax_spec {rowChunk : Nat → Nat → K} {val : Nat → K} (h : Holds rowChunk val) :
    ∃ e < 64, (∀ lane < 32, butterfly better kWarpBits (laneArgmax rowChunk) lane = (val e, e)) ∧
      ∀ e' < 64, e' ≠ e → Ahead val id e e' := by
  obtain ⟨lane, hlane, heq, hbest⟩ := treeRounds_best better_keeps kWarpBits
    (laneArgmax fun lane i => val (lane * kVpt + i))
  obtain ⟨⟨i, hi, hwin⟩, -⟩ := laneArgmax_spec val lane
  have hlane' : lane < 32 := hlane
  have hi' : i < 2 := hi
  refine ⟨lane * kVpt + i, by unfold kVpt; omega, fun l hl => ?_, fun e' he' hne => ?_⟩
  · have hlanes : ∀ j < 2 ^ kWarpBits,
        laneArgmax rowChunk j = laneArgmax (fun lane i => val (lane * kVpt + i)) j := by
      intro j hj
      unfold laneArgmax
      rw [h j hj 0 (by decide), h j hj 1 (by decide)]
    rw [butterfly_congr (Nat.le_refl kWarpBits) hlanes hl, butterfly_eq better_comm kWarpBits _ hl,
      heq, hwin]
  · have hsplit : e' / kVpt * kVpt + e' % kVpt = e' := Nat.div_add_mod' e' kVpt
    have hlane₂ : e' / kVpt < 2 ^ kWarpBits := by
      unfold kVpt kWarpBits
      omega
    have hown := (laneArgmax_spec val (e' / kVpt)).2 (e' % kVpt) (Nat.mod_lt e' (by decide))
    rw [hsplit] at hown
    have hworse := better_keeps.trans _ _ _ hown (hbest _ hlane₂)
    rw [hwin] at hworse
    exact hworse.imp id fun h => ⟨h.1.symm, Nat.lt_of_le_of_ne h.2 hne.symm⟩

theorem warpTopk_spec {val : Nat → K} (hval : ∀ e < 64, -1 < val e) {n : Nat} {winners : List Nat}
    {rowChunk : Nat → Nat → K} (hchunk : Holds rowChunk (suppressed val winners))
    (h : IsSelection (Ahead val id) (Finset.range 64) winners) (hn : winners.length + n ≤ 64) :
    ∃ ids, warpTopk n rowChunk = ids.map (fun e => (val e, e)) ∧ ids.length = n ∧
      IsSelection (Ahead val id) (Finset.range 64) (winners ++ ids) := by
  induction n generalizing winners rowChunk with
  | zero => exact ⟨[], rfl, rfl, (List.append_nil winners).symm ▸ h⟩
  | succ n ih =>
    obtain ⟨e, he, hwinner, hfirst⟩ := warpArgmax_spec hchunk
    obtain ⟨hnew, hconcat⟩ := suppressed_next hval h (by omega) he hfirst
    have hn' : (winners ++ [e]).length + n ≤ 64 := by
      rw [List.length_append, List.length_singleton]
      omega
    have hnext : Holds (fun lane i =>
        if lane = (butterfly better kWarpBits (laneArgmax rowChunk) lane).2 / kVpt ∧
          i = (butterfly better kWarpBits (laneArgmax rowChunk) lane).2 % kVpt then -1
        else rowChunk lane i) (suppressed val (winners ++ [e])) := by
      intro lane hlane i hi
      dsimp only
      rw [hwinner lane hlane, hchunk lane hlane i hi, ← suppressed_concat]
      have howner : lane = e / kVpt ∧ i = e % kVpt ↔ lane * kVpt + i = e := by
        unfold kVpt at hi ⊢
        omega
      exact if_congr howner rfl rfl
    obtain ⟨ids, hloop, hlen, hids⟩ := ih hnext hconcat hn'
    refine ⟨e :: ids, ?_, congrArg Nat.succ hlen, by simpa using hids⟩
    rw [warpTopk, hloop, hwinner 0 (by decide), List.map_cons, suppressed, if_neg hnew]

theorem warpTopk_start {val : Nat → K} (hval : ∀ e < 64, -1 < val e) {n : Nat}
    {rowChunk : Nat → Nat → K} (hchunk : Holds rowChunk val) (hn : n ≤ 64) :
    ∃ ids, warpTopk n rowChunk = ids.map (fun e => (val e, e)) ∧ ids.length = n ∧
      IsSelection (Ahead val id) (Finset.range 64) ids :=
  warpTopk_spec hval hchunk (IsSelection.nil _ _) ((Nat.zero_add n).symm ▸ hn)

/-- The experts by logit, and by index on ties. -/
def ByIndex (row : Nat → K) : Nat → Nat → Prop := Ahead row id

theorem exp_mul_lt_iff {c : K} (hc : 0 < c) (a b m : K) :
    exp (a - m) * c < exp (b - m) * c ↔ a < b := by
  rw [mul_lt_mul_iff_left₀ hc, ExpOrderedField.exp_lt_exp, sub_lt_sub_iff_right]

omit [ExpOrderedField K] in
theorem map_snd (val : Nat → K) (ids : List Nat) :
    (ids.map fun e => (val e, e)).map Prod.snd = ids := by
  rw [List.map_map]
  exact List.map_id ids

theorem factor_spec (row : Nat → K) {k : Nat} (hk : k ≤ 64) :
    ((topkGatingSoftmaxFactor row k).map Prod.snd).length = k ∧
      IsSelection (ByIndex row) (Finset.range 64)
        ((topkGatingSoftmaxFactor row k).map Prod.snd) := by
  unfold topkGatingSoftmaxFactor
  dsimp only
  -- All lanes have the same maximum and the same sum.
  obtain ⟨m, hm⟩ : ∃ m, ∀ lane < 32, butterfly max kWarpBits
      (fun lane => max (row (lane * kVpt + 0)) (row (lane * kVpt + 1))) lane = m :=
    ⟨_, fun lane hlane => butterfly_eq max_comm kWarpBits _ hlane⟩
  generalize butterfly max kWarpBits
    (fun lane => max (row (lane * kVpt + 0)) (row (lane * kVpt + 1))) = rowMax at hm ⊢
  obtain ⟨c, hc, hsum⟩ : ∃ c, 0 < c ∧ ∀ lane < 32, butterfly (· + ·) kWarpBits (fun lane =>
      0 + exp (row (lane * kVpt + 0) - rowMax lane) + exp (row (lane * kVpt + 1) - rowMax lane))
        lane = c := by
    refine ⟨_, treeRounds_induction (fun _ _ => add_pos) kWarpBits fun lane _ => ?_,
      fun lane hlane => butterfly_eq add_comm kWarpBits _ hlane⟩
    have hfirst := ExpOrderedField.exp_pos (row (lane * kVpt + 0) - rowMax lane)
    have hsecond := ExpOrderedField.exp_pos (row (lane * kVpt + 1) - rowMax lane)
    rw [zero_add]
    exact add_pos hfirst hsecond
  have hinv : 0 < 1 / c := one_div_pos.mpr hc
  have hval : ∀ e < 64, -1 < exp (row e - m) * (1 / c) := fun e _ =>
    neg_one_lt_zero.trans (mul_pos (ExpOrderedField.exp_pos _) hinv)
  have hchunk : Holds (fun lane i =>
      exp (row (lane * kVpt + i) - rowMax lane) * (1 / butterfly (· + ·) kWarpBits (fun lane =>
        0 + exp (row (lane * kVpt + 0) - rowMax lane) +
          exp (row (lane * kVpt + 1) - rowMax lane)) lane))
      fun e => exp (row e - m) * (1 / c) := by
    intro lane hlane i _
    dsimp only
    rw [hm lane hlane, hsum lane hlane]
  obtain ⟨ids, hrun, hlen, hsel⟩ := warpTopk_start hval hchunk hk
  rw [hrun, map_snd]
  refine ⟨hlen, hsel.imp fun x _ y _ hxy => ?_⟩
  exact (Ahead.congr _ row (exp_mul_lt_iff hinv _ _ m) (exp_mul_lt_iff hinv _ _ m)).mp hxy

/-! ## The kernel of v3 -/

/-- The largest logit. -/
def rowMaximum (row : Nat → K) : K := (Finset.range 64).sup' ⟨0, by decide⟩ row

/-- The exponential of a thread: after thread 0, `smem[0]` has the exponential of thread 0. -/
def sharedExp (row : Nat → K) (softmax : List Nat) (e : Nat) : K :=
  exp (row e - if RunsLate softmax e then exp (row 0 - rowMaximum row) else rowMaximum row)

def sharedSum (row : Nat → K) (softmax : List Nat) : K := ∑ e ∈ Finset.range 64, sharedExp row softmax e

/-- The softmax of a thread: after thread 0, `smem[0]` has the softmax of thread 0. -/
def sharedSoftmax (row : Nat → K) (softmax normalize : List Nat) (e : Nat) : K :=
  sharedExp row softmax e * (1 / if RunsLate normalize e then
    sharedExp row softmax 0 * (1 / sharedSum row softmax) else sharedSum row softmax)

/-- The experts by what their threads have as softmax, and by bit-reversed index on ties. -/
def ByShared (row : Nat → K) (softmax normalize : List Nat) : Nat → Nat → Prop :=
  Ahead (sharedSoftmax row softmax normalize) (bitReverse kBlockBits)

theorem treeRounds_max (row : Nat → K) : treeRounds max kBlockBits row 0 = rowMaximum row := by
  have hkeeps : Keeps (max : K → K → K) (· ≤ ·) :=
    ⟨le_refl, fun _ _ _ => le_trans, fun a b => max_choice a b, le_max_left, le_max_right⟩
  obtain ⟨i, hi, heq, hbest⟩ := treeRounds_best hkeeps kBlockBits row
  rw [heq]
  refine le_antisymm (Finset.le_sup' row (Finset.mem_range.mpr hi)) (Finset.sup'_le _ _ ?_)
  exact fun j hj => hbest j (Finset.mem_range.mp hj)

theorem sharedExp_pos (row : Nat → K) (softmax : List Nat) (e : Nat) :
    0 < sharedExp row softmax e := ExpOrderedField.exp_pos _

theorem sharedSum_pos (row : Nat → K) (softmax : List Nat) : 0 < sharedSum row softmax :=
  Finset.sum_pos (fun e _ => sharedExp_pos row softmax e) ⟨0, by decide⟩

theorem sharedSoftmax_pos (row : Nat → K) (softmax normalize : List Nat) (e : Nat) :
    0 < sharedSoftmax row softmax normalize e := by
  have hsum := sharedSum_pos row softmax
  refine mul_pos (sharedExp_pos row softmax e) (one_div_pos.mpr ?_)
  split
  · exact mul_pos (sharedExp_pos row softmax 0) (one_div_pos.mpr hsum)
  · exact hsum

theorem v3_spec (row : Nat → K) {k : Nat} (hk : k ≤ 64) (sched : Schedule) :
    ((topkGatingSoftmaxV3 row k sched).map Prod.snd).length = k ∧
      IsSelection (ByShared row sched.softmax sched.normalize) (Finset.range 64)
        ((topkGatingSoftmaxV3 row k sched).map Prod.snd) := by
  unfold topkGatingSoftmaxV3
  dsimp only
  have hmax : orderedRounds max kBlockBits sched.maxRounds row 0 = rowMaximum row :=
    (orderedRounds_eq sched.maxRounds_perm (Nat.le_refl _) row).trans (treeRounds_max row)
  generalize orderedRounds max kBlockBits sched.maxRounds row = smem at hmax ⊢
  -- The exponentials.
  obtain ⟨hval, hsmem, -⟩ := reuse_spec (fun val rowMax => exp (val - rowMax))
    (sched.softmax_perm.nodup_iff.mpr List.nodup_range) (smem, row)
  generalize sched.softmax.foldl (reuseThread fun val rowMax => exp (val - rowMax)) (smem, row) = m
    at hval hsmem ⊢
  have hmem : ∀ {order : List Nat}, order.Perm (List.range (2 ^ kBlockBits)) → ∀ e < 64, e ∈ order :=
    fun horder e he => horder.mem_iff.mpr (List.mem_range.mpr he)
  have hexp : ∀ e < 64, m.2 e = sharedExp row sched.softmax e := by
    intro e he
    rw [hval e (hmem sched.softmax_perm e he)]
    dsimp only
    rw [hmax]
    rfl
  have hsum : orderedRounds (· + ·) kBlockBits sched.sumRounds m.1 0 =
      sharedSum row sched.softmax := by
    rw [orderedRounds_eq sched.sumRounds_perm (Nat.le_refl _), treeRounds_zero (α := K) (· + ·) 0,
      fold_add_eq_sum]
    refine Finset.sum_congr rfl fun e he => ?_
    have he := Finset.mem_range.mp he
    rw [hsmem e (hmem sched.softmax_perm e he), hexp e he]
  generalize orderedRounds (· + ·) kBlockBits sched.sumRounds m.1 = smem' at hsum ⊢
  -- The softmax.
  obtain ⟨hval', -, -⟩ := reuse_spec (fun val rowSum => val * (1 / rowSum))
    (sched.normalize_perm.nodup_iff.mpr List.nodup_range) (smem', m.2)
  generalize sched.normalize.foldl (reuseThread fun val rowSum => val * (1 / rowSum)) (smem', m.2) =
    m' at hval' ⊢
  have hsoftmax : ∀ e < 64, m'.2 e = sharedSoftmax row sched.softmax sched.normalize e := by
    intro e he
    rw [hval' e (hmem sched.normalize_perm e he)]
    dsimp only
    rw [hsum, hexp e he, hexp 0 (by decide)]
    rfl
  have hlarge : ∀ e < 2 ^ kBlockBits, -1 < m'.2 e := fun e he => by
    rw [hsoftmax e he]
    exact neg_one_lt_zero.trans (sharedSoftmax_pos row _ _ e)
  obtain ⟨ids, hrun, hlen, hsel⟩ := selectionLoop_start sched.argmax_perm hlarge
    (show k ≤ 2 ^ kBlockBits from hk)
  rw [hrun, map_snd]
  refine ⟨hlen, hsel.imp fun x hx y hy hxy => ?_⟩
  unfold ByShared Ahead
  rw [← hsoftmax x (Finset.mem_range.mp hx), ← hsoftmax y (Finset.mem_range.mp hy)]
  exact hxy

/-! ## The loop of `moe_ops_impl.cu` -/

/-- The softmax of a row. -/
def softmax (row : Nat → K) (e : Nat) : K := exp (row e) / ∑ j ∈ Finset.range 64, exp (row j)

/-- The experts by logit, and by bit-reversed index on ties. -/
def ByReverse (row : Nat → K) : Nat → Nat → Prop := Ahead row (bitReverse kBlockBits)

theorem blockBits_experts : blockBits 64 = kBlockBits := by
  simp [blockBits, growBlock, kBlockBits]

theorem moeOps_spec (row : Nat → K) {k : Nat} (hk : k ≤ 64) {order : Nat → Nat → List Nat}
    (horder : ∀ n b, (order n b).Perm (List.range (2 ^ kBlockBits))) :
    ∃ out, topkSelection 64 k order (softmax row) = some out ∧ (out.map Prod.snd).length = k ∧
      IsSelection (ByReverse row) (Finset.range 64) (out.map Prod.snd) := by
  have hsum : 0 < ∑ j ∈ Finset.range 64, exp (row j) :=
    Finset.sum_pos (fun j _ => ExpOrderedField.exp_pos (row j)) ⟨0, by decide⟩
  have hrow : ∀ e < 64, 0 ≤ softmax row e := fun e _ =>
    (div_pos (ExpOrderedField.exp_pos (row e)) hsum).le
  obtain ⟨ids, hrun, hlen, hsel, -⟩ := topkSelection_spec (by decide) hk hrow
    (fun n b => blockBits_experts ▸ horder n b)
  rw [blockBits_experts] at hsel
  refine ⟨_, hrun, ?_, ?_⟩
  · rw [map_snd]
    exact hlen
  · rw [map_snd]
    refine hsel.imp fun x hx y hy hxy => ?_
    have hlt : ∀ e < 64, ∀ e' < 64, laneValue 64 (softmax row) e < laneValue 64 (softmax row) e' ↔
        row e < row e' := fun e he e' he' => by
      rw [laneValue_expert he, laneValue_expert he', softmax, softmax,
        div_lt_div_iff_of_pos_right hsum, ExpOrderedField.exp_lt_exp]
    have hx := Finset.mem_range.mp hx
    have hy := Finset.mem_range.mp hy
    exact (Ahead.congr _ row (hlt x hx y hy) (hlt y hy x hx)).mp hxy

/-! ## Replacing a kernel -/

/-- The kernels select the same experts in the same order. -/
def Interchangeable (row : Nat → K) (k : Nat) (sched : Schedule) (order : Nat → Nat → List Nat) :
    Prop :=
  (topkGatingSoftmaxV3 row k sched).map Prod.snd = (topkGatingSoftmaxFactor row k).map Prod.snd ∧
    (topkSelection 64 k order (softmax row)).map (List.map Prod.snd) =
      some ((topkGatingSoftmaxFactor row k).map Prod.snd)

/-- The number of experts that come before an expert. -/
def rankByIndex (row : Nat → K) (e : Nat) : Nat :=
  ((Finset.range 64).filter fun x => row e < row x ∨ row x = row e ∧ x < e).card

/-- Of two experts with the same logit, a lower index is a lower bit-reversed index; and in v3 the
threads that run after thread 0 do not come before an expert with a larger logit. -/
def SameOrder (row : Nat → K) (k : Nat) (softmax normalize : List Nat) : Prop :=
  ∀ e < 64, rankByIndex row e < k → ∀ e' < 64, row e' < row e ∨ row e = row e' ∧ e < e' →
    (row e = row e' → bitReverse kBlockBits e < bitReverse kBlockBits e') ∧
      (sharedSoftmax row softmax normalize e' < sharedSoftmax row softmax normalize e ∨
        sharedSoftmax row softmax normalize e = sharedSoftmax row softmax normalize e' ∧
          bitReverse kBlockBits e < bitReverse kBlockBits e')

theorem interchangeable_spec (row : Nat → K) {k : Nat} (hk : k ≤ 64) (sched : Schedule)
    {order : Nat → Nat → List Nat}
    (horder : ∀ n b, (order n b).Perm (List.range (2 ^ kBlockBits))) :
    Interchangeable row k sched order ↔ SameOrder row k sched.softmax sched.normalize := by
  obtain ⟨hlen, hfactor⟩ := factor_spec row hk
  obtain ⟨hlen', hv3⟩ := v3_spec row hk sched
  obtain ⟨out, hrun, hlen'', hmoe⟩ := moeOps_spec row hk horder
  unfold Interchangeable
  rw [hrun, Option.map_some, Option.some_inj]
  generalize (topkGatingSoftmaxFactor row k).map Prod.snd = ids at hlen hfactor ⊢
  generalize (topkGatingSoftmaxV3 row k sched).map Prod.snd = ids' at hlen' hv3 ⊢
  generalize out.map Prod.snd = ids'' at hlen'' hmoe ⊢
  -- Equal lists: the list of the factor is a selection in the other orders.
  have hv3' : ids' = ids ↔ ∀ e ∈ ids, ∀ e' ∈ Finset.range 64, ByIndex row e e' →
      ByShared row sched.softmax sched.normalize e e' := by
    refine Iff.trans ?_ (hfactor.iff_of_order Ahead.asymm)
    exact ⟨fun h => h ▸ hv3, fun h => hv3.unique Ahead.asymm h (hlen'.trans hlen.symm)⟩
  have hmoe' : ids'' = ids ↔ ∀ e ∈ ids, ∀ e' ∈ Finset.range 64, ByIndex row e e' →
      ByReverse row e e' := by
    refine Iff.trans ?_ (hfactor.iff_of_order Ahead.asymm)
    exact ⟨fun h => h ▸ hmoe, fun h => hmoe.unique Ahead.asymm h (hlen''.trans hlen.symm)⟩
  have hmem : ∀ e < 64, e ∈ ids ↔ rankByIndex row e < k := by
    intro e he
    classical
    rw [hfactor.mem_iff Ahead.asymm (Finset.mem_range.mpr he), hlen]
    refine iff_of_eq (congrArg (· < k) (congrArg Finset.card (Finset.ext fun x => ?_)))
    rw [Finset.mem_filter, Finset.mem_filter]
    rfl
  rw [hv3', hmoe']
  constructor
  · rintro ⟨hshared, hreverse⟩ e he hrank e' he' hbefore
    have hids := (hmem e he).mpr hrank
    have he' := Finset.mem_range.mpr he'
    refine ⟨fun heq => ?_, hshared e hids e' he' hbefore⟩
    rcases hreverse e hids e' he' hbefore with hlt | ⟨-, hrev⟩
    · exact absurd heq hlt.ne'
    · exact hrev
  · intro hsame
    have hboth : ∀ e ∈ ids, ∀ e' ∈ Finset.range 64, ByIndex row e e' →
        ByShared row sched.softmax sched.normalize e e' ∧ ByReverse row e e' := by
      intro e he e' he' hbefore
      have he₂ := Finset.mem_range.mp (hfactor.mem e he)
      obtain ⟨hties, hshared⟩ := hsame e he₂ ((hmem e he₂).mp he) e' (Finset.mem_range.mp he') hbefore
      exact ⟨hshared, hbefore.imp_right fun h => ⟨h.1, hties h.1⟩⟩
    exact ⟨fun e he e' he' h => (hboth e he e' he' h).1, fun e he e' he' h => (hboth e he e' he' h).2⟩

/-- Without late threads, only ties matter. -/
theorem sameOrder_of_guarded (row : Nat → K) (k : Nat) {softmax normalize : List Nat}
    (hsoftmax : ∀ e < 64, ¬ RunsLate softmax e) (hnormalize : ∀ e < 64, ¬ RunsLate normalize e) :
    SameOrder row k softmax normalize ↔ ∀ e < 64, rankByIndex row e < k → ∀ e' < 64,
      row e = row e' → e < e' → bitReverse kBlockBits e < bitReverse kBlockBits e' := by
  have hshared : ∀ e < 64, sharedSoftmax row softmax normalize e =
      exp (row e - rowMaximum row) * (1 / sharedSum row softmax) := by
    intro e he
    rw [sharedSoftmax, sharedExp, if_neg (hsoftmax e he), if_neg (hnormalize e he)]
  have hpos : 0 < 1 / sharedSum row softmax := one_div_pos.mpr (sharedSum_pos row softmax)
  constructor
  · intro h e he hrank e' he' heq hlt
    exact (h e he hrank e' he' (.inr ⟨heq, hlt⟩)).1 heq
  · intro h e he hrank e' he' hbefore
    have hties : row e = row e' → bitReverse kBlockBits e < bitReverse kBlockBits e' := by
      intro heq
      rcases hbefore with hlt | ⟨-, hlt⟩
      · exact absurd heq hlt.ne'
      · exact h e he hrank e' he' heq hlt
    refine ⟨hties, ?_⟩
    rw [hshared e he, hshared e' he']
    rcases hbefore with hlt | ⟨heq, -⟩
    · exact .inl ((exp_mul_lt_iff hpos _ _ _).mpr hlt)
    · exact .inr ⟨by rw [heq], hties heq⟩

/-- **The kernels are interchangeable** exactly when ties and late threads do not matter. -/
theorem interchangeable_iff (row : Nat → K) (k : Nat) (hk : k ≤ 64) (sched : Schedule)
    (order : Nat → Nat → List Nat)
    (horder : ∀ n b, (order n b).Perm (List.range (2 ^ kBlockBits))) :
    Interchangeable row k sched order ↔ SameOrder row k sched.softmax sched.normalize :=
  interchangeable_spec row hk sched horder

/-! ## Schedules -/

/-- Thread 0 is the last one. -/
def lastZero : List Nat := List.range' 1 63 ++ [0]

theorem lastZero_perm : lastZero.Perm (List.range (2 ^ kBlockBits)) :=
  List.perm_append_singleton 0 (List.range' 1 63)

/-- A schedule with these orders after the reductions. -/
def schedule (softmax normalize : List Nat) (hs : softmax.Perm (List.range (2 ^ kBlockBits)))
    (hn : normalize.Perm (List.range (2 ^ kBlockBits))) : Schedule where
  maxRounds _ := List.range (2 ^ kBlockBits)
  softmax := softmax
  sumRounds _ := List.range (2 ^ kBlockBits)
  normalize := normalize
  argmax _ _ := List.range (2 ^ kBlockBits)
  maxRounds_perm _ := List.Perm.refl _
  softmax_perm := hs
  sumRounds_perm _ := List.Perm.refl _
  normalize_perm := hn
  argmax_perm _ _ := List.Perm.refl _

theorem lastZero_guarded : ∀ e < 64, ¬ RunsLate lastZero e := by decide

/-- Distinct logits, and thread 0 runs last. -/
theorem interchangeable_distinct : Interchangeable (fun e => -(e : ℝ)) 8
    (schedule lastZero lastZero lastZero_perm lastZero_perm)
    (fun _ _ => List.range (2 ^ kBlockBits)) := by
  refine (interchangeable_iff _ 8 (by decide) _ _ fun _ _ => List.Perm.refl _).mpr ?_
  refine (sameOrder_of_guarded _ 8 lastZero_guarded lastZero_guarded).mpr ?_
  intro e _ _ e' _ heq hlt
  exact absurd (Nat.cast_injective (neg_injective heq)) hlt.ne

/-- Expert 1 comes before expert 32 by index, and after it by bit-reversed index. -/
theorem ties_differ (sched : Schedule) {order : Nat → Nat → List Nat}
    (horder : ∀ n b, (order n b).Perm (List.range (2 ^ kBlockBits))) :
    ¬ Interchangeable (fun _ => (0 : ℝ)) 2 sched order := by
  intro h
  have hsame := (interchangeable_spec _ (by decide) sched horder).mp h
  have hrank : rankByIndex (fun _ => (0 : ℝ)) 1 < 2 := by
    have hsub : (Finset.range 64).filter (fun x => (0 : ℝ) < 0 ∨ (0 : ℝ) = 0 ∧ x < 1) ⊆ {0} := by
      intro x hx
      rcases (Finset.mem_filter.mp hx).2 with hlt | ⟨-, hx⟩
      · exact absurd hlt (lt_irrefl 0)
      · exact Finset.mem_singleton.mpr (Nat.lt_one_iff.mp hx)
    exact Nat.lt_succ_of_le (Finset.card_le_card hsub)
  have hrev := (hsame 1 (by decide) hrank 32 (by decide) (.inr ⟨rfl, by decide⟩)).1 rfl
  exact absurd hrev (by decide)

/-- Three experts above the others. -/
noncomputable def threeLogits (e : Nat) : ℝ :=
  if e = 0 then 0 else if e = 1 then 1 else if e = 2 then -1 / ((4 : ℕ) : ℝ) else -1

theorem threeLogits_le (e : Nat) : threeLogits e ≤ 1 := by
  unfold threeLogits
  split_ifs <;> norm_num

/-- Thread 0 runs first: expert 2 gets a larger weight than expert 0. -/
theorem late_thread_differs {order : Nat → Nat → List Nat}
    (horder : ∀ n b, (order n b).Perm (List.range (2 ^ kBlockBits))) :
    ¬ Interchangeable threeLogits 2
      (schedule (List.range (2 ^ kBlockBits)) lastZero (List.Perm.refl _) lastZero_perm) order := by
  intro h
  have hsame := (interchangeable_spec _ (by decide) _ horder).mp h
  have hrank : rankByIndex threeLogits 0 < 2 := by
    have hsub : (Finset.range 64).filter
        (fun x => threeLogits 0 < threeLogits x ∨ threeLogits x = threeLogits 0 ∧ x < 0) ⊆ {1} := by
      intro x hx
      rcases (Finset.mem_filter.mp hx).2 with hlt | ⟨-, hx⟩
      · by_contra hne
        have hne : x ≠ 1 := fun h => hne (Finset.mem_singleton.mpr h)
        unfold threeLogits at hlt
        rw [if_pos rfl, if_neg hne] at hlt
        split_ifs at hlt <;> linarith
      · exact absurd hx (Nat.not_lt_zero x)
    exact Nat.lt_succ_of_le (Finset.card_le_card hsub)
  have hlt : threeLogits 2 < threeLogits 0 := by norm_num [threeLogits]
  have hshared := (hsame 0 (by decide) hrank 2 (by decide) (.inl hlt)).2
  have hle : sharedSoftmax threeLogits (List.range (2 ^ kBlockBits)) lastZero 2 ≤
      sharedSoftmax threeLogits (List.range (2 ^ kBlockBits)) lastZero 0 :=
    hshared.elim le_of_lt fun h => h.1.ge
  have hmax : rowMaximum threeLogits = 1 := by
    refine le_antisymm (Finset.sup'_le _ _ fun e _ => threeLogits_le e) ?_
    exact (show (1 : ℝ) = threeLogits 1 by norm_num [threeLogits]).le.trans
      (Finset.le_sup' threeLogits (by decide))
  have hlate : RunsLate (List.range (2 ^ kBlockBits)) 2 := by decide
  have hearly : ¬ RunsLate (List.range (2 ^ kBlockBits)) 0 := by decide
  unfold sharedSoftmax at hle
  rw [if_neg (lastZero_guarded 2 (by decide)), if_neg (lastZero_guarded 0 (by decide)),
    mul_le_mul_iff_left₀ (one_div_pos.mpr (sharedSum_pos _ _)), sharedExp, sharedExp, if_pos hlate,
    if_neg hearly, hmax, ← not_lt, ExpOrderedField.exp_lt_exp] at hle
  have hexp : exp (-1 : ℝ) ≤ 1 / 2 := by
    have hbig : (2 : ℝ) ≤ Real.exp 1 := by
      have hle := Real.add_one_le_exp 1
      linarith
    show Real.exp (-1) ≤ 1 / 2
    rw [Real.exp_neg, ← one_div]
    exact one_div_le_one_div_of_le two_pos hbig
  refine hle ?_
  norm_num [threeLogits]
  linarith

/-- Ties, and a thread that runs late. -/
theorem kernels_differ :
    ¬ Interchangeable (fun _ => (0 : ℝ)) 2 (schedule lastZero lastZero lastZero_perm lastZero_perm)
      (fun _ _ => List.range (2 ^ kBlockBits)) ∧
    ¬ Interchangeable threeLogits 2
      (schedule (List.range (2 ^ kBlockBits)) lastZero (List.Perm.refl _) lastZero_perm)
      (fun _ _ => List.range (2 ^ kBlockBits)) :=
  ⟨ties_differ _ fun _ _ => List.Perm.refl _, late_thread_differs fun _ _ => List.Perm.refl _⟩

end Bi100.Router
