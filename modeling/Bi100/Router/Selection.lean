import Bi100.Lib.ArgmaxTree
import Mathlib.Algebra.Order.Field.Rat
import Mathlib.Tactic.IntervalCases
import Mathlib.Tactic.NormNum

/-!
# The top-k selection (`moe_ops_impl.cu`)

The selection loop of `topk_softmax_kernel`: one thread for an expert, a block of the next power of
two, a tree for the largest value, and `-1` in the place of a winner. The values of the softmax are
inputs. The threads between two barriers run in any order.

- `selectionLoop_spec`: the loop finds the first lanes by value, and by bit-reversed index on ties.
- `topk_selects_iff`: when these lanes are experts.
-/

namespace Bi100.Router

open BlockReduce Selection

variable {K : Type} [Field K] [LinearOrder K]

/-! ## The kernel -/

/-- A thread of a round of `smem_argmax`; `s_val` and `s_idx` together. -/
def argmaxThread (s : Nat) (m : Nat → K × Nat) (tid : Nat) : Nat → K × Nat :=
  if tid < s ∧ (m tid).1 < (m (tid + s)).1 then Function.update m tid (m (tid + s)) else m

/-- The rounds of `smem_argmax`, each with an order of the threads. -/
def smemArgmax : Nat → (Nat → List Nat) → (Nat → K × Nat) → Nat → K × Nat
  | 0, _, m => m
  | bits + 1, order, m => smemArgmax bits order ((order bits).foldl (argmaxThread (2 ^ bits)) m)

/-- The loop of `topk_softmax_kernel` for the last iterations: `winner_val` and `winner_idx`. -/
def selectionLoop (bits : Nat) (order : Nat → Nat → List Nat) : Nat → (Nat → K) → List (K × Nat)
  | 0, _ => []
  | n + 1, myVal =>
    let winner := smemArgmax bits (order n) (fun tid => (myVal tid, tid)) 0
    winner :: selectionLoop bits order n fun tid => if tid = winner.2 then -1 else myVal tid

/-- `while (block_size < num_experts) block_size <<= 1`, from `block_size = 1 << bits` on. -/
def growBlock (numExperts bits : Nat) : Nat :=
  if 2 ^ bits < numExperts then growBlock numExperts (bits + 1) else bits
termination_by numExperts - 2 ^ bits
decreasing_by
  have hpos := Nat.two_pow_pos bits
  rw [Nat.pow_succ]
  omega

def blockBits (numExperts : Nat) : Nat := growBlock numExperts 0

/-- The selection of `topk_softmax`, for the softmax of a row. -/
def topkSelection (numExperts topk : Nat) (order : Nat → Nat → List Nat) (row : Nat → K) :
    Option (List (K × Nat)) :=
  let bits := blockBits numExperts
  if 2 ^ bits ≤ 1024 then
    some (selectionLoop bits order topk fun tid => if tid < numExperts then row tid else 0)
  else none

/-! ## The block -/

theorem le_growBlock (numExperts bits : Nat) : numExperts ≤ 2 ^ growBlock numExperts bits := by
  fun_induction growBlock numExperts bits with
  | case1 _ _ ih => exact ih
  | case2 _ h => exact Nat.le_of_not_lt h

theorem growBlock_le {numExperts bits m : Nat} (h : numExperts ≤ 2 ^ m) (hbits : bits ≤ m) :
    growBlock numExperts bits ≤ m := by
  fun_induction growBlock numExperts bits with
  | case1 bits hlt ih =>
    refine ih (Nat.succ_le_of_lt ?_)
    exact (Nat.pow_lt_pow_iff_right Nat.one_lt_two).mp (hlt.trans_le h)
  | case2 => exact hbits

theorem blockBits_le {numExperts : Nat} (h : numExperts ≤ 1024) : 2 ^ blockBits numExperts ≤ 1024 :=
  Nat.pow_le_pow_right (by decide) (growBlock_le (m := 10) h (Nat.zero_le 10))

/-! ## The loop -/

omit [Field K] in
theorem argmaxRound_eq {bits n : Nat} {order : List Nat} (horder : order.Perm (List.range n))
    (hn : 2 ^ bits ≤ n) (m : Nat → K × Nat) :
    order.foldl (argmaxThread (2 ^ bits)) m = treeRound pick (2 ^ bits) m := by
  rw [← orderedRound_eq horder hn, orderedRound]
  congr 1
  funext m tid
  unfold argmaxThread pick
  by_cases htid : tid < 2 ^ bits
  · by_cases hlt : (m tid).1 < (m (tid + 2 ^ bits)).1
    · rw [if_pos ⟨htid, hlt⟩, if_pos htid, if_pos hlt]
    · rw [if_neg fun h => hlt h.2, if_pos htid, if_neg hlt, Function.update_eq_self]
  · rw [if_neg fun h => htid h.1, if_neg htid]

omit [Field K] in
/-- The order of the threads does not matter. -/
theorem smemArgmax_eq {bits n : Nat} {order : Nat → List Nat}
    (horder : ∀ b, (order b).Perm (List.range n)) (hn : 2 ^ bits ≤ n) (m : Nat → K × Nat) :
    smemArgmax bits order m 0 = treeRounds pick bits m 0 := by
  induction bits generalizing m with
  | zero => rfl
  | succ bits ih =>
    have hn' : 2 ^ bits ≤ n := (Nat.pow_le_pow_right (by decide) (Nat.le_succ bits)).trans hn
    rw [smemArgmax, argmaxRound_eq (horder bits) hn', ih hn', treeRounds]

/-- The values, where those of the winners are `-1`. -/
def suppressed (val : Nat → K) (winners : List Nat) (tid : Nat) : K :=
  if tid ∈ winners then -1 else val tid

/-- The first lane that is left. -/
theorem suppressed_next {n : Nat} {val : Nat → K} {rank : Nat → Nat} {winners : List Nat} {i : Nat}
    (hval : ∀ tid < n, -1 < val tid) (h : IsSelection (Ahead val rank) (Finset.range n) winners)
    (hlen : winners.length < n) (hi : i < n)
    (hfirst : ∀ j < n, j ≠ i → Ahead (suppressed val winners) rank i j) :
    i ∉ winners ∧ IsSelection (Ahead val rank) (Finset.range n) (winners ++ [i]) := by
  -- Some lane is left, and its value is larger than that of a winner.
  have hnew : i ∉ winners := by
    intro hmem
    obtain ⟨j, hj, hleft⟩ : ∃ j ∈ Finset.range n, j ∉ winners := by
      by_contra hall
      have hsub : Finset.range n ⊆ winners.toFinset := fun j hj =>
        List.mem_toFinset.mpr (not_not.mp fun hleft => hall ⟨j, hj, hleft⟩)
      have hcard := Finset.card_le_card hsub
      rw [Finset.card_range, List.toFinset_card_of_nodup h.nodup] at hcard
      omega
    have hj' := Finset.mem_range.mp hj
    have hle := (hfirst j hj' fun hji => hleft (hji ▸ hmem)).value_le
    rw [suppressed, suppressed, if_neg hleft, if_pos hmem] at hle
    exact absurd (hval j hj') (not_lt.mpr hle)
  refine ⟨hnew, h.concat (Finset.mem_range.mpr hi) hnew fun y hy hleft hne => ?_⟩
  have hahead := hfirst y (Finset.mem_range.mp hy) hne
  unfold Ahead suppressed at hahead
  rw [if_neg hnew, if_neg hleft] at hahead
  exact hahead

omit [LinearOrder K] in
/-- One more winner. -/
theorem suppressed_concat (val : Nat → K) (winners : List Nat) (i : Nat) :
    (fun tid => if tid = i then -1 else suppressed val winners tid) =
      suppressed val (winners ++ [i]) := by
  funext tid
  unfold suppressed
  by_cases htid : tid = i
  · simp [htid]
  · simp [htid]

theorem selectionLoop_spec {bits : Nat} {order : Nat → Nat → List Nat} {val : Nat → K}
    (horder : ∀ n b, (order n b).Perm (List.range (2 ^ bits)))
    (hval : ∀ tid < 2 ^ bits, -1 < val tid) {n : Nat} {winners : List Nat}
    (h : IsSelection (Ahead val (bitReverse bits)) (Finset.range (2 ^ bits)) winners)
    (hn : winners.length + n ≤ 2 ^ bits) :
    ∃ ids, selectionLoop bits order n (suppressed val winners) = ids.map (fun i => (val i, i)) ∧
      ids.length = n ∧ IsSelection (Ahead val (bitReverse bits)) (Finset.range (2 ^ bits))
        (winners ++ ids) := by
  induction n generalizing winners with
  | zero => exact ⟨[], rfl, rfl, (List.append_nil winners).symm ▸ h⟩
  | succ n ih =>
    obtain ⟨i, hi, heq, hfirst⟩ := treeRounds_pick bits
      (fun tid => (suppressed val winners tid, tid))
    obtain ⟨hnew, hconcat⟩ := suppressed_next hval h (by omega) hi hfirst
    have hn' : (winners ++ [i]).length + n ≤ 2 ^ bits := by
      rw [List.length_append, List.length_singleton]
      omega
    obtain ⟨ids, hloop, hlen, hids⟩ := ih hconcat hn'
    refine ⟨i :: ids, ?_, congrArg Nat.succ hlen, by simpa using hids⟩
    rw [selectionLoop, smemArgmax_eq (horder n) (Nat.le_refl _), heq]
    dsimp only
    rw [suppressed_concat, hloop, List.map_cons, suppressed, if_neg hnew]

/-- The loop from its start. -/
theorem selectionLoop_start {bits : Nat} {order : Nat → Nat → List Nat} {val : Nat → K}
    (horder : ∀ n b, (order n b).Perm (List.range (2 ^ bits)))
    (hval : ∀ tid < 2 ^ bits, -1 < val tid) {n : Nat} (hn : n ≤ 2 ^ bits) :
    ∃ ids, selectionLoop bits order n val = ids.map (fun i => (val i, i)) ∧ ids.length = n ∧
      IsSelection (Ahead val (bitReverse bits)) (Finset.range (2 ^ bits)) ids :=
  selectionLoop_spec horder hval (IsSelection.nil _ _) ((Nat.zero_add n).symm ▸ hn)

/-! ## The experts that are selected -/

/-- `topk` distinct experts with their values, the largest first. -/
structure Selected (numExperts topk : Nat) (row : Nat → K) (out : List (K × Nat)) : Prop where
  length : out.length = topk
  distinct : (out.map Prod.snd).Nodup
  inRange : ∀ w ∈ out, w.2 < numExperts
  weights : ∀ w ∈ out, w.1 = row w.2
  sorted : (out.map Prod.fst).Pairwise (· ≥ ·)
  largest : ∀ w ∈ out, ∀ e < numExperts, e ∉ out.map Prod.snd → row e ≤ row w.2

/-- The expert comes before every lane without an expert, where the value is zero. -/
def BeforePadding (numExperts : Nat) (row : Nat → K) (e : Nat) : Prop :=
  ∀ p ∈ Finset.range (2 ^ blockBits numExperts), numExperts ≤ p → 0 < row e ∨
    row e = 0 ∧ bitReverse (blockBits numExperts) e < bitReverse (blockBits numExperts) p

instance (numExperts : Nat) (row : Nat → K) : DecidablePred (BeforePadding numExperts row) :=
  fun _ => inferInstanceAs (Decidable (∀ p ∈ Finset.range (2 ^ blockBits numExperts), _))

section Topk

variable {numExperts topk : Nat} {order : Nat → Nat → List Nat} {row : Nat → K}

/-- The values of the lanes. -/
def laneValue (numExperts : Nat) (row : Nat → K) (tid : Nat) : K :=
  if tid < numExperts then row tid else 0

omit [LinearOrder K] in
theorem laneValue_expert {e : Nat} (he : e < numExperts) : laneValue numExperts row e = row e :=
  if_pos he

theorem beforePadding_iff {e : Nat} (he : e < numExperts) : BeforePadding numExperts row e ↔
    ∀ p ∈ Finset.range (2 ^ blockBits numExperts), ¬ p < numExperts →
      Ahead (laneValue numExperts row) (bitReverse (blockBits numExperts)) e p := by
  unfold BeforePadding Ahead
  refine forall₂_congr fun p _ => ?_
  rw [← Nat.not_lt]
  refine forall_congr' fun hpad => ?_
  rw [laneValue, laneValue, if_pos he, if_neg hpad]

variable [IsStrictOrderedRing K]

/-- What the loop selects, and when all of it is experts. -/
theorem topkSelection_spec (hE : numExperts ≤ 1024) (hk : topk ≤ numExperts)
    (hrow : ∀ e < numExperts, 0 ≤ row e)
    (horder : ∀ n b, (order n b).Perm (List.range (2 ^ blockBits numExperts))) :
    ∃ ids, topkSelection numExperts topk order row =
        some (ids.map fun i => (laneValue numExperts row i, i)) ∧ ids.length = topk ∧
      IsSelection (Ahead (laneValue numExperts row) (bitReverse (blockBits numExperts)))
        (Finset.range (2 ^ blockBits numExperts)) ids ∧
      ((∀ e ∈ ids, e < numExperts) ↔
        topk ≤ ((Finset.range numExperts).filter (BeforePadding numExperts row)).card) := by
  have hblock := le_growBlock numExperts 0
  have hval : ∀ tid < 2 ^ blockBits numExperts, -1 < laneValue numExperts row tid := by
    intro tid _
    unfold laneValue
    split
    · next he => exact neg_one_lt_zero.trans_le (hrow tid he)
    · exact neg_one_lt_zero
  obtain ⟨ids, hloop, hlen, hsel⟩ := selectionLoop_start horder hval (hk.trans hblock)
  refine ⟨ids, ?_, hlen, hsel, ?_⟩
  · unfold topkSelection
    rw [if_pos (blockBits_le hE)]
    exact congrArg some hloop
  · classical
    rw [hsel.forall_iff (p := (· < numExperts)) Ahead.asymm, hlen]
    refine iff_of_eq (congrArg (topk ≤ ·) (congrArg Finset.card (Finset.ext fun e => ?_)))
    rw [Finset.mem_filter, Finset.mem_filter, Finset.mem_range, Finset.mem_range]
    constructor
    · rintro ⟨-, he, hpad⟩
      exact ⟨he, (beforePadding_iff he).mpr hpad⟩
    · rintro ⟨he, hpad⟩
      exact ⟨he.trans_le hblock, he, (beforePadding_iff he).mp hpad⟩

omit [IsStrictOrderedRing K] in
/-- A selection of experts. -/
theorem Selected.of_isSelection {ids : List Nat} {bits : Nat} (hlen : ids.length = topk)
    (hE : numExperts ≤ 2 ^ bits)
    (h : IsSelection (Ahead (laneValue numExperts row) (bitReverse bits)) (Finset.range (2 ^ bits)) ids)
    (hall : ∀ e ∈ ids, e < numExperts) :
    Selected numExperts topk row (ids.map fun i => (laneValue numExperts row i, i)) := by
  have hsnd : (ids.map fun i => (laneValue numExperts row i, i)).map Prod.snd = ids := by
    rw [List.map_map]
    exact List.map_id ids
  refine ⟨(List.length_map _).trans hlen, hsnd.symm ▸ h.nodup, fun w hw => ?_, fun w hw => ?_, ?_,
    fun w hw e he hnot => ?_⟩
  · obtain ⟨i, hi, rfl⟩ := List.mem_map.mp hw
    exact hall i hi
  · obtain ⟨i, hi, rfl⟩ := List.mem_map.mp hw
    exact laneValue_expert (hall i hi)
  · rw [List.map_map]
    exact List.pairwise_map.mpr (h.sorted.imp fun hxy => hxy.value_le)
  · obtain ⟨i, hi, rfl⟩ := List.mem_map.mp hw
    rw [hsnd] at hnot
    have hle := (h.rest i hi e (Finset.mem_range.mpr (he.trans_le hE)) hnot).value_le
    rw [laneValue_expert he, laneValue_expert (hall i hi)] at hle
    exact hle

end Topk

/-- **The selection is right** exactly when enough experts come before the lanes without one. -/
theorem topk_selects_iff [IsStrictOrderedRing K] (numExperts topk : Nat) (row : Nat → K)
    (order : Nat → Nat → List Nat) (hE : numExperts ≤ 1024) (hk : topk ≤ numExperts)
    (hrow : ∀ e < numExperts, 0 ≤ row e)
    (horder : ∀ n b, (order n b).Perm (List.range (2 ^ blockBits numExperts))) :
    (∃ out, topkSelection numExperts topk order row = some out ∧
      Selected numExperts topk row out) ↔
    topk ≤ ((Finset.range numExperts).filter (BeforePadding numExperts row)).card := by
  obtain ⟨ids, hrun, hlen, hsel, hall⟩ := topkSelection_spec hE hk hrow horder
  rw [← hall]
  constructor
  · rintro ⟨out, hout, hselected⟩ e he
    obtain rfl := Option.some.inj (hrun.symm.trans hout)
    exact hselected.inRange _ (List.mem_map_of_mem he)
  · exact fun hin => ⟨_, hrun, Selected.of_isSelection hlen (le_growBlock numExperts 0) hsel hin⟩

/-- Two of eight experts with the same value. -/
theorem topk_selects_equal : ∃ out, topkSelection 8 2
    (fun _ _ => List.range (2 ^ blockBits 8)) (fun _ => (1 / 8 : ℚ)) = some out ∧
    Selected 8 2 (fun _ => 1 / 8) out := by
  refine (topk_selects_iff 8 2 _ _ (by decide) (by decide) (fun _ _ => by norm_num)
    fun _ _ => List.Perm.refl _).mpr ?_
  rw [Finset.filter_true_of_mem fun e _ p _ _ => .inl (by norm_num)]
  decide

theorem blockBits_five : blockBits 5 = 3 := by
  simp [blockBits, growBlock]

/-- Five experts, where the softmax of four is zero: lane 6 is the fourth winner. -/
theorem topk_selects_padding : ¬ ∃ out, topkSelection 5 4
    (fun _ _ => List.range (2 ^ blockBits 5)) (fun e => if e = 0 then (1 : ℚ) else 0) = some out ∧
    Selected 5 4 (fun e => if e = 0 then 1 else 0) out := by
  rintro ⟨out, hrun, hselected⟩
  have hrow : ∀ e < 5, (0 : ℚ) ≤ if e = 0 then 1 else 0 := by
    intro e _
    split <;> norm_num
  obtain ⟨ids, hids, -, -, hall⟩ := topkSelection_spec (by decide : 5 ≤ 1024)
    (by decide : 4 ≤ 5) hrow fun _ _ => List.Perm.refl (List.range (2 ^ blockBits 5))
  obtain rfl := Option.some.inj (hids.symm.trans hrun)
  have hcard := hall.mp fun e he => hselected.inRange _ (List.mem_map_of_mem he)
  have hsub : (Finset.range 5).filter (BeforePadding 5 fun e => if e = 0 then (1 : ℚ) else 0) ⊆
      {0, 2, 4} := by
    intro e he
    obtain ⟨he, hbefore⟩ := Finset.mem_filter.mp he
    have hpad := hbefore 6 (by rw [blockBits_five]; decide) (by decide)
    rw [blockBits_five] at hpad
    have he := Finset.mem_range.mp he
    interval_cases e
    · decide
    · exact absurd hpad (by decide +kernel)
    · decide
    · exact absurd hpad (by decide +kernel)
    · decide
  have hle := hcard.trans (Finset.card_le_card hsub)
  exact absurd hle (by decide)

end Bi100.Router
