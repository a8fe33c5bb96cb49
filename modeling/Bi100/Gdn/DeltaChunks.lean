import Bi100.Gdn.DeltaRule
import Bi100.Lib.Triangular
import Mathlib.Data.List.GetD

/-!
# The chunked delta rule is the recurrence

- `stateAfter_eq`: the state after some rows of a chunk, from the deltas of the rows.
- `vNew_eq_delta`: the inverse of the triangular matrix gives the deltas.
- `chunk_eq_recurrent`: a chunk is the recurrence over its rows; a padded token changes nothing.
-/

namespace Bi100.Gdn

open ExpField Triangular

variable {K : Type} [ExpField K] {dk dv : Nat} {x : Nat → Token K dk dv} {S : State K dk dv}
  {chunkSize : Nat}

/-! ## The inverse -/

theorem attnInit_lower (x : Nat → Token K dk dv) : StrictlyLower (attnInit x) := by
  intro i j hij
  rw [attnInit, if_pos hij, neg_zero]

theorem attnRows_inverted (x : Nat → Token K dk dv) (n : Nat) :
    InvertedTo (attnInit x) n ((List.range' 1 n).foldl attnRow (attnInit x)) := by
  induction n with
  | zero => exact .zero (attnInit_lower x)
  | succ n ih =>
    rw [List.range'_1_concat, List.foldl_append, List.foldl_cons, List.foldl_nil, Nat.add_comm 1 n]
    refine ih.step (fun j hj => ?_) (fun j hj => ?_) fun i hi j => ?_
    · exact if_pos ⟨rfl, hj⟩
    · exact if_neg fun h => Nat.not_lt.mpr hj h.2
    · exact if_neg fun h => hi h.1

theorem attn_inverts (x : Nat → Token K dk dv) (hC : 0 < chunkSize) :
    Inverts (attnInit x) chunkSize (attn chunkSize x) := by
  have h := (attnRows_inverted x (chunkSize - 1)).inverts (attnInit_lower x)
  rw [Nat.sub_add_cancel hC] at h
  exact h

/-! ## The recurrence inside a chunk -/

/-- The state after `n` rows. -/
def stateAfter (x : Nat → Token K dk dv) (S : State K dk dv) : Nat → State K dk dv
  | 0 => S
  | n + 1 => (recurrentStep (stateAfter x S n) (x n)).1

/-- The delta of a row. -/
def deltaAt (x : Nat → Token K dk dv) (S : State K dk dv) (n : Nat) : Fin dv → K :=
  delta (x n) fun a b => stateAfter x S n a b * exp (x n).g

/-- The decay of the rows before. -/
def gBefore (x : Nat → Token K dk dv) (n : Nat) : K := ∑ s ∈ Finset.range n, (x s).g

theorem gCumsum_eq (i : Nat) : gCumsum x i = gBefore x (i + 1) := rfl

theorem gBefore_succ (n : Nat) : gBefore x (n + 1) = gBefore x n + (x n).g :=
  Finset.sum_range_succ _ _

/-- The state before the delta of a row is added. -/
theorem decayed_eq (n : Nat) (h : ∀ a b, stateAfter x S n a b = S a b * exp (gBefore x n) +
      ∑ j ∈ Finset.range n, (x j).key a * (exp (gBefore x n - gCumsum x j) * deltaAt x S j b))
    (a : Fin dk) (b : Fin dv) : stateAfter x S n a b * exp (x n).g =
      S a b * exp (gCumsum x n) +
        ∑ j ∈ Finset.range n, (x j).key a * (exp (gCumsum x n - gCumsum x j) * deltaAt x S j b) := by
  rw [h, add_mul, Finset.sum_mul, gCumsum_eq, gBefore_succ, exp_add, mul_assoc]
  congr 1
  refine Finset.sum_congr rfl fun j _ => ?_
  rw [add_sub_right_comm, exp_add]
  ring

theorem stateAfter_eq (n : Nat) (a : Fin dk) (b : Fin dv) : stateAfter x S n a b =
    S a b * exp (gBefore x n) +
      ∑ j ∈ Finset.range n, (x j).key a * (exp (gBefore x n - gCumsum x j) * deltaAt x S j b) := by
  induction n generalizing a b with
  | zero => simp [stateAfter, gBefore, exp_zero]
  | succ n ih =>
    show stateAfter x S n a b * exp (x n).g + (x n).key a * deltaAt x S n b = _
    rw [decayed_eq n ih, Finset.sum_range_succ, gCumsum_eq, sub_self, exp_zero, one_mul, add_assoc]

/-- Read a sum of outer products. -/
theorem read_outer (f y : Fin dk → K) (rows : Finset Nat) (k : Nat → Fin dk → K) (e : Nat → K) :
    ∑ a, (f a + ∑ j ∈ rows, k j a * e j) * y a =
      ∑ a, f a * y a + ∑ j ∈ rows, (∑ a, y a * k j a) * e j := by
  have hrow : ∀ a, (f a + ∑ j ∈ rows, k j a * e j) * y a =
      f a * y a + ∑ j ∈ rows, y a * k j a * e j := fun a => by
    rw [add_mul, Finset.sum_mul]
    congr 1
    exact Finset.sum_congr rfl fun j _ => by ring
  rw [Finset.sum_congr rfl fun a _ => hrow a, Finset.sum_add_distrib, Finset.sum_comm]
  congr 1
  exact Finset.sum_congr rfl fun j _ => (Finset.sum_mul _ _ _).symm

/-- What a row adds, before the rows above it act. -/
def rowInput (x : Nat → Token K dk dv) (S : State K dk dv) (b : Fin dv) (i : Nat) : K :=
  (x i).value b * (x i).beta - ∑ a, (x i).key a * (x i).beta * exp (gCumsum x i) * S a b

theorem decayMask_of_le {i j : Nat} (h : j ≤ i) :
    decayMask x i j = exp (gCumsum x i - gCumsum x j) := by
  rw [decayMask, tril, if_pos h, tril, if_pos h]

theorem attnInit_of_lt {i m : Nat} (h : m < i) : attnInit x i m =
    -((∑ a, (x i).key a * (x i).beta * (x m).key a) * exp (gCumsum x i - gCumsum x m)) := by
  rw [attnInit, if_neg (Nat.not_le.mpr h), decayMask_of_le h.le]

/-- The delta of a row depends linearly on those of the rows above it. -/
theorem deltaAt_eq (i : Nat) (b : Fin dv) : deltaAt x S i b = rowInput x S b i +
    ∑ m ∈ Finset.range i, attnInit x i m * deltaAt x S m b := by
  show ((x i).value b - ∑ a, stateAfter x S i a b * exp (x i).g * (x i).key a) * (x i).beta = _
  rw [Finset.sum_congr rfl fun a _ => congrArg (· * (x i).key a) (decayed_eq i (stateAfter_eq i) a b),
    read_outer, rowInput]
  have hS : (∑ a, S a b * exp (gCumsum x i) * (x i).key a) * (x i).beta =
      ∑ a, (x i).key a * (x i).beta * exp (gCumsum x i) * S a b := by
    rw [Finset.sum_mul]
    exact Finset.sum_congr rfl fun a _ => by ring
  have hrows : (∑ j ∈ Finset.range i, (∑ a, (x i).key a * (x j).key a) *
      (exp (gCumsum x i - gCumsum x j) * deltaAt x S j b)) * (x i).beta =
      -∑ m ∈ Finset.range i, attnInit x i m * deltaAt x S m b := by
    rw [Finset.sum_mul, ← Finset.sum_neg_distrib]
    refine Finset.sum_congr rfl fun m hm => ?_
    have hkeys : (∑ a, (x i).key a * (x i).beta * (x m).key a) =
        (∑ a, (x i).key a * (x m).key a) * (x i).beta := by
      rw [Finset.sum_mul]
      exact Finset.sum_congr rfl fun a _ => by ring
    rw [attnInit_of_lt (Finset.mem_range.mp hm), hkeys]
    ring
  rw [sub_mul, add_mul, hS, hrows]
  ring

/-- The rows of the inverse give the deltas. -/
theorem vNew_eq_delta (hC : 0 < chunkSize) {i : Nat} (hi : i < chunkSize) (b : Fin dv) :
    vNew chunkSize x S i b = deltaAt x S i b := by
  rw [solve (attn_inverts x hC) (fun i _ => deltaAt_eq i b) i hi]
  have hstate : ∑ a, kCumdecay chunkSize x i a * S a b = ∑ j ∈ Finset.range chunkSize,
      attn chunkSize x i j * ∑ a, (x j).key a * (x j).beta * exp (gCumsum x j) * S a b := by
    rw [Finset.sum_congr rfl fun a _ => by rw [kCumdecay, Finset.sum_mul], Finset.sum_comm]
    refine Finset.sum_congr rfl fun j _ => ?_
    rw [Finset.mul_sum]
    exact Finset.sum_congr rfl fun a _ => mul_assoc _ _ _
  rw [vNew, valueAttn, hstate, ← Finset.sum_sub_distrib]
  exact Finset.sum_congr rfl fun j _ => (mul_sub _ _ _).symm

theorem coreOut_eq (hC : 0 < chunkSize) {i : Nat} (hi : i < chunkSize) :
    coreOut chunkSize x S i = (recurrentStep (stateAfter x S i) (x i)).2 := by
  funext b
  show _ = ∑ a, stateAfter x S (i + 1) a b * (x i).query a
  -- The rows after row `i` are masked.
  have hmask : ∑ j ∈ Finset.range chunkSize, (if i < j then 0
      else (∑ a, (x i).query a * (x j).key a) * decayMask x i j) * vNew chunkSize x S j b =
      ∑ j ∈ Finset.range (i + 1), (∑ a, (x i).query a * (x j).key a) *
        (exp (gCumsum x i - gCumsum x j) * deltaAt x S j b) := by
    rw [← Finset.sum_subset (Finset.range_subset_range.mpr hi) fun j _ hj => ?_]
    · refine Finset.sum_congr rfl fun j hj => ?_
      have hle := Nat.le_of_lt_succ (Finset.mem_range.mp hj)
      rw [if_neg (Nat.not_lt.mpr hle), decayMask_of_le hle, vNew_eq_delta hC (by omega), mul_assoc]
    · rw [Finset.mem_range] at hj
      rw [if_pos (by omega), zero_mul]
  have hstate : ∀ a, stateAfter x S (i + 1) a b * (x i).query a = (S a b * exp (gCumsum x i) +
      ∑ j ∈ Finset.range (i + 1), (x j).key a *
        (exp (gCumsum x i - gCumsum x j) * deltaAt x S j b)) * (x i).query a := fun a =>
    congrArg (· * (x i).query a) (stateAfter_eq (i + 1) a b)
  rw [coreOut, hmask, Finset.sum_congr rfl fun a _ => hstate a, read_outer]
  congr 1
  exact Finset.sum_congr rfl fun a _ => by ring

theorem nextState_eq (hC : 0 < chunkSize) : nextState chunkSize x S = stateAfter x S chunkSize := by
  funext a b
  rw [nextState, stateAfter_eq, gCumsum_eq, Nat.sub_add_cancel hC]
  congr 1
  refine Finset.sum_congr rfl fun j hj => ?_
  rw [vNew_eq_delta hC (Finset.mem_range.mp hj), mul_assoc]

/-! ## Lists of tokens -/

theorem recurrentLoop_append (S : State K dk dv) (l₁ l₂ : List (Token K dk dv)) :
    recurrentLoop S (l₁ ++ l₂) =
      ((recurrentLoop S l₁).1 ++ (recurrentLoop (recurrentLoop S l₁).2 l₂).1,
        (recurrentLoop (recurrentLoop S l₁).2 l₂).2) := by
  induction l₁ generalizing S with
  | nil => rfl
  | cons t l₁ ih =>
    have h := ih (recurrentStep S t).1
    rw [List.cons_append]
    show ((recurrentStep S t).2 :: (recurrentLoop (recurrentStep S t).1 (l₁ ++ l₂)).1,
      (recurrentLoop (recurrentStep S t).1 (l₁ ++ l₂)).2) = _
    rw [h]
    rfl

theorem recurrentLoop_range (x : Nat → Token K dk dv) (S : State K dk dv) (n : Nat) :
    recurrentLoop S ((List.range n).map x) =
      ((List.range n).map fun i => (recurrentStep (stateAfter x S i) (x i)).2, stateAfter x S n) := by
  induction n with
  | zero => rfl
  | succ n ih =>
    rw [List.range_succ, List.map_append, recurrentLoop_append, ih, List.map_append]
    rfl

/-- A chunk is the recurrence over its rows. -/
theorem chunk_eq_recurrent (hC : 0 < chunkSize) (x : Nat → Token K dk dv) (S : State K dk dv) :
    ((List.range chunkSize).map (coreOut chunkSize x S), nextState chunkSize x S) =
      recurrentLoop S ((List.range chunkSize).map x) := by
  rw [recurrentLoop_range, nextState_eq hC]
  refine congrArg (·, _) (List.map_congr_left fun i hi => ?_)
  exact coreOut_eq hC (List.mem_range.mp hi)

theorem chunkLoop_eq (hC : 0 < chunkSize) (padded : List (Token K dk dv)) (chunks : List Nat)
    (S : State K dk dv) : chunkLoop chunkSize padded chunks S =
      recurrentLoop S (chunks.flatMap fun i =>
        (List.range chunkSize).map fun r => padded.getD (i * chunkSize + r) Token.pad) := by
  induction chunks generalizing S with
  | nil => rfl
  | cons i rest ih =>
    have hchunk := chunk_eq_recurrent hC (fun r => padded.getD (i * chunkSize + r) Token.pad) S
    rw [List.flatMap_cons, recurrentLoop_append, ← hchunk, ← ih]
    rfl

omit [ExpField K] in
/-- The chunks of a list, one after the other. -/
theorem flatMap_chunks {l : List (Token K dk dv)} (m : Nat) (d : Token K dk dv)
    (h : l.length = m * chunkSize) : ((List.range m).flatMap fun i =>
      (List.range chunkSize).map fun r => l.getD (i * chunkSize + r) d) = l := by
  have hall : ∀ m, ((List.range m).flatMap fun i =>
      (List.range chunkSize).map fun r => l.getD (i * chunkSize + r) d) =
      (List.range (m * chunkSize)).map fun t => l.getD t d := by
    intro m
    induction m with
    | zero => rw [Nat.zero_mul]; rfl
    | succ m ih =>
      rw [List.range_succ, List.flatMap_append, ih, Nat.succ_mul, List.range_add, List.map_append,
        List.flatMap_singleton, List.map_map]
      rfl
  rw [hall, ← h]
  refine List.ext_getElem? fun t => ?_
  rw [List.getElem?_map]
  by_cases ht : t < l.length
  · rw [List.getElem?_range ht, List.getElem?_eq_getElem ht, Option.map_some,
      List.getD_eq_getElem _ _ ht]
  · rw [List.getElem?_eq_none (by simpa using ht), List.getElem?_eq_none (Nat.le_of_not_lt ht)]
    rfl

theorem length_recurrentLoop (S : State K dk dv) (tokens : List (Token K dk dv)) :
    (recurrentLoop S tokens).1.length = tokens.length := by
  induction tokens generalizing S with
  | nil => rfl
  | cons t rest ih => exact congrArg (· + 1) (ih (recurrentStep S t).1)

/-- A padded token changes nothing. -/
theorem recurrentLoop_pad (S : State K dk dv) (n : Nat) :
    (recurrentLoop S (List.replicate n Token.pad)).2 = S := by
  induction n generalizing S with
  | zero => rfl
  | succ n ih =>
    have hstep : (recurrentStep S Token.pad).1 = S := by
      funext a b
      show S a b * exp 0 + 0 * _ = S a b
      rw [exp_zero, mul_one, zero_mul, add_zero]
    show (recurrentLoop (recurrentStep S Token.pad).1 (List.replicate n Token.pad)).2 = S
    rw [hstep, ih]

theorem pad_dvd (n : Nat) (hC : 0 < chunkSize) :
    chunkSize ∣ n + (chunkSize - n % chunkSize) % chunkSize := by
  have hlt := Nat.mod_lt n hC
  have hdiv := Nat.div_add_mod n chunkSize
  rcases Nat.eq_zero_or_pos (n % chunkSize) with h0 | hpos
  · rw [h0, Nat.sub_zero, Nat.mod_self, Nat.add_zero]
    exact Nat.dvd_of_mod_eq_zero h0
  · rw [Nat.mod_eq_of_lt (by omega)]
    refine ⟨n / chunkSize + 1, ?_⟩
    rw [Nat.mul_succ]
    omega

/-- The chunked rule is the recurrence. -/
theorem torchChunk_eq_recurrent (c : Norm K dk) (hC : 0 < chunkSize)
    (tokens : List (Token K dk dv)) (initial : Option (State K dk dv)) (outputFinalState : Bool) :
    torchChunkGatedDeltaRule c chunkSize tokens initial outputFinalState =
      torchRecurrentGatedDeltaRule c tokens initial outputFinalState := by
  obtain ⟨m, hm⟩ := pad_dvd tokens.length hC
  have hpad : c.scaleQuery (Token.pad : Token K dk dv) = Token.pad := by
    unfold Norm.scaleQuery Token.pad
    congr 1
    funext a
    exact zero_mul _
  unfold torchChunkGatedDeltaRule torchRecurrentGatedDeltaRule
  dsimp only
  rw [hm, Nat.mul_div_cancel_left _ hC, chunkLoop_eq hC, flatMap_chunks m]
  · rw [List.map_append, List.map_replicate, hpad, List.map_map, recurrentLoop_append,
      recurrentLoop_pad]
    have hlen := length_recurrentLoop (initialState initial)
      (tokens.map (c.scaleQuery ∘ c.normalize))
    rw [List.length_map] at hlen
    dsimp only
    rw [List.take_left' hlen]
    rfl
  · rw [List.length_map, List.length_append, List.length_map, List.length_replicate, hm, Nat.mul_comm]

/-! ## Segments -/

theorem torchRecurrent_append (c : Norm K dk) (l₁ l₂ : List (Token K dk dv))
    (initial : Option (State K dk dv)) :
    torchRecurrentGatedDeltaRule c (l₁ ++ l₂) initial true =
      ((torchRecurrentGatedDeltaRule c l₁ initial true).1 ++
        (torchRecurrentGatedDeltaRule c l₂ (torchRecurrentGatedDeltaRule c l₁ initial true).2 true).1,
      (torchRecurrentGatedDeltaRule c l₂ (torchRecurrentGatedDeltaRule c l₁ initial true).2 true).2) := by
  unfold torchRecurrentGatedDeltaRule
  dsimp only
  rw [List.map_append, recurrentLoop_append]
  rfl

theorem drop_split {α : Type} (l : List α) {s e : Nat} (h : s ≤ e) :
    l.drop s = (l.take e).drop s ++ l.drop e := by
  by_cases he : e ≤ l.length
  · conv_lhs => rw [← List.take_append_drop e l]
    exact List.drop_append_of_le_length (by rw [List.length_take]; omega)
  · have hle : l.length ≤ e := Nat.le_of_not_le he
    rw [List.take_of_length_le hle, List.drop_eq_nil_of_le hle, List.append_nil]

/-- The segments from `scStart` on. -/
theorem segmentLoop_eq (c : Norm K dk) (hC : 0 < chunkSize) {tokens : List (Token K dk dv)}
    {scStart : Nat} {ends : List Nat} (hcut : (scStart :: ends).Pairwise (· < ·))
    (hlast : ends.getLast? = some tokens.length) (curState : Option (State K dk dv)) :
    segmentLoop c chunkSize tokens scStart ends curState =
      ((torchRecurrentGatedDeltaRule c (tokens.drop scStart) curState true).1,
        (torchRecurrentGatedDeltaRule c (tokens.drop scStart) curState true).2,
        ends.map fun e => (e, (torchRecurrentGatedDeltaRule c ((tokens.take e).drop scStart)
          curState true).2)) := by
  induction ends generalizing scStart curState with
  | nil => cases hlast
  | cons scEnd rest ih =>
    obtain ⟨hstart, hcut⟩ := List.pairwise_cons.mp hcut
    have hle : scStart ≤ scEnd := (hstart scEnd List.mem_cons_self).le
    rw [segmentLoop, torchChunk_eq_recurrent c hC]
    cases rest with
    | nil =>
      obtain rfl : scEnd = tokens.length := Option.some.inj hlast
      rw [List.take_length]
      simp [segmentLoop]
    | cons e rest =>
      have hrest := ih hcut (List.getLast?_cons_cons.symm.trans hlast)
        (torchRecurrentGatedDeltaRule c ((tokens.take scEnd).drop scStart) curState true).2
      dsimp only
      rw [hrest, drop_split tokens hle, torchRecurrent_append]
      refine congrArg (_, _, ·) (congrArg (_ :: ·) (List.map_congr_left fun e' he => ?_))
      have hlt := List.rel_of_pairwise_cons hcut he
      rw [drop_split (tokens.take e') hle, List.take_take, Nat.min_eq_left hlt.le,
        torchRecurrent_append]

/-- The segments of a sequence give the outputs and the states of the recurrence. -/
theorem chunked_eq_recurrent (c : Norm K dk) {size : Nat} (hsize : 0 < size)
    (tokens : List (Token K dk dv)) {ends : List Nat} (hcut : (0 :: ends).Pairwise (· < ·))
    (hlast : ends.getLast? = some tokens.length) (initial : Option (State K dk dv)) :
    segmentLoop c size tokens 0 ends initial =
      ((torchRecurrentGatedDeltaRule c tokens initial true).1,
        (torchRecurrentGatedDeltaRule c tokens initial true).2,
        ends.map fun e => (e, (torchRecurrentGatedDeltaRule c (tokens.take e) initial true).2)) :=
  segmentLoop_eq c hsize hcut hlast initial

/-- A token of ones that does not decay the state. -/
noncomputable def ones : Token ℝ 1 1 := ⟨1, 1, 1, 0, 1⟩

/-- Two tokens, cut into two segments and padded to chunks of 64. -/
theorem chunked_eq_recurrent_two :
    segmentLoop ⟨id, 1, true⟩ 64 [ones, ones] 0 [1, 2] none =
      ((torchRecurrentGatedDeltaRule ⟨id, 1, true⟩ [ones, ones] none true).1,
        (torchRecurrentGatedDeltaRule ⟨id, 1, true⟩ [ones, ones] none true).2,
        [1, 2].map fun e =>
          (e, (torchRecurrentGatedDeltaRule ⟨id, 1, true⟩ ([ones, ones].take e) none true).2)) :=
  chunked_eq_recurrent _ (by decide) _ (by decide) rfl _

end Bi100.Gdn
