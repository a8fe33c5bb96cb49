import Bi100.Gdn.CoreX
import Mathlib.Analysis.SpecialFunctions.Log.Basic
import Mathlib.Analysis.SpecialFunctions.Sqrt

/-!
# Prefill and decode of `CoreXGDN`

- `chunkGatedDelta_eq`, `singleStepDecode_eq`: both functions of the delta rule make the same steps.
- `agrees_iff`: the convolutions of the branches differ. The prefill branch needs a key of one channel;
  the state it saves holds results of the convolution instead of keys, and the decode branch rolls a
  copy of it, so the branches agree for a kernel of one element only.
-/

namespace Bi100.Gdn.CoreX

open ExpField ExpOrderedField

variable {K : Type} [ExpOrderedField K] {s : Sizes}

/-! ## The heads -/

theorem one_lt_ratio_iff (h : s.numKHeads ∣ s.numVHeads) :
    1 < s.headExpandRatio ↔ s.numKHeads ≠ s.numVHeads := by
  have hk := s.numKHeads_pos
  have hv := s.numVHeads_pos
  obtain ⟨r, hr⟩ := h
  have hratio : s.headExpandRatio = r := by
    unfold Sizes.headExpandRatio
    rw [hr, Nat.mul_div_cancel_left _ hk]
  rw [hratio]
  constructor
  · intro hlt heq
    have hmul := Nat.mul_lt_mul_of_pos_left hlt hk
    omega
  · intro hne
    rcases r with _ | _ | r
    · omega
    · omega
    · omega

theorem expandedHeads_eq_iff : s.expandedHeads = s.numVHeads ↔ s.numKHeads ∣ s.numVHeads := by
  constructor
  · intro h
    unfold Sizes.expandedHeads at h
    split at h
    · exact ⟨_, h.symm⟩
    · exact ⟨1, by omega⟩
  · intro h
    unfold Sizes.expandedHeads
    split
    · exact Nat.mul_div_cancel' h
    · next hratio => exact not_not.mp (mt (one_lt_ratio_iff h).mpr hratio)

/-- `k` of a token, for the value heads. -/
def expandKeys (x : Keys K s) : Fin s.numVHeads → Fin s.headKDim → K :=
  if 1 < s.headExpandRatio then repeatInterleave x else fun h => x h

/-! ## The delta rule -/

/-- The steps of a list of tokens. -/
def deltaLoop : State K s → List (Token K s) → List (Row K s) × State K s
  | state, [] => ([], state)
  | state, t :: rest =>
    let next := chunkStep state t (expandKeys t.k)
    ((next.2 :: (deltaLoop next.1 rest).1), (deltaLoop next.1 rest).2)

theorem deltaLoop_append (state : State K s) (l₁ l₂ : List (Token K s)) :
    deltaLoop state (l₁ ++ l₂) = ((deltaLoop state l₁).1 ++ (deltaLoop (deltaLoop state l₁).2 l₂).1,
      (deltaLoop (deltaLoop state l₁).2 l₂).2) := by
  induction l₁ generalizing state with
  | nil => rfl
  | cons t l₁ ih =>
    simp only [List.cons_append, deltaLoop, ih]

theorem length_deltaLoop (state : State K s) (tokens : List (Token K s)) :
    (deltaLoop state tokens).1.length = tokens.length := by
  induction tokens generalizing state with
  | nil => rfl
  | cons t tokens ih => exact congrArg (· + 1) (ih _)

theorem foldl_chunkStep (tokens : List (Token K s)) (outputs : List (Row K s)) (state : State K s) :
    (tokens.zip (tokens.map fun t => expandKeys t.k)).foldl (fun (outputs, state) (t, kt) =>
        let (state, out) := chunkStep state t kt
        (outputs ++ [out], state)) (outputs, state) =
      (outputs ++ (deltaLoop state tokens).1, (deltaLoop state tokens).2) := by
  induction tokens generalizing outputs state with
  | nil => rw [deltaLoop, List.append_nil]; rfl
  | cons t tokens ih =>
    rw [List.map_cons, List.zip_cons_cons, List.foldl_cons]
    refine (ih _ _).trans ?_
    rw [List.append_assoc]
    rfl

/-- The loops over the chunks make the steps of all tokens. -/
theorem chunkGatedDelta_eq (h : s.numKHeads ∣ s.numVHeads) (tokens : List (Token K s))
    (initial : Option (State K s)) :
    chunkGatedDelta tokens initial = some (deltaLoop (initialState initial) tokens) := by
  have hlen : (tokens.zip (tokens.map fun t => expandKeys t.k)).length = tokens.length := by
    rw [List.length_zip, List.length_map, Nat.min_self]
  have hflat := flatMap_tiles (tokens.zip (tokens.map fun t => expandKeys t.k))
    (show 0 < chunkSize by decide)
  rw [hlen] at hflat
  unfold chunkGatedDelta
  rw [if_pos (expandedHeads_eq_iff.mpr h)]
  refine congrArg some ?_
  have hfold := foldl_chunkStep tokens [] (initialState initial)
  rw [← hflat, List.foldl_flatMap] at hfold
  exact hfold

/-- A decode makes the step of its token. -/
theorem singleStepDecode_eq (h : s.numKHeads ∣ s.numVHeads) (t : Token K s)
    (temporalState : Option (State K s)) :
    singleStepDecode t temporalState =
      some ((chunkStep (initialState temporalState) t (expandKeys t.k)).2,
        (chunkStep (initialState temporalState) t (expandKeys t.k)).1) := by
  have hq : expandKeys t.q =
      if s.numKHeads = s.numVHeads then fun h : Fin s.numVHeads => t.q h
      else repeatInterleave t.q := by
    unfold expandKeys
    by_cases heq : s.numKHeads = s.numVHeads
    · rw [if_neg (mt (one_lt_ratio_iff h).mp (not_not.mpr heq)), if_pos heq]
    · rw [if_pos ((one_lt_ratio_iff h).mpr heq), if_neg heq]
  unfold singleStepDecode
  rw [if_pos (expandedHeads_eq_iff.mpr h)]
  dsimp only
  rw [← expandKeys, ← expandKeys, hq]
  rfl

/-! ## The branches of `forward` -/

section Branches

variable {layer : Layer K s} {sqrt softplus : K → K}

theorem initialState_some (state : State K s) : initialState (some state) = state := rfl

/-- The tokens of a prefill, for the results of the convolution. -/
def Layer.tokens (layer : Layer K s) (sqrt softplus : K → K) (xs : List (Nat → K))
    (k : List (Keys K s)) : List (Token K s) :=
  List.zipWith (layer.token sqrt softplus) (xs.map layer.project) k

theorem prefill_eq (sqrt softplus : K → K) (h : s.numKHeads ∣ s.numVHeads) {xs : List (Nat → K)} {k : List (Keys K s)}
    (hk : layer.prefillConv ((xs.map layer.project).map (·.k)) = some k)
    (convState : Option (ConvState K s)) (temporalState : Option (State K s)) :
    layer.prefill sqrt softplus xs convState temporalState = some
      { outputs := List.zipWith layer.finish (xs.map layer.project)
          (deltaLoop (initialState temporalState) (layer.tokens sqrt softplus xs k)).1
        temporalState := (deltaLoop (initialState temporalState) (layer.tokens sqrt softplus xs k)).2
        convState := convState.map fun convState => saveConvState convState k } := by
  unfold Layer.prefill
  dsimp only
  rw [hk, Option.bind_eq_bind, Option.bind_some, chunkGatedDelta_eq h]
  rfl

theorem decode_eq (h : s.numKHeads ∣ s.numVHeads) (hidden : Nat → K)
    (convState : Option (ConvState K s)) (temporalState : Option (State K s)) :
    layer.decode sqrt softplus hidden convState temporalState =
      let t := layer.token sqrt softplus (layer.project hidden)
        (layer.decodeConv convState (layer.project hidden).k)
      let next := chunkStep (initialState temporalState) t (expandKeys t.k)
      some { outputs := [layer.finish (layer.project hidden) next.2]
             temporalState := next.1
             convState := convState } := by
  unfold Layer.decode
  dsimp only
  rw [singleStepDecode_eq h]
  rfl

/-- The outputs from a token on. -/
theorem drop_outputs (state : State K s) (ps : List (Projected K s)) {l₁ l₂ : List (Token K s)}
    {L : Nat} (hlen : l₁.length = L) :
    (List.zipWith layer.finish ps (deltaLoop state (l₁ ++ l₂)).1).drop L =
      List.zipWith layer.finish (ps.drop L) (deltaLoop (deltaLoop state l₁).2 l₂).1 := by
  rw [List.drop_zipWith, deltaLoop_append, List.drop_left' ((length_deltaLoop _ _).trans hlen)]

/-- The output of the first decode. -/
theorem head_decodes (h : s.numKHeads ∣ s.numVHeads) {x : Nat → K} {rest outputs : List (Nat → K)}
    {convState : Option (ConvState K s)} {temporalState last : Option (State K s)}
    (hrun : layer.decodes sqrt softplus (x :: rest) convState temporalState =
      some (outputs, last)) :
    let t := layer.token sqrt softplus (layer.project x)
      (layer.decodeConv convState (layer.project x).k)
    outputs.head? = some (layer.finish (layer.project x)
      (chunkStep (initialState temporalState) t (expandKeys t.k)).2) := by
  unfold Layer.decodes at hrun
  rw [decode_eq h] at hrun
  obtain ⟨r, hr, hrun⟩ := Option.bind_eq_some_iff.mp hrun
  obtain ⟨⟨outs, st⟩, -, hrun⟩ := Option.bind_eq_some_iff.mp hrun
  obtain rfl := Option.some.inj hr
  obtain ⟨rfl, -⟩ := Prod.mk.inj (Option.some.inj hrun)
  rfl

/-- The outputs of the decoded tokens and the final state are those of one prefill over the
sequence, from zero states. -/
def Agrees (layer : Layer K s) (sqrt softplus : K → K) (L : Nat) (xs : List (Nat → K)) : Prop :=
  ∃ whole first, layer.prefill sqrt softplus xs (some 0) (some 0) = some whole ∧
    layer.prefill sqrt softplus (xs.take L) (some 0) (some 0) = some first ∧
    layer.decodes sqrt softplus (xs.drop L) first.convState (some first.temporalState) =
      some (whole.outputs.drop L, some whole.temporalState)

theorem prefill_none (h : s.headKDim ≠ 1) (xs : List (Nat → K))
    (convState : Option (ConvState K s)) (temporalState : Option (State K s)) :
    layer.prefill sqrt softplus xs convState temporalState = none := by
  unfold Layer.prefill Layer.prefillConv
  dsimp only
  rw [if_neg h]
  rfl

theorem prefill_none_of_heads (h : ¬ s.numKHeads ∣ s.numVHeads) (xs : List (Nat → K))
    (convState : Option (ConvState K s)) (temporalState : Option (State K s)) :
    layer.prefill sqrt softplus xs convState temporalState = none := by
  have hnone : ∀ (tokens : List (Token K s)) (initial : Option (State K s)),
      chunkGatedDelta tokens initial = none := by
    intro tokens initial
    unfold chunkGatedDelta
    exact if_neg (mt expandedHeads_eq_iff.mp h)
  unfold Layer.prefill
  simp only [hnone]
  cases layer.prefillConv ((xs.map layer.project).map (·.k)) with
  | none => rfl
  | some k => rfl

/-! ## A kernel of one element -/

/-- A key times the only weight of its head. -/
def Layer.scaled (layer : Layer K s) (k : Keys K s) : Keys K s := fun h d =>
  layer.conv1dWeight h 0 * k h d

theorem prefillConv_one (hkd : s.headKDim = 1) (hkernel : s.convKernelSize = 1)
    (ks : List (Keys K s)) : layer.prefillConv ks = some (ks.map layer.scaled) := by
  unfold Layer.prefillConv
  dsimp only
  rw [if_pos hkd, hkernel, Nat.sub_self, List.replicate_zero, List.nil_append]
  refine congrArg some (List.ext_getElem (by simp) fun t ht ht' => ?_)
  funext h d
  have hlt : t < ks.length := by simpa using ht'
  rw [List.getElem_map, List.getElem_map, List.getElem_range, Finset.sum_range_one, Nat.add_zero,
    List.getD_eq_getElem?_getD, List.getElem?_eq_getElem hlt]
  rfl

theorem decodeConv_one (hkernel : s.convKernelSize = 1) (convState : ConvState K s) (k : Keys K s) :
    layer.decodeConv (some convState) k = layer.scaled k := by
  funext h d
  have hlast : ∀ i : Fin s.convKernelSize, i = ⟨0, s.convKernelSize_pos⟩ :=
    fun i => Fin.ext (by omega)
  refine (Fintype.sum_eq_single ⟨0, s.convKernelSize_pos⟩
    fun i hi => absurd (hlast i) hi).trans ?_
  unfold rolled
  rw [dif_neg (by omega)]
  exact mul_comm _ _

/-- The decodes make the steps of the tokens of a prefill. -/
theorem decodes_one (h : s.numKHeads ∣ s.numVHeads) (hkernel : s.convKernelSize = 1)
    (xs : List (Nat → K)) (convState : ConvState K s) (state : State K s) :
    let tokens := layer.tokens sqrt softplus xs (((xs.map layer.project).map (·.k)).map layer.scaled)
    layer.decodes sqrt softplus xs (some convState) (some state) =
      some (List.zipWith layer.finish (xs.map layer.project) (deltaLoop state tokens).1,
        some (deltaLoop state tokens).2) := by
  induction xs generalizing state with
  | nil => rfl
  | cons x xs ih =>
    dsimp only at ih ⊢
    unfold Layer.decodes
    rw [decode_eq h, decodeConv_one hkernel]
    dsimp only
    rw [Option.bind_eq_bind, Option.bind_some, ih]
    rfl

theorem agrees_one (h : s.numKHeads ∣ s.numVHeads) (hkd : s.headKDim = 1)
    (hkernel : s.convKernelSize = 1) {L : Nat} {xs : List (Nat → K)} (hL : L ≤ xs.length) :
    Agrees layer sqrt softplus L xs := by
  refine ⟨_, _, prefill_eq _ _ h (prefillConv_one hkd hkernel _) _ _,
    prefill_eq _ _ h (prefillConv_one hkd hkernel _) _ _, ?_⟩
  refine (decodes_one h hkernel _ _ _).trans ?_
  have hsplit : layer.tokens sqrt softplus xs (((xs.map layer.project).map (·.k)).map layer.scaled) =
      layer.tokens sqrt softplus (xs.take L)
          ((((xs.take L).map layer.project).map (·.k)).map layer.scaled) ++
        layer.tokens sqrt softplus (xs.drop L)
          ((((xs.drop L).map layer.project).map (·.k)).map layer.scaled) := by
    unfold Layer.tokens
    rw [← List.zipWith_append (by simp)]
    simp only [← List.map_append, List.take_append_drop]
  rw [hsplit, drop_outputs _ _ (by simp [Layer.tokens, hL]), deltaLoop_append, List.map_drop]

/-! ## No decode -/

theorem prefillConv_some (layer : Layer K s) (hkd : s.headKDim = 1) (ks : List (Keys K s)) :
    ∃ k, layer.prefillConv ks = some k ∧ k.length = ks.length :=
  ⟨_, if_pos hkd, by simp⟩

theorem agrees_nil (h : s.numKHeads ∣ s.numVHeads) (hkd : s.headKDim = 1) (xs : List (Nat → K)) :
    Agrees layer sqrt softplus xs.length xs := by
  obtain ⟨k, hk, hlen⟩ := prefillConv_some layer hkd ((xs.map layer.project).map (·.k))
  have hwhole := prefill_eq sqrt softplus h hk (some 0) (some 0)
  refine ⟨_, _, hwhole, (congrArg (layer.prefill sqrt softplus · (some 0) (some 0))
    List.take_length).trans hwhole, ?_⟩
  rw [List.drop_length, List.drop_eq_nil_of_le]
  · rfl
  · simp

end Branches

/-! ## A kernel of more elements -/

section Shifted

variable {sqrt softplus : K → K}

/-- The first value head. -/
def firstV (s : Sizes) : Fin s.numVHeads := ⟨0, s.numVHeads_pos⟩

theorem repeatInterleave_first {α : Type} (x : Nat → α) : repeatInterleave x (firstV s) = x 0 :=
  congrArg x (Nat.zero_div _)

omit [ExpOrderedField K] in
theorem expandKeys_first (x : Keys K s) : expandKeys x (firstV s) = x 0 := by
  unfold expandKeys
  split
  · exact repeatInterleave_first x
  · rfl

theorem clamp_pos {lo hi x : K} (hhi : 0 < hi) (hx : 0 < x) : 0 < clamp lo hi x :=
  lt_min (hx.trans_le (le_max_left _ _)) hhi

theorem clamp_zero {lo hi : K} (hlo : lo ≤ 0) (hhi : 0 ≤ hi) : clamp lo hi 0 = 0 := by
  unfold clamp
  rw [max_eq_left hlo, min_eq_left hhi]

theorem sigmoid_pos (x : K) : 0 < sigmoid x :=
  div_pos one_pos (add_pos one_pos (exp_pos _))

theorem silu_zero : silu (0 : K) = 0 := zero_mul _

theorem silu_one_pos : 0 < silu (1 : K) := mul_pos one_pos (sigmoid_pos 1)

theorem normalize_zero (sqrt : K → K) {n : Nat} {x : Fin n → K} {d : Fin n} (h : x d = 0) :
    normalize sqrt x d = 0 := by
  unfold normalize
  rw [h, zero_div]

theorem normalize_pos (sqrt : K → K) {n : Nat} {x : Fin n → K} {d : Fin n} (h : 0 < x d) :
    0 < normalize sqrt x d :=
  div_pos h (lt_max_of_lt_right (by positivity))

/-- A key of zeros leaves a state of zeros. -/
theorem chunkStep_zero {state : State K s} {t : Token K s} (hk : t.k 0 = 0)
    (hstate : state (firstV s) = 0) :
    (chunkStep state t (expandKeys t.k)).1 (firstV s) = 0 ∧
      (chunkStep state t (expandKeys t.k)).2 (firstV s) = 0 := by
  have hnext : (chunkStep state t (expandKeys t.k)).1 (firstV s) = 0 := by
    funext d e
    unfold chunkStep
    simp only [expandKeys_first, hk, hstate, Pi.zero_apply, zero_mul, mul_zero, add_zero]
    exact clamp_zero (by norm_num) (by norm_num)
  refine ⟨hnext, ?_⟩
  funext e
  refine Eq.trans ?_ (clamp_zero (show (-10 ^ 4 : K) ≤ 0 by norm_num)
    (show (0 : K) ≤ 10 ^ 4 by norm_num))
  refine congrArg (clamp _ _) (Finset.sum_eq_zero fun d _ => ?_)
  exact mul_eq_zero_of_right _ (congrFun (congrFun hnext d) e)

theorem deltaLoop_zero {state : State K s} {tokens : List (Token K s)}
    (hk : ∀ t ∈ tokens, t.k 0 = 0) (hstate : state (firstV s) = 0) :
    (deltaLoop state tokens).2 (firstV s) = 0 := by
  induction tokens generalizing state with
  | nil => exact hstate
  | cons t tokens ih =>
    exact ih (fun t' ht' => hk t' (List.mem_cons_of_mem t ht'))
      (chunkStep_zero (hk t List.mem_cons_self) hstate).1

/-- A positive key and value write to a state of zeros what a positive query reads. -/
theorem chunkStep_pos {state : State K s} {t : Token K s} (hk : ∀ d, 0 < t.k 0 d)
    (hq : ∀ d, 0 < t.q 0 d) (hv : ∀ e, 0 < t.v (firstV s) e) (hbeta : 0 < t.beta 0)
    (hstate : state (firstV s) = 0) (e : Fin s.headVDim) :
    0 < (chunkStep state t (expandKeys t.k)).2 (firstV s) e := by
  have hbt : (if s.numKHeads ≠ s.numVHeads then repeatInterleave t.beta
      else fun h : Fin s.numVHeads => t.beta h) (firstV s) = t.beta 0 := by
    split
    · exact repeatInterleave_first t.beta
    · rfl
  have hqt : (if s.numKHeads = s.numVHeads then fun h : Fin s.numVHeads => t.q h
      else repeatInterleave t.q) (firstV s) = t.q 0 := by
    split
    · rfl
    · exact repeatInterleave_first t.q
  have hnext : ∀ d, 0 < (chunkStep state t (expandKeys t.k)).1 (firstV s) d e := by
    intro d
    refine clamp_pos (by norm_num) ?_
    simp only [hstate, hbt, expandKeys_first, Pi.zero_apply, mul_zero, zero_add]
    exact mul_pos hbeta (mul_pos (hk d) (hv e))
  refine clamp_pos (by norm_num) (Finset.sum_pos (fun d _ => ?_) ⟨⟨0, s.headKDim_pos⟩,
    Finset.mem_univ _⟩)
  refine mul_pos ?_ (hnext d)
  rw [hqt]
  exact hq d

/-- The convolution moves the keys by one token, and every other number is 1 or 0. -/
def shiftLayer (K : Type) [ExpOrderedField K] (s : Sizes) : Layer K s where
  inProjQkv x i := if s.numKHeads * s.headKDim ≤ i ∧ i < s.numKHeads * s.headKDim * 2 then x 1 else x 0
  inProjZ x _ := x 0
  inProjB _ _ := 0
  inProjA _ _ := 0
  conv1dWeight _ j := if j + 2 = s.convKernelSize then 1 else 0
  aLog _ := 0
  dtBias _ := 0
  norm row := row
  outProj row _ := row (firstV s) ⟨0, s.headVDim_pos⟩

/-- The last token of the prefill is the only one with a key. -/
def pulse (L t : Nat) : Nat → K := fun i => if i = 0 ∨ t + 1 = L then 1 else 0

theorem pulse_zero (L t : Nat) : pulse (K := K) L t 0 = 1 := if_pos (.inl rfl)

theorem project_pulse (L t : Nat) :
    ((shiftLayer K s).project (pulse L t)).q 0 = (fun _ => 1) ∧
    ((shiftLayer K s).project (pulse L t)).k 0 = (fun _ => if t + 1 = L then 1 else 0) ∧
    ((shiftLayer K s).project (pulse L t)).v = (fun _ _ => 1) ∧
    ((shiftLayer K s).project (pulse L t)).z = fun _ _ => 1 := by
  have hkd : s.headKDim ≤ s.numKHeads * s.headKDim := Nat.le_mul_of_pos_left _ s.numKHeads_pos
  refine ⟨?_, ?_, ?_, ?_⟩
  · funext d
    have hd : ¬ (s.numKHeads * s.headKDim ≤ 0 * s.headKDim + d ∧
        0 * s.headKDim + d < s.numKHeads * s.headKDim * 2) := by omega
    exact (if_neg hd).trans (pulse_zero L t)
  · funext d
    have hd : s.numKHeads * s.headKDim ≤ s.numKHeads * s.headKDim + (0 * s.headKDim + d) ∧
        s.numKHeads * s.headKDim + (0 * s.headKDim + d) < s.numKHeads * s.headKDim * 2 := by omega
    refine (if_pos hd).trans ?_
    simp [pulse]
  · funext h e
    have hd : ¬ (s.numKHeads * s.headKDim ≤ s.numKHeads * s.headKDim * 2 + (h * s.headVDim + e) ∧
        s.numKHeads * s.headKDim * 2 + (h * s.headVDim + e) < s.numKHeads * s.headKDim * 2) := by
      omega
    exact (if_neg hd).trans (pulse_zero L t)
  · funext h e
    exact pulse_zero L t

/-- The key of the token before. -/
def shifted (K : Type) [ExpOrderedField K] (s : Sizes) (L t : Nat) : Keys K s :=
  if t = 0 then 0 else ((shiftLayer K s).project (pulse L (t - 1))).k

theorem shifted_zero {L t : Nat} (h : t ≠ L) : shifted K s L t 0 = 0 := by
  unfold shifted
  split
  · rfl
  · funext d
    rw [(project_pulse L (t - 1)).2.1]
    exact if_neg (by omega)

theorem shifted_self {L : Nat} (h : 1 ≤ L) : shifted K s L L 0 = fun _ => 1 := by
  unfold shifted
  rw [if_neg (by omega), (project_pulse L (L - 1)).2.1]
  funext d
  exact if_pos (by omega)

theorem prefillConv_shift (hkd : s.headKDim = 1) (hkernel : 2 ≤ s.convKernelSize) (L n : Nat) :
    (shiftLayer K s).prefillConv
      ((((List.range n).map (pulse L)).map (shiftLayer K s).project).map (·.k)) =
      some ((List.range n).map (shifted K s L)) := by
  unfold Layer.prefillConv
  dsimp only
  rw [if_pos hkd, List.length_map, List.length_map, List.length_map, List.length_range]
  refine congrArg some (List.map_congr_left fun t ht => ?_)
  have hlt := List.mem_range.mp ht
  funext h d
  rw [Finset.sum_eq_single (s.convKernelSize - 2)]
  · rw [show (shiftLayer K s).conv1dWeight h (s.convKernelSize - 2) = 1 from if_pos (by omega),
      one_mul, List.getD_eq_getElem?_getD, List.getElem?_append, List.length_replicate]
    unfold shifted
    rcases Nat.eq_zero_or_pos t with rfl | hpos
    · rw [if_pos (by omega), if_pos rfl, List.getElem?_replicate, if_pos (by omega)]
      rfl
    · have hidx : t + (s.convKernelSize - 2) - (s.convKernelSize - 1) = t - 1 := by omega
      rw [if_neg (by omega), if_neg (by omega), hidx]
      simp [show t - 1 < n by omega]
  · intro j hj hne
    have hj' := Finset.mem_range.mp hj
    rw [show (shiftLayer K s).conv1dWeight h j = 0 from if_neg (by omega), zero_mul]
  · intro hnot
    exact absurd (Finset.mem_range.mpr (by omega)) hnot

/-- The token of the whole prefill. -/
def shiftToken (s : Sizes) (sqrt softplus : K → K) (L t : Nat) : Token K s :=
  (shiftLayer K s).token sqrt softplus ((shiftLayer K s).project (pulse L t)) (shifted K s L t)

theorem tokens_shift (L n : Nat) : (shiftLayer K s).tokens sqrt softplus
    ((List.range n).map (pulse L)) ((List.range n).map (shifted K s L)) =
      (List.range n).map (shiftToken s sqrt softplus L) := by
  unfold Layer.tokens
  rw [List.map_map, List.zipWith_map, List.zipWith_self]
  rfl

theorem token_zero (sqrt softplus : K → K) {p : Projected K s} {k : Keys K s} (h : k 0 = 0) :
    ((shiftLayer K s).token sqrt softplus p k).k 0 = 0 := by
  funext d
  refine (normalize_zero sqrt ?_ : normalize sqrt (fun d => silu (k 0 d)) d = 0)
  rw [h]
  exact silu_zero

theorem finish_shift (L t : Nat) (output : Row K s) :
    (shiftLayer K s).finish ((shiftLayer K s).project (pulse L t)) output 0 =
      output (firstV s) ⟨0, s.headVDim_pos⟩ * silu 1 := by
  unfold Layer.finish
  rw [(project_pulse L t).2.2.2]
  rfl

/-- The saved state holds the zeros of the convolution. -/
theorem saveConvState_shift (L : Nat) (i : Fin s.convKernelSize) :
    saveConvState 0 ((List.range L).map (shifted K s L)) i 0 = 0 := by
  unfold saveConvState
  rw [List.length_map, List.length_range]
  split
  · have hlt : L - s.convKernelSize + i < L := by omega
    simp only [List.getD_eq_getElem?_getD, List.getElem?_map, List.getElem?_range hlt]
    exact shifted_zero (by omega)
  · rfl

/-- The first decode after the prefill finds no key. -/
theorem decodeConv_shift (L : Nat) :
    (shiftLayer K s).decodeConv (some (saveConvState 0 ((List.range L).map (shifted K s L))))
      ((shiftLayer K s).project (pulse L L)).k 0 = 0 := by
  funext d
  refine Finset.sum_eq_zero fun i _ => mul_eq_zero_of_left ?_ _
  unfold rolled
  split
  · exact congrFun (saveConvState_shift L _) d
  · rw [(project_pulse L L).2.1]
    exact if_neg (by omega)

theorem not_agrees_shift (h : s.numKHeads ∣ s.numVHeads) (hkd : s.headKDim = 1)
    (hkernel : 2 ≤ s.convKernelSize) {L : Nat} (hL : 1 ≤ L) (D : Nat) :
    ¬ Agrees (shiftLayer K s) sqrt softplus L ((List.range (L + (D + 1))).map (pulse L)) := by
  have hwhole := prefill_eq sqrt softplus h
    (prefillConv_shift (K := K) hkd hkernel L (L + (D + 1))) (some 0) (some 0)
  have hfirst := prefill_eq sqrt softplus h
    (prefillConv_shift (K := K) hkd hkernel L L) (some 0) (some 0)
  rw [tokens_shift] at hwhole hfirst
  have htake : ((List.range (L + (D + 1))).map (pulse L)).take L =
      (List.range L).map (pulse (K := K) L) := by
    rw [← List.map_take, List.take_range, Nat.min_eq_left (Nat.le_add_right _ _)]
  have hrange : List.range (L + (D + 1)) =
      List.range L ++ L :: (List.range' (L + 1) D) := by
    rw [List.range_eq_range', List.range_eq_range', ← List.range'_append_1, Nat.zero_add,
      List.range'_succ]
  have hdrop : ((List.range (L + (D + 1))).map (pulse L)).drop L =
      pulse (K := K) L L :: (List.range' (L + 1) D).map (pulse L) := by
    rw [hrange, List.map_append, List.drop_left' (by simp), List.map_cons]
  rintro ⟨whole, first, hw, hf, hdecodes⟩
  obtain rfl := Option.some.inj (hw.symm.trans hwhole)
  rw [htake] at hf
  obtain rfl := Option.some.inj (hf.symm.trans hfirst)
  dsimp only at hdecodes
  rw [hdrop, hrange, List.map_append (f := shiftToken s sqrt softplus L),
    drop_outputs _ _ (by simp)] at hdecodes
  have hstate : (deltaLoop (initialState (some 0))
      ((List.range L).map (shiftToken s sqrt softplus L))).2 (firstV s) = 0 := by
    refine deltaLoop_zero (fun t ht => ?_) rfl
    obtain ⟨i, hi, rfl⟩ := List.mem_map.mp ht
    have hlt := List.mem_range.mp hi
    exact token_zero _ _ (shifted_zero (by omega))
  have hhead := head_decodes h hdecodes
  rw [List.map_append, List.map_append, List.drop_left' (by simp)] at hhead
  generalize (deltaLoop (initialState (some 0))
    ((List.range L).map (shiftToken s sqrt softplus L))).2 = state at hstate hhead
  have hvalue := congrFun (Option.some.inj hhead) 0
  rw [finish_shift, finish_shift] at hvalue
  have hpos : 0 < (chunkStep state (shiftToken s sqrt softplus L L)
      (expandKeys (shiftToken s sqrt softplus L L).k)).2 (firstV s) ⟨0, s.headVDim_pos⟩ := by
    obtain ⟨hq, -, hv, -⟩ := project_pulse (K := K) (s := s) L L
    refine chunkStep_pos (fun d => ?_) (fun d => ?_) (fun e => ?_) (sigmoid_pos _) hstate _
    · show 0 < normalize sqrt (fun d => silu (shifted K s L L 0 d)) d
      rw [shifted_self hL]
      exact normalize_pos sqrt silu_one_pos
    · show 0 < normalize sqrt (((shiftLayer K s).project (pulse L L)).q 0) d
      rw [hq]
      exact normalize_pos sqrt one_pos
    · show 0 < ((shiftLayer K s).project (pulse L L)).v (firstV s) e
      rw [hv]
      exact one_pos
  have hzero := (chunkStep_zero (token_zero sqrt softplus
    (p := (shiftLayer K s).project (pulse L L)) (decodeConv_shift L)) hstate).2
  refine (mul_pos hpos silu_one_pos).ne' (hvalue.trans ?_)
  exact mul_eq_zero_of_left (congrFun hzero _) _

end Shifted

/-- Prefill and decode agree for every layer and every sequence if and only if the value heads are
a multiple of the key heads, a key has one channel, and the kernel one element or nothing is
decoded. -/
theorem agrees_iff (sqrt softplus : K → K) (s : Sizes) {L : Nat} (hL : 1 ≤ L) (D : Nat) :
    (∀ (layer : Layer K s) (xs : List (Nat → K)), xs.length = L + D →
      Agrees layer sqrt softplus L xs) ↔
    s.numKHeads ∣ s.numVHeads ∧ s.headKDim = 1 ∧ (s.convKernelSize = 1 ∨ D = 0) := by
  constructor
  · intro h
    have hheads : s.numKHeads ∣ s.numVHeads := by
      by_contra hnot
      obtain ⟨whole, first, hw, -⟩ := h (shiftLayer K s) (List.replicate (L + D) 0) (by simp)
      rw [prefill_none_of_heads hnot] at hw
      cases hw
    have hkd : s.headKDim = 1 := by
      by_contra hnot
      obtain ⟨whole, first, hw, -⟩ := h (shiftLayer K s) (List.replicate (L + D) 0) (by simp)
      rw [prefill_none hnot] at hw
      cases hw
    refine ⟨hheads, hkd, ?_⟩
    by_contra hnot
    obtain ⟨hkernel, hD⟩ := not_or.mp hnot
    obtain ⟨D, rfl⟩ := Nat.exists_eq_succ_of_ne_zero hD
    have hpos := s.convKernelSize_pos
    exact not_agrees_shift hheads hkd (by omega) hL D (h _ _ (by simp))
  · rintro ⟨hheads, hkd, hkernel | rfl⟩ layer xs hlen
    · exact agrees_one hheads hkd hkernel (by omega)
    · obtain rfl : xs.length = L := hlen
      exact agrees_nil hheads hkd xs

/-- Four value heads and two key heads. -/
def fourHeads (kd kernel : Nat) (hkd : 0 < kd) (hkernel : 0 < kernel) : Sizes where
  numVHeads := 4
  numKHeads := 2
  headKDim := kd
  headVDim := 1
  convKernelSize := kernel
  numVHeads_pos := by decide
  numKHeads_pos := by decide
  headKDim_pos := hkd
  headVDim_pos := by decide
  convKernelSize_pos := hkernel

/-- `F.softplus` -/
noncomputable def softplus (x : ℝ) : ℝ := Real.log (1 + Real.exp x)

/-- The decodes after a prefill, for a kernel of one element. -/
theorem agrees_kernel_one :
    Agrees (shiftLayer ℝ (fourHeads 1 1 one_pos one_pos)) Real.sqrt softplus 3
      ((List.range 5).map (pulse 5)) :=
  (agrees_iff Real.sqrt softplus (fourHeads 1 1 one_pos one_pos) (by decide : 1 ≤ 3) 2).mpr
    ⟨⟨2, rfl⟩, rfl, .inl rfl⟩ _ _ rfl

/-- The default kernel: the first decode after a prefill of five tokens does not see the key of the
fifth. For heads of 128 channels the prefill raises. -/
theorem kernel_four_disagrees :
    ¬ Agrees (shiftLayer ℝ (fourHeads 1 4 one_pos four_pos)) Real.sqrt softplus 5
      ((List.range 6).map (pulse 5)) ∧
    ¬ Agrees (shiftLayer ℝ (fourHeads 128 4 (by decide) four_pos)) Real.sqrt softplus 5
      ((List.range 6).map (pulse 5)) := by
  constructor
  · exact not_agrees_shift ⟨2, rfl⟩ rfl (by decide : 2 ≤ 4) (by decide) 0
  · rintro ⟨whole, first, hw, -⟩
    rw [prefill_none (by decide : 128 ≠ 1)] at hw
    cases hw

end Bi100.Gdn.CoreX
