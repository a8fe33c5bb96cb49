import Bi100.Gdn.Decode
import Bi100.Gdn.PackedExact
import Mathlib.Analysis.Real.Sqrt
import Mathlib.Analysis.SpecialFunctions.Log.Basic

/-!
# The decode paths make one recurrent step

- `halves_spec`: a kernel that writes two halves, in any order of its threads.
- `decode_head`: every path of the decode branch makes the step `headState`, `headOut` of a head.
- `decode_eq_recurrent`: this is the step of `_torch_recurrent_gated_delta_rule`, and in the packed
  kernel every access to the state is in the thread's own column.
-/

namespace Bi100.Gdn.Decode

open ExpField

variable {K : Type} [ExpField K]

/-! ## The kernels -/

omit [ExpField K] in
/-- The threads of `order` have written their elements, and no others. -/
theorem halves_order {elements : Nat} (first second : Nat → K) {order : List Nat}
    (hnodup : order.Nodup) (output : Nat → K) {i : Nat} (hi : i < elements) :
    (halves elements first second order output i = if i ∈ order then first i else output i) ∧
    halves elements first second order output (elements + i) =
      if i ∈ order then second i else output (elements + i) := by
  induction order generalizing output with
  | nil => exact ⟨rfl, rfl⟩
  | cons index order ih =>
    obtain ⟨hindex, hnodup⟩ := List.nodup_cons.mp hnodup
    unfold halves at ih ⊢
    rw [List.foldl_cons]
    obtain ⟨hfirst, hsecond⟩ := ih hnodup (if elements ≤ index then output
      else Function.update (Function.update output index (first index)) (elements + index)
        (second index))
    rw [hfirst, hsecond]
    by_cases heq : i = index
    · subst heq
      have hne : i ≠ elements + i := by omega
      rw [if_neg hindex, if_neg hindex, if_neg (Nat.not_le_of_lt hi)]
      simp [Function.update_of_ne hne]
    · have hmem : i ∈ index :: order ↔ i ∈ order := List.mem_cons.trans (or_iff_right heq)
      have hstep : (if elements ≤ index then output
            else Function.update (Function.update output index (first index)) (elements + index)
              (second index)) i = output i ∧
          (if elements ≤ index then output
            else Function.update (Function.update output index (first index)) (elements + index)
              (second index)) (elements + i) = output (elements + i) := by
        split
        · exact ⟨rfl, rfl⟩
        · simp [heq, show i ≠ elements + index by omega,
            show elements + i ≠ index by omega]
      simp only [hmem, hstep, and_self]

omit [ExpField K] in
/-- **A launch with a thread for each element** writes every element of both halves. -/
theorem halves_spec {elements threads : Nat} (hthreads : 0 < threads) (first second : Nat → K)
    (grid : Grid K elements threads) {i : Nat} (hi : i < elements) :
    halves elements first second grid.order grid.uninit i = first i ∧
      halves elements first second grid.order grid.uninit (elements + i) = second i := by
  have hdiv := Nat.div_add_mod (elements + threads - 1) threads
  have hmod := Nat.mod_lt (elements + threads - 1) hthreads
  rw [Nat.mul_comm] at hdiv
  have hmem : i ∈ grid.order := grid.order_perm.mem_iff.mpr (List.mem_range.mpr (by omega))
  obtain ⟨hfirst, hsecond⟩ := halves_order first second
    (grid.order_perm.nodup_iff.mpr List.nodup_range) grid.uninit hi
  rw [hfirst, hsecond, if_pos hmem]
  exact ⟨rfl, if_pos hmem⟩

theorem qkMap_spec (o : Arith K) (query key : Nat → Nat → Nat → K) {batch keyHeads ratio : Nat}
    (hkeyHeads : 0 < keyHeads) (hratio : 0 < ratio)
    (grid : Grid K (batch * (keyHeads * ratio) * kHeadDim) 256) {seq head d : Nat}
    (hseq : seq < batch) (hhead : head < keyHeads * ratio) (hd : d < kHeadDim) :
    (qkMap o query key batch keyHeads (keyHeads * ratio) grid).1 seq head d =
      query seq (head / ratio) d * o.scale ∧
    (qkMap o query key batch keyHeads (keyHeads * ratio) grid).2 seq head d =
      key seq (head / ratio) d := by
  have hindex : (seq * (keyHeads * ratio) + head) * kHeadDim + d <
      batch * (keyHeads * ratio) * kHeadDim := row_offset_lt (row_offset_lt hseq hhead) hd
  have hkeyHead : head / ratio < keyHeads := (Nat.div_lt_iff_lt_mul hratio).mpr hhead
  have hratio' : keyHeads * ratio / keyHeads = ratio := Nat.mul_div_cancel_left _ hkeyHeads
  have hsource : qkSource keyHeads (keyHeads * ratio) (keyHeads * ratio / keyHeads)
      ((seq * (keyHeads * ratio) + head) * kHeadDim + d) =
        (seq * keyHeads + head / ratio) * kHeadDim + d := by
    unfold qkSource
    dsimp only
    rw [row_mod hd, row_div hd, row_mod hhead, row_div hhead, hratio']
  have hmemory : ∀ t : Nat → Nat → Nat → K, flatten kHeadDim (flatten keyHeads t)
      ((seq * keyHeads + head / ratio) * kHeadDim + d) = t seq (head / ratio) d := by
    intro t
    rw [flatten_apply _ _ hd, flatten_apply _ _ hkeyHead]
  constructor
  · refine (halves_spec (by decide) _ _ grid hindex).1.trans ?_
    rw [hsource]
    exact congrArg (· * o.scale) (hmemory query)
  · refine (halves_spec (by decide) _ _ grid hindex).2.trans ?_
    rw [hsource]
    exact hmemory key

theorem betaDecay_spec (o : Arith K) (betaInput decayInput : Nat → Nat → K) (aLog dtBias : Nat → K)
    {batch heads : Nat} (grid : Grid K (batch * heads) 128) {seq head : Nat} (hseq : seq < batch)
    (hhead : head < heads) :
    (betaDecay o betaInput decayInput aLog dtBias batch heads grid).1 seq head =
      sigmoid (betaInput seq head) ∧
    (betaDecay o betaInput decayInput aLog dtBias batch heads grid).2 seq head =
      exp (-exp (aLog head) * o.softplus (decayInput seq head + dtBias head)) := by
  have hindex : seq * heads + head < batch * heads := row_offset_lt hseq hhead
  constructor
  · refine (halves_spec (by decide) _ _ grid hindex).1.trans ?_
    rw [flatten_apply _ _ hhead]
    rfl
  · refine (halves_spec (by decide) _ _ grid hindex).2.trans ?_
    rw [flatten_apply _ _ hhead, row_mod hhead]

/-! ## A step of a head -/

/-- The state of a head after a step. -/
def headState (n : Nat) (kT vT : Nat → K) (beta decay : K) (state : Nat → Nat → K) :
    Nat → Nat → K := fun a b =>
  state a b * decay +
    kT a * ((vT b - ∑ i ∈ Finset.range n, kT i * (state i b * decay)) * beta)

/-- The output of a head after a step. -/
def headOut (n : Nat) (qT : Nat → K) (state : Nat → Nat → K) : Nat → K := fun b =>
  ∑ a ∈ Finset.range n, qT a * state a b

theorem decodeStep_spec (h : Heads) (qT kT vT : Nat → Nat → Nat → K) (bt gT : Nat → Nat → K)
    (temporalState : Nat → Nat → Nat → Nat → K) (seq : Nat) {head : Nat}
    (hhead : head < h.localNumV) :
    let r := decodeStep h qT kT vT bt gT temporalState
    let state := headState h.headKDim (kT seq head) (vT seq head) (bt seq head) (gT seq head)
      (temporalState seq head)
    r.temporalState seq head = state ∧ r.coreOut seq head = headOut h.headKDim (qT seq head) state := by
  have hstate : (decodeStep h qT kT vT bt gT temporalState).temporalState seq head =
      headState h.headKDim (kT seq head) (vT seq head) (bt seq head) (gT seq head)
        (temporalState seq head) := by
    funext a b
    unfold decodeStep unflatten headState
    simp only [flatten_apply _ _ hhead]
  refine ⟨hstate, ?_⟩
  rw [← hstate]
  funext b
  unfold decodeStep unflatten headOut
  simp only [flatten_apply _ _ hhead]

/-! ## The arguments of the step -/

variable {h : Heads} {numSeqs : Nat}

theorem coefficients_spec (o : Arith K) (flags : Flags) (launches : Launches K h numSeqs)
    (x : Input K) {seq head : Nat} (hseq : seq < numSeqs) (hhead : head < h.localNumV) :
    (coefficients o flags launches x).1 seq head = sigmoid (x.bAll seq head) ∧
    (coefficients o flags launches x).2 seq head =
      exp (-exp (x.aLog head) * o.softplus (x.aAll seq head + x.dtBias head)) := by
  unfold coefficients
  split
  · exact betaDecay_spec o x.bAll x.aAll x.aLog x.dtBias launches.betaDecay hseq hhead
  · exact ⟨rfl, rfl⟩

theorem normalizedQk_spec (o : Arith K) (flags : Flags) (x : Input K) (numSeqs seq head : Nat) :
    (normalizedQk o flags h numSeqs x).1 seq head = l2norm o h.headKDim (qRaw h x seq head) ∧
    (normalizedQk o flags h numSeqs x).2 seq head = l2norm o h.headKDim (kRaw h x seq head) := by
  unfold normalizedQk
  split
  · refine ⟨rfl, congrArg (l2norm o h.headKDim) (funext fun d => ?_)⟩
    refine congrArg (x.mixedQkvConv seq) ?_
    unfold Heads.localKeyDim
    rw [Nat.add_mul, Nat.add_assoc]
  · exact ⟨rfl, rfl⟩

theorem queryKey_spec (o : Arith K) (flags : Flags) (launches : Launches K h numSeqs) (x : Input K)
    {seq head : Nat} (hseq : seq < numSeqs) (hhead : head < h.localNumV) {d : Nat}
    (hd : d < h.headKDim) :
    (queryKey o flags launches x).1 seq head d =
      l2norm o h.headKDim (repeatInterleave h (qRaw h x) seq head) d * o.scale ∧
    (queryKey o flags launches x).2 seq head d =
      l2norm o h.headKDim (repeatInterleave h (kRaw h x) seq head) d := by
  unfold queryKey
  split
  · next hmap =>
    obtain ⟨hq, hk⟩ := qkMap_spec o (normalizedQk o flags h numSeqs x).1
      (normalizedQk o flags h numSeqs x).2 h.localNumK_pos h.headExpandRatio_pos launches.qkMap
      hseq hhead (hmap.2 ▸ hd)
    obtain ⟨hnormQ, hnormK⟩ := normalizedQk_spec (h := h) o flags x numSeqs seq
      (head / h.headExpandRatio)
    rw [hnormQ] at hq
    rw [hnormK] at hk
    exact ⟨hq, hk⟩
  · exact ⟨rfl, rfl⟩

theorem headState_congr {n : Nat} {kT kT' vT vT' : Nat → K} {beta decay : K}
    {state state' : Nat → Nat → K} {a b : Nat} (hk : ∀ d < n, kT d = kT' d) (hv : vT b = vT' b)
    (hstate : ∀ i < n, state i b = state' i b) (ha : a < n) :
    headState n kT vT beta decay state a b = headState n kT' vT' beta decay state' a b := by
  unfold headState
  rw [hk a ha, hv, hstate a ha, Finset.sum_congr rfl fun i hi => by
    rw [hk i (Finset.mem_range.mp hi), hstate i (Finset.mem_range.mp hi)]]

theorem headOut_congr {n : Nat} {qT qT' : Nat → K} {state state' : Nat → Nat → K} {b : Nat}
    (hq : ∀ d < n, qT d = qT' d) (hstate : ∀ a < n, state a b = state' a b) :
    headOut n qT state b = headOut n qT' state' b :=
  Finset.sum_congr rfl fun a ha => by
    rw [hq a (Finset.mem_range.mp ha), hstate a (Finset.mem_range.mp ha)]

theorem l2norm_congr (o : Arith K) {n : Nat} {x y : Nat → K} (h : ∀ i < n, x i = y i) {d : Nat}
    (hd : d < n) : l2norm o n x d = l2norm o n y d := by
  unfold l2norm
  rw [h d hd, Finset.sum_congr rfl fun i hi => by rw [h i (Finset.mem_range.mp hi)]]

/-- `q_t` of a head. -/
def headQuery (o : Arith K) (h : Heads) (x : Input K) (seq head : Nat) : Nat → K := fun d =>
  l2norm o h.headKDim (repeatInterleave h (qRaw h x) seq head) d * o.scale

/-- `k_t` of a head. -/
def headKey (o : Arith K) (h : Heads) (x : Input K) (seq head : Nat) : Nat → K :=
  l2norm o h.headKDim (repeatInterleave h (kRaw h x) seq head)

/-- The state of a head after the step of a decoded token. -/
def nextHeadState (o : Arith K) (h : Heads) (x : Input K) (seq head : Nat) : Nat → Nat → K :=
  headState h.headKDim (headKey o h x seq head) (vT h x seq head) (sigmoid (x.bAll seq head))
    (exp (-exp (x.aLog head) * o.softplus (x.aAll seq head + x.dtBias head)))
    (x.temporalState seq head)

/-! ## The packed kernel -/

section Packed

open PackedDecode (kMixedDim kValueHeads kKeyHeads queryOffset keyOffset valueOffset mixedOffset
  keyHead valueHead coefficientOffset stateIndex stateOffset vectorOffset)

omit [ExpField K] in
theorem mixed_eq (x : Input K) {c : Nat} (hc : c < 2048) :
    (packedArgs x).mixedQkv c = x.mixedQkvConv 0 c := flatten_first _ hc

omit [ExpField K] in
theorem packed_query (h : Heads) (hratio : h.headExpandRatio = 2) (hkd : h.headKDim = 128)
    (x : Input K) {head i : Nat} (hhead : head < 8) (hi : i < 128) :
    (packedArgs x).mixedQkv (queryOffset head + i) = repeatInterleave h (qRaw h x) 0 head i := by
  have hoffset : queryOffset head + i = head / 2 * 128 + i := by
    unfold queryOffset mixedOffset keyHead valueHead
    unfold kMixedDim kValueHeads kKeyHeads PackedDecode.kHeadDim
    omega
  rw [hoffset, mixed_eq x (by omega)]
  unfold repeatInterleave qRaw
  rw [hratio, hkd]

omit [ExpField K] in
theorem packed_key (h : Heads) (hnumK : h.localNumK = 4) (hratio : h.headExpandRatio = 2)
    (hkd : h.headKDim = 128) (x : Input K) {head i : Nat} (hhead : head < 8) (hi : i < 128) :
    (packedArgs x).mixedQkv (keyOffset head + i) = repeatInterleave h (kRaw h x) 0 head i := by
  have hoffset : keyOffset head + i = 4 * 128 + (head / 2 * 128 + i) := by
    unfold keyOffset mixedOffset keyHead valueHead
    unfold kMixedDim kValueHeads kKeyHeads PackedDecode.kHeadDim
    omega
  rw [hoffset, mixed_eq x (by omega)]
  unfold repeatInterleave kRaw Heads.localKeyDim
  rw [hratio, hkd, hnumK]

omit [ExpField K] in
theorem packed_value (h : Heads) (hnumK : h.localNumK = 4) (hkd : h.headKDim = 128)
    (hvd : h.headVDim = 128) (x : Input K) {head b : Nat} (hhead : head < 8) (hb : b < 128) :
    (packedArgs x).mixedQkv (valueOffset head + b) = vT h x 0 head b := by
  have hoffset : valueOffset head + b = 4 * 128 + 4 * 128 + (head * 128 + b) := by
    unfold valueOffset mixedOffset valueHead
    unfold kMixedDim kValueHeads kKeyHeads PackedDecode.kHeadDim
    omega
  rw [hoffset, mixed_eq x (by omega)]
  unfold vT Heads.localKeyDim
  rw [hkd, hnumK, hvd]

theorem packed_coefficients (o : Arith K) (x : Input K) {head : Nat} (hhead : head < 8) :
    PackedDecode.beta (packedArgs x) head = sigmoid (x.bAll 0 head) ∧
    PackedDecode.decay o (packedArgs x) head =
      exp (-exp (x.aLog head) * o.softplus (x.aAll 0 head + x.dtBias head)) := by
  have hvalue : valueHead head = head := Nat.mod_eq_of_lt hhead
  have hoffset : coefficientOffset head = head := by
    unfold coefficientOffset
    rw [hvalue]
    unfold kValueHeads
    omega
  have hflat : ∀ t : Nat → Nat → K, flatten kValueHeads t head = t 0 head :=
    fun t => flatten_first t hhead
  unfold PackedDecode.beta PackedDecode.decay packedArgs
  simp only [hoffset, hvalue, hflat, sigmoid, and_self]

/-- The kernel's block for a head. -/
theorem packed_block (o : Arith K) (h : Heads) (hnumK : h.localNumK = 4)
    (hratio : h.headExpandRatio = 2) (hkd : h.headKDim = 128) (launch : PackedDecode.Launch K)
    (x : Input K) {head i : Nat} (hhead : head < 8) (hi : i < 128) :
    let block := PackedDecode.blocks o (packedArgs x) launch.order head
    block.normalizedQuery i = headQuery o h x 0 head i ∧
      block.normalizedKey i = headKey o h x 0 head i := by
  obtain ⟨hq, hk⟩ := PackedDecode.normalized_eq o (packedArgs x) (launch.order_perm head) head i
  constructor
  · refine hq.trans ?_
    unfold headQuery l2norm
    rw [packed_query h hratio hkd x hhead hi, hkd]
    refine congrArg (fun s => _ * o.rsqrt (s + o.eps) * o.scale) (Finset.sum_congr rfl fun j hj => ?_)
    rw [packed_query h hratio hkd x hhead (Finset.mem_range.mp hj)]
  · refine hk.trans ?_
    unfold headKey l2norm
    rw [packed_key h hnumK hratio hkd x hhead hi, hkd]
    refine congrArg (fun s => _ * o.rsqrt (s + o.eps)) (Finset.sum_congr rfl fun j hj => ?_)
    rw [packed_key h hnumK hratio hkd x hhead (Finset.mem_range.mp hj)]

theorem stateIndex_eq (t : PackedDecode.Thread) (row : Nat) :
    stateIndex t row = ((0 * kValueHeads + t.1) * PackedDecode.kHeadDim + row) *
      PackedDecode.kHeadDim + t.2 := by
  unfold stateIndex stateOffset
  rw [Nat.zero_mul, Nat.zero_add, Nat.add_mul]

omit [ExpField K] in
theorem packed_column (x : Input K) (t : PackedDecode.Thread) {row : Nat}
    (hrow : row < PackedDecode.kHeadDim) :
    packedState x (stateIndex t row) = x.temporalState 0 t.1 row t.2 := by
  unfold packedState
  rw [stateIndex_eq, flatten_apply _ _ t.2.2, flatten_apply _ _ hrow, flatten_apply _ _ t.1.2]

theorem packed_head (o : Arith K) {flags : Flags} (hpacked : UsePackedDecode flags h numSeqs)
    (launch : PackedDecode.Launch K) (x : Input K) {head b : Nat} (hhead : head < h.localNumV)
    (hb : b < h.headVDim) :
    (∀ a < h.headKDim,
      (packedDecode o launch x).temporalState 0 head a b = nextHeadState o h x 0 head a b) ∧
    (packedDecode o launch x).coreOut 0 head b =
      headOut h.headKDim (headQuery o h x 0 head) (nextHeadState o h x 0 head) b := by
  obtain ⟨-, -, hnumK, hnumV, hkd, hvd⟩ := hpacked
  have hratio : h.headExpandRatio = 2 := by
    have hmul : kKeyHeads * h.headExpandRatio = kValueHeads := by
      rw [← hnumK]
      exact hnumV
    unfold kKeyHeads kValueHeads at hmul
    omega
  rw [hnumV] at hhead
  rw [hvd] at hb
  have hblock := fun i (hi : i < PackedDecode.kHeadDim) =>
    packed_block o h hnumK hratio hkd launch x hhead hi
  obtain ⟨hbeta, hdecay⟩ := packed_coefficients o x hhead
  generalize ht : ((⟨head, hhead⟩, ⟨b, hb⟩) : PackedDecode.Thread) = t
  have hhead' : (t.1 : Nat) = head := by rw [← ht]
  have hb' : (t.2 : Nat) = b := by rw [← ht]
  obtain ⟨hout, hstate⟩ := PackedDecode.packedDecode_spec o (packedArgs x) (packedState x) launch t
  have hmemory : PackedDecode.memoryOf (PackedDecode.blocks o (packedArgs x) launch.order) t
      (fun row => packedState x (stateIndex t row)) PackedDecode.kHeadDim =
        ∑ i ∈ Finset.range h.headKDim, headKey o h x 0 head i * (x.temporalState 0 head i b *
          exp (-exp (x.aLog head) * o.softplus (x.aAll 0 head + x.dtBias head))) := by
    rw [hkd]
    refine Finset.sum_congr rfl fun i hi => ?_
    have hi' := Finset.mem_range.mp hi
    dsimp only
    rw [packed_column x t hi', hhead', hb', (hblock i hi').2, ← hdecay]
    rfl
  have hupdated : ∀ row < PackedDecode.kHeadDim, PackedDecode.updatedOf (packedArgs x)
      (PackedDecode.blocks o (packedArgs x) launch.order) t
      (fun row => packedState x (stateIndex t row)) row = nextHeadState o h x 0 head row b := by
    intro row hrow
    unfold PackedDecode.updatedOf PackedDecode.deltaOf nextHeadState headState
    dsimp only
    rw [hmemory, packed_column x t hrow, hhead', hb', (hblock row hrow).2,
      packed_value h hnumK hkd hvd x hhead hb, ← hbeta, ← hdecay]
    rfl
  constructor
  · intro a ha
    rw [hkd] at ha
    rw [← hupdated a ha, ← hstate a ha, stateIndex_eq, hhead', hb']
    rfl
  · refine Eq.trans ?_ (hout.trans ?_)
    · unfold vectorOffset
      rw [hhead', hb']
      show (PackedDecode.packedDecode o (packedArgs x) (packedState x) launch).1
        ((0 * kValueHeads + head) * PackedDecode.kHeadDim + b) = _
      rw [Nat.zero_mul, Nat.zero_add]
    · unfold PackedDecode.resultOf headOut
      rw [hkd]
      refine Finset.sum_congr rfl fun i hi => ?_
      have hi' := Finset.mem_range.mp hi
      rw [hupdated i hi', hhead', (hblock i hi').1]

end Packed

/-! ## All paths -/

/-- **Every path makes the step of the head.** -/
theorem decode_head (o : Arith K) (flags : Flags) (launches : Launches K h numSeqs) (x : Input K)
    {seq head b : Nat} (hseq : seq < numSeqs) (hhead : head < h.localNumV) (hb : b < h.headVDim) :
    (∀ a < h.headKDim, (decode o flags launches x).temporalState seq head a b =
      nextHeadState o h x seq head a b) ∧
    (decode o flags launches x).coreOut seq head b =
      headOut h.headKDim (headQuery o h x seq head) (nextHeadState o h x seq head) b := by
  unfold decode
  split
  · next hpacked =>
    obtain rfl : seq = 0 := by
      have hone := hpacked.2.1
      omega
    exact packed_head o hpacked launches.packed x hhead hb
  · obtain ⟨hbt, hgT⟩ := coefficients_spec o flags launches x hseq hhead
    have hqk := fun d (hd : d < h.headKDim) => queryKey_spec o flags launches x hseq hhead hd
    obtain ⟨hstate, hout⟩ := decodeStep_spec h (queryKey o flags launches x).1
      (queryKey o flags launches x).2 (vT h x) (coefficients o flags launches x).1
      (coefficients o flags launches x).2 x.temporalState seq hhead
    have hnext : ∀ a < h.headKDim, headState h.headKDim ((queryKey o flags launches x).2 seq head)
        (vT h x seq head) ((coefficients o flags launches x).1 seq head)
        ((coefficients o flags launches x).2 seq head) (x.temporalState seq head) a b =
          nextHeadState o h x seq head a b := by
      intro a ha
      rw [hbt, hgT]
      exact headState_congr (fun d hd => (hqk d hd).2) rfl (fun _ _ => rfl) ha
    refine ⟨fun a ha => (congrFun (congrFun hstate a) b).trans (hnext a ha), ?_⟩
    exact (congrFun hout b).trans (headOut_congr (fun d hd => (hqk d hd).1) hnext)

/-! ## The recurrent rule -/

/-- The token of a sequence for a value head, with the expanded query and key. -/
def token (o : Arith K) (h : Heads) (x : Input K) (seq head : Nat) :
    Token K h.headKDim h.headVDim where
  query := fun a => repeatInterleave h (qRaw h x) seq head a
  key := fun a => repeatInterleave h (kRaw h x) seq head a
  value := fun b => vT h x seq head b
  g := -exp (x.aLog head) * o.softplus (x.aAll seq head + x.dtBias head)
  beta := sigmoid (x.bAll seq head)

theorem kernelNorm_l2norm (o : Arith K) (n : Nat) (x : Nat → K) (a : Fin n) :
    (kernelNorm o n).l2norm (fun a => x a) a = l2norm o n x a := by
  unfold kernelNorm l2norm
  dsimp only
  rw [Fin.sum_univ_eq_sum_range (fun i => x i * x i)]

/-- One step of the recurrent rule. -/
theorem recurrent_head (o : Arith K) (h : Heads) (x : Input K) (seq head : Nat) :
    torchRecurrentGatedDeltaRule (kernelNorm o h.headKDim) [token o h x seq head]
        (some fun a b => x.temporalState seq head a b) true =
      ([fun b : Fin h.headVDim =>
          headOut h.headKDim (headQuery o h x seq head) (nextHeadState o h x seq head) b],
        some fun (a : Fin h.headKDim) (b : Fin h.headVDim) => nextHeadState o h x seq head a b) := by
  let t := (kernelNorm o h.headKDim).scaleQuery
    ((kernelNorm o h.headKDim).normalize (token o h x seq head))
  have hkey : ∀ a : Fin h.headKDim, t.key a = headKey o h x seq head a :=
    kernelNorm_l2norm o h.headKDim (repeatInterleave h (kRaw h x) seq head)
  have hquery : ∀ a : Fin h.headKDim, t.query a = headQuery o h x seq head a :=
    fun a => congrArg (· * o.scale)
      (kernelNorm_l2norm o h.headKDim (repeatInterleave h (qRaw h x) seq head) a)
  let decay := exp (-exp (x.aLog head) * o.softplus (x.aAll seq head + x.dtBias head))
  have hnext : (recurrentStep (fun a b => x.temporalState seq head a b) t).1 =
      fun (a : Fin h.headKDim) (b : Fin h.headVDim) => nextHeadState o h x seq head a b := by
    funext a b
    have hmem : ∑ a : Fin h.headKDim, x.temporalState seq head a b * decay * t.key a =
        ∑ i ∈ Finset.range h.headKDim,
          headKey o h x seq head i * (x.temporalState seq head i b * decay) := by
      rw [← Fin.sum_univ_eq_sum_range
        fun i => headKey o h x seq head i * (x.temporalState seq head i b * decay)]
      exact Finset.sum_congr rfl fun a _ => by rw [hkey, mul_comm]
    show x.temporalState seq head a b * decay + t.key a *
      ((vT h x seq head b - ∑ a : Fin h.headKDim, x.temporalState seq head a b * decay * t.key a) *
        sigmoid (x.bAll seq head)) = _
    rw [hmem, hkey]
    rfl
  have hout : (recurrentStep (fun a b => x.temporalState seq head a b) t).2 =
      fun b : Fin h.headVDim =>
        headOut h.headKDim (headQuery o h x seq head) (nextHeadState o h x seq head) b := by
    funext b
    show ∑ a : Fin h.headKDim, (recurrentStep (fun a b => x.temporalState seq head a b) t).1 a b * t.query a = _
    unfold headOut
    rw [hnext, ← Fin.sum_univ_eq_sum_range
      fun i => headQuery o h x seq head i * nextHeadState o h x seq head i b]
    exact Finset.sum_congr rfl fun a _ => by rw [hquery, mul_comm]
  show ([(recurrentStep (fun a b => x.temporalState seq head a b) t).2],
    some (recurrentStep (fun a b => x.temporalState seq head a b) t).1) = _
  rw [hnext, hout]

/-- **Every decode path yields the output and the state of one step of
`_torch_recurrent_gated_delta_rule`**, and every access of a thread of the packed kernel to the state
is to its own column. -/
theorem decode_eq_recurrent (o : Arith K) (flags : Flags) (launches : Launches K h numSeqs)
    (x : Input K) :
    (∀ seq < numSeqs, ∀ head < h.localNumV,
      torchRecurrentGatedDeltaRule (kernelNorm o h.headKDim) [token o h x seq head]
          (some fun a b => x.temporalState seq head a b) true =
        ([fun b : Fin h.headVDim => (decode o flags launches x).coreOut seq head b],
          some fun (a : Fin h.headKDim) (b : Fin h.headVDim) =>
            (decode o flags launches x).temporalState seq head a b)) ∧
    ∀ (sched : List PackedDecode.Thread), ∀ p ∈ Threads.trace
      (PackedDecode.access (packedArgs x)
        (PackedDecode.blocks o (packedArgs x) launches.packed.order)) sched
      (PackedDecode.start (packedState x) launches.packed.uninit),
      PackedDecode.Owns p.1 p.2 := by
  refine ⟨fun seq hseq head hhead => ?_, fun sched p hp => ?_⟩
  · rw [recurrent_head]
    have hdecode := fun b : Fin h.headVDim => decode_head o flags launches x hseq hhead b.2
    have hout : (fun b : Fin h.headVDim => (decode o flags launches x).coreOut seq head b) =
        fun b : Fin h.headVDim =>
          headOut h.headKDim (headQuery o h x seq head) (nextHeadState o h x seq head) b :=
      funext fun b => (hdecode b).2
    have hstate : (fun (a : Fin h.headKDim) (b : Fin h.headVDim) =>
        (decode o flags launches x).temporalState seq head a b) =
        fun (a : Fin h.headKDim) (b : Fin h.headVDim) => nextHeadState o h x seq head a b :=
      funext fun a => funext fun b => (hdecode b).1 a a.2
    rw [hout, hstate]
  · exact Threads.own_of_mem_trace (PackedDecode.raceFree _ _) hp

theorem packedHeads_pos : 0 < 4 := by decide

/-- The sizes that the packed kernel admits. -/
def packedHeads : Heads where
  localNumK := 4
  headExpandRatio := 2
  headKDim := 128
  headVDim := 128
  localNumK_pos := packedHeads_pos
  headExpandRatio_pos := Nat.two_pos

noncomputable def realArith : Arith ℝ where
  rsqrt x := 1 / Real.sqrt x
  softplus x := Real.log (1 + Real.exp x)
  eps := 1 / 1000000
  scale := 1 / Real.sqrt 128

/-- Every channel has its number, and the state is one everywhere. -/
noncomputable def numbered : Input ℝ where
  mixedQkvConv _ c := c
  bAll _ head := head
  aAll _ head := head
  aLog _ := 0
  dtBias _ := 1
  temporalState _ _ _ _ := 1

/-- The packed kernel, for the sixth value head. -/
theorem decode_eq_recurrent_packed :
    torchRecurrentGatedDeltaRule (kernelNorm realArith 128) [token realArith packedHeads numbered 0 5]
        (some fun a b => numbered.temporalState 0 5 a b) true =
      ([fun b : Fin 128 => (decode realArith ⟨true, true, true, true⟩
          (Launches.sequential packedHeads 1) numbered).coreOut 0 5 b],
        some fun (a : Fin 128) (b : Fin 128) => (decode realArith ⟨true, true, true, true⟩
          (Launches.sequential packedHeads 1) numbered).temporalState 0 5 a b) :=
  (decode_eq_recurrent realArith ⟨true, true, true, true⟩ (Launches.sequential packedHeads 1)
    numbered).1 0 (by decide) 5 (by decide)

end Bi100.Gdn.Decode
