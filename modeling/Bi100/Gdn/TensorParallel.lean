import Bi100.Gdn.DecodeExact
import Bi100.Gdn.Layer

/-!
# Tensor-parallel `GatedDeltaNet`

`World.channel` is the channel of the unsharded convolution that a rank has as its own. What a rank
computes is the slice of what the unsharded layer computes, step by step.

- `load_qkv`, `load_z`, …: the rows of a rank's parameters.
- `saveConvState_map`, `causalConv1dUpdate_map`: the conv state is the same in every channel.
- `prefillSeq_slice`, `decodeSeq_slice`: a rank's result for a sequence.
- `tensorParallel_eq`: the ranks together compute the unsharded layer.
-/

namespace Bi100.Gdn

/-! ## Conv states by column -/

section Columns

variable {C D : Type} {n : Nat}

def ConvState.map (f : C → D) (state : ConvState C n) : ConvState D n :=
  ⟨state.columns.map f, (List.length_map f).trans state.width⟩

theorem lastColumns_map (f : C → D) (n : Nat) (x : List C) :
    lastColumns n (x.map f) = (lastColumns n x).map f := by
  unfold lastColumns List.rtake
  split
  · rfl
  · rw [List.length_map, List.map_drop]

theorem copyColumns_map (f : C → D) (width : Nat) (src : List C) :
    copyColumns width (src.map f) = (copyColumns width src).map (ConvState.map f) := by
  unfold copyColumns
  by_cases h : src.length = width
  · rw [dif_pos h, dif_pos ((List.length_map f).trans h)]
    rfl
  · rw [dif_neg h, dif_neg (mt (List.length_map f).symm.trans h)]
    match src with
    | [] => rfl
    | [x] =>
      refine congrArg some (ConvState.ext ?_)
      exact (List.map_replicate ..).symm
    | x :: y :: rest => rfl

theorem saveConvState_map [Zero C] [Zero D] {f : C → D} (hf : f 0 = 0) (state : ConvState C n)
    (mixedQkv : List C) :
    saveConvState (state.map f) (mixedQkv.map f) =
      (saveConvState state mixedQkv).map (ConvState.map f) := by
  unfold saveConvState
  by_cases h : n ≤ mixedQkv.length
  · rw [dif_pos h, dif_pos (h.trans_eq (List.length_map f).symm), lastColumns_map, copyColumns_map]
  · rw [dif_neg h, dif_neg (mt (fun h => h.trans_eq (List.length_map f)) h)]
    refine congrArg some (ConvState.ext ?_)
    simp only [ConvState.map, List.map_append, List.map_replicate, hf, List.length_map]

theorem causalConv1dUpdate_map (f : C → D) (state : ConvState C n) (x : C) :
    causalConv1dUpdate (state.map f) (f x) =
      (causalConv1dUpdate state x).map (ConvState.map f) := by
  unfold causalConv1dUpdate
  rw [← copyColumns_map, ← lastColumns_map, List.map_append]
  rfl

end Columns

namespace Layer

open Decode ExpField

variable {K : Type} [ExpField K] {c : Config}

/-! ## The sizes of a rank -/

section Sizes

variable (w : World c)

theorem numKHeads_eq : c.numKHeads = w.tpSize * (c.numKHeads / w.tpSize) :=
  (Nat.mul_div_cancel' w.tpSize_dvd).symm

theorem numVHeads_eq : c.numVHeads = c.numKHeads * c.headExpandRatio :=
  (Nat.mul_div_cancel' c.heads_dvd).symm

theorem localNumV_eq : w.localNumV = c.numKHeads / w.tpSize * c.headExpandRatio := by
  unfold World.localNumV
  rw [numVHeads_eq, numKHeads_eq w, Nat.mul_assoc, Nat.mul_div_cancel_left _ w.tpSize_pos,
    Nat.mul_div_cancel_left _ w.tpSize_pos]

theorem localKeyDim_eq : w.localKeyDim = c.numKHeads / w.tpSize * c.headKDim := by
  unfold World.localKeyDim Config.keyDim
  rw [numKHeads_eq w, Nat.mul_assoc, Nat.mul_div_cancel_left _ w.tpSize_pos,
    Nat.mul_div_cancel_left _ w.tpSize_pos]

theorem size_mul_localNumV : w.tpSize * w.localNumV = c.numVHeads := by
  rw [localNumV_eq, ← Nat.mul_assoc, ← numKHeads_eq, ← numVHeads_eq]

theorem size_mul_localKeyDim : w.tpSize * w.localKeyDim = c.keyDim := by
  rw [localKeyDim_eq, ← Nat.mul_assoc, ← numKHeads_eq]
  rfl

theorem localValDim_eq : w.localValDim = w.localNumV * c.headVDim := by
  unfold World.localValDim Config.valueDim
  rw [← size_mul_localNumV w, Nat.mul_assoc, Nat.mul_div_cancel_left _ w.tpSize_pos]

theorem size_mul_localValDim : w.tpSize * w.localValDim = c.valueDim := by
  rw [localValDim_eq, ← Nat.mul_assoc, size_mul_localNumV]
  rfl

theorem localConvDim_eq : w.localConvDim = w.localKeyDim + w.localKeyDim + w.localValDim := by
  unfold World.localConvDim Config.convDim
  rw [← size_mul_localKeyDim w, ← size_mul_localValDim w]
  refine Nat.div_eq_of_eq_mul_right w.tpSize_pos ?_
  rw [Nat.mul_add, Nat.mul_add, Nat.mul_two]

theorem one_localNumV : (World.one c).localNumV = c.numVHeads := Nat.div_one _

theorem one_localKeyDim : (World.one c).localKeyDim = c.keyDim := Nat.div_one _

theorem one_localValDim : (World.one c).localValDim = c.valueDim := Nat.div_one _

theorem one_localConvDim : (World.one c).localConvDim = c.keyDim + c.keyDim + c.valueDim := by
  rw [localConvDim_eq, one_localKeyDim, one_localValDim]

/-- The place of a rank's value head in the unsharded layer. -/
theorem head_lt {rank head : Nat} (hrank : rank < w.tpSize) (hhead : head < w.localNumV) :
    rank * w.localNumV + head < c.numVHeads := by
  rw [← size_mul_localNumV w]
  exact row_offset_lt hrank hhead

theorem value_lt {rank i : Nat} (hrank : rank < w.tpSize) (hi : i < w.localValDim) :
    rank * w.localValDim + i < c.valueDim := by
  rw [← size_mul_localValDim w]
  exact row_offset_lt hrank hi

theorem key_lt {rank i : Nat} (hrank : rank < w.tpSize) (hi : i < w.localKeyDim) :
    rank * w.localKeyDim + i < c.keyDim := by
  rw [← size_mul_localKeyDim w]
  exact row_offset_lt hrank hi

/-- The key head of a rank's value head. -/
theorem keyHead_eq (rank head : Nat) : (rank * w.localNumV + head) / c.headExpandRatio =
    rank * (c.numKHeads / w.tpSize) + head / c.headExpandRatio := by
  rw [localNumV_eq, ← Nat.mul_assoc, Nat.mul_comm _ c.headExpandRatio,
    Nat.mul_add_div c.headExpandRatio_pos]

/-- Where the key of a value head is. -/
theorem keyIndex_eq (rank head a : Nat) :
    rank * w.localKeyDim + (head / c.headExpandRatio * c.headKDim + a) =
      (rank * w.localNumV + head) / c.headExpandRatio * c.headKDim + a := by
  rw [keyHead_eq, localKeyDim_eq, Nat.add_mul, Nat.mul_assoc, Nat.add_assoc]

theorem keyIndex_lt {head a : Nat} (hhead : head < w.localNumV) (ha : a < c.headKDim) :
    head / c.headExpandRatio * c.headKDim + a < w.localKeyDim := by
  rw [localNumV_eq] at hhead
  rw [localKeyDim_eq]
  exact row_offset_lt ((Nat.div_lt_iff_lt_mul c.headExpandRatio_pos).mpr hhead) ha

/-- Where the value of a value head is. -/
theorem valueIndex_eq (rank head b : Nat) :
    rank * w.localValDim + (head * c.headVDim + b) =
      (rank * w.localNumV + head) * c.headVDim + b := by
  rw [localValDim_eq, Nat.add_mul, Nat.mul_assoc, Nat.add_assoc]

theorem valueIndex_lt {head b : Nat} (hhead : head < w.localNumV) (hb : b < c.headVDim) :
    head * c.headVDim + b < w.localValDim := by
  rw [localValDim_eq]
  exact row_offset_lt hhead hb

end Sizes

/-! ## The channels of a rank -/

/-- The channel of `[q, k, v]` that a rank has as `channel`. -/
def World.channel (w : World c) (rank channel : Nat) : Nat :=
  if channel < w.localKeyDim then rank * w.localKeyDim + channel
  else if channel < w.localKeyDim + w.localKeyDim then
    c.keyDim + (rank * w.localKeyDim + (channel - w.localKeyDim))
  else c.keyDim + c.keyDim +
    (rank * w.localValDim + (channel - (w.localKeyDim + w.localKeyDim)))

section Channels

variable (w : World c)

theorem channel_q (rank : Nat) {i : Nat} (hi : i < w.localKeyDim) :
    w.channel rank i = rank * w.localKeyDim + i := if_pos hi

theorem channel_k (rank : Nat) {i : Nat} (hi : i < w.localKeyDim) :
    w.channel rank (w.localKeyDim + i) = c.keyDim + (rank * w.localKeyDim + i) := by
  unfold World.channel
  rw [if_neg (by omega), if_pos (by omega), Nat.add_sub_cancel_left]

theorem channel_v (rank i : Nat) : w.channel rank (w.localKeyDim + w.localKeyDim + i) =
    c.keyDim + c.keyDim + (rank * w.localValDim + i) := by
  unfold World.channel
  rw [if_neg (by omega), if_neg (by omega), Nat.add_sub_cancel_left]

/-- A channel is one of `q`, `k` or `v`. -/
theorem channel_cases {p : Nat → Prop} (hq : ∀ i < w.localKeyDim, p i)
    (hk : ∀ i < w.localKeyDim, p (w.localKeyDim + i))
    (hv : ∀ i < w.localValDim, p (w.localKeyDim + w.localKeyDim + i)) :
    ∀ channel < w.localConvDim, p channel := by
  intro channel h
  rw [localConvDim_eq] at h
  rcases Nat.lt_or_ge channel w.localKeyDim with hlt | hge
  · exact hq channel hlt
  · obtain ⟨i, rfl⟩ := Nat.exists_eq_add_of_le hge
    rcases Nat.lt_or_ge i w.localKeyDim with hlt | hge
    · exact hk i hlt
    · obtain ⟨i, rfl⟩ := Nat.exists_eq_add_of_le hge
      rw [← Nat.add_assoc]
      exact hv i (by omega)

theorem channel_one : ∀ channel < c.keyDim + c.keyDim + c.valueDim,
    (World.one c).channel 0 channel = channel := by
  rw [← one_localConvDim]
  refine channel_cases (World.one c) (fun i hi => ?_) (fun i hi => ?_) fun i hi => ?_
  · rw [channel_q _ _ hi, Nat.zero_mul, Nat.zero_add]
  · rw [channel_k _ _ hi, Nat.zero_mul, Nat.zero_add, one_localKeyDim]
  · rw [channel_v, Nat.zero_mul, Nat.zero_add, one_localKeyDim]

theorem channel_lt {rank : Nat} (hrank : rank < w.tpSize) : ∀ channel < w.localConvDim,
    w.channel rank channel < c.keyDim + c.keyDim + c.valueDim := by
  refine channel_cases w (fun i hi => ?_) (fun i hi => ?_) fun i hi => ?_
  · have hlt := key_lt w hrank hi
    rw [channel_q _ _ hi]
    omega
  · have hlt := key_lt w hrank hi
    rw [channel_k _ _ hi]
    omega
  · have hlt := value_lt w hrank hi
    rw [channel_v]
    omega

/-- Rows that every group cuts as `[q, k, v]`. -/
structure CutAsQkv {α : Type} (rows : World c → Nat → Nat → α) (full : Nat → α) : Prop where
  q : ∀ (w : World c) (rank i : Nat), i < w.localKeyDim →
    rows w rank i = full (rank * w.localKeyDim + i)
  k : ∀ (w : World c) (rank i : Nat), i < w.localKeyDim →
    rows w rank (w.localKeyDim + i) = full (c.keyDim + (rank * w.localKeyDim + i))
  v : ∀ (w : World c) (rank i : Nat), i < w.localValDim →
    rows w rank (w.localKeyDim + w.localKeyDim + i) =
      full (c.keyDim + c.keyDim + (rank * w.localValDim + i))

theorem CutAsQkv.channel {α : Type} {rows : World c → Nat → Nat → α} {full : Nat → α}
    (h : CutAsQkv rows full) (rank : Nat) :
    ∀ channel < w.localConvDim, rows w rank channel = full (w.channel rank channel) := by
  refine channel_cases w (fun i hi => ?_) (fun i hi => ?_) fun i hi => ?_
  · rw [h.q w rank i hi, channel_q _ _ hi]
  · rw [h.k w rank i hi, channel_k _ _ hi]
  · rw [h.v w rank i hi, channel_v]

/-- **A rank's row is that of its channel in the unsharded layer.** -/
theorem CutAsQkv.slice {α : Type} {rows : World c → Nat → Nat → α} {full : Nat → α}
    (h : CutAsQkv rows full) {rank : Nat} (hrank : rank < w.tpSize) {channel : Nat}
    (hchannel : channel < w.localConvDim) :
    rows w rank channel = rows (World.one c) 0 (w.channel rank channel) := by
  have hlt := channel_lt w hrank channel hchannel
  rw [h.channel w rank channel hchannel, h.channel (World.one c) 0 _
    (hlt.trans_eq one_localConvDim.symm), channel_one _ hlt]

end Channels

/-! ## The rows of a rank -/

section Rows

variable (ck : Checkpoint K) (w : World c) (rank : Nat)

/-- The rows of a logical output. -/
theorem projections_part (pieces : List (Nat × (Nat → Nat → K)))
    {rest : List (Nat × (Nat → Nat → K))} {n : Nat} {f : Nat → Nat → K}
    (hsplit : ck.projections c = pieces ++ (n, f) :: rest) {i : Nat} (hi : i < n / w.tpSize) :
    (load w rank ck).inProjQkvzba ((pieces.map fun p => p.1 / w.tpSize).sum + i) =
      f (rank * (n / w.tpSize) + i) := by
  have hshards : shards w.tpSize rank (ck.projections c) = shards w.tpSize rank pieces ++
      (n / w.tpSize, fun i => f (rank * (n / w.tpSize) + i)) :: shards w.tpSize rank rest := by
    rw [hsplit]
    unfold shards
    rw [List.map_append, List.map_cons]
  have hsum : (shards w.tpSize rank pieces).map Prod.fst =
      pieces.map fun p => p.1 / w.tpSize := by
    unfold shards
    rw [List.map_map]
    rfl
  have hcat := cat_append (shards w.tpSize rank pieces)
    (fun i => f (rank * (n / w.tpSize) + i)) (shards w.tpSize rank rest) hi
  rw [hsum, ← hshards] at hcat
  exact hcat

theorem load_qkv : CutAsQkv (c := c) (fun w rank => (load w rank ck).inProjQkvzba)
    ck.inProjQkv where
  q w rank i hi := by
    have hpart := projections_part ck w rank [] rfl hi
    rwa [List.map_nil, List.sum_nil, Nat.zero_add] at hpart
  k w rank i hi := projections_part ck w rank [_] rfl hi
  v w rank i hi := projections_part ck w rank [_, _] rfl hi

theorem load_z {i : Nat} (hi : i < w.localValDim) :
    (load w rank ck).inProjQkvzba (w.localConvDim + i) = ck.inProjZ (rank * w.localValDim + i) := by
  rw [localConvDim_eq, Nat.add_assoc w.localKeyDim]
  exact projections_part ck w rank [_, _, _] rfl hi

theorem load_b {i : Nat} (hi : i < w.localNumV) :
    (load w rank ck).inProjQkvzba (w.localConvDim + w.localValDim + i) =
      ck.inProjB (rank * w.localNumV + i) := by
  have hsum : w.localConvDim + w.localValDim =
      w.localKeyDim + (w.localKeyDim + (w.localValDim + w.localValDim)) := by
    rw [localConvDim_eq]
    omega
  rw [hsum]
  exact projections_part ck w rank [_, _, _, _] rfl hi

theorem load_a {i : Nat} (hi : i < w.localNumV) :
    (load w rank ck).inProjQkvzba (w.localConvDim + w.localValDim + w.localNumV + i) =
      ck.inProjA (rank * w.localNumV + i) := by
  have hsum : w.localConvDim + w.localValDim + w.localNumV =
      w.localKeyDim + (w.localKeyDim + (w.localValDim + (w.localValDim + w.localNumV))) := by
    rw [localConvDim_eq]
    omega
  rw [hsum]
  exact projections_part ck w rank [_, _, _, _, _] rfl hi

theorem load_conv : CutAsQkv (c := c) (fun w rank => (load w rank ck).conv1dWeight) ck.conv1d where
  q w rank i hi := if_pos hi
  k w rank i hi := by
    have hcat := cat_append [(w.localKeyDim, fun i => ck.conv1d (rank * w.localKeyDim + i))]
      (fun i => ck.conv1d (c.keyDim + rank * w.localKeyDim + i))
      [(w.localValDim, fun i => ck.conv1d (2 * c.keyDim + rank * w.localValDim + i))] hi
    rw [Nat.add_assoc] at hcat
    exact hcat
  v w rank i hi := by
    have hcat := cat_append [(w.localKeyDim, fun i => ck.conv1d (rank * w.localKeyDim + i)),
      (w.localKeyDim, fun i => ck.conv1d (c.keyDim + rank * w.localKeyDim + i))]
      (fun i => ck.conv1d (2 * c.keyDim + rank * w.localValDim + i)) [] hi
    refine hcat.trans ?_
    rw [Nat.two_mul, Nat.add_assoc]

theorem load_aLog {head : Nat} (hhead : head < w.localNumV) :
    (load w rank ck).aLog head = ck.aLog (rank * w.localNumV + head) := narrow_apply _ hhead

theorem load_dtBias {head : Nat} (hhead : head < w.localNumV) :
    (load w rank ck).dtBias head = ck.dtBias (rank * w.localNumV + head) := narrow_apply _ hhead

end Rows

/-! ## The projections of a rank -/

section Projections

variable (ck : Checkpoint K) (w : World c) {rank : Nat} (hrank : rank < w.tpSize)
  (hidden : Nat → K)

/-- A rank's part of a column or a state. -/
def World.sliceChannels (w : World c) (rank : Nat) (column : Nat → K) : Nat → K := fun channel =>
  if channel < w.localConvDim then column (w.channel rank channel) else 0

theorem sliceChannels_zero : w.sliceChannels rank (0 : Nat → K) = 0 :=
  funext fun _ => ite_self _

theorem project_congr {p p' : Params K} {row row' : Nat}
    (h : p.inProjQkvzba row = p'.inProjQkvzba row') :
    p.project c hidden row = p'.project c hidden row' := by
  unfold Params.project
  rw [h]

include hrank

theorem mixedQkvAll_slice : w.mixedQkvAll ((load w rank ck).project c hidden) =
    w.sliceChannels rank ((World.one c).mixedQkvAll
      ((load (World.one c) 0 ck).project c hidden)) := by
  funext channel
  unfold World.sliceChannels
  split
  · next h =>
    have hlt := channel_lt w hrank channel h
    unfold World.mixedQkvAll
    rw [narrow_apply _ h, narrow_apply _ (hlt.trans_eq one_localConvDim.symm), Nat.zero_add,
      Nat.zero_add]
    exact project_congr hidden ((load_qkv ck).slice w hrank h)
  · next h => exact if_neg h

theorem zAll_slice {i : Nat} (hi : i < w.localValDim) :
    w.zAll ((load w rank ck).project c hidden) i = (World.one c).zAll
      ((load (World.one c) 0 ck).project c hidden) (rank * w.localValDim + i) := by
  have hlt := (value_lt w hrank hi).trans_eq one_localValDim.symm
  unfold World.zAll
  rw [narrow_apply _ hi, narrow_apply _ hlt]
  refine project_congr hidden ?_
  rw [load_z ck w rank hi, load_z ck (World.one c) 0 hlt, Nat.zero_mul, Nat.zero_add]

theorem bAll_slice {head : Nat} (hhead : head < w.localNumV) :
    w.bAll ((load w rank ck).project c hidden) head = (World.one c).bAll
      ((load (World.one c) 0 ck).project c hidden) (rank * w.localNumV + head) := by
  have hlt := (head_lt w hrank hhead).trans_eq one_localNumV.symm
  unfold World.bAll
  rw [narrow_apply _ hhead, narrow_apply _ hlt]
  refine project_congr hidden ?_
  rw [load_b ck w rank hhead, load_b ck (World.one c) 0 hlt, Nat.zero_mul, Nat.zero_add]

theorem aAll_slice {head : Nat} (hhead : head < w.localNumV) :
    w.aAll ((load w rank ck).project c hidden) head = (World.one c).aAll
      ((load (World.one c) 0 ck).project c hidden) (rank * w.localNumV + head) := by
  have hlt := (head_lt w hrank hhead).trans_eq one_localNumV.symm
  unfold World.aAll
  rw [narrow_apply _ hhead, narrow_apply _ hlt]
  refine project_congr hidden ?_
  rw [load_a ck w rank hhead, load_a ck (World.one c) 0 hlt, Nat.zero_mul, Nat.zero_add]

theorem aLog_slice {head : Nat} (hhead : head < w.localNumV) : (load w rank ck).aLog head =
    (load (World.one c) 0 ck).aLog (rank * w.localNumV + head) := by
  rw [load_aLog ck w rank hhead, load_aLog ck (World.one c) 0
    ((head_lt w hrank hhead).trans_eq one_localNumV.symm), Nat.zero_mul, Nat.zero_add]

theorem dtBias_slice {head : Nat} (hhead : head < w.localNumV) : (load w rank ck).dtBias head =
    (load (World.one c) 0 ck).dtBias (rank * w.localNumV + head) := by
  rw [load_dtBias ck w rank hhead, load_dtBias ck (World.one c) 0
    ((head_lt w hrank hhead).trans_eq one_localNumV.symm), Nat.zero_mul, Nat.zero_add]

/-- A column of the convolution. -/
theorem convolve_slice (padded : List (Nat → K)) (t : Nat) {channel : Nat}
    (hchannel : channel < w.localConvDim) :
    (load w rank ck).convolve c (padded.map (w.sliceChannels rank)) t channel =
      (load (World.one c) 0 ck).convolve c padded t (w.channel rank channel) := by
  unfold Params.convolve
  rw [(load_conv ck).slice w hrank hchannel]
  refine congrArg silu (Finset.sum_congr rfl fun j _ => ?_)
  have hcolumn : (padded.map (w.sliceChannels rank)).getD (t + j) 0 =
      w.sliceChannels rank (padded.getD (t + j) 0) := by
    have hget := List.getD_map (l := padded) (d := 0) (n := t + j) (w.sliceChannels rank)
    rwa [sliceChannels_zero] at hget
  rw [hcolumn]
  exact congrArg _ (if_pos hchannel)

end Projections

/-! ## A sequence on a rank -/

def SeqState.slice (w : World c) (rank : Nat) (st : SeqState K c) : SeqState K c where
  conv := st.conv.map (w.sliceChannels rank)
  temporal := narrow (rank * w.localNumV) w.localNumV st.temporal

def SeqResult.slice (w : World c) (rank : Nat) (r : SeqResult K c) : SeqResult K c where
  normed t := narrow (rank * w.localValDim) w.localValDim (r.normed t)
  state := r.state.slice w rank

section Sequence

variable (o : Arith K) (ck : Checkpoint K) (w : World c) {rank : Nat} (hrank : rank < w.tpSize)

omit [ExpField K] in
/-- A rank's row `[q, k, v]`, at the query and the key of a head. -/
theorem conv_key {conv conv' : Nat → K}
    (hconv : ∀ channel < w.localConvDim, conv channel = conv' (w.channel rank channel))
    {head a : Nat} (hhead : head < w.localNumV) (ha : a < c.headKDim) :
    conv (head / c.headExpandRatio * c.headKDim + a) =
      conv' ((rank * w.localNumV + head) / c.headExpandRatio * c.headKDim + a) ∧
    conv (w.localKeyDim + (head / c.headExpandRatio * c.headKDim + a)) =
      conv' ((World.one c).localKeyDim +
        ((rank * w.localNumV + head) / c.headExpandRatio * c.headKDim + a)) := by
  have hlt := keyIndex_lt w hhead ha
  have hdim := localConvDim_eq w
  constructor
  · rw [hconv _ (by omega), channel_q _ _ hlt, keyIndex_eq]
  · rw [hconv _ (by omega), channel_k _ _ hlt, keyIndex_eq, one_localKeyDim]

omit [ExpField K] in
theorem conv_value {conv conv' : Nat → K}
    (hconv : ∀ channel < w.localConvDim, conv channel = conv' (w.channel rank channel))
    {head b : Nat} (hhead : head < w.localNumV) (hb : b < c.headVDim) :
    conv (w.localKeyDim + w.localKeyDim + (head * c.headVDim + b)) =
      conv' ((World.one c).localKeyDim + (World.one c).localKeyDim +
        ((rank * w.localNumV + head) * c.headVDim + b)) := by
  have hlt := valueIndex_lt w hhead hb
  have hdim := localConvDim_eq w
  rw [hconv _ (by omega), channel_v, valueIndex_eq, one_localKeyDim]

include hrank

theorem prefillToken_slice {conv conv' : Nat → K}
    (hconv : ∀ channel < w.localConvDim, conv channel = conv' (w.channel rank channel))
    (hidden : Nat → K) {head : Nat} (hhead : head < w.localNumV) :
    prefillToken o w (load w rank ck) head conv ((load w rank ck).project c hidden) =
      prefillToken o (World.one c) (load (World.one c) 0 ck) (rank * w.localNumV + head) conv'
        ((load (World.one c) 0 ck).project c hidden) := by
  unfold prefillToken
  rw [aLog_slice ck w hrank hhead, dtBias_slice ck w hrank hhead,
    aAll_slice ck w hrank hidden hhead, bAll_slice ck w hrank hidden hhead]
  refine Token.mk.injEq .. |>.mpr ⟨?_, ?_, ?_, rfl, rfl⟩
  · exact funext fun a => (conv_key w hconv hhead a.2).1
  · exact funext fun a => (conv_key w hconv hhead a.2).2
  · exact funext fun b => conv_value w hconv hhead b.2

/-- The gated norm of a token. -/
theorem normedRow_slice {coreOut coreOut' : Nat → Nat → K} {z z' : Nat → K}
    (hcore : ∀ head < w.localNumV, ∀ d < c.headVDim,
      coreOut head d = coreOut' (rank * w.localNumV + head) d)
    (hz : ∀ i < w.localValDim, z i = z' (rank * w.localValDim + i)) :
    normedRow o w (load w rank ck) coreOut z = narrow (rank * w.localValDim) w.localValDim
      (normedRow o (World.one c) (load (World.one c) 0 ck) coreOut' z') := by
  funext i
  by_cases hi : i < w.localValDim
  · have hdim := hi
    rw [localValDim_eq] at hdim
    have hvd : 0 < c.headVDim := Nat.pos_of_ne_zero fun h => by
      rw [h, Nat.mul_zero] at hdim
      exact Nat.not_lt_zero _ hdim
    have hhead : i / c.headVDim < w.localNumV := (Nat.div_lt_iff_lt_mul hvd).mpr hdim
    have hmod : i % c.headVDim < c.headVDim := Nat.mod_lt _ hvd
    have hindex := valueIndex_eq w rank (i / c.headVDim) (i % c.headVDim)
    rw [Nat.div_add_mod'] at hindex
    rw [narrow_apply _ hi]
    unfold normedRow
    rw [if_pos hi, if_pos ((value_lt w hrank hi).trans_eq one_localValDim.symm)]
    dsimp only
    rw [hindex, row_div hmod, row_mod hmod]
    unfold Params.normGated
    dsimp only
    rw [hz _ (valueIndex_lt w hhead hmod), valueIndex_eq, hcore _ hhead _ hmod,
      Finset.sum_congr rfl fun d hd => by rw [hcore _ hhead d (Finset.mem_range.mp hd)]]
    rfl
  · unfold normedRow narrow
    rw [if_neg hi, if_neg hi]

omit hrank in
theorem prefillHead_slice {convs convs' projected projected' : List (Nat → K)}
    (segmentEnds : List Nat) (st : SeqState K c) {head : Nat} (hhead : head < w.localNumV)
    (htokens : List.zipWith (prefillToken o w (load w rank ck) head) convs projected =
      List.zipWith (prefillToken o (World.one c) (load (World.one c) 0 ck)
        (rank * w.localNumV + head)) convs' projected') :
    prefillHead o w (load w rank ck) segmentEnds convs projected (st.slice w rank) head =
      prefillHead o (World.one c) (load (World.one c) 0 ck) segmentEnds convs' projected' st
        (rank * w.localNumV + head) := by
  have htemporal : (st.slice w rank).temporal head = st.temporal (rank * w.localNumV + head) :=
    narrow_apply _ hhead
  unfold prefillHead
  rw [htokens, htemporal]

/-- The tokens of a value head. -/
theorem tokens_slice (padded hidden : List (Nat → K)) {head : Nat} (hhead : head < w.localNumV) :
    List.zipWith (prefillToken o w (load w rank ck) head)
        ((List.range hidden.length).map
          ((load w rank ck).convolve c (padded.map (w.sliceChannels rank))))
        (hidden.map ((load w rank ck).project c)) =
      List.zipWith (prefillToken o (World.one c) (load (World.one c) 0 ck)
          (rank * w.localNumV + head))
        ((List.range hidden.length).map ((load (World.one c) 0 ck).convolve c padded))
        (hidden.map ((load (World.one c) 0 ck).project c)) := by
  refine List.ext_getElem (by simp) fun t ht ht' => ?_
  simp only [List.getElem_zipWith, List.getElem_map, List.getElem_range]
  exact prefillToken_slice o ck w hrank
    (fun channel hchannel => convolve_slice ck w hrank padded t hchannel) _ hhead

/-- `z` of a token. -/
theorem zAll_getD (hidden : List (Nat → K)) (t : Nat) {i : Nat} (hi : i < w.localValDim) :
    w.zAll ((hidden.map ((load w rank ck).project c)).getD t 0) i =
      (World.one c).zAll ((hidden.map ((load (World.one c) 0 ck).project c)).getD t 0)
        (rank * w.localValDim + i) := by
  rcases Nat.lt_or_ge t hidden.length with hlt | hge
  · simp only [List.getD_eq_getElem?_getD, List.getElem?_map, List.getElem?_eq_getElem hlt,
      Option.map_some, Option.getD_some]
    exact zAll_slice ck w hrank _ hi
  · have hlt := (value_lt w hrank hi).trans_eq one_localValDim.symm
    simp only [List.getD_eq_getElem?_getD, List.getElem?_map, List.getElem?_eq_none hge,
      Option.map_none, Option.getD_none]
    unfold World.zAll
    rw [narrow_apply _ hi, narrow_apply _ hlt]
    rfl

/-- **A rank's result for a sequence is the slice of the unsharded result.** -/
theorem prefillSeq_slice (dnnChunkSize : Nat) (offsets : List Nat) (hidden : List (Nat → K))
    (st : SeqState K c) :
    prefillSeq o w (load w rank ck) dnnChunkSize offsets hidden (st.slice w rank) =
      (prefillSeq o (World.one c) (load (World.one c) 0 ck) dnnChunkSize offsets hidden st).map
        (SeqResult.slice w rank) := by
  have hmixed : (hidden.map ((load w rank ck).project c)).map w.mixedQkvAll =
      ((hidden.map ((load (World.one c) 0 ck).project c)).map (World.one c).mixedQkvAll).map
        (w.sliceChannels rank) := by
    simp only [List.map_map]
    exact List.map_congr_left fun x _ => mixedQkvAll_slice ck w hrank x
  unfold prefillSeq
  dsimp only
  rw [hmixed]
  generalize (hidden.map ((load (World.one c) 0 ck).project c)).map (World.one c).mixedQkvAll =
    mixedQkv
  have hpadded : (st.slice w rank).conv.columns ++ mixedQkv.map (w.sliceChannels rank) =
      (st.conv.columns ++ mixedQkv).map (w.sliceChannels rank) := List.map_append.symm
  have hhead := fun head (hhead : head < w.localNumV) =>
    prefillHead_slice o ck w (gdnSegmentEnds hidden.length dnnChunkSize offsets) st hhead
      (tokens_slice o ck w hrank (st.conv.columns ++ mixedQkv) hidden hhead)
  rw [hpadded, show (st.slice w rank).conv = st.conv.map (w.sliceChannels rank) from rfl,
    saveConvState_map (sliceChannels_zero w)]
  cases saveConvState st.conv mixedQkv with
  | none => rfl
  | some conv =>
    refine congrArg some (SeqResult.mk.injEq .. |>.mpr ⟨?_, ?_⟩)
    · funext t
      dsimp only
      refine normedRow_slice o ck w hrank (fun head hlt d _ => ?_)
        fun i hi => zAll_getD ck w hrank hidden t hi
      rw [hhead head hlt]
    · refine SeqState.mk.injEq .. |>.mpr ⟨rfl, ?_⟩
      funext head
      by_cases hlt : head < w.localNumV
      · have hlt' := (head_lt w hrank hlt).trans_eq one_localNumV.symm
        dsimp only
        rw [if_pos hlt, hhead head hlt, narrow_apply _ hlt, if_pos hlt']
      · rw [if_neg hlt]
        exact (if_neg hlt).symm

/-! ## A decoded token on a rank -/

variable (hidden : Nat → Nat → K) (states : Nat → SeqState K c)

theorem decodeInput_conv (seq : Nat) : ∀ channel < w.localConvDim,
    (decodeInput w (load w rank ck) hidden fun s => (states s).slice w rank).mixedQkvConv seq
        channel =
      (decodeInput (World.one c) (load (World.one c) 0 ck) hidden states).mixedQkvConv seq
        (w.channel rank channel) := by
  intro channel hchannel
  unfold decodeInput
  dsimp only
  rw [mixedQkvAll_slice ck w hrank]
  have hpadded : ((states seq).slice w rank).conv.columns ++ [w.sliceChannels rank
      ((World.one c).mixedQkvAll ((load (World.one c) 0 ck).project c (hidden seq)))] =
      ((states seq).conv.columns ++ [(World.one c).mixedQkvAll
        ((load (World.one c) 0 ck).project c (hidden seq))]).map (w.sliceChannels rank) := by
    rw [List.map_append]
    rfl
  rw [hpadded]
  exact convolve_slice ck w hrank _ 0 hchannel

theorem headKey_slice (seq : Nat) {head : Nat} (hhead : head < w.localNumV) :
    ∀ d < c.headKDim,
      headKey o w.heads (decodeInput w (load w rank ck) hidden fun s => (states s).slice w rank)
          seq head d =
        headKey o (World.one c).heads
          (decodeInput (World.one c) (load (World.one c) 0 ck) hidden states) seq
          (rank * w.localNumV + head) d := by
  intro d hd
  refine l2norm_congr o (fun i hi => ?_) hd
  have hkey := (conv_key w (decodeInput_conv ck w hrank hidden states seq) hhead hi).2
  rw [localKeyDim_eq, localKeyDim_eq] at hkey
  exact hkey

theorem headQuery_slice (seq : Nat) {head : Nat} (hhead : head < w.localNumV) :
    ∀ d < c.headKDim,
      headQuery o w.heads (decodeInput w (load w rank ck) hidden fun s => (states s).slice w rank)
          seq head d =
        headQuery o (World.one c).heads
          (decodeInput (World.one c) (load (World.one c) 0 ck) hidden states) seq
          (rank * w.localNumV + head) d := by
  intro d hd
  refine congrArg (· * o.scale) (l2norm_congr o (fun i hi => ?_) hd)
  exact (conv_key w (decodeInput_conv ck w hrank hidden states seq) hhead hi).1

theorem nextHeadState_slice (seq : Nat) {head a b : Nat} (hhead : head < w.localNumV)
    (ha : a < c.headKDim) (hb : b < c.headVDim) :
    nextHeadState o w.heads (decodeInput w (load w rank ck) hidden fun s => (states s).slice w rank)
        seq head a b =
      nextHeadState o (World.one c).heads
        (decodeInput (World.one c) (load (World.one c) 0 ck) hidden states) seq
        (rank * w.localNumV + head) a b := by
  have hvalue : vT w.heads
      (decodeInput w (load w rank ck) hidden fun s => (states s).slice w rank) seq head b =
      vT (World.one c).heads (decodeInput (World.one c) (load (World.one c) 0 ck) hidden states) seq
        (rank * w.localNumV + head) b := by
    have hconv := conv_value w (decodeInput_conv ck w hrank hidden states seq) hhead hb
    rw [localKeyDim_eq, localKeyDim_eq] at hconv
    exact hconv
  have htemporal : ∀ i < c.headKDim,
      (decodeInput w (load w rank ck) hidden fun s => (states s).slice w rank).temporalState
          seq head i b =
        (decodeInput (World.one c) (load (World.one c) 0 ck) hidden states).temporalState seq
          (rank * w.localNumV + head) i b := by
    intro i _
    have hslice : ((states seq).slice w rank).temporal head =
        (states seq).temporal (rank * w.localNumV + head) := narrow_apply _ hhead
    unfold decodeInput
    dsimp only
    rw [hslice]
  unfold nextHeadState
  refine (headState_congr (headKey_slice o ck w hrank hidden states seq hhead) hvalue htemporal
    ha).trans ?_
  unfold decodeInput
  dsimp only
  rw [bAll_slice ck w hrank _ hhead, aAll_slice ck w hrank _ hhead, aLog_slice ck w hrank hhead,
    dtBias_slice ck w hrank hhead]
  rfl

/-- **A rank's result for a decoded token is the slice of the unsharded result**, whatever kernels
the rank and the unsharded layer use. -/
theorem decodeSeq_slice {numSeqs : Nat} (flags flags' : Flags)
    (launches : Launches K w.heads numSeqs) (launches' : Launches K (World.one c).heads numSeqs) {seq : Nat} (hseq : seq < numSeqs) :
    decodeSeq o w (load w rank ck) (hidden seq) ((states seq).slice w rank)
        (Decode.decode o flags launches
          (decodeInput w (load w rank ck) hidden fun s => (states s).slice w rank)) seq =
      (decodeSeq o (World.one c) (load (World.one c) 0 ck) (hidden seq) (states seq)
        (Decode.decode o flags' launches'
          (decodeInput (World.one c) (load (World.one c) 0 ck) hidden states)) seq).map
        (SeqResult.slice w rank) := by
  have hhead := fun head (hhead : head < w.localNumV) b (hb : b < c.headVDim) =>
    decode_head o flags launches
      (decodeInput w (load w rank ck) hidden fun s => (states s).slice w rank) hseq
      (hhead.trans_eq (localNumV_eq w)) hb
  have hhead' := fun head (hhead : head < c.numVHeads) b (hb : b < c.headVDim) =>
    decode_head o flags' launches'
      (decodeInput (World.one c) (load (World.one c) 0 ck) hidden states) hseq
      ((hhead.trans_eq one_localNumV.symm).trans_eq (localNumV_eq (World.one c))) hb
  generalize Decode.decode o flags launches
    (decodeInput w (load w rank ck) hidden fun s => (states s).slice w rank) = r at hhead ⊢
  generalize Decode.decode o flags' launches'
    (decodeInput (World.one c) (load (World.one c) 0 ck) hidden states) = r' at hhead' ⊢
  unfold decodeSeq
  rw [mixedQkvAll_slice ck w hrank,
    show ((states seq).slice w rank).conv = (states seq).conv.map (w.sliceChannels rank) from rfl,
    causalConv1dUpdate_map]
  cases causalConv1dUpdate (states seq).conv ((World.one c).mixedQkvAll
    ((load (World.one c) 0 ck).project c (hidden seq))) with
  | none => rfl
  | some conv =>
    refine congrArg some (SeqResult.mk.injEq .. |>.mpr ⟨?_, ?_⟩)
    · funext t
      dsimp only
      refine normedRow_slice o ck w hrank (fun head hlt b hb => ?_)
        fun i hi => zAll_slice ck w hrank _ hi
      rw [(hhead head hlt b hb).2, (hhead' _ (head_lt w hrank hlt) b hb).2]
      exact headOut_congr (headQuery_slice o ck w hrank hidden states seq hlt)
        fun a ha => nextHeadState_slice o ck w hrank hidden states seq hlt ha hb
    · refine SeqState.mk.injEq .. |>.mpr ⟨rfl, ?_⟩
      funext head
      by_cases hlt : head < w.localNumV
      · have hlt' := (head_lt w hrank hlt).trans_eq one_localNumV.symm
        dsimp only
        rw [if_pos hlt, narrow_apply _ hlt, if_pos hlt']
        funext a b
        rw [(hhead head hlt b b.2).1 a a.2, (hhead' _ (head_lt w hrank hlt) b b.2).1 a a.2]
        exact nextHeadState_slice o ck w hrank hidden states seq hlt a.2 b.2
      · rw [if_neg hlt]
        exact (if_neg hlt).symm

end Sequence

/-! ## The ranks together -/

section Ranks

theorem mapM_eq_map {A B D : Type} {f : A → Option B} {g : A → Option D} {h : D → B} {l : List A}
    (hf : ∀ a ∈ l, f a = (g a).map h) : l.mapM f = (l.mapM g).map (List.map h) := by
  induction l with
  | nil => rfl
  | cons a l ih =>
    rw [List.mapM_cons, List.mapM_cons, hf a List.mem_cons_self,
      ih fun b hb => hf b (List.mem_cons_of_mem _ hb)]
    cases g a with
    | none => rfl
    | some d =>
      cases l.mapM g with
      | none => rfl
      | some ds => rfl

theorem mapM_eq_some {A B : Type} {f : A → Option B} {g : A → B} {l : List A}
    (hf : ∀ a ∈ l, f a = some (g a)) : l.mapM f = some (l.map g) := by
  induction l with
  | nil => rfl
  | cons a l ih =>
    rw [List.mapM_cons, hf a List.mem_cons_self, ih fun b hb => hf b (List.mem_cons_of_mem _ hb)]
    rfl

/-- Calls that all have a result, or all have none. -/
theorem mapM_eq_map_map {A B D : Type} {f : A → Option B} {full : Option D} {h : A → D → B}
    {l : List A} (hl : l ≠ []) (hf : ∀ a ∈ l, f a = full.map (h a)) :
    l.mapM f = full.map fun d => l.map fun a => h a d := by
  cases full with
  | some d => exact mapM_eq_some hf
  | none =>
    obtain ⟨a, l, rfl⟩ := List.exists_cons_of_ne_nil hl
    rw [List.mapM_cons, hf a List.mem_cons_self]
    rfl

variable (w : World c) (ck : Checkpoint K)

/-- The summed products of the ranks. -/
theorem rowParallel_eq {normed : Nat → Nat → Nat → K} {full : Nat → Nat → K}
    (hnormed : ∀ rank < w.tpSize, ∀ t, ∀ i < w.localValDim,
      normed rank t i = full t (rank * w.localValDim + i)) :
    rowParallel w ck normed = fun t row =>
      ∑ j ∈ Finset.range c.valueDim, ck.outProj row j * full t j := by
  funext t row
  unfold rowParallel
  rw [← size_mul_localValDim w,
    ← sum_ranks (fun j => ck.outProj row j * full t j) w.tpSize w.localValDim]
  refine Finset.sum_congr rfl fun rank hrank => Finset.sum_congr rfl fun i hi => ?_
  have hlt := Finset.mem_range.mp hi
  have hproj : (load w rank ck).outProj row i = ck.outProj row (rank * w.localValDim + i) :=
    narrow_apply _ hlt
  rw [hproj, hnormed rank (Finset.mem_range.mp hrank) t i hlt]

theorem rowParallel_one (normed : Nat → Nat → Nat → K) :
    rowParallel (World.one c) ck normed = fun t row =>
      ∑ j ∈ Finset.range c.valueDim, ck.outProj row j * normed 0 t j := by
  refine rowParallel_eq (World.one c) ck fun rank hrank t i _ => ?_
  obtain rfl : rank = 0 := Nat.lt_one_iff.mp hrank
  rw [Nat.zero_mul, Nat.zero_add]

/-- What the ranks give to `out_proj` for a sequence. -/
theorem normed_slice (full : List (SeqResult K c)) (rank seq t : Nat) {i : Nat}
    (hi : i < w.localValDim) :
    ((full.map (SeqResult.slice w rank)).map (·.normed)).getD seq 0 t i =
      (full.map (·.normed)).getD seq 0 t (rank * w.localValDim + i) := by
  rw [List.map_map, List.getD_eq_getElem?_getD, List.getD_eq_getElem?_getD, List.getElem?_map,
    List.getElem?_map]
  cases full[seq]? with
  | none => rfl
  | some r => exact narrow_apply _ hi

/-- **Ranks whose results are the slices of those of the unsharded layer.** -/
theorem ranks_slice (numSeqs : Nat) {forward forward' : Nat → Option (List (SeqResult K c))}
    (hforward : ∀ rank < w.tpSize,
      forward rank = (forward' 0).map (List.map (SeqResult.slice w rank))) :
    ranks w ck numSeqs forward = (ranks (World.one c) ck numSeqs forward').map fun r =>
      (r.1, (List.range w.tpSize).map fun rank => (r.2.headD []).map (SeqState.slice w rank)) := by
  have hranks : (List.range w.tpSize).mapM forward = (forward' 0).map fun full =>
      (List.range w.tpSize).map fun rank => full.map (SeqResult.slice w rank) :=
    mapM_eq_map_map (fun h => w.tpSize_pos.ne' (List.range_eq_nil.mp h)) fun rank hrank =>
      hforward rank (List.mem_range.mp hrank)
  have hone : (List.range (World.one c).tpSize).mapM forward' = (forward' 0).map ([·]) := by
    rw [show List.range (World.one c).tpSize = [0] from rfl, List.mapM_cons, List.mapM_nil]
    cases forward' 0 <;> rfl
  unfold ranks
  rw [hranks, hone]
  cases forward' 0 with
  | none => rfl
  | some full =>
    refine congrArg some (Prod.ext ?_ ?_)
    · refine List.map_congr_left fun seq _ => ?_
      refine (rowParallel_eq w ck fun rank hrank t i hi => ?_).trans
        (rowParallel_one ck _).symm
      have hget : ((List.range w.tpSize).map fun rank =>
          full.map (SeqResult.slice w rank)).getD rank [] = full.map (SeqResult.slice w rank) := by
        rw [List.getD_eq_getElem?_getD, List.getElem?_map, List.getElem?_range hrank]
        rfl
      dsimp only
      rw [hget]
      exact normed_slice w full rank seq t hi
    · rw [List.map_map]
      refine List.map_congr_left fun rank _ => ?_
      show (full.map (SeqResult.slice w rank)).map (·.state) =
        (full.map (·.state)).map (SeqState.slice w rank)
      rw [List.map_map, List.map_map]
      rfl

end Ranks

/-- **Tensor parallelism.** Where each rank starts from its slices of the states, the ranks' outputs
together are those of the unsharded layer, and each rank ends with its slices of the new states. -/
theorem tensorParallel_eq (o : Arith K) (w : World c) (ck : Checkpoint K) (numSeqs : Nat)
    (states : Nat → SeqState K c) :
    (∀ (dnnChunkSize : Nat) (offsets : List Nat) (hidden : Nat → List (Nat → K)),
      prefill o w ck dnnChunkSize offsets numSeqs hidden
          (fun rank seq => (states seq).slice w rank) =
        (prefill o (World.one c) ck dnnChunkSize offsets numSeqs hidden fun _ => states).map
          fun r => (r.1, (List.range w.tpSize).map fun rank =>
            (r.2.headD []).map (SeqState.slice w rank))) ∧
    ∀ (flags flags' : Nat → Flags) (launches : Nat → Launches K w.heads numSeqs)
      (launches' : Nat → Launches K (World.one c).heads numSeqs) (hidden : Nat → Nat → K),
      decode o w ck numSeqs flags launches hidden (fun rank seq => (states seq).slice w rank) =
        (decode o (World.one c) ck numSeqs flags' launches' hidden fun _ => states).map
          fun r => (r.1, (List.range w.tpSize).map fun rank =>
            (r.2.headD []).map (SeqState.slice w rank)) := by
  constructor
  · intro dnnChunkSize offsets hidden
    refine ranks_slice w ck numSeqs fun rank hrank => mapM_eq_map fun seq _ => ?_
    exact prefillSeq_slice o ck w hrank dnnChunkSize _ (hidden seq) (states seq)
  · intro flags flags' launches launches' hidden
    refine ranks_slice w ck numSeqs fun rank hrank => mapM_eq_map fun seq hseq => ?_
    exact decodeSeq_slice o ck w hrank hidden states (flags rank) (flags' 0) (launches rank)
      (launches' 0) (List.mem_range.mp hseq)

end Layer

end Bi100.Gdn
