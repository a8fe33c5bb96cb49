import Bi100.Gdn.ConvState
import Bi100.Gdn.Decode
import Bi100.Lib.Shards

/-!
# `GatedDeltaNet` on the ranks (`qwen3_5.py`)

The loaders, and `forward` from the hidden states to `out_proj`, for a rank of a tensor-parallel
group; the unsharded layer is the same code with a world of one rank. A tensor is zero outside of its
shape. `MergedColumnParallelLinear` and `RowParallelLinear` are as in vLLM: a rank has the slice of
its number of each logical output, and the ranks' products are summed.

The kernels for the convolution of a decode, the gated norm and a chunk of the delta rule compute the
expressions of the Python code, and are left out; so is the capture of states.
-/

namespace Bi100.Gdn.Layer

open Decode ExpField

variable {K : Type} [ExpField K]

/-- `text_cfg` -/
structure Config where
  hiddenSize : Nat
  numKHeads : Nat
  numVHeads : Nat
  headKDim : Nat
  headVDim : Nat
  convKernelSize : Nat
  numKHeads_pos : 0 < numKHeads
  numVHeads_pos : 0 < numVHeads
  heads_dvd : numKHeads ∣ numVHeads

variable {c : Config}

def Config.keyDim (c : Config) : Nat := c.numKHeads * c.headKDim

def Config.valueDim (c : Config) : Nat := c.numVHeads * c.headVDim

def Config.convDim (c : Config) : Nat := c.keyDim * 2 + c.valueDim

def Config.headExpandRatio (c : Config) : Nat := c.numVHeads / c.numKHeads

/-- A tensor-parallel group that divides the heads. -/
structure World (c : Config) where
  tpSize : Nat
  tpSize_pos : 0 < tpSize
  tpSize_dvd : tpSize ∣ c.numKHeads

/-- The unsharded layer. -/
def World.one (c : Config) : World c := ⟨1, Nat.one_pos, Nat.one_dvd _⟩

def World.localKeyDim (w : World c) : Nat := c.keyDim / w.tpSize

def World.localValDim (w : World c) : Nat := c.valueDim / w.tpSize

def World.localNumV (w : World c) : Nat := c.numVHeads / w.tpSize

def World.localConvDim (w : World c) : Nat := c.convDim / w.tpSize

theorem Config.headExpandRatio_pos (c : Config) : 0 < c.headExpandRatio :=
  Nat.div_pos (Nat.le_of_dvd c.numVHeads_pos c.heads_dvd) c.numKHeads_pos

/-- The sizes of a rank. -/
def World.heads (w : World c) : Heads where
  localNumK := c.numKHeads / w.tpSize
  headExpandRatio := c.headExpandRatio
  headKDim := c.headKDim
  headVDim := c.headVDim
  localNumK_pos := Nat.div_pos (Nat.le_of_dvd c.numKHeads_pos w.tpSize_dvd) w.tpSize_pos
  headExpandRatio_pos := c.headExpandRatio_pos

/-! ## Loading -/

/-- The weights of the checkpoint, by row; `normEps` is `rms_norm_eps`. -/
structure Checkpoint (K : Type) where
  inProjQkv : Nat → Nat → K
  inProjZ : Nat → Nat → K
  inProjB : Nat → Nat → K
  inProjA : Nat → Nat → K
  conv1d : Nat → Nat → K
  aLog : Nat → K
  dtBias : Nat → K
  norm : Nat → K
  normEps : K
  outProj : Nat → Nat → K

/-- The parameters of a rank. -/
structure Params (K : Type) where
  inProjQkvzba : Nat → Nat → K
  conv1dWeight : Nat → Nat → K
  aLog : Nat → K
  dtBias : Nat → K
  norm : Nat → K
  normEps : K
  outProj : Nat → Nat → K

/-- The logical outputs of the fused projection, as `_load_gdn_projection_weight` cuts them. -/
def Checkpoint.projections (ck : Checkpoint K) (c : Config) : List (Nat × (Nat → Nat → K)) :=
  [(c.keyDim, ck.inProjQkv),
    (c.keyDim, fun i => ck.inProjQkv (c.keyDim + i)),
    (c.valueDim, fun i => ck.inProjQkv (c.keyDim + c.keyDim + i)),
    (c.valueDim, ck.inProjZ),
    (c.numVHeads, ck.inProjB),
    (c.numVHeads, ck.inProjA)]

/-- `_conv1d_weight_loader` -/
def conv1dWeightLoader (w : World c) (tpRank : Nat) (loadedWeight : Nat → Nat → K) : Nat → Nat → K :=
  let keyLocal := c.keyDim / w.tpSize
  let valLocal := c.valueDim / w.tpSize
  cat [(keyLocal, fun i => loadedWeight (tpRank * keyLocal + i)),
    (keyLocal, fun i => loadedWeight (c.keyDim + tpRank * keyLocal + i)),
    (valLocal, fun i => loadedWeight (2 * c.keyDim + tpRank * valLocal + i))]

def load (w : World c) (tpRank : Nat) (ck : Checkpoint K) : Params K where
  inProjQkvzba := cat (shards w.tpSize tpRank (ck.projections c))
  conv1dWeight := conv1dWeightLoader w tpRank ck.conv1d
  aLog := narrow (tpRank * w.localNumV) w.localNumV ck.aLog
  dtBias := narrow (tpRank * w.localNumV) w.localNumV ck.dtBias
  norm := ck.norm
  normEps := ck.normEps
  outProj := fun row => narrow (tpRank * w.localValDim) w.localValDim (ck.outProj row)

/-! ## The parts of `forward` -/

/-- What a rank keeps for a sequence. -/
structure SeqState (K : Type) (c : Config) where
  conv : ConvState (Nat → K) (c.convKernelSize - 1)
  temporal : Nat → State K c.headKDim c.headVDim

/-- The rows that a rank gives to `out_proj`, and the state it leaves. -/
structure SeqResult (K : Type) (c : Config) where
  normed : Nat → Nat → K
  state : SeqState K c

/-- `in_proj_qkvzba` -/
def Params.project (p : Params K) (c : Config) (hidden : Nat → K) : Nat → K := fun row =>
  ∑ j ∈ Finset.range c.hiddenSize, p.inProjQkvzba row j * hidden j

def World.mixedQkvAll (w : World c) : (Nat → K) → Nat → K := narrow 0 w.localConvDim

def World.zAll (w : World c) : (Nat → K) → Nat → K := narrow w.localConvDim w.localValDim

def World.bAll (w : World c) : (Nat → K) → Nat → K :=
  narrow (w.localConvDim + w.localValDim) w.localNumV

def World.aAll (w : World c) : (Nat → K) → Nat → K :=
  narrow (w.localConvDim + w.localValDim + w.localNumV) w.localNumV

def silu (x : K) : K := x * sigmoid x

/-- A column of `F.silu(F.conv1d(...))`. -/
def Params.convolve (p : Params K) (c : Config) (padded : List (Nat → K)) (t : Nat) : Nat → K :=
  fun channel => silu (∑ j ∈ Finset.range c.convKernelSize,
    p.conv1dWeight channel j * padded.getD (t + j) 0 channel)

/-- `Qwen3_5RMSNormGated` -/
def Params.normGated (p : Params K) (o : Arith K) (c : Config) (hiddenStates gate : Nat → K) :
    Nat → K := fun d =>
  let variance := (∑ i ∈ Finset.range c.headVDim, hiddenStates i * hiddenStates i) / c.headVDim
  p.norm d * (hiddenStates d * o.rsqrt (variance + p.normEps)) * silu (gate d)

/-- The gate and the norm of a token, for `core_out` by head. -/
def normedRow (o : Arith K) (w : World c) (p : Params K) (coreOut : Nat → Nat → K) (z : Nat → K) :
    Nat → K := fun i =>
  if i < w.localValDim then
    let head := i / c.headVDim
    p.normGated o c (coreOut head) (fun d => z (head * c.headVDim + d)) (i % c.headVDim)
  else 0

/-- `RowParallelLinear`, for what the ranks give to it. -/
def rowParallel (w : World c) (ck : Checkpoint K) (normed : Nat → Nat → Nat → K) :
    Nat → Nat → K := fun t row =>
  ∑ rank ∈ Finset.range w.tpSize, ∑ i ∈ Finset.range w.localValDim,
    (load w rank ck).outProj row i * normed rank t i

/-- The ranks of a call: the outputs of the sequences, and what each rank keeps. -/
def ranks (w : World c) (ck : Checkpoint K) (numSeqs : Nat)
    (forward : Nat → Option (List (SeqResult K c))) :
    Option (List (Nat → Nat → K) × List (List (SeqState K c))) := do
  let results ← (List.range w.tpSize).mapM forward
  let normed := fun seq rank => ((results.getD rank []).map (·.normed)).getD seq 0
  pure ((List.range numSeqs).map fun seq => rowParallel w ck (normed seq),
    results.map fun result => result.map (·.state))

/-! ## Prefill -/

/-- What a token gives to a value head. -/
def prefillToken (o : Arith K) (w : World c) (p : Params K) (head : Nat) (conv projected : Nat → K) :
    Token K c.headKDim c.headVDim where
  query := fun a => conv (head / c.headExpandRatio * c.headKDim + a)
  key := fun a => conv (w.localKeyDim + (head / c.headExpandRatio * c.headKDim + a))
  value := fun b => conv (w.localKeyDim + w.localKeyDim + (head * c.headVDim + b))
  g := -exp (p.aLog head) * o.softplus (w.aAll projected head + p.dtBias head)
  beta := sigmoid (w.bAll projected head)

/-- `chunk_size` of `_torch_chunk_gated_delta_rule` -/
def chunkSize : Nat := 64

/-- The loop over `segment_ends` for a value head. -/
def prefillHead (o : Arith K) (w : World c) (p : Params K) (segmentEnds : List Nat)
    (convs projected : List (Nat → K)) (st : SeqState K c) (head : Nat) :
    List (Out K c.headVDim) × State K c.headKDim c.headVDim :=
  let tokens := List.zipWith (prefillToken o w p head) convs projected
  let (coreOut, curState, _) := segmentLoop (kernelNorm o c.headKDim) chunkSize tokens 0 segmentEnds
    (some (st.temporal head))
  (coreOut, curState.getD (st.temporal head))

/-- An iteration of the loop over the sequences. -/
def prefillSeq (o : Arith K) (w : World c) (p : Params K) (dnnChunkSize : Nat) (offsets : List Nat)
    (hidden : List (Nat → K)) (st : SeqState K c) : Option (SeqResult K c) := do
  let projected := hidden.map (p.project c)
  let mixedQkv := projected.map w.mixedQkvAll
  let conv ← saveConvState st.conv mixedQkv
  let padded := st.conv.columns ++ mixedQkv
  let convs := (List.range hidden.length).map (p.convolve c padded)
  let segmentEnds := gdnSegmentEnds hidden.length dnnChunkSize offsets
  let run := prefillHead o w p segmentEnds convs projected st
  let coreOut := fun t head d =>
    if h : d < c.headVDim then (run head).1.getD t 0 ⟨d, h⟩ else 0
  pure
    { normed := fun t => normedRow o w p (coreOut t) (w.zAll (projected.getD t 0))
      state :=
        { conv := conv
          temporal := fun head => if head < w.localNumV then (run head).2 else 0 } }

/-- The prefill branch on all ranks. `offsets` are the capture and segment offsets, which are those of
the first sequence. -/
def prefill (o : Arith K) (w : World c) (ck : Checkpoint K) (dnnChunkSize : Nat) (offsets : List Nat)
    (numSeqs : Nat) (hidden : Nat → List (Nat → K)) (states : Nat → Nat → SeqState K c) :
    Option (List (Nat → Nat → K) × List (List (SeqState K c))) :=
  ranks w ck numSeqs fun rank => (List.range numSeqs).mapM fun si =>
    prefillSeq o w (load w rank ck) dnnChunkSize (if si = 0 then offsets else []) (hidden si)
      (states rank si)

/-! ## Decode -/

/-- What the decode branch has after the convolution. -/
def decodeInput (w : World c) (p : Params K) (hidden : Nat → Nat → K)
    (states : Nat → SeqState K c) : Decode.Input K where
  mixedQkvConv seq :=
    p.convolve c ((states seq).conv.columns ++ [w.mixedQkvAll (p.project c (hidden seq))]) 0
  bAll seq := w.bAll (p.project c (hidden seq))
  aAll seq := w.aAll (p.project c (hidden seq))
  aLog := p.aLog
  dtBias := p.dtBias
  temporalState seq head a b :=
    if h : a < c.headKDim ∧ b < c.headVDim then (states seq).temporal head ⟨a, h.1⟩ ⟨b, h.2⟩ else 0

/-- The result of the decode branch for a sequence. -/
def decodeSeq (o : Arith K) (w : World c) (p : Params K) (hidden : Nat → K) (st : SeqState K c)
    (r : Decode.Output K) (seq : Nat) : Option (SeqResult K c) := do
  let conv ← causalConv1dUpdate st.conv (w.mixedQkvAll (p.project c hidden))
  pure
    { normed := fun _ => normedRow o w p (r.coreOut seq) (w.zAll (p.project c hidden))
      state :=
        { conv := conv
          temporal := fun head =>
            if head < w.localNumV then fun a b => r.temporalState seq head a b else 0 } }

/-- The decode branch on all ranks, each with its kernels. -/
def decode (o : Arith K) (w : World c) (ck : Checkpoint K) (numSeqs : Nat) (flags : Nat → Flags)
    (launches : Nat → Launches K w.heads numSeqs) (hidden : Nat → Nat → K)
    (states : Nat → Nat → SeqState K c) :
    Option (List (Nat → Nat → K) × List (List (SeqState K c))) :=
  ranks w ck numSeqs fun rank =>
    let p := load w rank ck
    let r := Decode.decode o (flags rank) (launches rank) (decodeInput w p hidden (states rank))
    (List.range numSeqs).mapM fun seq => decodeSeq o w p (hidden seq) (states rank seq) r seq

end Bi100.Gdn.Layer
