import Bi100.Lib.ExpField
import Bi100.Lib.Slices

/-!
# `CoreXGDN` (`corex_gdn.py`)

The GatedDeltaNet operator of `ex_engine`, for one sequence. The arithmetic is exact, and so are the
conversions to `float16` and `float32`. The projections, the norm and the output projection are
functions of a row, as they are modules of the caller; `sqrt` and `softplus` are parameters.

A vector of a key head is `Nat → Fin headKDim → K`, where the heads from `numKHeads` on have no
meaning. `none` is an exception of torch.
-/

namespace Bi100.Gdn.CoreX

open ExpField

variable {K : Type} [ExpOrderedField K]

/-- The arguments of `CoreXGDN.__init__`. -/
structure Sizes where
  numVHeads : Nat
  numKHeads : Nat
  headKDim : Nat
  headVDim : Nat
  convKernelSize : Nat
  numVHeads_pos : 0 < numVHeads
  numKHeads_pos : 0 < numKHeads
  headKDim_pos : 0 < headKDim
  headVDim_pos : 0 < headVDim
  convKernelSize_pos : 0 < convKernelSize

variable {s : Sizes}

def Sizes.headExpandRatio (s : Sizes) : Nat := s.numVHeads / s.numKHeads

/-- The heads of `k` after `repeat_interleave`. -/
def Sizes.expandedHeads (s : Sizes) : Nat :=
  if 1 < s.headExpandRatio then s.numKHeads * s.headExpandRatio else s.numKHeads

/-- `self.chunk_size` -/
def chunkSize : Nat := 16

/-- A vector for each key head. -/
abbrev Keys (K : Type) (s : Sizes) := Nat → Fin s.headKDim → K

/-- A row of `num_v_heads * head_v_dim` numbers, by head. -/
abbrev Row (K : Type) (s : Sizes) := Fin s.numVHeads → Fin s.headVDim → K

/-- `temporal_state` -/
abbrev State (K : Type) (s : Sizes) := Fin s.numVHeads → Fin s.headKDim → Fin s.headVDim → K

/-- `conv_state`, its second axis first. -/
abbrev ConvState (K : Type) (s : Sizes) := Fin s.convKernelSize → Keys K s

/-- The other arguments of `forward`: the same ones in every call of a layer. -/
structure Layer (K : Type) (s : Sizes) where
  inProjQkv : (Nat → K) → Nat → K
  inProjZ : (Nat → K) → Nat → K
  inProjB : (Nat → K) → Nat → K
  inProjA : (Nat → K) → Nat → K
  conv1dWeight : Nat → Nat → K
  aLog : Nat → K
  dtBias : Nat → K
  norm : Row K s → Row K s
  outProj : Row K s → Nat → K

/-! ## Projections, gate and activations -/

/-- The projections of a token. -/
structure Projected (K : Type) (s : Sizes) where
  q : Keys K s
  k : Keys K s
  v : Row K s
  z : Row K s
  b : Nat → K
  a : Nat → K

def Layer.project (layer : Layer K s) (hidden : Nat → K) : Projected K s :=
  let qkv := layer.inProjQkv hidden
  let nkKd := s.numKHeads * s.headKDim
  { q := fun h d => qkv (h * s.headKDim + d)
    k := fun h d => qkv (nkKd + (h * s.headKDim + d))
    v := fun h d => qkv (nkKd * 2 + (h * s.headVDim + d))
    z := fun h d => layer.inProjZ hidden (h * s.headVDim + d)
    b := layer.inProjB hidden
    a := layer.inProjA hidden }

def sigmoid (x : K) : K := 1 / (1 + exp (-x))

/-- `F.silu` -/
def silu (x : K) : K := x * sigmoid x

/-- `torch.clamp` -/
def clamp (lo hi x : K) : K := min (max x lo) hi

/-- `F.normalize` with `p = 2` -/
def normalize (sqrt : K → K) {n : Nat} (x : Fin n → K) : Fin n → K := fun d =>
  x d / max (sqrt (∑ d, x d * x d)) (1 / 10 ^ 12)

/-- What a token gives to the delta rule. -/
structure Token (K : Type) (s : Sizes) where
  q : Keys K s
  k : Keys K s
  v : Row K s
  gate : Nat → K
  beta : Nat → K

/-- The SiLU of `k` after the convolution, and step 3. -/
def Layer.token (layer : Layer K s) (sqrt softplus : K → K) (p : Projected K s) (k : Keys K s) :
    Token K s where
  q := fun h => normalize sqrt (p.q h)
  k := fun h => normalize sqrt fun d => silu (k h d)
  v := p.v
  gate := fun h => -softplus (layer.aLog h) * min (softplus (p.a h + layer.dtBias h)) 10
  beta := fun h => sigmoid (p.b h)

/-! ## The short convolution -/

/-- The convolution of the prefill branch. `F.conv1d` has a weight for one channel and no groups, so
it raises for the `kd` channels of a head unless there is one. -/
def Layer.prefillConv (layer : Layer K s) (ks : List (Keys K s)) : Option (List (Keys K s)) :=
  let khPad := List.replicate (s.convKernelSize - 1) 0 ++ ks
  if s.headKDim = 1 then
    some ((List.range ks.length).map fun t h d =>
      ∑ j ∈ Finset.range s.convKernelSize, layer.conv1dWeight h j * khPad.getD (t + j) 0 h d)
  else none

/-- `conv_state.copy_(k[-self.conv_kernel_size:].transpose(0, 1))`, where `k` is the result of the
convolution. -/
def saveConvState (convState : ConvState K s) (k : List (Keys K s)) : ConvState K s :=
  if s.convKernelSize ≤ k.length then fun i => k.getD (k.length - s.convKernelSize + i) 0
  else convState

/-- `torch.roll(conv_state, -1, dims=1)`, with `k` written to the last column. -/
def rolled (convState : ConvState K s) (k : Keys K s) : ConvState K s := fun i =>
  if h : i + 1 < s.convKernelSize then convState ⟨i + 1, h⟩ else k

/-- `k` of the decode branch. The rolled state is a new tensor. -/
def Layer.decodeConv (layer : Layer K s) (convState : Option (ConvState K s)) (k : Keys K s) :
    Keys K s :=
  match convState with
  | some convState => fun h d => ∑ i, rolled convState k i h d * layer.conv1dWeight h i
  | none => k

/-! ## The gated delta rule -/

/-- `repeat_interleave(self.head_expand_ratio)` -/
def repeatInterleave {α : Type} (x : Nat → α) : Fin s.numVHeads → α := fun h =>
  x (h / s.headExpandRatio)

/-- `temporal_state`, or zeros. -/
def initialState (initial : Option (State K s)) : State K s := initial.getD 0

/-- An iteration of `_chunk_gated_delta`. The caller has expanded `kt`. -/
def chunkStep (state : State K s) (t : Token K s) (kt : Fin s.numVHeads → Fin s.headKDim → K) :
    State K s × Row K s :=
  let gt : Fin s.numVHeads → K :=
    if s.numKHeads ≠ s.numVHeads then repeatInterleave t.gate else fun h => t.gate h
  let bt : Fin s.numVHeads → K :=
    if s.numKHeads ≠ s.numVHeads then repeatInterleave t.beta else fun h => t.beta h
  let decay := fun h => exp (clamp (-5) 0 (gt h))
  let state : State K s := fun h d e =>
    clamp (-100) 100 (decay h * state h d e + bt h * (kt h d * t.v h e))
  let qt : Fin s.numVHeads → Fin s.headKDim → K :=
    if s.numKHeads = s.numVHeads then fun h => t.q h else repeatInterleave t.q
  (state, fun h e => clamp (-10 ^ 4) (10 ^ 4) (∑ d, qt h d * state h d e))

/-- `_chunk_gated_delta`: the outputs and the state. -/
def chunkGatedDelta (tokens : List (Token K s)) (initial : Option (State K s)) :
    Option (List (Row K s) × State K s) :=
  let k : List (Fin s.numVHeads → Fin s.headKDim → K) := tokens.map fun t =>
    if 1 < s.headExpandRatio then repeatInterleave t.k else fun h => t.k h
  if s.expandedHeads = s.numVHeads then
    some ((List.range ((tokens.length + chunkSize - 1) / chunkSize)).foldl (fun acc c =>
      let start := c * chunkSize
      let stop := min (start + chunkSize) tokens.length
      (slice (tokens.zip k) start stop).foldl (fun (outputs, state) (t, kt) =>
        let (state, out) := chunkStep state t kt
        (outputs ++ [out], state)) acc) ([], initialState initial))
  else none

/-- `_single_step_decode` -/
def singleStepDecode (t : Token K s) (temporalState : Option (State K s)) :
    Option (Row K s × State K s) :=
  let k : Fin s.numVHeads → Fin s.headKDim → K :=
    if 1 < s.headExpandRatio then repeatInterleave t.k else fun h => t.k h
  let q : Fin s.numVHeads → Fin s.headKDim → K :=
    if 1 < s.headExpandRatio then repeatInterleave t.q else fun h => t.q h
  let gt : Fin s.numVHeads → K :=
    if s.numKHeads ≠ s.numVHeads then repeatInterleave t.gate else fun h => t.gate h
  let bt : Fin s.numVHeads → K :=
    if s.numKHeads ≠ s.numVHeads then repeatInterleave t.beta else fun h => t.beta h
  if s.expandedHeads = s.numVHeads then
    let decay := fun h => exp (clamp (-5) 0 (gt h))
    let temporalState : State K s := fun h d e =>
      clamp (-100) 100 (decay h * initialState temporalState h d e + bt h * (k h d * t.v h e))
    some (fun h e => clamp (-10 ^ 4) (10 ^ 4) (∑ d, q h d * temporalState h d e), temporalState)
  else none

/-! ## `forward` -/

/-- Step 5: the output gate, the norm and the projection. -/
def Layer.finish (layer : Layer K s) (p : Projected K s) (output : Row K s) : Nat → K :=
  layer.outProj (layer.norm fun h e => output h e * silu (p.z h e))

/-- What a call returns, and what it leaves in the caller's `conv_state`. -/
structure Result (K : Type) (s : Sizes) where
  outputs : List (Nat → K)
  temporalState : State K s
  convState : Option (ConvState K s)

/-- `forward` with `num_prefill_tokens > 0` -/
def Layer.prefill (layer : Layer K s) (sqrt softplus : K → K) (hiddenStates : List (Nat → K))
    (convState : Option (ConvState K s)) (temporalState : Option (State K s)) :
    Option (Result K s) := do
  let projected := hiddenStates.map layer.project
  let k ← layer.prefillConv (projected.map (·.k))
  let tokens := List.zipWith (layer.token sqrt softplus) projected k
  let (output, temporalState) ← chunkGatedDelta tokens temporalState
  pure { outputs := List.zipWith layer.finish projected output
         temporalState := temporalState
         convState := convState.map fun convState => saveConvState convState k }

/-- `forward` of a single token with `num_prefill_tokens = 0` -/
def Layer.decode (layer : Layer K s) (sqrt softplus : K → K) (hidden : Nat → K)
    (convState : Option (ConvState K s)) (temporalState : Option (State K s)) :
    Option (Result K s) := do
  let p := layer.project hidden
  let k := layer.decodeConv convState p.k
  let (output, temporalState) ← singleStepDecode (layer.token sqrt softplus p k) temporalState
  pure { outputs := [layer.finish p output], temporalState := temporalState, convState := convState }

/-- Decodes of one token each, which carry both states on. -/
def Layer.decodes (layer : Layer K s) (sqrt softplus : K → K) :
    List (Nat → K) → Option (ConvState K s) → Option (State K s) →
      Option (List (Nat → K) × Option (State K s))
  | [], _, temporalState => some ([], temporalState)
  | hidden :: rest, convState, temporalState => do
    let r ← layer.decode sqrt softplus hidden convState temporalState
    let (outputs, last) ← layer.decodes sqrt softplus rest r.convState (some r.temporalState)
    pure (r.outputs ++ outputs, last)

end Bi100.Gdn.CoreX
