import Bi100.Gdn.DeltaRule
import Bi100.Gdn.PackedDecode
import Bi100.Lib.Layout

/-!
# The decode branch of `GatedDeltaNet.forward` (`qwen3_5.py`)

From the convolution to `core_out`, with the kernels it may call (`corex_gdn_qk_map.cu`,
`corex_gdn_beta_decay.cu`, `corex_gdn_packed_decode.cu`). A tensor is a function of its indices; what
is outside of its shape has no meaning. A kernel gets the memory of contiguous tensors, and its
threads run in the order of the launch.

The index arithmetic of the kernels is exact: the state has 128 numbers for each element that
`qk_map` writes to, so their number is far from `2 ^ 31`.
-/

namespace Bi100.Gdn

open ExpField

variable {K : Type} [ExpField K]

/-- The sizes of a rank. -/
structure Heads where
  localNumK : Nat
  headExpandRatio : Nat
  headKDim : Nat
  headVDim : Nat
  localNumK_pos : 0 < localNumK
  headExpandRatio_pos : 0 < headExpandRatio

def Heads.localNumV (h : Heads) : Nat := h.localNumK * h.headExpandRatio

def Heads.localKeyDim (h : Heads) : Nat := h.localNumK * h.headKDim

def Heads.localValDim (h : Heads) : Nat := h.localNumV * h.headVDim

namespace Decode

/-- What the branch has after the convolution, for each sequence. -/
structure Input (K : Type) where
  mixedQkvConv : Nat → Nat → K
  bAll : Nat → Nat → K
  aAll : Nat → Nat → K
  aLog : Nat → K
  dtBias : Nat → K
  temporalState : Nat → Nat → Nat → Nat → K

structure Output (K : Type) where
  coreOut : Nat → Nat → Nat → K
  temporalState : Nat → Nat → Nat → Nat → K

/-- `_USE_COREX_GDN_*`, with the conditions on types and contiguity that go with each. -/
structure Flags where
  packedDecode : Bool
  betaDecay : Bool
  qkMap : Bool
  combinedQkNorm : Bool

/-! ## The kernels -/

/-- A launch of one thread for each element: the order of the threads, and the memory of
`torch::empty`. -/
structure Grid (K : Type) (elements threads : Nat) where
  order : List Nat
  uninit : Nat → K
  order_perm : order.Perm (List.range ((elements + threads - 1) / threads * threads))

/-- A thread writes an element of each half of the output. -/
def halves (elements : Nat) (first second : Nat → K) (order : List Nat) (output : Nat → K) :
    Nat → K :=
  order.foldl (fun output index =>
    if elements ≤ index then output
    else Function.update (Function.update output index (first index)) (elements + index)
      (second index)) output

/-- `kHeadDim` of `corex_gdn_qk_map.cu` -/
def kHeadDim : Nat := 128

/-- `source` of a thread of `qk_map_kernel`. -/
def qkSource (keyHeads valueHeads expandRatio index : Nat) : Nat :=
  let dim := index % kHeadDim
  let valueHeadIndex := index / kHeadDim
  let valueHead := valueHeadIndex % valueHeads
  let batchIndex := valueHeadIndex / valueHeads
  let keyHead := valueHead / expandRatio
  (batchIndex * keyHeads + keyHead) * kHeadDim + dim

def qkMapKernel (o : Arith K) (query key : Nat → K) (batch keyHeads valueHeads expandRatio : Nat)
    (order : List Nat) (output : Nat → K) : Nat → K :=
  let source := qkSource keyHeads valueHeads expandRatio
  halves (batch * valueHeads * kHeadDim) (fun index => query (source index) * o.scale)
    (fun index => key (source index)) order output

/-- `qk_map`: `output[0]` and `output[1]`. -/
def qkMap (o : Arith K) (query key : Nat → Nat → Nat → K) (batch keyHeads valueHeads : Nat)
    (grid : Grid K (batch * valueHeads * kHeadDim) 256) :
    (Nat → Nat → Nat → K) × (Nat → Nat → Nat → K) :=
  let memory := fun t : Nat → Nat → Nat → K => flatten kHeadDim (flatten keyHeads t)
  let output := qkMapKernel o (memory query) (memory key) batch keyHeads valueHeads
    (valueHeads / keyHeads) grid.order grid.uninit
  let tensor := fun x : Nat → K => unflatten valueHeads (unflatten kHeadDim x)
  (tensor output, tensor fun i => output (batch * valueHeads * kHeadDim + i))

def betaDecayKernel (o : Arith K) (betaInput decayInput aLog dtBias : Nat → K)
    (elements heads : Nat) (order : List Nat) (output : Nat → K) : Nat → K :=
  halves elements (fun index => 1 / (1 + exp (-betaInput index)))
    (fun index => exp (-exp (aLog (index % heads)) *
      o.softplus (decayInput index + dtBias (index % heads)))) order output

/-- `beta_decay`: `output[0]` and `output[1]`. -/
def betaDecay (o : Arith K) (betaInput decayInput : Nat → Nat → K) (aLog dtBias : Nat → K)
    (batch heads : Nat) (grid : Grid K (batch * heads) 128) :
    (Nat → Nat → K) × (Nat → Nat → K) :=
  let output := betaDecayKernel o (flatten heads betaInput) (flatten heads decayInput) aLog dtBias
    (batch * heads) heads grid.order grid.uninit
  (unflatten heads output, unflatten heads fun i => output (batch * heads + i))

/-! ## The branch -/

/-- `_l2norm` -/
def l2norm (o : Arith K) (n : Nat) (x : Nat → K) : Nat → K := fun d =>
  x d * o.rsqrt ((∑ i ∈ Finset.range n, x i * x i) + o.eps)

/-- The constants of the rules for whole sequences, with `use_qk_l2norm_in_kernel`. -/
def kernelNorm (o : Arith K) (dk : Nat) : Norm K dk where
  l2norm x := fun a => x a * o.rsqrt ((∑ i, x i * x i) + o.eps)
  scale := o.scale
  useQkL2norm := true

def sigmoid (x : K) : K := 1 / (1 + exp (-x))

/-- The launches that a call may make. -/
structure Launches (K : Type) (h : Heads) (numSeqs : Nat) where
  qkMap : Grid K (numSeqs * h.localNumV * kHeadDim) 256
  betaDecay : Grid K (numSeqs * h.localNumV) 128
  packed : PackedDecode.Launch K

/-- The threads of each launch one after the other. -/
def Grid.sequential (elements threads : Nat) : Grid K elements threads where
  order := List.range ((elements + threads - 1) / threads * threads)
  uninit := 0
  order_perm := .refl _

def Launches.sequential (h : Heads) (numSeqs : Nat) : Launches K h numSeqs where
  qkMap := Grid.sequential _ _
  betaDecay := Grid.sequential _ _
  packed := PackedDecode.Launch.sequential

variable {h : Heads} {numSeqs : Nat}

/-- `bt` and `g_t` -/
def coefficients (o : Arith K) (flags : Flags) (launches : Launches K h numSeqs) (x : Input K) :
    (Nat → Nat → K) × (Nat → Nat → K) :=
  if flags.betaDecay then
    betaDecay o x.bAll x.aAll x.aLog x.dtBias numSeqs h.localNumV launches.betaDecay
  else
    let beta := fun seq head => sigmoid (x.bAll seq head)
    let g := fun seq head => -exp (x.aLog head) * o.softplus (x.aAll seq head + x.dtBias head)
    (beta, fun seq head => exp (g seq head))

/-- `repeat_interleave(self.head_expand_ratio, dim=1)` -/
def repeatInterleave (h : Heads) (x : Nat → Nat → Nat → K) : Nat → Nat → Nat → K :=
  fun seq head => x seq (head / h.headExpandRatio)

/-- `q_raw` -/
def qRaw (h : Heads) (x : Input K) : Nat → Nat → Nat → K := fun seq head d =>
  x.mixedQkvConv seq (head * h.headKDim + d)

/-- `k_raw` -/
def kRaw (h : Heads) (x : Input K) : Nat → Nat → Nat → K := fun seq head d =>
  x.mixedQkvConv seq (h.localKeyDim + (head * h.headKDim + d))

/-- `v_t` -/
def vT (h : Heads) (x : Input K) : Nat → Nat → Nat → K := fun seq head d =>
  x.mixedQkvConv seq (h.localKeyDim + h.localKeyDim + (head * h.headVDim + d))

/-- `normalized_q` and `normalized_k` -/
def normalizedQk (o : Arith K) (flags : Flags) (h : Heads) (numSeqs : Nat) (x : Input K) :
    (Nat → Nat → Nat → K) × (Nat → Nat → Nat → K) :=
  if flags.combinedQkNorm ∧ numSeqs = 1 ∧ h.localNumK = 4 ∧ h.localNumV = 8 then
    -- `packed_mixed_qkv.narrow(1, 0, 2 * local_key_dim).view(...)`
    let rawQk := fun seq => unflatten h.headKDim (x.mixedQkvConv seq)
    let normalizedQk := fun seq head => l2norm o h.headKDim (rawQk seq head)
    (normalizedQk, fun seq head => normalizedQk seq (h.localNumK + head))
  else
    (fun seq head => l2norm o h.headKDim (qRaw h x seq head),
      fun seq head => l2norm o h.headKDim (kRaw h x seq head))

/-- `q_t` and `k_t` -/
def queryKey (o : Arith K) (flags : Flags) (launches : Launches K h numSeqs) (x : Input K) :
    (Nat → Nat → Nat → K) × (Nat → Nat → Nat → K) :=
  if flags.qkMap ∧ h.headKDim = kHeadDim then
    let normalized := normalizedQk o flags h numSeqs x
    qkMap o normalized.1 normalized.2 numSeqs h.localNumK h.localNumV launches.qkMap
  else
    let qExpanded := repeatInterleave h (qRaw h x)
    let kExpanded := repeatInterleave h (kRaw h x)
    (fun seq head d => l2norm o h.headKDim (qExpanded seq head) d * o.scale,
      fun seq head => l2norm o h.headKDim (kExpanded seq head))

/-- The inlined recurrent step. `ts_flat` is a view of `temporal_state`, so the in-place operations
change both. -/
def decodeStep (h : Heads) (qT kT vT : Nat → Nat → Nat → K) (bt gT : Nat → Nat → K)
    (temporalState : Nat → Nat → Nat → Nat → K) : Output K :=
  let temporalState := fun seq head a b => temporalState seq head a b * gT seq head
  let tsFlat := flatten h.localNumV temporalState
  let kFlat := flatten h.localNumV kT
  let kvMem := unflatten h.localNumV fun bh b =>
    ∑ a ∈ Finset.range h.headKDim, kFlat bh a * tsFlat bh a b
  let delta := fun seq head b => (vT seq head b - kvMem seq head b) * bt seq head
  let deltaFlat := flatten h.localNumV delta
  -- `baddbmm_`, with an inner dimension of one
  let tsFlat := fun bh a b => tsFlat bh a b + kFlat bh a * deltaFlat bh b
  let coreOut := unflatten h.localNumV fun bh b =>
    ∑ a ∈ Finset.range h.headKDim, flatten h.localNumV qT bh a * tsFlat bh a b
  { coreOut := coreOut, temporalState := unflatten h.localNumV tsFlat }

/-- `use_corex_packed_decode` -/
def UsePackedDecode (flags : Flags) (h : Heads) (numSeqs : Nat) : Prop :=
  flags.packedDecode ∧ numSeqs = 1 ∧ h.localNumK = PackedDecode.kKeyHeads ∧
    h.localNumV = PackedDecode.kValueHeads ∧ h.headKDim = PackedDecode.kHeadDim ∧
    h.headVDim = PackedDecode.kHeadDim

instance (flags : Flags) (h : Heads) (numSeqs : Nat) : Decidable (UsePackedDecode flags h numSeqs) :=
  inferInstanceAs (Decidable (_ ∧ _))

/-- The memory of the arguments of `packed_decode`. -/
def packedArgs (x : Input K) : PackedDecode.Args K where
  mixedQkv := flatten PackedDecode.kMixedDim x.mixedQkvConv
  betaInput := flatten PackedDecode.kValueHeads x.bAll
  decayInput := flatten PackedDecode.kValueHeads x.aAll
  aLog := x.aLog
  dtBias := x.dtBias

def packedState (x : Input K) : Nat → K :=
  flatten PackedDecode.kHeadDim (flatten PackedDecode.kHeadDim
    (flatten PackedDecode.kValueHeads x.temporalState))

def packedDecode (o : Arith K) (launch : PackedDecode.Launch K) (x : Input K) : Output K :=
  let (output, state) := PackedDecode.packedDecode o (packedArgs x) (packedState x) launch
  { coreOut := unflatten PackedDecode.kValueHeads (unflatten PackedDecode.kHeadDim output)
    temporalState := unflatten PackedDecode.kValueHeads (unflatten PackedDecode.kHeadDim
      (unflatten PackedDecode.kHeadDim state)) }

def decode (o : Arith K) (flags : Flags) (launches : Launches K h numSeqs) (x : Input K) : Output K :=
  if UsePackedDecode flags h numSeqs then packedDecode o launches.packed x
  else
    let (bt, gT) := coefficients o flags launches x
    let (qT, kT) := queryKey o flags launches x
    decodeStep h qT kT (vT h x) bt gT x.temporalState

end Decode

end Bi100.Gdn
