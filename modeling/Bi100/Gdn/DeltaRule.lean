import Bi100.Lib.ExpField
import Mathlib.Data.Finset.Sort

/-!
# The gated delta rule (`qwen3_5.py`)

One head of one batch entry: the others are computed in the same way and never meet. The arithmetic
is exact. `_l2norm` and the scale are parameters, since both functions apply them to each token in
the same way. Rows and columns of a chunk are natural numbers below the chunk size.
-/

namespace Bi100.Gdn

open ExpField

variable {K : Type} [ExpField K] {dk dv : Nat}

/-- What one token gives to a head. -/
structure Token (K : Type) (dk dv : Nat) where
  query : Fin dk → K
  key : Fin dk → K
  value : Fin dv → K
  g : K
  beta : K

/-- A token of `F.pad`. -/
def Token.pad : Token K dk dv := ⟨0, 0, 0, 0, 0⟩

/-- The recurrent state of a head. -/
abbrev State (K : Type) (dk dv : Nat) := Fin dk → Fin dv → K

/-- The output for a token. -/
abbrev Out (K : Type) (dv : Nat) := Fin dv → K

/-- The constants of a layer, and the flag of the call. -/
structure Norm (K : Type) (dk : Nat) where
  l2norm : (Fin dk → K) → (Fin dk → K)
  scale : K
  useQkL2norm : Bool

/-- `use_qk_l2norm_in_kernel`, before the padding. -/
def Norm.normalize (c : Norm K dk) (t : Token K dk dv) : Token K dk dv :=
  if c.useQkL2norm then { t with query := c.l2norm t.query, key := c.l2norm t.key } else t

/-- `query = query * scale` -/
def Norm.scaleQuery (c : Norm K dk) (t : Token K dk dv) : Token K dk dv :=
  { t with query := fun a => t.query a * c.scale }

/-- `initial_state`, or zeros. -/
def initialState (initial : Option (State K dk dv)) : State K dk dv := initial.getD 0

/-! ## `_torch_recurrent_gated_delta_rule` -/

/-- `delta`, for the state after the decay. -/
def delta (t : Token K dk dv) (state : State K dk dv) : Fin dv → K := fun b =>
  (t.value b - ∑ a, state a b * t.key a) * t.beta

/-- One iteration: the next state and the output of the token. -/
def recurrentStep (state : State K dk dv) (t : Token K dk dv) : State K dk dv × Out K dv :=
  let decayed : State K dk dv := fun a b => state a b * exp t.g
  let d := delta t decayed
  let next : State K dk dv := fun a b => decayed a b + t.key a * d b
  (next, fun b => ∑ a, next a b * t.query a)

/-- The loop over the tokens. -/
def recurrentLoop : State K dk dv → List (Token K dk dv) → List (Out K dv) × State K dk dv
  | state, [] => ([], state)
  | state, t :: rest =>
    let (next, out) := recurrentStep state t
    let (outs, last) := recurrentLoop next rest
    (out :: outs, last)

def torchRecurrentGatedDeltaRule (c : Norm K dk) (tokens : List (Token K dk dv))
    (initial : Option (State K dk dv)) (outputFinalState : Bool) :
    List (Out K dv) × Option (State K dk dv) :=
  let (outs, last) := recurrentLoop (initialState initial)
    (tokens.map fun t => c.scaleQuery (c.normalize t))
  (outs, if outputFinalState then some last else none)

/-! ## `_torch_chunk_gated_delta_rule` -/

/-- The lower triangle, with the diagonal. -/
def tril (m : Nat → Nat → K) : Nat → Nat → K := fun i j => if j ≤ i then m i j else 0

/-- `g.cumsum` of a chunk. -/
def gCumsum (x : Nat → Token K dk dv) (i : Nat) : K := ∑ s ∈ Finset.range (i + 1), (x s).g

/-- `decay_mask` -/
def decayMask (x : Nat → Token K dk dv) : Nat → Nat → K :=
  tril fun i j => exp (tril (fun i j => gCumsum x i - gCumsum x j) i j)

/-- `attn`, before it is inverted in place. -/
def attnInit (x : Nat → Token K dk dv) : Nat → Nat → K := fun i j =>
  -(if i ≤ j then 0 else (∑ a, (x i).key a * (x i).beta * (x j).key a) * decayMask x i j)

/-- One iteration of the loop over the rows. -/
def attnRow (attn : Nat → Nat → K) (i : Nat) : Nat → Nat → K := fun r j =>
  if r = i ∧ j < i then attn i j + ∑ m ∈ Finset.range i, attn i m * attn m j else attn r j

/-- `attn`, for a chunk of `chunkSize` rows. -/
def attn (chunkSize : Nat) (x : Nat → Token K dk dv) : Nat → Nat → K :=
  let rows := (List.range' 1 (chunkSize - 1)).foldl attnRow (attnInit x)
  fun i j => rows i j + if i = j then 1 else 0

/-- `value`, after `attn @ v_beta`. -/
def valueAttn (chunkSize : Nat) (x : Nat → Token K dk dv) (i : Nat) : Fin dv → K := fun b =>
  ∑ j ∈ Finset.range chunkSize, attn chunkSize x i j * ((x j).value b * (x j).beta)

/-- `k_cumdecay` -/
def kCumdecay (chunkSize : Nat) (x : Nat → Token K dk dv) (i : Nat) : Fin dk → K := fun a =>
  ∑ j ∈ Finset.range chunkSize,
    attn chunkSize x i j * ((x j).key a * (x j).beta * exp (gCumsum x j))

/-- `v_new` -/
def vNew (chunkSize : Nat) (x : Nat → Token K dk dv) (lastState : State K dk dv) (i : Nat) :
    Fin dv → K := fun b =>
  valueAttn chunkSize x i b - ∑ a, kCumdecay chunkSize x i a * lastState a b

/-- A row of `core_out`. -/
def coreOut (chunkSize : Nat) (x : Nat → Token K dk dv) (lastState : State K dk dv) (i : Nat) :
    Out K dv := fun b =>
  (∑ a, (x i).query a * exp (gCumsum x i) * lastState a b) +
    ∑ j ∈ Finset.range chunkSize,
      (if i < j then 0 else (∑ a, (x i).query a * (x j).key a) * decayMask x i j) *
        vNew chunkSize x lastState j b

/-- `last_state`, after a chunk. -/
def nextState (chunkSize : Nat) (x : Nat → Token K dk dv) (lastState : State K dk dv) :
    State K dk dv := fun a b =>
  lastState a b * exp (gCumsum x (chunkSize - 1)) +
    ∑ j ∈ Finset.range chunkSize,
      (x j).key a * exp (gCumsum x (chunkSize - 1) - gCumsum x j) * vNew chunkSize x lastState j b

/-- The loop over the chunks, from chunk `i` on. -/
def chunkLoop (chunkSize : Nat) (padded : List (Token K dk dv)) :
    List Nat → State K dk dv → List (Out K dv) × State K dk dv
  | [], lastState => ([], lastState)
  | i :: rest, lastState =>
    let x := fun r => padded.getD (i * chunkSize + r) Token.pad
    let rows := (List.range chunkSize).map (coreOut chunkSize x lastState)
    let (outs, last) := chunkLoop chunkSize padded rest (nextState chunkSize x lastState)
    (rows ++ outs, last)

def torchChunkGatedDeltaRule (c : Norm K dk) (chunkSize : Nat) (tokens : List (Token K dk dv))
    (initial : Option (State K dk dv)) (outputFinalState : Bool) :
    List (Out K dv) × Option (State K dk dv) :=
  let seqLen := tokens.length
  let pad := (chunkSize - seqLen % chunkSize) % chunkSize
  let padded := (tokens.map c.normalize ++ List.replicate pad Token.pad).map c.scaleQuery
  let totalLen := seqLen + pad
  let (coreOut, lastState) := chunkLoop chunkSize padded (List.range (totalLen / chunkSize))
    (initialState initial)
  (coreOut.take seqLen, if outputFinalState then some lastState else none)

/-! ## The segments of `GatedDeltaNet.forward` -/

/-- `_gdn_segment_ends` -/
def gdnSegmentEnds (seqLen chunkSize : Nat) (captureOffsets : List Nat) : List Nat :=
  let ends := List.range' chunkSize ((seqLen - 1) / chunkSize) chunkSize ++ [seqLen] ++
    captureOffsets.filter fun offset => 0 < offset ∧ offset < seqLen
  ends.toFinset.sort (· ≤ ·)

/-- The loop over `segment_ends`: the outputs, the state, and the state captured at each end. -/
def segmentLoop (c : Norm K dk) (chunkSize : Nat) (tokens : List (Token K dk dv)) :
    Nat → List Nat → Option (State K dk dv) →
      List (Out K dv) × Option (State K dk dv) × List (Nat × Option (State K dk dv))
  | _, [], curState => ([], curState, [])
  | scStart, scEnd :: ends, curState =>
    let (cOut, curState) := torchChunkGatedDeltaRule c chunkSize
      ((tokens.take scEnd).drop scStart) curState true
    let (coreOut, last, captured) := segmentLoop c chunkSize tokens scEnd ends curState
    (cOut ++ coreOut, last, (scEnd, curState) :: captured)

end Bi100.Gdn
