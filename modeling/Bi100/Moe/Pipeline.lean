import Bi100.Lib.Except
import Mathlib.Algebra.Ring.Basic

/-!
# The MoE pipeline of the bridge (`ix_full_bridge_v2.cpp`, `moe_ops_impl.cu`)

From the routing on: the experts that `topk_softmax` has selected and their weights are inputs. A
device buffer is a list, and an access outside of it is a fault. The per-expert products and the
activation are functions of one row. The increments of `histogram_kernel` commute; those of
`place_indices_kernel` run in an order that is a parameter.
-/

namespace Bi100.Moe

open Py

/-- How a call stops before it returns. -/
inductive Fault where
  | outOfBounds
  /-- `view` cannot infer a dimension. -/
  | ambiguousView
deriving DecidableEq, Repr

variable {α β : Type}

/-- Read from a device buffer. -/
def read (buffer : List α) (i : Nat) : Except Fault α :=
  match buffer[i]? with
  | some x => pure x
  | none => throw .outOfBounds

/-- Write to a device buffer. -/
def write (buffer : List α) (i : Nat) (x : α) : Except Fault (List α) :=
  if i < buffer.length then pure (buffer.set i x) else throw .outOfBounds

/-! ## `moe_compute_token_index_api` -/

/-- `histogram_kernel` -/
def histogramKernel (expertIds : List Nat) (numExperts : Nat) : List Nat :=
  (List.range numExperts).map fun (e : Nat) => expertIds.count e

/-- The exclusive scan of the sizes. -/
def exclusiveScan : Nat → List Nat → List Nat
  | _, [] => []
  | running, size :: sizes => running :: exclusiveScan (running + size) sizes

/-- The buffers of `place_indices_kernel`. -/
structure Placement where
  expertOffsets : List Nat
  srcDst : List Nat
  dstSrc : List Nat
deriving DecidableEq, Repr

/-- One thread of `place_indices_kernel`; its atomic increment makes it one step. -/
def placeIndex (expertIds : List Nat) (p : Placement) (idx : Nat) : Except Fault Placement := do
  let eid ← read expertIds idx
  let pos ← read p.expertOffsets eid
  let srcDst ← write p.srcDst idx pos
  let dstSrc ← write p.dstSrc pos idx
  pure ⟨p.expertOffsets.set eid (pos + 1), srcDst, dstSrc⟩

/-- `place_indices_kernel`, for the order of its atomic increments. -/
def placeIndices (expertIds : List Nat) : List Nat → Placement → Except Fault Placement
  | [], p => pure p
  | idx :: order, p => do
    let p ← placeIndex expertIds p idx
    placeIndices expertIds order p

/-- `ix_moe_gen_idx`: the placement and the expert sizes. The buffers are not initialised. -/
def moeGenIdx (expertIds : List Nat) (expertNum : Nat) (order : List Nat) :
    Except Fault (Placement × List Nat) := do
  let expertSizes := histogramKernel expertIds expertNum
  let buffer := List.replicate expertIds.length 0
  let p ← placeIndices expertIds order ⟨exclusiveScan 0 expertSizes, buffer, buffer⟩
  pure (p, expertSizes)

/-! ## The rows -/

/-- `moe_expand_input`: `expand_factor` is not used. -/
def moeExpandInput (input : List α) (dstToSrc : List Nat) (dstTokens : Nat) :
    Except Fault (List α) :=
  (List.range dstTokens).mapM fun (token : Nat) => do
    let srcToken ← read dstToSrc token
    read input srcToken

/-- The loop of `moe_w16a16_group_gemm`, from expert `e` on. -/
def groupGemmFrom (f : Nat → α → β) (inputs : List α) : Nat → Nat → List Nat →
    Except Fault (List β)
  | _, _, [] => pure []
  | e, offset, count :: counts => do
    let rows ← (List.range count).mapM fun (i : Nat) => do
      let row ← read inputs (offset + i)
      pure (f e row)
    let rest ← groupGemmFrom f inputs (e + 1) (offset + count) counts
    pure (rows ++ rest)

/-- `ix_group_gemm`, where `f` is the product of an expert. -/
def groupGemm (f : Nat → α → β) (inputs : List α) (tokensPerExperts : List Nat) :
    Except Fault (List β) :=
  groupGemmFrom f inputs 0 0 tokensPerExperts

variable {K : Type} [Ring K] {H : Nat}

/-- One token of `combine_result_kernel`. -/
def combineToken (input : List (Fin H → K)) (weights : List K) (topk token : Nat) :
    Except Fault (Fin H → K) :=
  (List.range topk).foldlM (fun (acc : Fin H → K) (k : Nat) => do
    let w ← read weights (token * topk + k)
    let row ← read input (token * topk + k)
    pure fun h => acc h + w * row h) fun _ => 0

/-- `ix_moe_combine_result`: the rows are viewed as `topk` rows for each token. -/
def moeCombineResult (input : List (Fin H → K)) (weights : List K) (topk : Nat) :
    Except Fault (List (Fin H → K)) := do
  guardNot (topk = 0) .ambiguousView
  (List.range (input.length / topk)).mapM fun (token : Nat) => combineToken input weights topk token

/-- The functions of one row: the products with `w13` and `w2` of an expert, and
`silu_and_mul`. -/
structure Experts (K : Type) (H : Nat) where
  gateUp : Nat → (Fin H → K) → List K
  siluAndMul : List K → List K
  down : Nat → List K → (Fin H → K)

/-- What an expert does with a row. -/
def Experts.apply (x : Experts K H) (e : Nat) (row : Fin H → K) : Fin H → K :=
  x.down e (x.siluAndMul (x.gateUp e row))

/-- `ix_fused_moe_forward`, for the routing of step 1. -/
def fusedMoeForward (x : Experts K H) (hiddenStates : List (Fin H → K)) (topkIds : List Nat)
    (topkWeights : List K) (topk numExperts : Nat) (order : List Nat) :
    Except Fault (List (Fin H → K)) := do
  let (p, expertSizes) ← moeGenIdx topkIds numExperts order
  let expanded ← moeExpandInput hiddenStates p.dstSrc (hiddenStates.length * topk)
  let gateUp ← groupGemm x.gateUp expanded expertSizes
  let activated := gateUp.map x.siluAndMul
  let down ← groupGemm x.down activated expertSizes
  moeCombineResult down topkWeights topk

/-! ## What it should compute -/

/-- The weighted sum of the outputs of a token's experts. -/
def moeToken (x : Experts K H) (topkIds : List Nat) (topkWeights : List K) (topk token : Nat)
    (row : Fin H → K) : Fin H → K := fun h =>
  ((List.range topk).map fun (k : Nat) =>
    topkWeights.getD (token * topk + k) 0 * x.apply (topkIds.getD (token * topk + k) 0) row h).sum

/-- The outputs of all tokens. -/
def moeForward (x : Experts K H) (hiddenStates : List (Fin H → K)) (topkIds : List Nat)
    (topkWeights : List K) (topk : Nat) : List (Fin H → K) :=
  hiddenStates.mapIdx fun token row => moeToken x topkIds topkWeights topk token row

/-- The pipeline is right for a routing: for all rows, weights and experts, and in every order of
the increments. -/
def MoeCorrect (K : Type) [Ring K] (H : Nat) (numTokens topk numExperts : Nat)
    (topkIds : List Nat) : Prop :=
  ∀ (x : Experts K H) (hiddenStates : List (Fin H → K)) (topkWeights : List K) (order : List Nat),
    hiddenStates.length = numTokens → topkWeights.length = numTokens * topk →
    order.Perm (List.range topkIds.length) →
    fusedMoeForward x hiddenStates topkIds topkWeights topk numExperts order =
      .ok (moeForward x hiddenStates topkIds topkWeights topk)

end Bi100.Moe
