import Bi100.Lib.Scatter
import Bi100.Lib.Slices
import Bi100.Moe.Pipeline
import Mathlib.Algebra.BigOperators.Fin

/-!
# The paths of the routed experts (`qwen3_5.py`, `moe_tcu_dispatch.cpp`, `corex_moe_index_combine.cu`)

The sizes of the tensors are in their types, and an expert id is below the number of experts. The
products and the sums are exact; `sigmoid` is any function.

- `decodeToken`: the branch of `_pure_pytorch_experts` for one token.
- `groupedExperts`: its branch for more tokens.
- `moeDecode`, `moePrefill`: the paths in C++.

The increments of the atomic counters run in an order that `Launch` gives; it also gives what is in
the buffers before.
-/

namespace Bi100.Moe

open Py Scatter

variable {α K : Type} [CommRing K] {T topK E I H m n B : Nat}

/-- `w13_weight` and `w2_weight` of the experts. -/
structure ExpertWeights (K : Type) (E I H : Nat) where
  w13 : Fin E → Fin (2 * I) → Fin H → K
  w2 : Fin E → Fin H → Fin I → K

/-- One row of `F.linear`, or of `mm` with the transposed weight. -/
def linear (x : Fin m → K) (w : Fin n → Fin m → K) : Fin n → K := fun j => ∑ i, x i * w j i

/-- `torch.bmm` -/
def bmm (a : Fin B → Fin T → Fin m → K) (b : Fin B → Fin m → Fin n → K) :
    Fin B → Fin T → Fin n → K := fun i r c => ∑ j, a i r j * b i j c

def silu (sigmoid : K → K) (x : K) : K := x * sigmoid x

/-- `chunk(2)`, and `F.silu(gate) * up`. -/
def siluMul (sigmoid : K → K) (gateUp : Fin (2 * I) → K) : Fin I → K := fun i =>
  silu sigmoid (gateUp ⟨i, by omega⟩) * gateUp ⟨I + i, by omega⟩

/-! ## One token -/

/-- The flags, and whether the tensors are contiguous halves on the device. -/
structure MoeFlags where
  corexMoeDirectRouted : Bool
  corexBatchedGemm : Bool
  corexMoeExactReduce : Bool
  moeComputeIndex : Bool
  gemmGrouped : Bool
  half : Bool
deriving DecidableEq, Repr

section OneToken

variable (sigmoid : K → K) (w : ExpertWeights K E I H) (hidden : Fin H → K)
  (eids : Fin topK → Fin E) (ws : Fin topK → K)

/-- `corex_moe_direct_routed`: `w13`, the activation and `w2_reduce`. -/
def directRouted : Fin H → K :=
  let gateUp := fun slot => linear hidden (w.w13 (eids slot))
  let act := fun slot => siluMul sigmoid (gateUp slot)
  fun h => (List.finRange topK).foldl
    (fun sum slot => sum + ws slot * linear (act slot) (w.w2 (eids slot)) h) 0

/-- `moe_decode_fused` with the selected weights. -/
def moeDecodeFused (w13Sel : Fin topK → Fin (2 * I) → Fin H → K)
    (w2Sel : Fin topK → Fin H → Fin I → K) : Fin H → K :=
  let x : Fin topK → Fin 1 → Fin H → K := fun _ _ => hidden
  let gateUp := fun k => bmm x (fun k h j => w13Sel k j h) k 0
  let act : Fin topK → Fin 1 → Fin I → K := fun k _ i =>
    sigmoid (gateUp k ⟨i, by omega⟩) * gateUp k ⟨i, by omega⟩ * gateUp k ⟨I + i, by omega⟩
  let down := fun k => bmm act (fun k i h => w2Sel k h i) k 0
  fun h => ∑ k, down k h * ws k

/-- The large product over the selected weights. `view` cannot infer the columns of no rows. -/
def selectedLinear (flags : MoeFlags) : Except Fault (Fin H → K) := do
  let w13Sel := fun k => w.w13 (eids k)
  let w2Sel := fun k => w.w2 (eids k)
  let gateUp := linear hidden fun (p : Fin (topK * (2 * I))) => w13Sel p.divNat p.modNat
  guardNot (topK = 0) .ambiguousView
  let gateUp := fun k j => gateUp (finProdFinEquiv (k, j))
  let act : Fin topK → Fin I → Fin 1 → K := fun k i _ => siluMul sigmoid (gateUp k) i
  let expertOut := fun k h => bmm w2Sel act k h 0
  if flags.corexMoeExactReduce ∧ flags.half ∧ topK = 8 then
    pure fun h => (List.finRange topK).foldl (fun sum k => sum + expertOut k h * ws k) 0
  else pure fun h => ∑ k, expertOut k h * ws k

/-- The branch of `_pure_pytorch_experts` for `T == 1`, from the routing on. -/
def decodeToken (flags : MoeFlags) : Except Fault (Fin H → K) :=
  let useCorexDirect := flags.corexMoeDirectRouted ∧ flags.half ∧
    (E = 256 ∧ 2 * I = 256 ∧ H = 2048) ∧ I = 128 ∧ topK = 8
  if useCorexDirect then pure (directRouted sigmoid w hidden eids ws)
  else if flags.corexBatchedGemm ∧ flags.half then
    pure (moeDecodeFused sigmoid hidden ws (fun k => w.w13 (eids k)) fun k => w.w2 (eids k))
  else selectedLinear sigmoid w hidden eids ws flags

/-- `moe_decode` -/
def moeDecode : Fin H → K :=
  (List.finRange topK).foldl (fun result k =>
    let gateUp := linear hidden (w.w13 (eids k))
    let act := siluMul sigmoid gateUp
    let expertOut := linear act (w.w2 (eids k))
    fun h => result h + ws k * expertOut h) fun _ => 0

end OneToken

/-! ## The index of the assignments -/

/-- `reshape(-1)` -/
def flatten (x : Fin T → Fin topK → α) : List α :=
  (List.finRange T).flatMap fun t => List.ofFn (x t)

/-- `torch.arange(T).repeat_interleave(top_k)` -/
def tokenIndex (T topK : Nat) : List (Fin T) :=
  (List.finRange T).flatMap fun t => List.replicate topK t

/-- `xs[indices]`, and `index_select`. -/
def indexSelect (xs : List α) (indices : List Nat) : Except Fault (List α) := indices.mapM (read xs)

/-- A launch of `moe_compute_index` over `n` ids: the order of the increments, and what the buffers
hold before. -/
structure Launch (n numExperts : Nat) where
  order : List Nat
  order_perm : order.Perm (List.range n)
  uninit : Placement
  offsets_length : uninit.expertOffsets.length = numExperts
  srcDst_length : uninit.srcDst.length = n
  dstSrc_length : uninit.dstSrc.length = n

def kMoeIndexBlock : Nat := 256

/-- `moe_prefix_sum_kernel`: one block, and one thread for an expert. -/
def moePrefixSum (expertSizes expertOffsets : List Nat) : List Nat :=
  exclusiveScan 0 (expertSizes.take kMoeIndexBlock) ++ expertOffsets.drop kMoeIndexBlock

/-- `moe_compute_index`: `dst_src` and the sizes. -/
def moeComputeIndex (expertId : List Nat) (numExperts : Nat)
    (launch : Launch expertId.length numExperts) : Except Fault (List Nat × List Nat) := do
  let expertSizes := histogramKernel expertId numExperts
  let expertOffsets := moePrefixSum expertSizes launch.uninit.expertOffsets
  let p ← placeIndices expertId launch.order
    ⟨expertOffsets, launch.uninit.srcDst, launch.uninit.dstSrc⟩
  pure (p.dstSrc, expertSizes)

/-- `torch.argsort(flat_eids, stable=True)` and `torch.bincount`. -/
def argsortIndex (flatEids : List Nat) (numExperts : Nat) : List Nat × List Nat :=
  ((List.range flatEids.length).mergeSort fun i j => flatEids.getD i 0 ≤ flatEids.getD j 0,
    histogramKernel flatEids numExperts)

/-- The index that the flags select. -/
def groupIndex (flags : MoeFlags) (flatEids : List Nat) (numExperts : Nat)
    (launch : Launch flatEids.length numExperts) : Except Fault (List Nat × List Nat) :=
  if flags.moeComputeIndex then moeComputeIndex flatEids numExperts launch
  else pure (argsortIndex flatEids numExperts)

/-! ## Several tokens -/

/-- `out.index_add_(0, tok_ids, rows)` -/
def indexAdd (out : Fin T → Fin H → K) (tokIds : List (Fin T)) (rows : List (Fin H → K)) :
    Fin T → Fin H → K := scatter out (tokIds.zip rows)

/-- The loop of `moe_group_gemm`, from an offset on. -/
def groupGemmLoop (w : Fin E → Fin n → Fin m → K) (input : List (Fin m → K)) :
    List (Fin E × Nat) → Nat → List (Fin n → K) → List (Fin n → K)
  | [], _, output => output
  | (e, count) :: experts, offset, output =>
    let stop := offset + count
    if count = 0 then groupGemmLoop w input experts stop output
    else
      let rows := (slice input offset stop).map fun x => linear x (w e)
      groupGemmLoop w input experts stop (output.take offset ++ rows ++ output.drop stop)

/-- `moe_group_gemm` -/
def moeGroupGemm (w : Fin E → Fin n → Fin m → K) (input : List (Fin m → K))
    (expertCounts : List Nat) : List (Fin n → K) :=
  groupGemmLoop w input ((List.finRange E).zip expertCounts) 0
    (List.replicate input.length fun _ => 0)

section Tokens

variable (sigmoid : K → K) (w : ExpertWeights K E I H) (hidden : Fin T → Fin H → K)
  (topkIds : Fin T → Fin topK → Fin E) (topkWeights : Fin T → Fin topK → K)

/-- The loop over the experts, from `start` on. -/
def expertLoop (sortedTokIds : List (Fin T)) (sortedWeights : List K) :
    List (Fin E × Nat) → Nat → (Fin T → Fin H → K) → Fin T → Fin H → K
  | [], _, out => out
  | (eid, count) :: experts, start, out =>
    let stop := start + count
    if count = 0 then expertLoop sortedTokIds sortedWeights experts stop out
    else
      let tokIds := slice sortedTokIds start stop
      let tokens := tokIds.map hidden
      let gateUp := tokens.map fun x => linear x (w.w13 eid)
      let act := gateUp.map (siluMul sigmoid)
      let expertOut := act.map fun x => linear x (w.w2 eid)
      let weights := slice sortedWeights start stop
      let rows := List.zipWith (fun (x : Fin H → K) (weight : K) h => x h * weight) expertOut weights
      expertLoop sortedTokIds sortedWeights experts stop (indexAdd out tokIds rows)

/-- The general branch of `_pure_pytorch_experts`, from the routing on. -/
def groupedExperts (flags : MoeFlags)
    (launch : Launch ((flatten topkIds).map Fin.val).length E) :
    Except Fault (Fin T → Fin H → K) := do
  let flatEids := (flatten topkIds).map Fin.val
  let (order, expertCounts) ← groupIndex flags flatEids E launch
  let sortedTokIds ← indexSelect (tokenIndex T topK) order
  let sortedWeights ← indexSelect (flatten topkWeights) order
  let out : Fin T → Fin H → K := fun _ _ => 0
  if flags.gemmGrouped ∧ flags.half then
    let sortedHidden := sortedTokIds.map hidden
    let gemm1Out := moeGroupGemm w.w13 sortedHidden expertCounts
    let actOut := gemm1Out.map (siluMul sigmoid)
    let gemm2Out := moeGroupGemm w.w2 actOut expertCounts
    let weighted :=
      List.zipWith (fun (x : Fin H → K) (weight : K) h => x h * weight) gemm2Out sortedWeights
    pure (indexAdd out sortedTokIds weighted)
  else
    pure (expertLoop sigmoid w hidden sortedTokIds sortedWeights
      ((List.finRange E).zip expertCounts) 0 out)

/-- `_pure_pytorch_experts`, from the routing on. -/
def purePytorchExperts (flags : MoeFlags)
    (launch : Launch ((flatten topkIds).map Fin.val).length E) :
    Except Fault (Fin T → Fin H → K) :=
  if hT : T = 1 then do
    let row ← decodeToken sigmoid w (hidden ⟨0, by omega⟩) (topkIds ⟨0, by omega⟩)
      (topkWeights ⟨0, by omega⟩) flags
    pure fun _ => row
  else groupedExperts sigmoid w hidden topkIds topkWeights flags launch

/-- One expert of `moe_prefill`. -/
def prefillExpert (result : Fin T → Fin H → K) (eid : Fin E) : Except Fault (Fin T → Fin H → K) := do
  let flatIds := flatten topkIds
  let indices := (List.range flatIds.length).filter fun i => flatIds[i]? = some eid
  if indices.length = 0 then pure result
  else
    let tokIndices ← indexSelect (tokenIndex T topK) indices
    let weights ← indexSelect (flatten topkWeights) indices
    let tokens := tokIndices.map hidden
    let gateUp := tokens.map fun x => linear x (w.w13 eid)
    let act := gateUp.map (siluMul sigmoid)
    let expertOut := act.map fun x => linear x (w.w2 eid)
    let weighted := List.zipWith (fun (x : Fin H → K) (weight : K) h => x h * weight) expertOut weights
    pure (indexAdd result tokIndices weighted)

/-- `moe_prefill` -/
def moePrefill : Except Fault (Fin T → Fin H → K) :=
  (List.finRange E).foldlM (prefillExpert sigmoid w hidden topkIds topkWeights) fun _ _ => 0

/-! ## What they should compute -/

/-- What an expert does with a row. -/
def ExpertWeights.apply (e : Fin E) (x : Fin H → K) : Fin H → K :=
  linear (siluMul sigmoid (linear x (w.w13 e))) (w.w2 e)

/-- The weighted sum of the outputs of the experts that a token has selected. -/
def weightedExperts (t : Fin T) : Fin H → K := fun h =>
  ∑ k, topkWeights t k * w.apply sigmoid (topkIds t k) (hidden t) h

end Tokens

end Bi100.Moe
