import Bi100.Attention.Exact
import Bi100.Lib.Layout

/-!
# The fused prefill path: inputs and checks

`_is_supported_corex_fused_paged_prefill_segment` of `paged_attn.py` and the `TORCH_CHECK`s of the
two extensions, `corex_fused_paged_prefill_split4.cu` and `corex_query_tiled_paged_prefill.cu`. A
tensor has its elements by index, as Python reads them, and its storage, as a kernel reads it.
-/

namespace Bi100.Attention

open Py OnlineSoftmax

inductive DType where
  | float16
  | bfloat16
  | float32
  | int32
  | int64
deriving DecidableEq, Repr

structure TensorMeta where
  shape : List Nat
  dtype : DType
  isCuda : Bool
  device : Nat
  contiguous : Bool
deriving DecidableEq, Repr

namespace TensorMeta

def size (t : TensorMeta) (i : Nat) : Nat := t.shape.getD i 0

def dim (t : TensorMeta) : Nat := t.shape.length

end TensorMeta

/-- A contiguous tensor has its elements in row-major order. -/
structure Tensor (α : Type) extends TensorMeta where
  elem : List Nat → α
  data : Nat → α
  layout : contiguous = true → ∀ idx, List.Forall₂ (· < ·) idx shape → elem idx = data (ravel shape idx)

/-- The arguments of `_forward_prefix_segment_pytorch`; the caller passes `head_dim ** -0.5` as
`scale` and at least one block as `tileSz`. -/
structure SegmentArgs (K : Type) where
  query : Tensor K
  key : Tensor K
  value : Tensor K
  prefixKey : Tensor K
  prefixValue : Tensor K
  keyCache : Tensor K
  valueCache : Tensor K
  blockTables : Tensor Int
  seqIndex : Int
  blockContextLen : Int
  numQHeads : Nat
  numKvHeads : Nat
  headDim : Nat
  gqaRatio : Nat
  blockSize : Nat
  tileSz : Nat
  scale : K
  allowCap : Bool

namespace SegmentArgs

variable {K : Type}

/-- The tokens of a tensor of shape `[tokens, heads, head_dim]`. -/
def tokens (t : Tensor K) (d : Nat) : List (Row K d) :=
  (List.range (t.size 0)).map fun i head c => t.elem [i, head, c]

/-- The inputs of the plain path. -/
def segment (a : SegmentArgs K) (d : Nat) : Segment K d where
  query := tokens a.query d
  key := tokens a.key d
  value := tokens a.value d
  prefixKey := tokens a.prefixKey d
  prefixValue := tokens a.prefixValue d
  cache := {
    blockSize := a.blockSize
    x := a.keyCache.size 4
    keyCache := fun b head i s j => a.keyCache.elem [b, head, i, s, j]
    valueCache := fun b head c s => a.valueCache.elem [b, head, c, s] }
  blockTable := (List.range (a.blockTables.size 1)).map fun j =>
    (a.blockTables.elem [a.seqIndex.toNat, j]).toNat
  seqIndex := a.seqIndex.toNat
  blockContextLen := a.blockContextLen.toNat
  gqaRatio := a.gqaRatio
  tileSz := a.tileSz
  scale := a.scale
  allowCap := a.allowCap

/-- `_is_supported_corex_fused_paged_prefill_segment` -/
def isSupported (a : SegmentArgs K) : Bool :=
  let queryLen := a.query.size 0
  let halfTensors := [a.query.toTensorMeta, a.key.toTensorMeta, a.value.toTensorMeta,
    a.keyCache.toTensorMeta, a.valueCache.toTensorMeta]
  let tensors := halfTensors ++ [a.blockTables.toTensorMeta]
  if queryLen ≤ 16 ∨ queryLen > 8192 ∨ a.blockContextLen < 0 ∨ a.blockContextLen % 16 ≠ 0 ∨
      a.blockContextLen + queryLen > 262144 then false
  else if (a.numQHeads, a.numKvHeads, a.headDim, a.gqaRatio, a.blockSize) ≠ (4, 1, 256, 4, 16) then
    false
  else if a.prefixKey.size 0 ≠ 0 ∨ a.prefixValue.size 0 ≠ 0 then false
  else if a.query.shape ≠ [queryLen, 4, 256] ∨ a.key.shape ≠ [queryLen, 1, 256] ∨
      a.value.shape ≠ [queryLen, 1, 256] then false
  else if a.keyCache.dim ≠ 5 ∨ a.keyCache.shape.tail ≠ [1, 32, 16, 8] ∨ a.valueCache.dim ≠ 4 ∨
      a.valueCache.shape.tail ≠ [1, 256, 16] ∨ a.keyCache.size 0 ≠ a.valueCache.size 0 then false
  else if a.blockTables.dim ≠ 2 ∨ a.blockTables.size 0 ≠ 1 ∨ a.seqIndex < 0 ∨
      a.seqIndex ≥ a.blockTables.size 0 ∨ a.blockTables.size 1 < a.blockContextLen / a.blockSize then
    false
  else if halfTensors.any (·.dtype ≠ .float16) then false
  else if a.blockTables.dtype ≠ .int32 then false
  else if tensors.any (!·.isCuda) then false
  else if tensors.any (·.device ≠ a.query.device) then false
  else if tensors.any (!·.contiguous) then false
  else true

/-- `block_tables[seq_index, :required_blocks].contiguous()` -/
def activeBlockTable (a : SegmentArgs K) : Tensor Int where
  shape := [(a.blockContextLen / a.blockSize).toNat]
  dtype := a.blockTables.dtype
  isCuda := a.blockTables.isCuda
  device := a.blockTables.device
  contiguous := true
  elem idx := a.blockTables.elem (a.seqIndex.toNat :: idx)
  data j := a.blockTables.elem [a.seqIndex.toNat, j]
  layout := by
    intro _ idx hidx
    rcases idx with _ | ⟨j, _ | ⟨_, _⟩⟩
    · cases hidx
    · show _ = a.blockTables.elem [_, 0 * _ + j]
      rw [Nat.zero_mul, Nat.zero_add]
    · obtain ⟨-, h⟩ := List.forall₂_cons.mp hidx
      cases h

end SegmentArgs

/-! ## The entry points -/

/-- The arguments of `forward`. -/
structure EntryArgs (K : Type) where
  query : Tensor K
  keyNew : Tensor K
  valueNew : Tensor K
  keyCache : Tensor K
  valueCache : Tensor K
  blockTable : Tensor Int
  contextLenArg : Int
  scaleArg : K

/-- The call of the fused path. -/
def SegmentArgs.entryArgs {K : Type} (a : SegmentArgs K) : EntryArgs K where
  query := a.query
  keyNew := a.key
  valueNew := a.value
  keyCache := a.keyCache
  valueCache := a.valueCache
  blockTable := a.activeBlockTable
  contextLenArg := a.blockContextLen
  scaleArg := a.scale

def kBlockSize : Nat := 16
def kHeadDim : Nat := 256
def kKeyPack : Nat := 8
def kNumQueryHeads : Nat := 4
def kNumKvHeads : Nat := 1
def kMaxQueryTokens : Nat := 8192
def kMaxSequenceTokens : Nat := 262144

/-- `TORCH_CHECK` -/
def torchCheck (cond : Prop) [Decidable cond] (msg : String) : Except String Unit :=
  if cond then pure () else throw msg

theorem torchCheck_bind_ok {α : Type} {cond : Prop} [Decidable cond] {msg : String}
    {f : Unit → Except String α} {x : α} :
    (torchCheck cond msg >>= f) = .ok x ↔ cond ∧ f () = .ok x := by
  by_cases h : cond
  · rw [torchCheck, if_pos h]
    exact ⟨fun h' => ⟨h, h'⟩, And.right⟩
  · rw [torchCheck, if_neg h]
    exact ⟨fun h' => (nomatch h'), fun h' => absurd h'.1 h⟩

theorem torchCheck_ok {cond : Prop} [Decidable cond] {msg : String} {x : Unit} :
    torchCheck cond msg = .ok x ↔ cond := by
  by_cases h : cond
  · rw [torchCheck, if_pos h]
    exact iff_of_true rfl h
  · rw [torchCheck, if_neg h]
    exact iff_of_false (fun h' => (nomatch h')) h

def checkHalfCudaContiguous (t : TensorMeta) (name : String) : Except String Unit := do
  torchCheck (t.isCuda = true) (name ++ " must be a CUDA tensor")
  torchCheck (t.dtype = .float16) (name ++ " must have dtype float16")
  torchCheck (t.contiguous = true) (name ++ " must be contiguous")

namespace EntryArgs

variable {K : Type} [OrderedExpField K]

/-- The checks of both entry points, which compute `required_blocks` in different ways. -/
def checks (a : EntryArgs K) (requiredBlocks : Int) : Except String Unit := do
  checkHalfCudaContiguous a.query.toTensorMeta "query"
  checkHalfCudaContiguous a.keyNew.toTensorMeta "key_new"
  checkHalfCudaContiguous a.valueNew.toTensorMeta "value_new"
  checkHalfCudaContiguous a.keyCache.toTensorMeta "key_cache"
  checkHalfCudaContiguous a.valueCache.toTensorMeta "value_cache"
  torchCheck (a.blockTable.isCuda = true) "block_table must be a CUDA tensor"
  torchCheck (a.blockTable.dtype = .int32) "block_table must have dtype int32"
  torchCheck (a.blockTable.contiguous = true) "block_table must be contiguous"
  torchCheck (a.blockTable.dim = 1) "block_table must be one-dimensional"
  torchCheck (a.query.dim = 3 ∧ a.query.size 1 = kNumQueryHeads ∧ a.query.size 2 = kHeadDim)
    "query must have shape (Q, 4, 256)"
  torchCheck (a.keyNew.dim = 3 ∧ a.keyNew.size 1 = kNumKvHeads ∧ a.keyNew.size 2 = kHeadDim)
    "key_new must have shape (Q, 1, 256)"
  torchCheck (a.valueNew.shape = a.keyNew.shape) "value_new must match key_new"
  torchCheck (a.keyNew.size 0 = a.query.size 0) "query, key_new, and value_new lengths must match"
  torchCheck (a.keyCache.dim = 5 ∧ a.keyCache.size 1 = kNumKvHeads ∧
      a.keyCache.size 2 = kHeadDim / kKeyPack ∧ a.keyCache.size 3 = kBlockSize ∧
      a.keyCache.size 4 = kKeyPack) "key_cache must have shape (N, 1, 32, 16, 8)"
  torchCheck (a.valueCache.dim = 4 ∧ a.valueCache.size 1 = kNumKvHeads ∧
      a.valueCache.size 2 = kHeadDim ∧ a.valueCache.size 3 = kBlockSize)
    "value_cache must have shape (N, 1, 256, 16)"
  torchCheck (a.keyCache.size 0 = a.valueCache.size 0) "key/value cache block counts must match"
  torchCheck (a.query.device = a.keyNew.device ∧ a.query.device = a.valueNew.device ∧
      a.query.device = a.keyCache.device ∧ a.query.device = a.valueCache.device ∧
      a.query.device = a.blockTable.device) "all tensors must use the same device"
  torchCheck (a.contextLenArg ≥ 0 ∧ a.contextLenArg ≤ kMaxSequenceTokens) "context_len is out of range"
  torchCheck (a.contextLenArg % kBlockSize = 0) "context_len must be block aligned"
  torchCheck (a.query.size 0 > 0 ∧ a.query.size 0 ≤ kMaxQueryTokens)
    "query length must be in [1, 8192]"
  torchCheck (a.contextLenArg + a.query.size 0 ≤ kMaxSequenceTokens)
    "context_len + query_len exceeds 262144"
  torchCheck ((a.blockTable.size 0 : Int) ≥ requiredBlocks) "block_table is too short for context_len"
  -- The minimum and the maximum of the active blocks.
  torchCheck (∀ j < requiredBlocks.toNat, 0 ≤ a.blockTable.data j ∧
      a.blockTable.data j < a.keyCache.size 0)
    "block_table contains an out-of-range physical block ID"
  torchCheck (0 < a.scaleArg) "scale must be finite and positive"

end EntryArgs

end Bi100.Attention
