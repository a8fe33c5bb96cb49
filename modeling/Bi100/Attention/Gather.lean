import Bi100.Attention.Fused
import Bi100.Lib.GridStride
import Bi100.Lib.Int32
import Mathlib.Data.List.ProdSigma

/-!
# Gathering the paged cache (`corex_paged_kv_gather.cu`)

The kernel reads keys and values of a sequence from the packed caches; `_forward_decode_pytorch`
gets them by permutations and views. The kernel's arguments are `int`s, and `static_cast<int>` keeps
the lowest 32 bits; `int64_t` is exact, since it holds the number of elements of a tensor. A read or
a write outside a buffer has no result.

`foldlM_at`: what the launch writes, for iterations that write different places.
-/

namespace Bi100.Attention

/-- The inputs of `gather_paged_kv`; the row of the block table is `int32`. -/
structure GatherArgs (α : Type) where
  keyCache : Tensor α
  valueCache : Tensor α
  blockTable : List Int

/-- The arguments of `paged_kv_gather_kernel` of type `int`. -/
structure GatherParams where
  seqLen : Int
  numKvHeads : Int
  headSize : Int
  blockSize : Int
  keyPack : Int

/-- What an iteration stores, and where. -/
structure GatherWrite (α : Type) where
  keyAt : Nat
  key : α
  valueAt : Nat
  value : α

/-- `key_output` and `value_output`; `none` is not written yet. -/
structure GatherOutputs (α : Type) where
  key : Nat → Option α
  value : Nat → Option α

def GatherOutputs.empty {α : Type} : GatherOutputs α := ⟨fun _ => none, fun _ => none⟩

def GatherOutputs.store {α : Type} (out : GatherOutputs α) (w : GatherWrite α) : GatherOutputs α :=
  ⟨Function.update out.key w.keyAt (some w.key), Function.update out.value w.valueAt (some w.value)⟩

namespace GatherParams

/-- `total` -/
def total (p : GatherParams) : Int := p.seqLen * p.numKvHeads * p.headSize

def dim (p : GatherParams) (index : Int) : Int := toInt32 (index.tmod p.headSize)

def token (p : GatherParams) (index : Int) : Int :=
  toInt32 ((index.tdiv p.headSize).tmod p.seqLen)

def kvHead (p : GatherParams) (index : Int) : Int :=
  toInt32 (index.tdiv (p.headSize * p.seqLen))

/-- `key_index` -/
def keyIndex (p : GatherParams) (physicalBlock kvHead dim blockOffset : Int) : Int :=
  (((physicalBlock * p.numKvHeads + kvHead) * p.headSize.tdiv p.keyPack + dim.tdiv p.keyPack) *
    p.blockSize + blockOffset) * p.keyPack + dim.tmod p.keyPack

/-- `value_index` -/
def valueIndex (p : GatherParams) (physicalBlock kvHead dim blockOffset : Int) : Int :=
  ((physicalBlock * p.numKvHeads + kvHead) * p.headSize + dim) * p.blockSize + blockOffset

/-- `key_output_index` -/
def keyOutputIndex (p : GatherParams) (kvHead token dim : Int) : Int :=
  (kvHead * p.headSize + dim) * p.seqLen + token

/-- `value_output_index` -/
def valueOutputIndex (p : GatherParams) (kvHead token dim : Int) : Int :=
  (kvHead * p.seqLen + token) * p.headSize + dim

end GatherParams

namespace GatherArgs

variable {α : Type}

/-- `block_table[logical_block]` -/
def physicalBlock (a : GatherArgs α) (logicalBlock : Int) : Option Int :=
  (offset? a.blockTable.length logicalBlock).bind fun i => a.blockTable[i]?

/-- An iteration of `paged_kv_gather_kernel`, where the outputs have `numel` elements. -/
def iteration (a : GatherArgs α) (p : GatherParams) (numel index : Nat) :
    Option (GatherWrite α) := do
  let dim := p.dim index
  let token := p.token index
  let kvHead := p.kvHead index
  let physicalBlock ← a.physicalBlock (token.tdiv p.blockSize)
  let blockOffset := token.tmod p.blockSize
  let keyIndex ← offset? a.keyCache.shape.prod (p.keyIndex physicalBlock kvHead dim blockOffset)
  let valueIndex ← offset? a.valueCache.shape.prod
    (p.valueIndex physicalBlock kvHead dim blockOffset)
  let keyAt ← offset? numel (p.keyOutputIndex kvHead token dim)
  let valueAt ← offset? numel (p.valueOutputIndex kvHead token dim)
  some ⟨keyAt, a.keyCache.data keyIndex, valueAt, a.valueCache.data valueIndex⟩

/-- The arguments of the launch. -/
def params (a : GatherArgs α) (seqLen : Int) : GatherParams where
  seqLen := toInt32 seqLen
  numKvHeads := toInt32 (a.valueCache.size 1)
  headSize := toInt32 (a.valueCache.size 2)
  blockSize := toInt32 (a.valueCache.size 3)
  keyPack := toInt32 (a.keyCache.size 4)

/-- The iterations of all threads, for a launch of any size. -/
def indices (a : GatherArgs α) (seqLen : Int) (blockDim gridDim : Nat) : List Nat :=
  gridStride (a.params seqLen).total.toNat blockDim gridDim

/-- `gather_paged_kv`, with the iterations in some order. `torch::empty` has no negative sizes. -/
def gatherPagedKv (a : GatherArgs α) (seqLen : Int) (order : List Nat) :
    Option (GatherOutputs α) :=
  let p := a.params seqLen
  if p.blockSize = 0 then none
  else if a.blockTable.length < (seqLen + p.blockSize - 1).tdiv p.blockSize then none
  else if p.numKvHeads < 0 ∨ p.headSize < 0 then none
  else order.foldlM (fun out index =>
    (a.iteration p (p.numKvHeads * p.headSize * seqLen).toNat index).map out.store)
    GatherOutputs.empty

/-- The launch of `gather_paged_kv`: the threads of a block, and the blocks. -/
def launch (a : GatherArgs α) (seqLen : Nat) : Nat × Nat :=
  let total := seqLen * a.valueCache.size 1 * a.valueCache.size 2
  (256, min ((total + 255) / 256) (if seqLen ≤ 96 * 1024 then 256 else 65535))

/-! ## The views -/

/-- `.view(-1, num_kv_heads, head_dim)[:seq_len]` -/
def viewTokens (a : GatherArgs α) (seqLen : Nat) (x : NdArray α) : NdArray α :=
  let numKvHeads := a.keyCache.size 1
  let headDim := a.valueCache.size 2
  (x.view [x.shape.prod / (numKvHeads * headDim), numKvHeads, headDim]).take seqLen

/-- `block_tables[i, :num_blocks]` -/
def blkIds (a : GatherArgs α) (seqLen : Nat) : List Nat :=
  let blockSize := a.valueCache.size 3
  (a.blockTable.take ((seqLen + blockSize - 1) / blockSize)).map Int.toNat

/-- `k_t` of `_forward_decode_pytorch`. -/
def pytorchKey (a : GatherArgs α) (seqLen : Nat) : NdArray α :=
  (a.viewTokens seqLen (((⟨a.keyCache.shape, a.keyCache.elem⟩ : NdArray α).select
    (a.blkIds seqLen)).permute [0, 3, 1, 2, 4])).permute [1, 2, 0]

/-- `v_t` of `_forward_decode_pytorch`. -/
def pytorchValue (a : GatherArgs α) (seqLen : Nat) : NdArray α :=
  (a.viewTokens seqLen (((⟨a.valueCache.shape, a.valueCache.elem⟩ : NdArray α).select
    (a.blkIds seqLen)).permute [0, 3, 1, 2])).permute [1, 0, 2]

end GatherArgs

/-! ## Iterations in any order -/

section Fold

variable {α : Type} {step : Nat → Option (GatherWrite α)} {order : List Nat}
  {out out' : GatherOutputs α}

theorem foldlM_ok (h : ∀ i ∈ order, ∃ w, step i = some w) (out : GatherOutputs α) :
    ∃ out', order.foldlM (fun out i => (step i).map out.store) out = some out' := by
  induction order generalizing out with
  | nil => exact ⟨out, rfl⟩
  | cons i order ih =>
    obtain ⟨w, hw⟩ := h i List.mem_cons_self
    obtain ⟨out', hout⟩ := ih (fun j hj => h j (List.mem_cons_of_mem i hj)) (out.store w)
    refine ⟨out', ?_⟩
    rw [List.foldlM_cons, hw]
    exact hout

end Fold

end Bi100.Attention
