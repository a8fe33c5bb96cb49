import Bi100.Layerwise.Layout

/-!
# Memory of the layerwise KV cache

The estimate of the master (`kv_cache_estimation_layerwise.cpp`) and the allocation of a worker
(`kv_cache_layerwise.cpp`). The build is a parameter. A tensor is its shape and its element type,
and the size of an element type is torch's.
-/

namespace Bi100

open Py

/-- The build: `USE_CUDA`, `USE_NPU`, `USE_MLU`, `USE_ILU`. -/
inductive Build where
  | cuda
  | npu
  | mlu
  | ilu
deriving DecidableEq, Repr

namespace Build

/-- `defined(USE_ILU) || defined(USE_MLU)`: the heads are axis 1 of a cache. -/
def transposed (b : Build) : Bool := b = ilu ∨ b = mlu

end Build

/-- `kWarpSize` -/
def kWarpSize : Int := 64

/-- `align_up` -/
def alignUp (val align : Int) : Int := (val + align - 1).tdiv align * align

/-! ## The estimate -/

/-- `dtype_bytes` -/
def dtypeBytes (dtypeEnum : Int) : Int :=
  if dtypeEnum = 5 then 2        -- float16
  else if dtypeEnum = 15 then 2  -- bfloat16
  else if dtypeEnum = 6 then 4   -- float32
  else if dtypeEnum = 2 then 1   -- int8
  else 2

/-- `padded_head_dim` of the estimate. -/
def paddedHeadDim (b : Build) (headDim : Int) : Int :=
  if b = .ilu then alignUp headDim kWarpSize else headDim

structure LayerwiseKVMemoryEstimate where
  peakPerRankBytes : Int
  uniformPerRankBytes : Int
  perRankBytes : List Int
deriving DecidableEq, Repr

/-- The inner loop of the estimate: the entries of a layer, `headBytes` for each head. -/
def addEntries (headBytes worldSize : Int) : List (Int × Int) → List Int → Cpp (List Int)
  | [], perRankBytes => pure perRankBytes
  | (rank, heads) :: rest, perRankBytes => do
    checkThat (0 ≤ rank) "rank >= 0"
    checkThat (rank < worldSize) "rank < world_size"
    addEntries headBytes worldSize rest (perRankBytes.modify rank.toNat (· + heads * headBytes))

/-- `per_rank_bytes` -/
def addLayers (headBytes worldSize : Int) : List LayerShardSpec → List Int → Cpp (List Int)
  | [], perRankBytes => pure perRankBytes
  | s :: rest, perRankBytes => do
    let perRankBytes ← addEntries headBytes worldSize (s.assignedRanks.zip s.headsPerRank) perRankBytes
    addLayers headBytes worldSize rest perRankBytes

/-- `estimate_layerwise_kv_memory` -/
def estimateLayerwiseKvMemory (b : Build) (layout : LayerwiseSplitLayout)
    (nBlocks blockSize headDim dtypeEnum worldSize : Int) : Cpp LayerwiseKVMemoryEstimate := do
  checkThat (0 < layout.numLayers) "layout.num_layers() > 0"
  checkThat (0 < worldSize) "world_size > 0"
  let headBytes := 2 * nBlocks * blockSize * paddedHeadDim b headDim * dtypeBytes dtypeEnum
  let perRankBytes ← addLayers headBytes worldSize layout.specs (List.replicate worldSize.toNat 0)
  let uniformTotal := (layout.specs.map LayerShardSpec.totalHeads).sum
  pure {
    peakPerRankBytes := perRankBytes.foldl max (perRankBytes.headD 0)
    uniformPerRankBytes := uniformTotal.tdiv worldSize * headBytes
    perRankBytes }

/-- `savings_vs_uniform_pct`, with the quotients of doubles exact. -/
def LayerwiseKVMemoryEstimate.savingsVsUniformPct (est : LayerwiseKVMemoryEstimate) : Rat :=
  if 0 < est.uniformPerRankBytes then
    100 * (1 - (est.peakPerRankBytes : Rat) / (est.uniformPerRankBytes : Rat))
  else 0

/-! ## The shapes -/

structure ModelArgs where
  enableMla : Bool
  modelType : String
  kvLoraRank : Int
  qkRopeHeadDim : Int
  nHeads : Int
  nKvHeads : Option Int
  headDim : Int
deriving DecidableEq, Repr

/-- `get_local_head_count` -/
def getLocalHeadCount (totalHeadCount worldSize : Int) : Int := max 1 (totalHeadCount.tdiv worldSize)

/-- `util::ceil_div` -/
def ceilDiv (x y : Int) : Int := (x + y - 1).tdiv y

/-- `kNzAlignment` -/
def kNzAlignment : Int := 16

/-- The fractal format of the NPU. -/
def usesNz (b : Build) (enablePrefixCache : Bool) (args : ModelArgs) : Bool :=
  args.enableMla ∧ b = .npu ∧ args.modelType = "deepseek_v3" ∧ enablePrefixCache = true

/-- `init_key_cache_shape` and `init_value_cache_shape`, for the latent dimension that they keep. -/
def initCacheShape (b : Build) (enablePrefixCache : Bool) (args : ModelArgs)
    (nBlocks blockSize worldSize latentDim : Int) : List Int :=
  if usesNz b enablePrefixCache args then
    [nBlocks, ceilDiv latentDim kNzAlignment, blockSize, kNzAlignment]
  else if args.enableMla then [nBlocks, blockSize, 1, latentDim]
  else [nBlocks, blockSize, getLocalHeadCount (args.nKvHeads.getD args.nHeads) worldSize,
    args.headDim]

/-- The key and the value caches; the other caches are not allocated layerwise. -/
structure KVCacheShape where
  keyCacheShape : Option (List Int)
  valueCacheShape : Option (List Int)
deriving DecidableEq, Repr

/-- `transpose_dim_1_and_2` -/
def transposeDim1And2 : List Int → List Int
  | n :: x :: y :: rest => n :: y :: x :: rest
  | shape => shape

/-- `apply_device_layout` -/
def KVCacheShape.applyDeviceLayout (b : Build) (args : ModelArgs) (shape : KVCacheShape) :
    KVCacheShape :=
  let shape := if b.transposed then
    ⟨shape.keyCacheShape.map transposeDim1And2, shape.valueCacheShape.map transposeDim1And2⟩
    else shape
  if b = .mlu ∧ args.enableMla = true then
    ⟨shape.keyCacheShape.map (·.set 3 (args.kvLoraRank + args.qkRopeHeadDim)), none⟩
  else shape

/-- The constructor. -/
def KVCacheShape.init (b : Build) (enablePrefixCache : Bool) (args : ModelArgs)
    (nBlocks blockSize worldSize : Int) : Cpp KVCacheShape := do
  checkThat (0 < worldSize) "world_size must be positive."
  checkThat (0 < blockSize) "block_size must be positive."
  let cacheShape := initCacheShape b enablePrefixCache args nBlocks blockSize worldSize
  pure (KVCacheShape.applyDeviceLayout b args
    ⟨some (cacheShape args.kvLoraRank), some (cacheShape args.qkRopeHeadDim)⟩)

/-! ## The allocation -/

structure Tensor where
  shape : List Int
  dtype : Int
deriving DecidableEq, Repr

/-- `torch::zeros` -/
def torchZeros (shape : List Int) (dtype : Int) : Cpp Tensor := do
  guardNot (∃ d ∈ shape, d < 0) .negativeDimension
  pure ⟨shape, dtype⟩

/-- The bytes of a tensor, for the element sizes of torch. -/
def Tensor.nbytes (itemsize : Int → Int) (t : Tensor) : Int := t.shape.prod * itemsize t.dtype

structure KVCacheCreateOptions where
  numLayers : Int
  dtype : Int
deriving DecidableEq, Repr

/-- A cache of a layer; a layer that the rank does not store has no tensors. -/
structure KVCache where
  keyCache : Option Tensor
  valueCache : Option Tensor
deriving DecidableEq, Repr

/-- The bytes of the tensors of a cache. -/
def KVCache.nbytes (itemsize : Int → Int) (c : KVCache) : Int :=
  (c.keyCache.map (Tensor.nbytes itemsize)).getD 0 + (c.valueCache.map (Tensor.nbytes itemsize)).getD 0

/-- The shape of a cache of the layer, from the base shape. -/
def shardShape (b : Build) (base : List Int) (localHeads : Int) : List Int :=
  if b.transposed then (base.set 1 localHeads).modify 3 (alignUp · kWarpSize)
  else base.set 2 localHeads

/-- The body of the loop of `allocate_kv_caches_layerwise`. -/
def allocateLayer (b : Build) (base : KVCacheShape) (dtype rank : Int) (s : LayerShardSpec) :
    Cpp KVCache :=
  if s.rankOwnsLayer rank = false then pure ⟨none, none⟩
  else do
    let localHeads := s.headsForRank rank
    checkThat (0 < localHeads) "local_heads > 0"
    match base.keyCacheShape with
    | none => throw (.check "base_shape.has_key_cache_shape()")
    | some kShape => do
      checkThat (4 ≤ kShape.length) "k_shape.size() >= 4"
      let kTensor ← torchZeros (shardShape b kShape localHeads) dtype
      match base.valueCacheShape with
      | none => pure ⟨some kTensor, none⟩
      | some vShape => do
        checkThat (4 ≤ vShape.length) "v_shape.size() >= 4"
        let vTensor ← torchZeros (shardShape b vShape localHeads) dtype
        pure ⟨some kTensor, some vTensor⟩

/-- `allocate_kv_caches_layerwise` -/
def allocateKvCachesLayerwise (b : Build) (kvCaches : List KVCache) (base : KVCacheShape)
    (options : KVCacheCreateOptions) (layout : LayerwiseSplitLayout) (rank : Int) :
    Cpp (List KVCache) := do
  checkThat (kvCaches = []) "kv_caches.empty()"
  checkThat (options.numLayers = layout.numLayers) "num_layers == layout.num_layers()"
  layout.specs.mapM (allocateLayer b base options.dtype rank)

end Bi100
