import Bi100.Base
import Bi100.Lib.Except
import Bi100.Lib.Moves
import Bi100.Lib.Slices
import Mathlib.Data.Finset.Insert

/-!
# The block-major CPU KV cache (`block_major_kv_cache.py`, `corex_block_major_kv_transfer.cu`)

The GPU cache has one tensor for each layer; in the pool of the CPU the layers of a block are one
row. A transfer goes in chunks through staging buffers on both sides. The kernels and the
asynchronous copies are launched on a stream (`Lib/Streams.lean`), where the elements of a batch are
done in any order; `cpu_gather` and `cpu_scatter` are work of the host.

A cell is a vector of elements (`uint4`). The constants of the source are fields. An argument check
of the extension that fails is the error of the whole transfer: it is about the arguments alone.
The checks of devices, types and layouts are the types here, and block ids are exact numbers.
-/

namespace Bi100

open Py Py.Streams

/-- `BlockMajorCpuKVCache`, without its tensors. -/
structure BlockMajorCpuKVCache where
  /-- `NUM_ATTENTION_LAYERS`, `kAttentionLayers` -/
  attentionLayers : Nat
  kvPlanes : Nat
  vectorsPerPlaneBlock : Nat
  stagingBlocks : Nat
  stagingBufferCount : Nat
  numGpuBlocks : Nat
  numCpuBlocks : Nat
  stagingBlocks_pos : 0 < stagingBlocks
  two_le_stagingBufferCount : 2 ≤ stagingBufferCount

/-- The tensors. -/
inductive Cell where
  | gpuCache (layer index : Nat)
  | gpuStaging (slot index : Nat)
  | cpuStaging (slot index : Nat)
  | cpuPool (index : Nat)
deriving DecidableEq, Repr

/-! ## The mapping -/

/-- The loop of `validate_block_mapping`. -/
def validateRows (sourceLimit destinationLimit : Int) :
    Nat → Finset Int → Finset Int → List (Int × Int) → Except Err Unit
  | _, _, _, [] => pure ()
  | row, sources, destinations, (source, destination) :: rest => do
    guardNot (¬ (0 ≤ source ∧ source < sourceLimit))
      (.valueError s!"source block out of range at row {row}: {source}")
    guardNot (¬ (0 ≤ destination ∧ destination < destinationLimit))
      (.valueError s!"destination block out of range at row {row}: {destination}")
    guardNot (source ∈ sources) (.valueError s!"duplicate source block: {source}")
    guardNot (destination ∈ destinations)
      (.valueError s!"duplicate destination block: {destination}")
    validateRows sourceLimit destinationLimit (row + 1) (insert source sources)
      (insert destination destinations) rest

/-- `validate_block_mapping` -/
def validateBlockMapping (mapping : List (Int × Int)) (sourceLimit destinationLimit : Int) :
    Except Err (List Int × List Int) := do
  guardNot (sourceLimit ≤ 0 ∨ destinationLimit ≤ 0)
    (.valueError "block mapping limits must be positive")
  validateRows sourceLimit destinationLimit 0 ∅ ∅ mapping
  pure (mapping.map Prod.fst, mapping.map Prod.snd)

namespace BlockMajorCpuKVCache

variable (c : BlockMajorCpuKVCache)

/-- `kVectorsPerBlockMajorRow` -/
def vectorsPerBlockMajorRow : Nat := c.attentionLayers * c.kvPlanes * c.vectorsPerPlaneBlock

/-! ## The extension -/

/-- The cell of the GPU cache that belongs to a vector of the staging buffer, as both kernels find
it. `none`: the block is out of range. -/
def gpuCell (blocks : List Int) (linear : Nat) : Option Cell :=
  let featureVector := linear % c.vectorsPerPlaneBlock
  let cursor := linear / c.vectorsPerPlaneBlock
  let kvPlane := cursor % c.kvPlanes
  let cursor := cursor / c.kvPlanes
  let layer := cursor % c.attentionLayers
  let row := cursor / c.attentionLayers
  let block := blocks.getD row 0  -- `row < count`
  if block < 0 ∨ c.numGpuBlocks ≤ block then
    none
  else
    some (.gpuCache layer
      ((kvPlane * c.numGpuBlocks + block.toNat) * c.vectorsPerPlaneBlock + featureVector))

def packVector (sourceBlocks : List Int) (slot linear : Nat) : Op Cell :=
  match c.gpuCell sourceBlocks linear with
  | none => .raise
  | some source => .move (.gpuStaging slot linear) source

def scatterVector (destinationBlocks : List Int) (slot linear : Nat) : Op Cell :=
  match c.gpuCell destinationBlocks linear with
  | none => .raise
  | some destination => .move destination (.gpuStaging slot linear)

/-- The checks that `check_gpu_transfer_args` and `check_cpu_transfer_args` share. -/
def checkCount (blockIds : List Int) (count : Nat) (message : String) : Except Err Unit := do
  guardNot (¬ (0 < count ∧ count ≤ blockIds.length))
    (.runtimeError "count must be in [1, block_ids.numel()]")
  guardNot (c.stagingBlocks < count) (.runtimeError message)

/-- `check_gpu_transfer_args` -/
def checkGpuTransferArgs (blockIds : List Int) (count : Nat) : Except Err Unit :=
  c.checkCount blockIds count "staging must have shape [capacity>=count, 10, 2, 4096]"

/-- `check_cpu_transfer_args` -/
def checkCpuTransferArgs (blockIds : List Int) (count : Nat) : Except Err Unit := do
  c.checkCount blockIds count "CPU staging must have shape [capacity>=count, 10, 2, 4096]"
  ((List.range count).zip blockIds).forM fun (row, id) =>
    guardNot (¬ (0 ≤ id ∧ id < c.numCpuBlocks))
      (.runtimeError s!"CPU block id out of range at row {row}: {id}")

/-- `pack_block_major` -/
def pack (sourceBlocks : List Int) (slot count : Nat) : Except Err (List (Op Cell)) := do
  c.checkGpuTransferArgs sourceBlocks count
  pure ((List.range (count * c.vectorsPerBlockMajorRow)).map (c.packVector sourceBlocks slot))

/-- `scatter_block_major` -/
def scatter (destinationBlocks : List Int) (slot count : Nat) : Except Err (List (Op Cell)) := do
  c.checkGpuTransferArgs destinationBlocks count
  pure ((List.range (count * c.vectorsPerBlockMajorRow)).map
    (c.scatterVector destinationBlocks slot))

/-- The pool cells and the staging cells of the first `count` rows. -/
def poolRows (blocks : List Int) (slot count : Nat) : List (Cell × Cell) :=
  (List.range count).flatMap fun row => (List.range c.vectorsPerBlockMajorRow).map fun i =>
    (.cpuPool ((blocks.getD row 0).toNat * c.vectorsPerBlockMajorRow + i),
      .cpuStaging slot (row * c.vectorsPerBlockMajorRow + i))

/-- `cpu_gather_rows` -/
def cpuGather (sourceBlocks : List Int) (slot count : Nat) : Except Err (List (Op Cell)) := do
  c.checkCpuTransferArgs sourceBlocks count
  pure (moves ((c.poolRows sourceBlocks slot count).map Prod.swap))

/-- `cpu_scatter_rows` -/
def cpuScatter (slot : Nat) (destinationBlocks : List Int) (count : Nat) :
    Except Err (List (Op Cell)) := do
  c.checkCpuTransferArgs destinationBlocks count
  pure (moves (c.poolRows destinationBlocks slot count))

/-- `cpu_staging[slot][:count].copy_(gpu_staging[slot][:count])` -/
def copyToCpu (slot count : Nat) : List (Op Cell) :=
  moves ((List.range (count * c.vectorsPerBlockMajorRow)).map fun i =>
    (.cpuStaging slot i, .gpuStaging slot i))

/-- `gpu_staging[slot][:count].copy_(cpu_staging[slot][:count])` -/
def copyToGpu (slot count : Nat) : List (Op Cell) :=
  moves ((List.range (count * c.vectorsPerBlockMajorRow)).map fun i =>
    (.gpuStaging slot i, .cpuStaging slot i))

/-! ## The transfers -/

structure Chunk where
  source : List Int
  destination : List Int
  gpuIds : List Int
  count : Nat

/-- `_chunks` -/
def chunks (source destination gpuIds : List Int) : List Chunk :=
  (List.range ((source.length + c.stagingBlocks - 1) / c.stagingBlocks)).map fun i =>
    let start := i * c.stagingBlocks
    let stop := min (start + c.stagingBlocks) source.length
    { source := slice source start stop
      destination := slice destination start stop
      gpuIds := slice gpuIds start stop
      count := stop - start }

/-- What the host does, for values `V` in the cells. -/
abbrev Program (V : Type) := List (Instr (Memory Cell V))

structure Pending where
  slot : Nat
  destination : List Int
  count : Nat

variable (V : Type)

/-- `if pending is not None`. -/
def drain : Option Pending → Except Err (Program V)
  | none => pure []
  | some pending => do
    let scattered ← c.cpuScatter pending.slot pending.destination pending.count
    pure [.wait pending.slot, .host (runs scattered)]

/-- The loop of `swap_out`, and what is pending after it. -/
def swapOutLoop : Nat → Option Pending → List Chunk → Except Err (Program V)
  | _, pending, [] => c.drain V pending
  | index, pending, chunk :: rest => do
    let slot := index % c.stagingBufferCount
    let packed ← c.pack chunk.gpuIds slot chunk.count
    let drained ← c.drain V pending
    let later ← swapOutLoop (index + 1) (some ⟨slot, chunk.destination, chunk.count⟩) rest
    pure ([.launch (runs packed), .launch (runs (c.copyToCpu slot chunk.count)), .record slot] ++
      drained ++ later)

/-- `swap_out`, up to the check of the error flag. -/
def swapOut (mapping : List (Int × Int)) : Except Err (Program V) := do
  let (sourceGpu, destinationCpu) ← validateBlockMapping mapping c.numGpuBlocks c.numCpuBlocks
  if sourceGpu.length = 0 then
    pure []
  else
    let loop ← c.swapOutLoop V 0 none (c.chunks sourceGpu destinationCpu sourceGpu)
    pure ([.launch (runs [.clear])] ++ loop ++ [.finish])

/-- The loop of `swap_in`. -/
def swapInLoop : Nat → List Chunk → Except Err (Program V)
  | _, [] => pure []
  | index, chunk :: rest => do
    let slot := index % c.stagingBufferCount
    let gathered ← c.cpuGather chunk.source slot chunk.count
    let scattered ← c.scatter chunk.gpuIds slot chunk.count
    let later ← swapInLoop (index + 1) rest
    pure ((if c.stagingBufferCount ≤ index then [.wait slot] else []) ++
      [.host (runs gathered), .launch (runs (c.copyToGpu slot chunk.count)),
        .launch (runs scattered), .record slot] ++ later)

/-- `swap_in`, up to the check of the error flag. -/
def swapIn (mapping : List (Int × Int)) : Except Err (Program V) := do
  let (sourceCpu, destinationGpu) ← validateBlockMapping mapping c.numCpuBlocks c.numGpuBlocks
  if sourceCpu.length = 0 then
    pure []
  else
    let loop ← c.swapInLoop V 0 (c.chunks sourceCpu destinationGpu destinationGpu)
    pure ([.launch (runs [.clear])] ++ loop ++ [.finish])

variable {V}

/-- `check_transfer_error` -/
def checkTransferError (mem : Memory Cell V) : Except Err Unit :=
  guardNot mem.error (.runtimeError "GPU block mapping contains an out-of-range id")

/-- Block `block` of the GPU tensor of a layer, of shape `[planes, blocks, vectors]`. -/
def gpuBlock (mem : Memory Cell V) (layer block : Nat) :
    Fin c.kvPlanes → Fin c.vectorsPerPlaneBlock → V :=
  fun plane i => mem.cell
    (.gpuCache layer ((plane * c.numGpuBlocks + block) * c.vectorsPerPlaneBlock + i))

/-- Block `block` of a layer of the CPU pool: of `layer_views`. -/
def cpuBlock (mem : Memory Cell V) (layer block : Nat) :
    Fin c.kvPlanes → Fin c.vectorsPerPlaneBlock → V :=
  fun plane i => mem.cell (.cpuPool (block * c.vectorsPerBlockMajorRow +
    ((layer * c.kvPlanes + plane) * c.vectorsPerPlaneBlock + i)))

end BlockMajorCpuKVCache

end Bi100
