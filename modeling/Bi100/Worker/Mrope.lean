import Bi100.Lib.Except
import Bi100.Vision.Layout
import Bi100.Worker.Builder

/-!
# MRoPE positions of the model input (`rotary_embedding.py`, `patch_model_runner.py`)

`MRotaryEmbedding.get_input_positions` and `get_next_input_positions`, and what the worker makes of
them for a sequence. A tensor with three rows is a list of its columns. The models with MRoPE have no
sliding window.
-/

namespace Bi100

open Py
open Vision (Grid)

namespace Mrope

inductive Error where
  /-- `max` of an empty tensor. -/
  | emptyMax
  /-- `torch.cat` of no tensors. -/
  | emptyCat
  | index
  /-- A subscript of `None`. -/
  | typeError
  /-- `list.index` of a missing value. -/
  | notFound
  | zeroDivision
  /-- `torch.arange` of a negative length. -/
  | negativeLength
  /-- `mrope embedding type requires … 'image_grid_thw' or 'video_grid_thw'.` -/
  | noGrid
  /-- `MRoPE positions must contain three axes` -/
  | axes
  /-- `MRoPE/input token length mismatch after chunk alignment: …` -/
  | lengthMismatch (positions : List Nat) (inputTokens : Nat)
deriving DecidableEq, Repr

abbrev Call := Except Error

/-- The fields of `hf_config` that the positions depend on. -/
structure HfConfig where
  imageTokenId : Nat
  videoTokenId : Nat
  visionStartTokenId : Nat
  spatialMergeSize : Nat

/-- `image_grid_thw` and `video_grid_thw` of the mapped multi-modal data. -/
structure MultiModalKwargs where
  imageGridThw : Option (List Grid)
  videoGridThw : Option (List Grid)

/-! ## The map of a sequence -/

/-- A tensor with three rows, by its columns. -/
abbrev Columns := List (Nat × Nat × Nat)

/-- `tolist()` -/
def toAxes (columns : Columns) : List (List Int) :=
  [columns.map fun c => c.1, columns.map fun c => c.2.1, columns.map fun c => c.2.2]

/-- `max()` -/
def maxEntry (columns : Columns) : Call Nat :=
  match (columns.flatMap fun c => [c.1, c.2.1, c.2.2]).max? with
  | some m => pure m
  | none => throw .emptyMax

/-- `torch.arange(text_len).view(1, -1).expand(3, -1) + st_idx` -/
def textSegment (textLen stIdx : Nat) : Columns :=
  (List.range textLen).map fun i => (i + stIdx, i + stIdx, i + stIdx)

/-- `torch.stack([t_index, h_index, w_index]) + offset` -/
def gridSegment (gridT gridH gridW offset : Nat) : Columns :=
  (List.range gridT).flatMap fun t => (List.range gridH).flatMap fun h =>
    (List.range gridW).map fun w => (t + offset, h + offset, w + offset)

/-- `input_tokens_tensor[index]` -/
def tokenAt (inputTokens : List Nat) (index : Nat) : Call Nat :=
  match inputTokens[index]? with
  | some token => pure token
  | none => throw .index

/-- `input_tokens_tensor[vision_start_indices + 1]` -/
def visionTokens (cfg : HfConfig) (inputTokens : List Nat) : Call (List Nat) :=
  let visionStartIndices := (List.range inputTokens.length).filter fun i =>
    inputTokens[i]? = some cfg.visionStartTokenId
  visionStartIndices.mapM fun i => tokenAt inputTokens (i + 1)

/-- `input_tokens.index(token, st)` -/
def indexFrom (inputTokens : List Nat) (token st : Nat) : Call Nat :=
  if token ∈ inputTokens.drop st then pure (st + (inputTokens.drop st).idxOf token)
  else throw .notFound

/-- `ed_image`, `ed_video` -/
def nextVision (inputTokens : List Nat) (token remain st : Nat) : Call Nat :=
  if token ∈ inputTokens ∧ 0 < remain then indexFrom inputTokens token st
  else pure (inputTokens.length + 1)

/-- `grid_thw[index]` -/
def gridAt (gridThw : Option (List Grid)) (index : Nat) : Call Grid :=
  match gridThw with
  | none => throw .typeError
  | some grids =>
    match grids[index]? with
    | some grid => pure grid
    | none => throw .index

/-- `llm_pos_ids_list[-1].max() + 1 if len(llm_pos_ids_list) > 0 else 0` -/
def nextIndex (llmPosIdsList : List Columns) : Call Nat :=
  match llmPosIdsList.getLast? with
  | some last => do
    let m ← maxEntry last
    pure (m + 1)
  | none => pure 0

structure LoopState where
  llmPosIdsList : List Columns
  st : Nat
  remainImages : Nat
  remainVideos : Nat
  imageIndex : Nat
  videoIndex : Nat

/-- The body of the loop, from the grid on. -/
def LoopState.push (cfg : HfConfig) (s : LoopState) (grid : Grid) (ed : Nat) : Call LoopState := do
  guardNot (cfg.spatialMergeSize = 0) .zeroDivision
  let gridH := grid.h / cfg.spatialMergeSize
  let gridW := grid.w / cfg.spatialMergeSize
  guardNot (ed < s.st) .negativeLength
  let textLen := ed - s.st
  let stIdx ← nextIndex s.llmPosIdsList
  pure { s with
    llmPosIdsList := s.llmPosIdsList ++
      [textSegment textLen stIdx, gridSegment grid.t gridH gridW (textLen + stIdx)]
    st := ed + grid.t * gridH * gridW }

/-- The body of the loop over the images and videos. -/
def visionStep (cfg : HfConfig) (inputTokens : List Nat) (kwargs : MultiModalKwargs)
    (s : LoopState) : Call LoopState := do
  let edImage ← nextVision inputTokens cfg.imageTokenId s.remainImages s.st
  let edVideo ← nextVision inputTokens cfg.videoTokenId s.remainVideos s.st
  if edImage < edVideo then do
    let grid ← gridAt kwargs.imageGridThw s.imageIndex
    { s with imageIndex := s.imageIndex + 1, remainImages := s.remainImages - 1 }.push cfg grid edImage
  else do
    let grid ← gridAt kwargs.videoGridThw s.videoIndex
    { s with videoIndex := s.videoIndex + 1, remainVideos := s.remainVideos - 1 }.push cfg grid edVideo

def visionLoop (cfg : HfConfig) (inputTokens : List Nat) (kwargs : MultiModalKwargs) :
    Nat → LoopState → Call LoopState
  | 0, s => pure s
  | n + 1, s => do
    let s ← visionStep cfg inputTokens kwargs s
    visionLoop cfg inputTokens kwargs n s

/-- The text after the last image or video. -/
def appendText (inputTokens : List Nat) (s : LoopState) : Call (List Columns) :=
  if s.st < inputTokens.length then do
    let stIdx ← nextIndex s.llmPosIdsList
    pure (s.llmPosIdsList ++ [textSegment (inputTokens.length - s.st) stIdx])
  else pure s.llmPosIdsList

/-- `get_input_positions` -/
def getInputPositions (cfg : HfConfig) (inputTokens : List Nat) (kwargs : MultiModalKwargs)
    (contextLen : Nat) : Call (List (List Int) × Int) := do
  let visionTokens ← visionTokens cfg inputTokens
  let imageNums := visionTokens.count cfg.imageTokenId
  let videoNums := visionTokens.count cfg.videoTokenId
  let s ← visionLoop cfg inputTokens kwargs (imageNums + videoNums) ⟨[], 0, imageNums, videoNums, 0, 0⟩
  let llmPosIdsList ← appendText inputTokens s
  guardNot (llmPosIdsList = []) .emptyCat
  let llmPositions := llmPosIdsList.flatten.drop contextLen
  let m ← maxEntry llmPositions
  pure (toAxes llmPositions, (m : Int) + 1 - inputTokens.length)

/-- `get_next_input_positions` -/
def getNextInputPositions (mropePositionDelta : Int) (contextLen seqLen : Nat) : List (List Int) :=
  List.replicate 3 ((List.range' contextLen (seqLen - contextLen)).map fun i : Nat =>
    (i : Int) + mropePositionDelta)

/-! ## The worker -/

/-- `axis[start:stop]` -/
def axisSlice (axis : List Int) (start : Int) (stop : Option Nat) : List Int :=
  let first := if start < 0 then axis.length - (-start).toNat else start.toNat
  (axis.take (stop.getD axis.length)).drop first

/-- `_slice_mrope_positions` -/
def sliceMropePositions (positions : List (List Int)) (start : Int) (stop : Option Nat)
    (expectedLen : Nat) : Call (List (List Int)) := do
  guardNot (positions.length ≠ 3) .axes
  let sliced := positions.map fun axis => axisSlice axis start stop
  let lengths := sliced.map List.length
  guardNot (lengths ≠ List.replicate 3 expectedLen) (.lengthMismatch lengths expectedLen)
  pure sliced

/-- A runner without sliding window. -/
structure Runner where
  blockSize : Nat
  hfConfig : HfConfig

def Runner.config (r : Runner) : RunnerConfig := { blockSize := r.blockSize }

/-- What `_compute_for_prefix_cache_hit` does with the positions. -/
def computeForPrefixCacheHit (r : Runner) (d : InterData) (positions : Option (List (List Int))) :
    Call (Option (List (List Int))) :=
  let prefixLen := prefixCacheLen r.config d
  match positions with
  | none => pure none
  | some axes =>
    if isPrefixCacheHit r.config d = false then pure (some axes)
    else if prefixLen ≤ d.contextLen then pure (some axes)
    else if prefixLen < d.seqLen then do
      let axes ← sliceMropePositions axes (prefixLen - d.contextLen : Nat) none (d.seqLen - prefixLen)
      pure (some axes)
    else do
      let axes ← sliceMropePositions axes (-1) none 1
      pure (some axes)

/-- `_compute_multi_modal_input` -/
def computeMultiModalInput (r : Runner) (d : InterData) (tokenIds : List Nat)
    (kwargs : MultiModalKwargs) : Call (List (List Int) × Int) := do
  guardNot (kwargs.imageGridThw = none ∧ kwargs.videoGridThw = none) .noGrid
  let (positions, delta) ← getInputPositions r.hfConfig tokenIds kwargs 0
  let positions ← sliceMropePositions positions d.contextLen (some d.seqLen) d.inputTokens.length
  pure (positions, delta)

/-- The input of a sequence, its positions and its new `mrope_position_delta`. -/
def addSequence (r : Runner) (g : SeqMetadata) (mropePositionDelta : Option Int)
    (multiModalData : Option MultiModalKwargs) :
    Call (InterData × Option (List (List Int)) × Option Int) := do
  let lens := computeLens g
  let positions := mropePositionDelta.map fun delta =>
    getNextInputPositions delta lens.contextLen lens.seqLen
  let positions ← computeForPrefixCacheHit r lens positions
  let d := interData r.config g
  match multiModalData with
  | none => pure (d, positions, mropePositionDelta)
  | some kwargs => do
    let (positions, delta) ← computeMultiModalInput r d g.seqData.getTokenIds kwargs
    pure (d, some positions, some delta)

end Mrope

end Bi100
