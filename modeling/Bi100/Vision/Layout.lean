import Bi100.Lib.Except
import Bi100.Lib.Layout

/-!
# The rows of the vision tower (`Qwen3_5VisionTransformer`)

The absolute and the rotary position embedding of the patches of some grids, and the number of tokens
of an image. Embeddings are rationals, and `torch.linspace` is exact. The last axis of the absolute
embedding is the hidden one in every step, so an element of a tensor is a hidden vector here.
-/

namespace Bi100.Vision

open Py

inductive VisionError where
  | zeroDivision
  /-- `vision grid … is not divisible by merge_size=…` -/
  | notDivisible (grid : Nat × Nat × Nat) (mergeSize : Nat)
  /-- A shape with another number of elements. -/
  | shape
  | index
  /-- `torch.cat` of no tensors. -/
  | emptyCat
deriving DecidableEq, Repr

abbrev Call := Except VisionError

structure Grid where
  t : Nat
  h : Nat
  w : Nat
deriving DecidableEq, Repr

structure VisionTransformer where
  /-- The rows of `pos_embed.weight`. -/
  posEmbed : List (List ℚ)
  spatialMergeSize : Nat
  /-- `inv_freq` of the rotary embedding. -/
  invFreq : List ℚ
  posEmbed_ne : posEmbed ≠ []
  spatialMergeSize_pos : 0 < spatialMergeSize

/-- `int(num_position_embeddings ** .5)` -/
def VisionTransformer.numGridPerSide (v : VisionTransformer) : Nat := v.posEmbed.length.sqrt

section

variable {α : Type}

/-- `a.reshape(shape)` -/
def reshape (a : NdArray α) (shape : List Nat) : Call (NdArray α) := do
  guardNot (a.shape.prod ≠ shape.prod) .shape
  pure (a.view shape)

/-- `a.reshape(h // m, m, w // m, m).permute(0, 2, 1, 3)` -/
def windowMajor (a : NdArray α) (h w mergeSize : Nat) : Call (NdArray α) := do
  guardNot (mergeSize = 0) .zeroDivision
  let a ← reshape a [h / mergeSize, mergeSize, w / mergeSize, mergeSize]
  pure (a.permute [0, 2, 1, 3])

/-- `torch.cat(rows, dim=0)` -/
def cat (rows : List (List α)) : Call (List α) := do
  guardNot (rows = []) .emptyCat
  pure rows.flatten

end

/-! ## The absolute position embedding -/

/-- `torch.linspace(0, last, steps)[i]` -/
def linspace (last steps i : Nat) : ℚ := if steps = 1 then 0 else i * last / (steps - 1 : Nat)

/-- The four rows of `embed_weight` for patch `(i, j)`, with their weights. -/
def corners (numGridPerSide h w i j : Nat) : List (Nat × ℚ) :=
  let hIdx := linspace (numGridPerSide - 1) h i
  let wIdx := linspace (numGridPerSide - 1) w j
  let hFloor := hIdx.floor.toNat
  let wFloor := wIdx.floor.toNat
  let hCeil := min (hFloor + 1) (numGridPerSide - 1)
  let wCeil := min (wFloor + 1) (numGridPerSide - 1)
  let dh := hIdx - hFloor
  let dw := wIdx - wFloor
  let w11 := dh * dw
  let w10 := dh - w11
  let w01 := dw - w11
  let w00 := 1 - dh - w01
  [(hFloor * numGridPerSide + wFloor, w00), (hFloor * numGridPerSide + wCeil, w01),
    (hCeil * numGridPerSide + wFloor, w10), (hCeil * numGridPerSide + wCeil, w11)]

/-- `rows.sum(dim=0)` -/
def sumRows : List (List ℚ) → List ℚ
  | [] => []
  | row :: rows => rows.foldl (List.zipWith (· + ·)) row

/-- `combined` at patch `(i, j)`. -/
def combinedAt (embedWeight : List (List ℚ)) (numGridPerSide h w i j : Nat) : List ℚ :=
  sumRows ((corners numGridPerSide h w i j).map fun (index, weight) =>
    (embedWeight.getD index []).map (· * weight))

/-- `combined`, before it is permuted. -/
def combined (embedWeight : List (List ℚ)) (numGridPerSide h w : Nat) : Call (NdArray (List ℚ)) := do
  guardNot (∃ i < h, ∃ j < w, ∃ c ∈ corners numGridPerSide h w i j, embedWeight.length ≤ c.1) .index
  let grid : NdArray (List ℚ) :=
    ⟨[h, w], fun idx => combinedAt embedWeight numGridPerSide h w (idx.getD 0 0) (idx.getD 1 0)⟩
  pure (grid.view [h * w])

/-- `_vision_pos_embed_interpolate` -/
def visionPosEmbedInterpolate (embedWeight : List (List ℚ)) (t h w numGridPerSide mergeSize : Nat) :
    Call (NdArray (List ℚ)) := do
  guardNot (mergeSize = 0) .zeroDivision
  guardNot (h % mergeSize ≠ 0 ∨ w % mergeSize ≠ 0) (.notDivisible (t, h, w) mergeSize)
  let combined ← combined embedWeight numGridPerSide h w
  let combined ← windowMajor combined h w mergeSize
  let combined := combined.view [1, combined.shape.prod]
  let expanded := combined.expand t
  pure (expanded.view [expanded.shape.prod])

/-- `_absolute_pos_emb` -/
def VisionTransformer.absolutePosEmb (v : VisionTransformer) (gridThw : List Grid) :
    Call (List (List ℚ)) := do
  let rows ← gridThw.mapM fun g => do
    let embedded ← visionPosEmbedInterpolate v.posEmbed g.t g.h g.w v.numGridPerSide v.spatialMergeSize
    pure ((List.range embedded.shape.prod).map fun r => embedded.elem [r])
  cat rows

/-! ## The rotary position embedding -/

/-- The position ids of a grid. -/
def gridPosIds (t h w mergeSize : Nat) : Call (List (Nat × Nat)) := do
  -- `torch.arange(h).unsqueeze(1).expand(-1, w)`
  let hIds : NdArray Nat := ⟨[h, w], fun idx => idx.getD 0 0⟩
  -- `torch.arange(w).unsqueeze(0).expand(h, -1)`
  let wIds : NdArray Nat := ⟨[h, w], fun idx => idx.getD 1 0⟩
  let hIds ← windowMajor hIds h w mergeSize
  let hIds := hIds.view [hIds.shape.prod]
  let wIds ← windowMajor wIds h w mergeSize
  let wIds := wIds.view [wIds.shape.prod]
  let posIds := (hIds.stack wIds).tile t
  pure ((List.range (posIds.shape.headD 0)).map fun r => (posIds.elem [r, 0], posIds.elem [r, 1]))

/-- `pos_ids_t` -/
def VisionTransformer.posIds (v : VisionTransformer) (gridThw : List Grid) :
    Call (List (Nat × Nat)) := do
  let posIds ← gridThw.mapM fun g => gridPosIds g.t g.h g.w v.spatialMergeSize
  cat posIds

/-- A row of `rotary_pos_emb`. -/
def VisionTransformer.freqs (v : VisionTransformer) (position : Nat) : List ℚ :=
  v.invFreq.map ((position : ℚ) * ·)

/-- `_rot_pos_emb` -/
def VisionTransformer.rotPosEmb (v : VisionTransformer) (gridThw : List Grid) :
    Call (List (List ℚ)) := do
  let posIds ← v.posIds gridThw
  let maxGridSize := (gridThw.flatMap fun g => [g.h, g.w]).foldl max 0
  guardNot (∃ p ∈ posIds, maxGridSize ≤ p.1 ∨ maxGridSize ≤ p.2) .index
  pure (posIds.map fun p => v.freqs p.1 ++ v.freqs p.2)

/-! ## The tokens of an image -/

structure ImageProcessor where
  patchSize : Nat
  mergeSize : Nat
  doResize : Bool

/-- `_MAX_IMAGE_TOKENS` -/
def maxImageTokens : Nat := 1280

/-- `_qwen36_pixel_limits` -/
def ImageProcessor.pixelLimits (p : ImageProcessor) : Nat × Nat :=
  (256 * 256, min (4096 * 4096) (maxImageTokens * (p.patchSize * p.mergeSize) ^ 2))

/-- The height and width of the image that is cut into patches; `smartResize` is that of
`transformers`. -/
def ImageProcessor.resized (p : ImageProcessor)
    (smartResize : Nat → Nat → Nat → Nat → Nat → Call (Nat × Nat)) (height width : Nat) :
    Call (Nat × Nat) :=
  if p.doResize then
    smartResize height width (p.patchSize * p.mergeSize) p.pixelLimits.1 p.pixelLimits.2
  else pure (height, width)

/-- `_qwen36_image_token_count` -/
def ImageProcessor.imageTokenCount (p : ImageProcessor)
    (smartResize : Nat → Nat → Nat → Nat → Nat → Call (Nat × Nat)) (height width : Nat) :
    Call Nat := do
  let (height, width) ← p.resized smartResize height width
  guardNot (p.patchSize = 0) .zeroDivision
  guardNot (p.mergeSize ^ 2 = 0) .zeroDivision
  pure (height / p.patchSize * width / p.patchSize / p.mergeSize ^ 2)

end Bi100.Vision
