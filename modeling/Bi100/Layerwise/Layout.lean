import Bi100.Lib.Except
import Mathlib.Algebra.Order.Ring.Int

/-!
# The layerwise split layout (`layerwise_split_layout.h`, `mapping_ilu.cpp`)

Which ranks store the KV heads of each layer. `int64_t` values are unbounded here, and `int32_t`
additions stop where they overflow. The kind of the topology is only logged, so it is left out.
-/

namespace Bi100

open Py

/-- How a call stops before it returns. -/
inductive Stop where
  /-- A `CHECK` fails. -/
  | check (condition : String)
  | divisionByZero
  /-- A signed `int32_t` result is out of range. -/
  | overflow
  /-- A tensor is created with a negative dimension. -/
  | negativeDimension
deriving DecidableEq, Repr

abbrev Cpp := Except Stop

/-- `CHECK` -/
def checkThat (p : Prop) [Decidable p] (condition : String) : Cpp Unit :=
  guardNot (¬ p) (.check condition)

/-- An `int32_t` result. -/
def int32 (x : Int) : Cpp Int :=
  if -2 ^ 31 ≤ x ∧ x < 2 ^ 31 then pure x else throw .overflow

/-- `static_cast<int32_t>` of an `int64_t` -/
def castInt32 (x : Int) : Int := Int.bmod x (2 ^ 32)

structure LayerShardSpec where
  layerId : Int
  assignedRanks : List Int
  headsPerRank : List Int
deriving DecidableEq, Repr

namespace LayerShardSpec

/-- `total_heads` -/
def totalHeads (s : LayerShardSpec) : Int := s.headsPerRank.sum

/-- `is_valid` -/
def isValid (s : LayerShardSpec) : Bool :=
  ¬ (s.layerId < 0 ∨ s.assignedRanks = []) ∧ s.assignedRanks.length = s.headsPerRank.length ∧
    ∀ h ∈ s.headsPerRank, 0 < h

/-- `rank_owns_layer` -/
def rankOwnsLayer (s : LayerShardSpec) (rank : Int) : Bool := s.assignedRanks.any (· = rank)

/-- `heads_for_rank`: the heads of the first entry of the rank. -/
def headsForRank (s : LayerShardSpec) (rank : Int) : Int :=
  match (s.assignedRanks.zip s.headsPerRank).find? (·.1 = rank) with
  | none => 0
  | some entry => entry.2

end LayerShardSpec

/-- The loop of `validate`, from a layer on. -/
def validateFrom : Int → List LayerShardSpec → Cpp Unit
  | _, [] => pure ()
  | i, s :: rest => do
    checkThat (s.isValid = true) "specs_[i].is_valid()"
    checkThat (s.layerId = i) "specs_[i].layer_id == i"
    validateFrom (i + 1) rest

/-- A layout that `validate` has passed. -/
structure LayerwiseSplitLayout where
  specs : List LayerShardSpec
  valid : validateFrom 0 specs = .ok ()

namespace LayerwiseSplitLayout

/-- The constructor. -/
def mk? (specs : List LayerShardSpec) : Cpp LayerwiseSplitLayout :=
  match h : validateFrom 0 specs with
  | .ok () => pure ⟨specs, h⟩
  | .error e => throw e

/-- `num_layers` -/
def numLayers (l : LayerwiseSplitLayout) : Nat := l.specs.length

end LayerwiseSplitLayout

/-! ## The mapping -/

/-- `heads_per_rank`: the heads of a layer, divided between some ranks. -/
def splitHeads (totalHeads count : Int) : Cpp (List Int) := do
  guardNot (count = 0) .divisionByZero
  let base := totalHeads.tdiv count
  let rem := totalHeads.tmod count
  pure ((List.range count.toNat).map fun (r : Nat) => base + if (r : Int) < rem then 1 else 0)

/-- One iteration of `compute_ilu_layerwise_layout`, with the next `rr_offset`. -/
def computeLayer (layerId totalHeads worldSize rrOffset : Int) : Cpp (LayerShardSpec × Int) :=
  if worldSize ≤ totalHeads then do
    let heads ← splitHeads totalHeads worldSize
    pure (⟨layerId, (List.range worldSize.toNat).map Int.ofNat, heads⟩, rrOffset)
  else do
    let needed := castInt32 totalHeads
    let ranks ← (List.range needed.toNat).mapM fun (j : Nat) => do
      let rank ← int32 (rrOffset + j)
      pure (rank.tmod worldSize)
    let heads ← splitHeads totalHeads needed
    let next ← int32 (rrOffset + needed)
    pure (⟨layerId, ranks, heads⟩, next.tmod worldSize)

/-- The loop of `compute_ilu_layerwise_layout`. -/
def computeLayers (worldSize : Int) : Int → Int → List Int → Cpp (List LayerShardSpec)
  | _, _, [] => pure []
  | layerId, rrOffset, totalHeads :: rest => do
    let (spec, rrOffset) ← computeLayer layerId totalHeads worldSize rrOffset
    let specs ← computeLayers worldSize (layerId + 1) rrOffset rest
    pure (spec :: specs)

/-- `compute_ilu_layerwise_layout` -/
def computeIluLayerwiseLayout (numLayers : Int) (perLayerKvHeads : List Int) (worldSize : Int) :
    Cpp LayerwiseSplitLayout := do
  checkThat (perLayerKvHeads.length = numLayers) "per_layer_kv_heads.size() == num_layers"
  checkThat (0 < worldSize) "world_size > 0"
  let specs ← computeLayers worldSize 0 0 perLayerKvHeads
  LayerwiseSplitLayout.mk? specs

end Bi100
