import Bi100.Lib.Layout
import Bi100.Transfer.BlockMajor
import Mathlib.Data.List.Nodup

/-!
# What the extension copies

- `validateBlockMapping_eq_ok`: the mappings that are accepted.
- Every batch on accepted blocks is a `Parallel` batch of copies (`pack_ok` and so on), and no check
  fails.
- `gpuCellAt_row`: where a vector of a row of the staging buffer belongs.
-/

namespace Bi100

open Py Py.Streams

/-! ## Accepted mappings -/

/-- In range, with distinct sources and distinct destinations. -/
structure Accepted (mapping : List (Int × Int)) (sourceLimit destinationLimit : Int) : Prop where
  sourceLimit_pos : 0 < sourceLimit
  destinationLimit_pos : 0 < destinationLimit
  sources : ∀ p ∈ mapping, 0 ≤ p.1 ∧ p.1 < sourceLimit
  destinations : ∀ p ∈ mapping, 0 ≤ p.2 ∧ p.2 < destinationLimit
  distinct_sources : (mapping.map Prod.fst).Nodup
  distinct_destinations : (mapping.map Prod.snd).Nodup

theorem validateRows_eq_ok {sl dl : Int} {row : Nat} {sources destinations : Finset Int}
    {mapping : List (Int × Int)} {u : Unit} :
    validateRows sl dl row sources destinations mapping = .ok u ↔
      (∀ p ∈ mapping, (0 ≤ p.1 ∧ p.1 < sl) ∧ (0 ≤ p.2 ∧ p.2 < dl)) ∧
      ((mapping.map Prod.fst).Nodup ∧ ∀ p ∈ mapping, p.1 ∉ sources) ∧
      (mapping.map Prod.snd).Nodup ∧ ∀ p ∈ mapping, p.2 ∉ destinations := by
  induction mapping generalizing row sources destinations with
  | nil => simp [validateRows, pure_eq_ok]
  | cons p mapping ih =>
    obtain ⟨source, destination⟩ := p
    rw [validateRows, guardNot_bind_eq_ok, guardNot_bind_eq_ok, guardNot_bind_eq_ok,
      guardNot_bind_eq_ok, ih, not_not, not_not]
    simp only [List.forall_mem_cons, List.map_cons, List.nodup_cons, List.mem_map,
      Finset.mem_insert, not_or, not_exists, not_and]
    constructor
    · rintro ⟨hs, hd, hns, hnd, hrange, ⟨hdis, hs'⟩, hdid, hd'⟩
      exact ⟨⟨⟨hs, hd⟩, hrange⟩, ⟨⟨fun p hp => (hs' p hp).1, hdis⟩, hns, fun p hp => (hs' p hp).2⟩,
        ⟨fun p hp => (hd' p hp).1, hdid⟩, hnd, fun p hp => (hd' p hp).2⟩
    · rintro ⟨⟨⟨hs, hd⟩, hrange⟩, ⟨⟨hs', hdis⟩, hns, hs''⟩, ⟨hd', hdid⟩, hnd, hd''⟩
      exact ⟨hs, hd, hns, hnd, hrange, ⟨hdis, fun p hp => ⟨hs' p hp, hs'' p hp⟩⟩, hdid,
        fun p hp => ⟨hd' p hp, hd'' p hp⟩⟩

theorem validateBlockMapping_eq_ok {mapping : List (Int × Int)} {sl dl : Int}
    {r : List Int × List Int} : validateBlockMapping mapping sl dl = .ok r ↔
      Accepted mapping sl dl ∧ r = (mapping.map Prod.fst, mapping.map Prod.snd) := by
  rw [validateBlockMapping, guardNot_bind_eq_ok, bind_eq_ok]
  simp only [pure_eq_ok, validateRows_eq_ok, Finset.notMem_empty, not_false_eq_true,
    implies_true, and_true]
  constructor
  · rintro ⟨hlimits, u, ⟨hrange, hs, hd⟩, rfl⟩
    exact ⟨⟨by omega, by omega, fun p hp => (hrange p hp).1, fun p hp => (hrange p hp).2, hs, hd⟩,
      rfl⟩
  · rintro ⟨⟨hsl, hdl, hs, hd, hns, hnd⟩, rfl⟩
    exact ⟨by omega, ⟨⟩, ⟨fun p hp => ⟨hs p hp, hd p hp⟩, hns, hnd⟩, rfl⟩

namespace BlockMajorCpuKVCache

variable {c : BlockMajorCpuKVCache} {blocks : List Int}

/-! ## Cells -/

/-- `gpuCell`, of blocks in range. -/
def gpuCellAt (c : BlockMajorCpuKVCache) (blocks : List Int) (linear : Nat) : Cell :=
  .gpuCache (linear / c.vectorsPerPlaneBlock / c.kvPlanes % c.attentionLayers)
    ((linear / c.vectorsPerPlaneBlock % c.kvPlanes * c.numGpuBlocks +
        (blocks.getD (linear / c.vectorsPerPlaneBlock / c.kvPlanes / c.attentionLayers) 0).toNat) *
      c.vectorsPerPlaneBlock + linear % c.vectorsPerPlaneBlock)

/-- Ids of blocks of a tensor of `limit` blocks. -/
def InRange (blocks : List Int) (limit : Nat) : Prop := ∀ b ∈ blocks, 0 ≤ b ∧ b < limit

theorem InRange.getD {limit row : Nat} (h : InRange blocks limit) (hrow : row < blocks.length) :
    0 ≤ blocks.getD row 0 ∧ blocks.getD row 0 < limit := by
  rw [List.getD_eq_getElem?_getD, List.getElem?_eq_getElem hrow, Option.getD_some]
  exact h _ (List.getElem_mem hrow)

theorem getD_inj (h : blocks.Nodup) {i j : Nat} (hi : i < blocks.length) (hj : j < blocks.length)
    (heq : blocks.getD i 0 = blocks.getD j 0) : i = j := by
  rw [List.getD_eq_getElem?_getD, List.getD_eq_getElem?_getD, List.getElem?_eq_getElem hi,
    List.getElem?_eq_getElem hj, Option.getD_some, Option.getD_some] at heq
  exact h.getElem_inj_iff.mp heq

theorem row_lt {linear count : Nat} (h : linear < count * c.vectorsPerBlockMajorRow) :
    linear / c.vectorsPerPlaneBlock / c.kvPlanes / c.attentionLayers < count := by
  have hrow : c.vectorsPerPlaneBlock * (c.kvPlanes * c.attentionLayers) =
      c.vectorsPerBlockMajorRow := by
    unfold vectorsPerBlockMajorRow
    ring
  rw [Nat.div_div_eq_div_mul, Nat.div_div_eq_div_mul, hrow]
  refine Nat.div_lt_of_lt_mul ?_
  rwa [Nat.mul_comm] at h

theorem gpuCell_eq {linear : Nat} (h : InRange blocks c.numGpuBlocks)
    (hlinear : linear < blocks.length * c.vectorsPerBlockMajorRow) :
    c.gpuCell blocks linear = some (c.gpuCellAt blocks linear) := by
  obtain ⟨h0, hlt⟩ := h.getD (row_lt hlinear)
  unfold gpuCell
  exact if_neg (by omega)

theorem gpuCellAt_row {row layer plane i : Nat} (hlayer : layer < c.attentionLayers)
    (hplane : plane < c.kvPlanes) (hi : i < c.vectorsPerPlaneBlock) :
    c.gpuCellAt blocks (row * c.vectorsPerBlockMajorRow +
        ((layer * c.kvPlanes + plane) * c.vectorsPerPlaneBlock + i)) =
      .gpuCache layer ((plane * c.numGpuBlocks + (blocks.getD row 0).toNat) *
        c.vectorsPerPlaneBlock + i) := by
  have hlinear : row * c.vectorsPerBlockMajorRow +
      ((layer * c.kvPlanes + plane) * c.vectorsPerPlaneBlock + i) =
      i + c.vectorsPerPlaneBlock * (plane + c.kvPlanes * (layer + c.attentionLayers * row)) := by
    unfold vectorsPerBlockMajorRow
    ring
  have hdiv : ∀ {x y n : Nat}, x < n → (x + n * y) / n = y := fun {x y n} h => by
    rw [Nat.add_mul_div_left _ _ (by omega), Nat.div_eq_of_lt h, Nat.zero_add]
  have hmod : ∀ {x y n : Nat}, x < n → (x + n * y) % n = x := fun {x y n} h => by
    rw [Nat.add_mul_mod_self_left, Nat.mod_eq_of_lt h]
  unfold gpuCellAt
  rw [hlinear, hdiv hi, hmod hi, hdiv hplane, hmod hplane, hdiv hlayer, hmod hlayer]

/-- The linear index of a vector, from where it is. -/
theorem linear_eq (c : BlockMajorCpuKVCache) (linear : Nat) :
    ((linear / c.vectorsPerPlaneBlock / c.kvPlanes / c.attentionLayers * c.attentionLayers +
        linear / c.vectorsPerPlaneBlock / c.kvPlanes % c.attentionLayers) * c.kvPlanes +
      linear / c.vectorsPerPlaneBlock % c.kvPlanes) * c.vectorsPerPlaneBlock +
      linear % c.vectorsPerPlaneBlock = linear := by
  rw [Nat.div_add_mod', Nat.div_add_mod', Nat.div_add_mod']

/-- The planes of two blocks of a layer do not overlap. -/
theorem plane_inj {plane plane' b b' i i' : Nat} (hb : b < c.numGpuBlocks)
    (hb' : b' < c.numGpuBlocks) (hi : i < c.vectorsPerPlaneBlock)
    (hi' : i' < c.vectorsPerPlaneBlock)
    (h : (plane * c.numGpuBlocks + b) * c.vectorsPerPlaneBlock + i =
      (plane' * c.numGpuBlocks + b') * c.vectorsPerPlaneBlock + i') :
    plane = plane' ∧ b = b' ∧ i = i' := by
  obtain ⟨hpb, rfl⟩ := mul_add_inj hi hi' h
  obtain ⟨hp, hb⟩ := mul_add_inj hb hb' hpb
  exact ⟨hp, hb, rfl⟩

theorem gpuCellAt_inj (h : InRange blocks c.numGpuBlocks) (hdistinct : blocks.Nodup) {i j : Nat}
    (hi : i < blocks.length * c.vectorsPerBlockMajorRow)
    (hj : j < blocks.length * c.vectorsPerBlockMajorRow)
    (heq : c.gpuCellAt blocks i = c.gpuCellAt blocks j) : i = j := by
  obtain ⟨hlayer, hindex⟩ := Cell.gpuCache.inj heq
  have hri := row_lt hi
  have hrj := row_lt hj
  obtain ⟨hbi, hbi'⟩ := h.getD hri
  obtain ⟨hbj, hbj'⟩ := h.getD hrj
  have hpos : 0 < c.vectorsPerPlaneBlock := by
    rcases Nat.eq_zero_or_pos c.vectorsPerPlaneBlock with h0 | hpos
    · rw [vectorsPerBlockMajorRow, h0, Nat.mul_zero, Nat.mul_zero] at hi
      exact absurd hi (Nat.not_lt_zero i)
    · exact hpos
  obtain ⟨hplane, hblock, hvector⟩ := plane_inj (by omega) (by omega) (Nat.mod_lt _ hpos)
    (Nat.mod_lt _ hpos) hindex
  have hrow : blocks.getD (i / c.vectorsPerPlaneBlock / c.kvPlanes / c.attentionLayers) 0 =
      blocks.getD (j / c.vectorsPerPlaneBlock / c.kvPlanes / c.attentionLayers) 0 := by omega
  rw [← c.linear_eq i, ← c.linear_eq j, hlayer, hplane, hvector,
    getD_inj hdistinct hri hrj hrow]

/-! ## Batches -/

theorem poolRows_eq (slot count : Nat) : c.poolRows blocks slot count =
    (List.range (count * c.vectorsPerBlockMajorRow)).map fun i =>
      (.cpuPool ((blocks.getD (i / c.vectorsPerBlockMajorRow) 0).toNat *
        c.vectorsPerBlockMajorRow + i % c.vectorsPerBlockMajorRow), .cpuStaging slot i) := by
  unfold poolRows
  rw [flatMap_range]
  simp only [Nat.div_add_mod']

/-- The blocks of a chunk, in a tensor of `limit` blocks. -/
structure ChunkBlocks (c : BlockMajorCpuKVCache) (blocks : List Int) (limit : Nat) : Prop where
  nonempty : 0 < blocks.length
  fits : blocks.length ≤ c.stagingBlocks
  inRange : InRange blocks limit
  distinct : blocks.Nodup

theorem ChunkBlocks.checkCount {limit : Nat} (h : ChunkBlocks c blocks limit) (message : String) :
    c.checkCount blocks blocks.length message = .ok () := by
  have hfits := h.fits
  unfold BlockMajorCpuKVCache.checkCount
  rw [guardNot_bind, if_neg (not_not_intro ⟨h.nonempty, Nat.le_refl _⟩)]
  exact if_neg (by omega)

theorem ChunkBlocks.checkCpuTransferArgs (h : ChunkBlocks c blocks c.numCpuBlocks) :
    c.checkCpuTransferArgs blocks blocks.length = .ok () := by
  unfold BlockMajorCpuKVCache.checkCpuTransferArgs
  rw [h.checkCount]
  refine forM_eq_ok fun (row, id) hp => ?_
  exact if_neg (not_not_intro (h.inRange id (List.of_mem_zip hp).2))

/-- The staging cells and the GPU cells of a chunk. -/
def packMoves (c : BlockMajorCpuKVCache) (blocks : List Int) (slot : Nat) : List (Cell × Cell) :=
  (List.range (blocks.length * c.vectorsPerBlockMajorRow)).map fun i =>
    (.gpuStaging slot i, c.gpuCellAt blocks i)

theorem pack_ok (h : ChunkBlocks c blocks c.numGpuBlocks) (slot : Nat) :
    c.pack blocks slot blocks.length = .ok (moves (c.packMoves blocks slot)) := by
  unfold pack checkGpuTransferArgs packMoves moves
  rw [h.checkCount, List.map_map]
  refine congrArg Except.ok (List.map_congr_left fun i hi => ?_)
  unfold packVector
  rw [gpuCell_eq h.inRange (List.mem_range.mp hi)]
  rfl

theorem scatter_ok (h : ChunkBlocks c blocks c.numGpuBlocks) (slot : Nat) :
    c.scatter blocks slot blocks.length =
      .ok (moves ((c.packMoves blocks slot).map Prod.swap)) := by
  unfold scatter checkGpuTransferArgs packMoves moves
  rw [h.checkCount, List.map_map, List.map_map]
  refine congrArg Except.ok (List.map_congr_left fun i hi => ?_)
  unfold scatterVector
  rw [gpuCell_eq h.inRange (List.mem_range.mp hi)]
  rfl

theorem cpuGather_ok (h : ChunkBlocks c blocks c.numCpuBlocks) (slot : Nat) :
    c.cpuGather blocks slot blocks.length =
      .ok (moves ((c.poolRows blocks slot blocks.length).map Prod.swap)) := by
  unfold cpuGather
  rw [h.checkCpuTransferArgs]
  rfl

theorem cpuScatter_ok (h : ChunkBlocks c blocks c.numCpuBlocks) (slot : Nat) :
    c.cpuScatter slot blocks blocks.length =
      .ok (moves (c.poolRows blocks slot blocks.length)) := by
  unfold cpuScatter
  rw [h.checkCpuTransferArgs]
  rfl

/-- Copies from one tensor to another, with one destination for each vector. -/
theorem parallel_map {n : Nat} {dst src : Nat → Cell}
    (hinj : ∀ i < n, ∀ j < n, dst i = dst j → i = j) (hne : ∀ i j, dst i ≠ src j) :
    Parallel ((List.range n).map fun i => (dst i, src i)) := by
  constructor
  · rw [List.map_map]
    refine List.nodup_range.map_on fun i hi j hj => ?_
    exact hinj i (List.mem_range.mp hi) j (List.mem_range.mp hj)
  · intro m hm m' hm'
    obtain ⟨i, -, rfl⟩ := List.mem_map.mp hm
    obtain ⟨j, -, rfl⟩ := List.mem_map.mp hm'
    exact hne i j

theorem parallel_pack (slot : Nat) : Parallel (c.packMoves blocks slot) :=
  parallel_map (fun _ _ _ _ h => (Cell.gpuStaging.inj h).2) nofun

theorem parallel_scatter (h : ChunkBlocks c blocks c.numGpuBlocks) (slot : Nat) :
    Parallel ((c.packMoves blocks slot).map Prod.swap) := by
  unfold packMoves
  rw [List.map_map]
  exact parallel_map (fun i hi j hj => gpuCellAt_inj h.inRange h.distinct hi hj) nofun

theorem poolCell_inj (h : ChunkBlocks c blocks c.numCpuBlocks) {i j : Nat}
    (hi : i < blocks.length * c.vectorsPerBlockMajorRow)
    (hj : j < blocks.length * c.vectorsPerBlockMajorRow)
    (heq : (blocks.getD (i / c.vectorsPerBlockMajorRow) 0).toNat * c.vectorsPerBlockMajorRow +
      i % c.vectorsPerBlockMajorRow = (blocks.getD (j / c.vectorsPerBlockMajorRow) 0).toNat *
        c.vectorsPerBlockMajorRow + j % c.vectorsPerBlockMajorRow) : i = j := by
  have hpos : 0 < c.vectorsPerBlockMajorRow := Nat.pos_of_lt_mul_left hi
  have hri : i / c.vectorsPerBlockMajorRow < blocks.length :=
    Nat.div_lt_of_lt_mul (by rwa [Nat.mul_comm])
  have hrj : j / c.vectorsPerBlockMajorRow < blocks.length :=
    Nat.div_lt_of_lt_mul (by rwa [Nat.mul_comm])
  obtain ⟨hblock, hmod⟩ := mul_add_inj (Nat.mod_lt _ hpos) (Nat.mod_lt _ hpos) heq
  have hbi := h.inRange.getD hri
  have hbj := h.inRange.getD hrj
  have hrow : blocks.getD (i / c.vectorsPerBlockMajorRow) 0 =
      blocks.getD (j / c.vectorsPerBlockMajorRow) 0 := by omega
  have hdiv := getD_inj h.distinct hri hrj hrow
  rw [← Nat.div_add_mod' i c.vectorsPerBlockMajorRow, hdiv, hmod, Nat.div_add_mod']

theorem parallel_cpuScatter (h : ChunkBlocks c blocks c.numCpuBlocks) (slot : Nat) :
    Parallel (c.poolRows blocks slot blocks.length) := by
  rw [poolRows_eq]
  exact parallel_map (fun i hi j hj heq => poolCell_inj h hi hj (Cell.cpuPool.inj heq)) nofun

theorem parallel_cpuGather (slot count : Nat) :
    Parallel ((c.poolRows blocks slot count).map Prod.swap) := by
  rw [poolRows_eq, List.map_map]
  exact parallel_map (fun _ _ _ _ h => (Cell.cpuStaging.inj h).2) nofun

theorem unordered_copyToCpu {V : Type} (slot count : Nat) :
    Unordered (runs (V := V) (c.copyToCpu slot count)) :=
  Parallel.unordered (parallel_map (fun _ _ _ _ h => (Cell.cpuStaging.inj h).2) nofun)

theorem unordered_copyToGpu {V : Type} (slot count : Nat) :
    Unordered (runs (V := V) (c.copyToGpu slot count)) :=
  Parallel.unordered (parallel_map (fun _ _ _ _ h => (Cell.gpuStaging.inj h).2) nofun)

end BlockMajorCpuKVCache

end Bi100
