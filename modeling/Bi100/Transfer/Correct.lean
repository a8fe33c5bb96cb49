import Bi100.Lib.Copies
import Bi100.Transfer.Pipeline

/-!
# A transfer copies the mapped blocks

`OutDone` and `InDone` are what the first chunks have done; the staged chunk of `swap_out` is one
behind. With the race freedom of the programs, every execution ends, and ends so
(`transfers_copy`).
-/

namespace Bi100

open Py Py.Streams

namespace BlockMajorCpuKVCache

variable {c : BlockMajorCpuKVCache} {V : Type} {mem : Memory Cell V} {tile : Tile}

/-- The copies of a tile. -/
def pairs (tile : Tile) : List (Nat × Nat) := tile.map fun p => (p.1.toNat, p.2.toNat)

theorem row_of_mem {b : Nat} (h : b ∈ (pairs tile).map Prod.snd) :
    ∃ row < tile.length, (((tile.map Prod.fst).getD row 0).toNat, b) ∈ pairs tile ∧
      ((tile.map Prod.snd).getD row 0).toNat = b := by
  obtain ⟨q, hq, rfl⟩ := List.mem_map.mp h
  obtain ⟨p, hp, rfl⟩ := List.mem_map.mp hq
  obtain ⟨row, hrow⟩ := List.mem_iff_getElem?.mp hp
  refine ⟨row, (List.getElem?_eq_some_iff.mp hrow).1, ?_, ?_⟩
  · rw [List.getD_eq_getElem?_getD, List.getElem?_map, hrow]
    exact hq
  · rw [List.getD_eq_getElem?_getD, List.getElem?_map, hrow]
    rfl

theorem mem_of_row {row : Nat} (h : row < tile.length) :
    ((tile.map Prod.snd).getD row 0).toNat ∈ (pairs tile).map Prod.snd := by
  rw [List.getD_eq_getElem?_getD, List.getElem?_map, List.getElem?_eq_getElem h]
  exact List.mem_map_of_mem (List.mem_map_of_mem (List.getElem_mem h))

theorem nodup_pairs {limit : Nat} (h : c.ChunkBlocks (tile.map Prod.snd) limit) :
    ((pairs tile).map Prod.snd).Nodup := by
  have hmap : (pairs tile).map Prod.snd = (tile.map Prod.snd).map Int.toNat := by
    unfold pairs
    rw [List.map_map, List.map_map]
    rfl
  rw [hmap]
  refine h.distinct.map_on fun a ha b hb heq => ?_
  have hrange := h.inRange a ha
  have hrange' := h.inRange b hb
  omega

theorem offset_lt {layer : Nat} (hlayer : layer < c.attentionLayers) (plane : Fin c.kvPlanes)
    (i : Fin c.vectorsPerPlaneBlock) :
    (layer * c.kvPlanes + plane) * c.vectorsPerPlaneBlock + i < c.vectorsPerBlockMajorRow := by
  unfold vectorsPerBlockMajorRow
  calc (layer * c.kvPlanes + plane) * c.vectorsPerPlaneBlock + i
      < (layer * c.kvPlanes + plane + 1) * c.vectorsPerPlaneBlock := by
        rw [Nat.succ_mul]
        exact Nat.add_lt_add_left i.isLt _
    _ ≤ ((layer + 1) * c.kvPlanes) * c.vectorsPerPlaneBlock := by
        refine Nat.mul_le_mul_right _ ?_
        rw [Nat.succ_mul]
        exact Nat.add_lt_add_left plane.isLt _
    _ ≤ c.attentionLayers * c.kvPlanes * c.vectorsPerPlaneBlock :=
        Nat.mul_le_mul_right _ (Nat.mul_le_mul_right _ hlayer)

/-! ## What the batches do -/

/-- A batch that copies `n` cells. -/
def copyEach (n : Nat) (dst src : Nat → Cell) (mem : Memory Cell V) : Memory Cell V :=
  runBatch (runs (moves ((List.range n).map fun i => (dst i, src i)))) mem

theorem copyEach_of_ne {n : Nat} {dst src : Nat → Cell} {x : Cell} (h : ∀ i < n, x ≠ dst i) :
    (copyEach n dst src mem).cell x = mem.cell x := by
  refine cell_of_not_mem fun hx => ?_
  rw [List.map_map] at hx
  obtain ⟨i, hi, rfl⟩ := List.mem_map.mp hx
  exact h i (List.mem_range.mp hi) rfl

theorem copyEach_dst {n : Nat} {dst src : Nat → Cell}
    (hinj : ∀ i < n, ∀ j < n, dst i = dst j → i = j) (hne : ∀ i j, dst i ≠ src j) {i : Nat}
    (hi : i < n) : (copyEach n dst src mem).cell (dst i) = mem.cell (src i) :=
  (parallel_map hinj hne).cell_fst (List.mem_map.mpr ⟨i, List.mem_range.mpr hi, rfl⟩)

/-- The cell of the pool that belongs to a cell of the staging buffer. -/
def poolCell (c : BlockMajorCpuKVCache) (blocks : List Int) (linear : Nat) : Cell :=
  .cpuPool ((blocks.getD (linear / c.vectorsPerBlockMajorRow) 0).toNat *
    c.vectorsPerBlockMajorRow + linear % c.vectorsPerBlockMajorRow)

theorem poolCell_row {blocks : List Int} {row i : Nat} (hi : i < c.vectorsPerBlockMajorRow) :
    c.poolCell blocks (row * c.vectorsPerBlockMajorRow + i) =
      .cpuPool ((blocks.getD row 0).toNat * c.vectorsPerBlockMajorRow + i) := by
  unfold poolCell
  rw [Nat.mul_comm row, Nat.mul_add_div (by omega), Nat.div_eq_of_lt hi, Nat.add_zero,
    Nat.mul_add_mod, Nat.mod_eq_of_lt hi]

/-- `pack`, and the copy to the CPU. -/
def fetch (c : BlockMajorCpuKVCache) (slot : Nat) (tile : Tile) (mem : Memory Cell V) :
    Memory Cell V :=
  runBatch (runs (c.copyToCpu slot tile.length))
    (runBatch (runs (moves (c.packMoves (tile.map Prod.fst) slot))) mem)

theorem fetch_eq (slot : Nat) : c.fetch slot tile mem =
    copyEach (tile.length * c.vectorsPerBlockMajorRow) (.cpuStaging slot) (.gpuStaging slot)
      (copyEach (tile.length * c.vectorsPerBlockMajorRow) (.gpuStaging slot)
        (c.gpuCellAt (tile.map Prod.fst)) mem) := by
  unfold fetch packMoves
  rw [List.length_map]
  rfl

/-- `cpu_scatter` -/
def scatterRows (c : BlockMajorCpuKVCache) (slot : Nat) (tile : Tile) (mem : Memory Cell V) :
    Memory Cell V :=
  runBatch (runs (moves (c.poolRows (tile.map Prod.snd) slot tile.length))) mem

theorem scatterRows_eq (slot : Nat) : c.scatterRows slot tile mem =
    copyEach (tile.length * c.vectorsPerBlockMajorRow) (c.poolCell (tile.map Prod.snd))
      (.cpuStaging slot) mem := by
  unfold scatterRows
  rw [poolRows_eq]
  rfl

/-- `cpu_gather`, the copy to the GPU, and `scatter`. -/
def deliver (c : BlockMajorCpuKVCache) (slot : Nat) (tile : Tile) (mem : Memory Cell V) :
    Memory Cell V :=
  runBatch (runs (moves ((c.packMoves (tile.map Prod.snd) slot).map Prod.swap)))
    (runBatch (runs (c.copyToGpu slot tile.length))
      (runBatch (runs (moves ((c.poolRows (tile.map Prod.fst) slot tile.length).map Prod.swap)))
        mem))

theorem deliver_eq (slot : Nat) : c.deliver slot tile mem =
    copyEach (tile.length * c.vectorsPerBlockMajorRow) (c.gpuCellAt (tile.map Prod.snd))
      (.gpuStaging slot)
      (copyEach (tile.length * c.vectorsPerBlockMajorRow) (.gpuStaging slot) (.cpuStaging slot)
        (copyEach (tile.length * c.vectorsPerBlockMajorRow) (.cpuStaging slot)
          (c.poolCell (tile.map Prod.fst)) mem)) := by
  unfold deliver packMoves
  rw [poolRows_eq, List.map_map, List.map_map, List.length_map]
  rfl

/-! ## `swap_out` -/

/-- The staging cells of a slot of the CPU hold the rows of a tile, as they were in `mem₀`. -/
def StagedFrom (c : BlockMajorCpuKVCache) (mem₀ mem : Memory Cell V) (slot : Nat) (tile : Tile) :
    Prop :=
  ∀ i < tile.length * c.vectorsPerBlockMajorRow,
    mem.cell (.cpuStaging slot i) = mem₀.cell (c.gpuCellAt (tile.map Prod.fst) i)

theorem cell_fetch {x : Cell} {slot : Nat} (hgpu : ∀ i, x ≠ .gpuStaging slot i)
    (hcpu : ∀ i, x ≠ .cpuStaging slot i) : (c.fetch slot tile mem).cell x = mem.cell x := by
  rw [fetch_eq, copyEach_of_ne fun i _ => hcpu i, copyEach_of_ne fun i _ => hgpu i]

theorem stagedFrom_fetch (slot : Nat) : c.StagedFrom mem (c.fetch slot tile mem) slot tile := by
  intro i hi
  rw [fetch_eq]
  exact (copyEach_dst (fun _ _ _ _ h => (Cell.cpuStaging.inj h).2) (by nofun) hi).trans
    (copyEach_dst (fun _ _ _ _ h => (Cell.gpuStaging.inj h).2) (by nofun) hi)

theorem error_fetch (slot : Nat) : (c.fetch slot tile mem).error = mem.error :=
  error_moves.trans error_moves

theorem cell_scatterRows {x : Cell} {slot : Nat} (h : ∀ i, x ≠ .cpuPool i) :
    (c.scatterRows slot tile mem).cell x = mem.cell x := by
  rw [scatterRows_eq]
  exact copyEach_of_ne fun i _ => h _

/-- A block of the pool after `cpu_scatter` of a staged tile. -/
theorem cpuBlock_scatterRows {mem₀ : Memory Cell V} {slot : Nat}
    (htile : c.ChunkBlocks (tile.map Prod.snd) c.numCpuBlocks)
    (hstaged : c.StagedFrom mem₀ mem slot tile) {layer : Nat} (hlayer : layer < c.attentionLayers)
    (b : Nat) : c.cpuBlock (c.scatterRows slot tile mem) layer b =
      copies (pairs tile) (c.gpuBlock mem₀ layer) (c.cpuBlock mem layer) b := by
  have hlen : (tile.map Prod.snd).length = tile.length := List.length_map _
  by_cases hb : b ∈ (pairs tile).map Prod.snd
  · obtain ⟨row, hrow, hpair, hdst⟩ := row_of_mem hb
    rw [copies_of_mem (nodup_pairs htile) hpair]
    funext plane i
    have hoffset := offset_lt hlayer plane i
    have hlinear := row_offset_lt hrow hoffset
    have hpool := @poolCell_row c (tile.map Prod.snd) row _ hoffset
    rw [hdst] at hpool
    show (c.scatterRows slot tile mem).cell _ = mem₀.cell _
    rw [scatterRows_eq, ← hpool]
    refine (copyEach_dst (fun i hi j hj heq => ?_) (by nofun) hlinear).trans ?_
    · rw [← hlen] at hi hj
      exact poolCell_inj htile hi hj (Cell.cpuPool.inj heq)
    · rw [hstaged _ hlinear, gpuCellAt_row hlayer plane.isLt i.isLt]
  · rw [copies_of_not_mem hb]
    funext plane i
    show (c.scatterRows slot tile mem).cell _ = mem.cell _
    rw [scatterRows_eq]
    refine copyEach_of_ne fun j hj heq => hb ?_
    have hoffset := offset_lt hlayer plane i
    obtain ⟨rfl, -⟩ := mul_add_inj hoffset (Nat.mod_lt j (by omega)) (Cell.cpuPool.inj heq)
    exact mem_of_row (Nat.div_lt_of_lt_mul (by rwa [Nat.mul_comm]))

/-- The tile that is staged. -/
def pendingTile : Option (Nat × Tile) → Tile
  | none => []
  | some (_, tile) => tile

/-- The tiles of `done` are copied, and the pending one is staged. -/
structure OutDone (c : BlockMajorCpuKVCache) (mem₀ : Memory Cell V) (done : Tile)
    (pending : Option (Nat × Tile)) (mem : Memory Cell V) : Prop where
  gpu : ∀ layer i, mem.cell (.gpuCache layer i) = mem₀.cell (.gpuCache layer i)
  cpu : ∀ layer < c.attentionLayers, ∀ b, c.cpuBlock mem layer b =
    copies (pairs done) (c.gpuBlock mem₀ layer) (c.cpuBlock mem₀ layer) b
  staged : ∀ slot tile, pending = some (slot, tile) → c.StagedFrom mem₀ mem slot tile
  error : mem.error = false

theorem OutDone.drain {mem₀ : Memory Cell V} {done : Tile} {pending : Option (Nat × Tile)}
    (h : c.OutDone mem₀ done pending mem) (hok : c.PendingOk pending) :
    c.OutDone mem₀ (done ++ pendingTile pending) none (seq (c.outDrain V pending) mem) := by
  cases pending with
  | none => exact ⟨h.gpu, by rw [pendingTile, List.append_nil]; exact h.cpu, nofun, h.error⟩
  | some p =>
    obtain ⟨slot, tile⟩ := p
    show c.OutDone mem₀ _ none (c.scatterRows slot tile mem)
    refine ⟨fun layer i => ?_, fun layer hlayer b => ?_, nofun, error_moves.trans h.error⟩
    · exact (cell_scatterRows (by nofun)).trans (h.gpu layer i)
    · have hcpu : c.cpuBlock mem layer = copies (pairs done) (c.gpuBlock mem₀ layer)
          (c.cpuBlock mem₀ layer) := funext (h.cpu layer hlayer)
      rw [cpuBlock_scatterRows (hok slot tile rfl) (h.staged slot tile rfl) hlayer, hcpu,
        ← copies_append, pendingTile, pairs, pairs, pairs, List.map_append]

/-- The next chunk goes to another slot than the pending one. -/
theorem OutDone.fetch {mem₀ : Memory Cell V} {done : Tile} {pending : Option (Nat × Tile)}
    (h : c.OutDone mem₀ done pending mem) {slot : Nat}
    (hslot : ∀ slot' tile', pending = some (slot', tile') → slot' ≠ slot) (tile : Tile) :
    c.OutDone mem₀ done pending (c.fetch slot tile mem) ∧
      c.StagedFrom mem₀ (c.fetch slot tile mem) slot tile := by
  refine ⟨⟨fun layer i => ?_, fun layer hlayer b => ?_, fun slot' tile' heq i hi => ?_,
    (error_fetch slot).trans h.error⟩, fun i hi => ?_⟩
  · exact (cell_fetch (by nofun) (by nofun)).trans (h.gpu layer i)
  · rw [← h.cpu layer hlayer b]
    funext plane i
    exact cell_fetch nofun nofun
  · refine (cell_fetch (by nofun) fun i hi => ?_).trans (h.staged slot' tile' heq i hi)
    exact hslot slot' tile' heq (Cell.cpuStaging.inj hi).1
  · rw [stagedFrom_fetch slot i hi]
    exact h.gpu _ _

/-- The run lemma. -/
theorem OutDone.outLoop {mem₀ : Memory Cell V} {done : Tile} {pending : Option (Nat × Tile)}
    {index : Nat} {ts : List Tile} (h : c.OutDone mem₀ done pending mem)
    (hpending : c.InFlight pending index)
    (hts : ∀ tile ∈ ts, c.TileOk tile c.numGpuBlocks c.numCpuBlocks) :
    c.OutDone mem₀ (done ++ pendingTile pending ++ ts.flatten) none
      (seq (c.outLoop V index pending ts) mem) := by
  induction ts generalizing index pending done mem with
  | nil =>
    rw [List.flatten_nil, List.append_nil]
    exact h.drain hpending.ok
  | cons tile ts ih =>
    have hcount := c.two_le_stagingBufferCount
    have hslot : ∀ slot' tile', pending = some (slot', tile') →
        slot' ≠ index % c.stagingBufferCount := by
      intro slot' tile' heq
      obtain ⟨j, rfl, rfl⟩ := hpending.slot slot' tile' heq
      exact (mod_ne_mod (Nat.lt_succ_self j) (by omega)).symm
    obtain ⟨hfetch, hstaged⟩ := h.fetch hslot tile
    have hdrain := hfetch.drain hpending.ok
    -- the drain does not touch the slot of the tile that was just fetched
    have hnext : c.OutDone mem₀ (done ++ pendingTile pending)
        (some (index % c.stagingBufferCount, tile))
        (seq (c.outDrain V pending) (c.fetch (index % c.stagingBufferCount) tile mem)) := by
      refine ⟨hdrain.gpu, hdrain.cpu, fun slot' tile' heq i hi => ?_, hdrain.error⟩
      cases heq
      rw [← hstaged i hi]
      cases pending with
      | none => rfl
      | some p => exact cell_scatterRows nofun
    have hrest := ih hnext (.next (hts tile List.mem_cons_self) index)
      fun t ht => hts t (List.mem_cons_of_mem _ ht)
    show c.OutDone mem₀ _ none (seq (c.outDrain V pending ++ _) (c.fetch _ tile mem))
    rw [seq_append, List.flatten_cons, ← List.append_assoc]
    exact hrest

/-! ## `swap_in` -/

theorem error_deliver (slot : Nat) : (c.deliver slot tile mem).error = mem.error :=
  error_moves.trans (error_moves.trans error_moves)

theorem cell_deliver {slot : Nat} (i : Nat) :
    (c.deliver slot tile mem).cell (.cpuPool i) = mem.cell (.cpuPool i) := by
  rw [deliver_eq]
  exact (copyEach_of_ne (by nofun)).trans
    ((copyEach_of_ne (by nofun)).trans (copyEach_of_ne (by nofun)))

/-- A block of the GPU after a chunk of `swap_in`. -/
theorem gpuBlock_deliver {slot : Nat} (htile : c.TileOk tile c.numCpuBlocks c.numGpuBlocks)
    {layer : Nat} (hlayer : layer < c.attentionLayers) {b : Nat} (hb : b < c.numGpuBlocks) :
    c.gpuBlock (c.deliver slot tile mem) layer b =
      copies (pairs tile) (c.cpuBlock mem layer) (c.gpuBlock mem layer) b := by
  have hlen : (tile.map Prod.snd).length = tile.length := List.length_map _
  have hdst := htile.destinations
  by_cases hmem : b ∈ (pairs tile).map Prod.snd
  · obtain ⟨row, hrow, hpair, hrowdst⟩ := row_of_mem hmem
    rw [copies_of_mem (nodup_pairs hdst) hpair]
    funext plane i
    have hoffset := offset_lt hlayer plane i
    have hlinear := row_offset_lt hrow hoffset
    have hcell := @gpuCellAt_row c (tile.map Prod.snd) row _ _ _ hlayer plane.isLt i.isLt
    rw [hrowdst] at hcell
    show (c.deliver slot tile mem).cell _ = mem.cell _
    rw [deliver_eq, ← hcell, ← poolCell_row hoffset]
    refine (copyEach_dst (fun i hi j hj heq => ?_) (by nofun) hlinear).trans
      ((copyEach_dst (fun _ _ _ _ h => (Cell.gpuStaging.inj h).2) (by nofun) hlinear).trans
        (copyEach_dst (fun _ _ _ _ h => (Cell.cpuStaging.inj h).2) (by nofun) hlinear))
    rw [← hlen] at hi hj
    exact gpuCellAt_inj hdst.inRange hdst.distinct hi hj heq
  · rw [copies_of_not_mem hmem]
    funext plane i
    show (c.deliver slot tile mem).cell _ = mem.cell _
    rw [deliver_eq]
    refine Eq.trans (copyEach_of_ne fun j hj heq => hmem ?_)
      ((copyEach_of_ne (by nofun)).trans (copyEach_of_ne (by nofun)))
    rw [← hlen] at hj
    have hrow := row_lt hj
    have hrange := hdst.inRange.getD hrow
    obtain ⟨-, rfl, -⟩ := plane_inj hb (by omega) i.isLt (Nat.mod_lt _ (Fin.pos i))
      (Cell.gpuCache.inj heq).2
    rw [hlen] at hrow
    exact mem_of_row hrow

/-- The tiles of `done` are copied. -/
structure InDone (c : BlockMajorCpuKVCache) (mem₀ : Memory Cell V) (done : Tile)
    (mem : Memory Cell V) : Prop where
  cpu : ∀ i, mem.cell (.cpuPool i) = mem₀.cell (.cpuPool i)
  gpu : ∀ layer < c.attentionLayers, ∀ b < c.numGpuBlocks, c.gpuBlock mem layer b =
    copies (pairs done) (c.cpuBlock mem₀ layer) (c.gpuBlock mem₀ layer) b
  error : mem.error = false

theorem InDone.deliver {mem₀ : Memory Cell V} {done : Tile} (h : c.InDone mem₀ done mem)
    (htile : c.TileOk tile c.numCpuBlocks c.numGpuBlocks) (slot : Nat) :
    c.InDone mem₀ (done ++ tile) (c.deliver slot tile mem) := by
  refine ⟨fun i => ?_, fun layer hlayer b hb => ?_, (error_deliver slot).trans h.error⟩
  · rw [cell_deliver, h.cpu]
  · have hcpu : c.cpuBlock mem layer = c.cpuBlock mem₀ layer := by
      funext b plane i
      exact h.cpu _
    rw [gpuBlock_deliver htile hlayer hb, hcpu, pairs, pairs, List.map_append, copies_append]
    exact copies_congr (h.gpu layer hlayer b hb)

/-- The run lemma. -/
theorem InDone.inLoop {mem₀ : Memory Cell V} {done : Tile} {index : Nat} {ts : List Tile}
    (h : c.InDone mem₀ done mem)
    (hts : ∀ tile ∈ ts, c.TileOk tile c.numCpuBlocks c.numGpuBlocks) :
    c.InDone mem₀ (done ++ ts.flatten) (seq (c.inLoop V index ts) mem) := by
  induction ts generalizing index done mem with
  | nil =>
    rw [List.flatten_nil, List.append_nil]
    exact h
  | cons tile ts ih =>
    have hnext := h.deliver (hts tile List.mem_cons_self) (index % c.stagingBufferCount)
    have hrest := @ih _ _ (index + 1) hnext fun t ht => hts t (List.mem_cons_of_mem _ ht)
    rw [List.flatten_cons, ← List.append_assoc, BlockMajorCpuKVCache.inLoop, seq_append]
    split
    · exact hrest
    · exact hrest

/-! ## The transfers -/

theorem flatten_tiles (mapping : Tile) : (c.tiles mapping).flatten = mapping := by
  have htiles := flatMap_tiles mapping c.stagingBlocks_pos
  rwa [List.flatMap_def] at htiles

/-- Every layer of the CPU cache is as after copying the mapped blocks one by one, and the GPU
cache is unchanged. -/
structure SwappedOut (c : BlockMajorCpuKVCache) (mapping : Tile) (mem mem' : Memory Cell V) :
    Prop where
  cpu : ∀ layer < c.attentionLayers, ∀ block, c.cpuBlock mem' layer block =
    copies (pairs mapping) (c.gpuBlock mem layer) (c.cpuBlock mem layer) block
  gpu : ∀ layer block, c.gpuBlock mem' layer block = c.gpuBlock mem layer block
  returned : mapping = [] ∨ checkTransferError mem' = .ok ()

structure SwappedIn (c : BlockMajorCpuKVCache) (mapping : Tile) (mem mem' : Memory Cell V) :
    Prop where
  gpu : ∀ layer < c.attentionLayers, ∀ block < c.numGpuBlocks, c.gpuBlock mem' layer block =
    copies (pairs mapping) (c.cpuBlock mem layer) (c.gpuBlock mem layer) block
  cpu : ∀ layer block, c.cpuBlock mem' layer block = c.cpuBlock mem layer block
  returned : mapping = [] ∨ checkTransferError mem' = .ok ()

theorem checkTransferError_eq {mem : Memory Cell V} (h : mem.error = false) :
    checkTransferError mem = .ok () := by
  unfold checkTransferError
  rw [h]
  rfl

theorem swappedOut_seq {mapping : Tile} (h : Accepted mapping c.numGpuBlocks c.numCpuBlocks)
    (mem : Memory Cell V) : c.SwappedOut mapping mem (seq (c.outProgram V mapping) mem) := by
  have hstart : c.OutDone mem [] none (Op.clear.run mem) :=
    ⟨fun _ _ => rfl, fun _ _ _ => rfl, nofun, rfl⟩
  have hdone : c.OutDone mem (c.tiles mapping).flatten none
      (seq (c.outLoop V 0 none (c.tiles mapping)) (Op.clear.run mem)) :=
    hstart.outLoop ⟨nofun, nofun⟩ fun tile => tileOk_of_mem h
  rw [flatten_tiles] at hdone
  show c.SwappedOut mapping mem (seq (c.outLoop V 0 none (c.tiles mapping) ++ [.finish])
    (Op.clear.run mem))
  rw [seq_append]
  refine ⟨hdone.cpu, fun layer block => ?_, .inr (checkTransferError_eq hdone.error)⟩
  funext plane i
  exact hdone.gpu _ _

theorem swappedIn_seq {mapping : Tile} (h : Accepted mapping c.numCpuBlocks c.numGpuBlocks)
    (mem : Memory Cell V) : c.SwappedIn mapping mem (seq (c.inProgram V mapping) mem) := by
  have hstart : c.InDone mem [] (Op.clear.run mem) := ⟨fun _ => rfl, fun _ _ _ _ => rfl, rfl⟩
  have hdone : c.InDone mem (c.tiles mapping).flatten
      (seq (c.inLoop V 0 (c.tiles mapping)) (Op.clear.run mem)) :=
    hstart.inLoop fun tile => tileOk_of_mem h
  rw [flatten_tiles] at hdone
  show c.SwappedIn mapping mem (seq (c.inLoop V 0 (c.tiles mapping) ++ [.finish])
    (Op.clear.run mem))
  rw [seq_append]
  refine ⟨hdone.gpu, fun layer block => ?_, .inr (checkTransferError_eq hdone.error)⟩
  funext plane i
  exact hdone.cpu _

/-- A program that has nothing to do. -/
theorem ends_nil (mem : Memory Cell V) :
    (streamSys ([] : Program V) mem).Ends fun m => m.mem = mem := RaceFree.ends trivial

/-- `validate_block_mapping` accepts what is in range with distinct sources and distinct
destinations. On such a mapping every execution of `swap_out` and of `swap_in` ends, without a
raise, when every layer of the mapped blocks is copied and no other block is changed. -/
theorem transfers_copy (c : BlockMajorCpuKVCache) (mapping : Tile) (mem : Memory Cell V) :
    (∀ sourceLimit destinationLimit,
      (∃ r, validateBlockMapping mapping sourceLimit destinationLimit = .ok r) ↔
        Accepted mapping sourceLimit destinationLimit) ∧
    (∀ r, validateBlockMapping mapping c.numGpuBlocks c.numCpuBlocks = .ok r →
      ∃ program, c.swapOut V mapping = .ok program ∧
        (streamSys program mem).Ends fun m => c.SwappedOut mapping mem m.mem) ∧
    ∀ r, validateBlockMapping mapping c.numCpuBlocks c.numGpuBlocks = .ok r →
      ∃ program, c.swapIn V mapping = .ok program ∧
        (streamSys program mem).Ends fun m => c.SwappedIn mapping mem m.mem := by
  refine ⟨fun sl dl => ?_, fun r hr => ?_, fun r hr => ?_⟩
  · constructor
    · rintro ⟨r, hr⟩
      exact (validateBlockMapping_eq_ok.mp hr).1
    · exact fun h => ⟨_, validateBlockMapping_eq_ok.mpr ⟨h, rfl⟩⟩
  · have h := (validateBlockMapping_eq_ok.mp hr).1
    refine ⟨_, swapOut_eq h, ?_⟩
    by_cases hm : mapping = []
    · subst hm
      refine (ends_nil mem).imp fun m hmem => ?_
      rw [hmem]
      exact ⟨fun _ _ _ => rfl, fun _ _ => rfl, .inl rfl⟩
    · rw [if_neg hm]
      refine (outProgram_raceFree h).ends.imp fun m hmem => ?_
      rw [hmem]
      exact swappedOut_seq h mem
  · have h := (validateBlockMapping_eq_ok.mp hr).1
    refine ⟨_, swapIn_eq h, ?_⟩
    by_cases hm : mapping = []
    · subst hm
      refine (ends_nil mem).imp fun m hmem => ?_
      rw [hmem]
      exact ⟨fun _ _ _ _ => rfl, fun _ _ => rfl, .inl rfl⟩
    · rw [if_neg hm]
      refine (inProgram_raceFree h).ends.imp fun m hmem => ?_
      rw [hmem]
      exact swappedIn_seq h mem

/-- Two layers, and staging buffers of one block. -/
def oneBlockStaging : BlockMajorCpuKVCache := ⟨2, 1, 1, 1, 2, 3, 4, Nat.zero_lt_one, by decide⟩

/-- Every cell holds another number. -/
def numbered : Memory Cell Nat where
  cell
    | .gpuCache layer index => 4 * (layer + 2 * index)
    | .gpuStaging slot index => 4 * (slot + 2 * index) + 1
    | .cpuStaging slot index => 4 * (slot + 2 * index) + 2
    | .cpuPool index => 4 * index + 3
  error := true

/-- Three chunks, so that a staging buffer is used again. -/
theorem transfers_copy_three :
    (∃ program, oneBlockStaging.swapOut Nat [(0, 3), (2, 0), (1, 1)] = .ok program ∧
      (streamSys program numbered).Ends fun m =>
        oneBlockStaging.SwappedOut [(0, 3), (2, 0), (1, 1)] numbered m.mem) ∧
    ∃ program, oneBlockStaging.swapIn Nat [(3, 0), (0, 2), (1, 1)] = .ok program ∧
      (streamSys program numbered).Ends fun m =>
        oneBlockStaging.SwappedIn [(3, 0), (0, 2), (1, 1)] numbered m.mem :=
  ⟨(transfers_copy oneBlockStaging [(0, 3), (2, 0), (1, 1)] numbered).2.1 ([0, 2, 1], [3, 0, 1]) rfl,
    (transfers_copy oneBlockStaging [(3, 0), (0, 2), (1, 1)] numbered).2.2 ([3, 0, 1], [0, 2, 1]) rfl⟩

end BlockMajorCpuKVCache

end Bi100
