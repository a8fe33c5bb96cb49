import Bi100.Transfer.Rows

/-!
# The pipelined transfers

`outProgram` and `inProgram` are the programs of `swap_out` and `swap_in` on accepted mappings, tile
by tile (`swapOut_eq`, `swapIn_eq`). They are race-free (`outProgram_raceFree`,
`inProgram_raceFree`): when the host works on a staging slot, every chunk that may still be in
flight is in another slot (`Issued.independent`).
-/

namespace Bi100

open Py Py.Streams

/-- Source and destination of the blocks of a chunk. -/
abbrev Tile := List (Int × Int)

/-- What the kernels and the copies of a staging slot touch. -/
def Cell.OnDevice (slot : Nat) : Cell → Prop
  | .gpuCache _ _ => True
  | .gpuStaging _ _ => True
  | .cpuStaging s _ => s = slot
  | .cpuPool _ => False

/-- What the host touches. -/
def Cell.OnHost (slot : Nat) : Cell → Prop
  | .gpuCache _ _ => False
  | .gpuStaging _ _ => False
  | .cpuStaging s _ => s = slot
  | .cpuPool _ => True

namespace BlockMajorCpuKVCache

variable (c : BlockMajorCpuKVCache) (V : Type)

def tiles (mapping : Tile) : List Tile :=
  (List.range ((mapping.length + c.stagingBlocks - 1) / c.stagingBlocks)).map fun i =>
    slice mapping (i * c.stagingBlocks) (min (i * c.stagingBlocks + c.stagingBlocks) mapping.length)

/-- A chunk of a mapping from a tensor of `sourceLimit` blocks to one of `destinationLimit`. -/
structure TileOk (tile : Tile) (sourceLimit destinationLimit : Nat) : Prop where
  sources : c.ChunkBlocks (tile.map Prod.fst) sourceLimit
  destinations : c.ChunkBlocks (tile.map Prod.snd) destinationLimit

/-! ## The programs -/

def outDrain : Option (Nat × Tile) → Program V
  | none => []
  | some (slot, tile) =>
    [.wait slot, .host (runs (moves (c.poolRows (tile.map Prod.snd) slot tile.length)))]

def outLoop : Nat → Option (Nat × Tile) → List Tile → Program V
  | _, pending, [] => c.outDrain V pending
  | index, pending, tile :: rest =>
    .launch (runs (moves (c.packMoves (tile.map Prod.fst) (index % c.stagingBufferCount)))) ::
    .launch (runs (c.copyToCpu (index % c.stagingBufferCount) tile.length)) ::
    .record (index % c.stagingBufferCount) ::
      (c.outDrain V pending ++
        outLoop (index + 1) (some (index % c.stagingBufferCount, tile)) rest)

def outProgram (mapping : Tile) : Program V :=
  .launch (runs [.clear]) :: (c.outLoop V 0 none (c.tiles mapping) ++ [.finish])

def inLoop : Nat → List Tile → Program V
  | _, [] => []
  | index, tile :: rest =>
    (if c.stagingBufferCount ≤ index then [.wait (index % c.stagingBufferCount)] else []) ++
      .host (runs (moves ((c.poolRows (tile.map Prod.fst) (index % c.stagingBufferCount)
        tile.length).map Prod.swap))) ::
      .launch (runs (c.copyToGpu (index % c.stagingBufferCount) tile.length)) ::
      .launch (runs (moves ((c.packMoves (tile.map Prod.snd)
        (index % c.stagingBufferCount)).map Prod.swap))) ::
      .record (index % c.stagingBufferCount) :: inLoop (index + 1) rest

def inProgram (mapping : Tile) : Program V :=
  .launch (runs [.clear]) :: (c.inLoop V 0 (c.tiles mapping) ++ [.finish])

variable {c V}

theorem chunkBlocks_slice {ids : List Int} {limit i : Nat} (hrange : InRange ids limit)
    (hdistinct : ids.Nodup) (hi : i < (ids.length + c.stagingBlocks - 1) / c.stagingBlocks) :
    c.ChunkBlocks (slice ids (i * c.stagingBlocks)
      (min (i * c.stagingBlocks + c.stagingBlocks) ids.length)) limit := by
  have hpos := c.stagingBlocks_pos
  have hlt := (Nat.lt_div_iff_mul_lt hpos).mp hi
  have hlen := length_slice (l := ids) (a := i * c.stagingBlocks) (Nat.min_le_right
    (i * c.stagingBlocks + c.stagingBlocks) ids.length)
  refine ⟨?_, ?_, fun b hb => hrange b ((slice_sublist ..).subset hb),
    hdistinct.sublist (slice_sublist ..)⟩
  · rw [hlen]
    omega
  · rw [hlen]
    omega

theorem tileOk_of_mem {mapping tile : Tile} {sl dl : Nat} (h : Accepted mapping sl dl)
    (htile : tile ∈ c.tiles mapping) : c.TileOk tile sl dl := by
  obtain ⟨i, hi, rfl⟩ := List.mem_map.mp htile
  have hi := List.mem_range.mp hi
  have hsources : InRange (mapping.map Prod.fst) sl := List.forall_mem_map.mpr h.sources
  have hdestinations : InRange (mapping.map Prod.snd) dl := List.forall_mem_map.mpr h.destinations
  constructor
  · rw [map_slice]
    have hslice := chunkBlocks_slice hsources h.distinct_sources (c := c) (i := i)
    rw [List.length_map] at hslice
    exact hslice hi
  · rw [map_slice]
    have hslice := chunkBlocks_slice hdestinations h.distinct_destinations (c := c) (i := i)
    rw [List.length_map] at hslice
    exact hslice hi

/-- `_chunks` of the sources and the destinations of a mapping. -/
theorem chunks_eq (mapping : Tile) (ids : Int × Int → Int) :
    c.chunks (mapping.map Prod.fst) (mapping.map Prod.snd) (mapping.map ids) =
      (c.tiles mapping).map fun tile =>
        ⟨tile.map Prod.fst, tile.map Prod.snd, tile.map ids, tile.length⟩ := by
  unfold chunks tiles
  rw [List.map_map, List.length_map]
  refine List.map_congr_left fun i _ => ?_
  simp only [Function.comp_apply, map_slice]
  rw [length_slice (Nat.min_le_right ..)]

/-! ## The programs of the source -/

/-- What is pending is in a tile that `cpu_scatter` accepts. -/
def PendingOk (c : BlockMajorCpuKVCache) (pending : Option (Nat × Tile)) : Prop :=
  ∀ slot tile, pending = some (slot, tile) →
    c.ChunkBlocks (tile.map Prod.snd) c.numCpuBlocks

theorem drain_eq {pending : Option (Nat × Tile)} (h : c.PendingOk pending) :
    c.drain V (pending.map fun (slot, tile) => ⟨slot, tile.map Prod.snd, tile.length⟩) =
      .ok (c.outDrain V pending) := by
  cases pending with
  | none => rfl
  | some p =>
    obtain ⟨slot, tile⟩ := p
    have hscatter := cpuScatter_ok (h slot tile rfl) slot
    rw [List.length_map] at hscatter
    show (c.cpuScatter slot (tile.map Prod.snd) tile.length >>= _) = _
    rw [hscatter]
    rfl

theorem swapOutLoop_eq {index : Nat} {pending : Option (Nat × Tile)} {ts : List Tile}
    (hpending : c.PendingOk pending)
    (h : ∀ tile ∈ ts, c.TileOk tile c.numGpuBlocks c.numCpuBlocks) :
    c.swapOutLoop V index
        (pending.map fun (slot, tile) => ⟨slot, tile.map Prod.snd, tile.length⟩)
        (ts.map fun tile => ⟨tile.map Prod.fst, tile.map Prod.snd, tile.map Prod.fst, tile.length⟩) =
      .ok (c.outLoop V index pending ts) := by
  induction ts generalizing index pending with
  | nil => exact drain_eq hpending
  | cons tile ts ih =>
    have htile := h tile List.mem_cons_self
    have hpack := pack_ok htile.sources (index % c.stagingBufferCount)
    rw [List.length_map] at hpack
    have hnext : c.PendingOk (some (index % c.stagingBufferCount, tile)) := by
      rintro slot tile' heq
      cases heq
      exact htile.destinations
    have hrest := @ih (index + 1) _ hnext fun t ht => h t (List.mem_cons_of_mem _ ht)
    rw [Option.map_some] at hrest
    rw [List.map_cons, swapOutLoop, hpack, drain_eq hpending]
    simp only [hrest]
    rfl

theorem swapInLoop_eq {index : Nat} {ts : List Tile}
    (h : ∀ tile ∈ ts, c.TileOk tile c.numCpuBlocks c.numGpuBlocks) :
    c.swapInLoop V index
        (ts.map fun tile => ⟨tile.map Prod.fst, tile.map Prod.snd, tile.map Prod.snd, tile.length⟩) =
      .ok (c.inLoop V index ts) := by
  induction ts generalizing index with
  | nil => rfl
  | cons tile ts ih =>
    have htile := h tile List.mem_cons_self
    have hgather := cpuGather_ok htile.sources (index % c.stagingBufferCount)
    have hscatter := scatter_ok htile.destinations (index % c.stagingBufferCount)
    rw [List.length_map] at hgather hscatter
    have hrest := @ih (index + 1) fun t ht => h t (List.mem_cons_of_mem _ ht)
    rw [List.map_cons, swapInLoop, hgather, hscatter, inLoop, hrest]
    show Except.ok (_ ++ _ ++ _) = _
    rw [List.append_assoc]
    rfl

theorem length_map_eq_zero {mapping : Tile} {f : Int × Int → Int} :
    (mapping.map f).length = 0 ↔ mapping = [] := by
  rw [List.length_map, List.length_eq_zero_iff]

/-- The program of an accepted mapping. There is none if it is empty. -/
theorem swapOut_eq {mapping : Tile} (h : Accepted mapping c.numGpuBlocks c.numCpuBlocks) :
    c.swapOut V mapping = .ok (if mapping = [] then [] else c.outProgram V mapping) := by
  have hloop := @swapOutLoop_eq c V 0 none _ nofun fun tile => tileOk_of_mem h
  unfold swapOut
  rw [validateBlockMapping_eq_ok.mpr ⟨h, rfl⟩]
  rw [Option.map_none, ← chunks_eq] at hloop
  by_cases hm : mapping = []
  · subst hm
    rfl
  · rw [if_neg hm]
    show (if (mapping.map Prod.fst).length = 0 then _ else _) = _
    rw [if_neg (mt length_map_eq_zero.mp hm), hloop]
    rfl

theorem swapIn_eq {mapping : Tile} (h : Accepted mapping c.numCpuBlocks c.numGpuBlocks) :
    c.swapIn V mapping = .ok (if mapping = [] then [] else c.inProgram V mapping) := by
  have hloop := @swapInLoop_eq c V 0 _ fun tile => tileOk_of_mem h
  unfold swapIn
  rw [validateBlockMapping_eq_ok.mpr ⟨h, rfl⟩]
  rw [← chunks_eq] at hloop
  by_cases hm : mapping = []
  · subst hm
    rfl
  · rw [if_neg hm]
    show (if (mapping.map Prod.fst).length = 0 then _ else _) = _
    rw [if_neg (mt length_map_eq_zero.mp hm), hloop]
    rfl

/-! ## Race freedom -/

theorem mod_ne_mod {n i j : Nat} (h : j < i) (hn : i < j + n) : i % n ≠ j % n := by
  intro heq
  have hzero := Nat.sub_mod_eq_zero_of_mod_eq heq
  rw [Nat.mod_eq_of_lt (by omega)] at hzero
  omega

/-- The batches launched for the first `chunks` chunks, two for each after the first batch of all,
and the events of their slots. -/
structure Issued (c : BlockMajorCpuKVCache) (issued : List (Batch (Memory Cell V)))
    (events : Nat → Nat) (chunks : Nat) : Prop where
  length_eq : issued.length = 1 + 2 * chunks
  batch : ∀ k b, issued[k]? = some b → ∃ ops, b = runs ops ∧ ∀ op ∈ ops,
    op.Within fun x => 0 < k ∧ x.OnDevice ((k - 1) / 2 % c.stagingBufferCount)
  event : ∀ j < chunks, chunks ≤ j + c.stagingBufferCount →
    events (j % c.stagingBufferCount) = 1 + 2 * (j + 1)

theorem Issued.start : c.Issued [runs (V := V) [.clear]] (fun _ => 0) 0 := by
  refine ⟨rfl, fun k b hb => ?_, fun j hj => absurd hj (Nat.not_lt_zero j)⟩
  cases k with
  | zero =>
    cases hb
    refine ⟨[.clear], rfl, fun op hop => ?_⟩
    rw [List.mem_singleton.mp hop]
    exact trivial
  | succ k => cases hb

theorem Issued.chunk {issued : List (Batch (Memory Cell V))} {events : Nat → Nat} {i : Nat}
    (h : c.Issued issued events i) {first second : List (Op Cell)}
    (hfirst : ∀ op ∈ first, op.Within (Cell.OnDevice (i % c.stagingBufferCount)))
    (hsecond : ∀ op ∈ second, op.Within (Cell.OnDevice (i % c.stagingBufferCount))) :
    c.Issued (issued ++ [runs first] ++ [runs second])
      (Function.update events (i % c.stagingBufferCount)
        (issued ++ [runs first] ++ [runs second]).length) (i + 1) := by
  have hlen := h.length_eq
  have hlen' : (issued ++ [runs first] ++ [runs second]).length = 1 + 2 * (i + 1) := by
    simp only [List.length_append, List.length_singleton]
    omega
  have hwithin : ∀ {k : Nat}, 0 < k → (k - 1) / 2 = i → ∀ {op : Op Cell},
      op.Within (Cell.OnDevice (i % c.stagingBufferCount)) →
      op.Within fun x => 0 < k ∧ x.OnDevice ((k - 1) / 2 % c.stagingBufferCount) := by
    intro k hk hi op hop
    rw [hi]
    cases op with
    | move dst src => exact ⟨⟨hk, hop.1⟩, hk, hop.2⟩
    | clear => exact trivial
    | raise => exact trivial
  refine ⟨hlen', fun k b hb => ?_, fun j hj hnear => ?_⟩
  · rw [List.append_assoc, List.getElem?_append] at hb
    split at hb
    · exact h.batch k b hb
    · rw [List.singleton_append, List.getElem?_cons] at hb
      split at hb
      · cases hb
        exact ⟨first, rfl, fun op hop => hwithin (by omega) (by omega) (hfirst op hop)⟩
      · obtain ⟨hlt, hb⟩ := List.getElem?_eq_some_iff.mp hb
        rw [List.length_singleton] at hlt
        rw [List.getElem_singleton] at hb
        cases hb
        exact ⟨second, rfl, fun op hop => hwithin (by omega) (by omega) (hsecond op hop)⟩
  · rcases Nat.lt_succ_iff_lt_or_eq.mp hj with hj | rfl
    · rw [Function.update_of_ne (mod_ne_mod hj (by omega)).symm]
      exact h.event j hj (by omega)
    · rw [Function.update_self, hlen']

/-- The host may work on a slot when every chunk in it is known to be finished. -/
theorem Issued.independent {issued : List (Batch (Memory Cell V))} {events : Nat → Nat}
    {i n slot : Nat} (h : c.Issued issued events i)
    (hslot : ∀ j < i, n ≤ 2 * j + 2 → j % c.stagingBufferCount ≠ slot) {ms : List (Cell × Cell)}
    (hms : ∀ m ∈ ms, m.1.OnHost slot ∧ m.2.OnHost slot) :
    ∀ b ∈ issued.drop n, Independent (runs (moves ms)) b := by
  intro b hb
  obtain ⟨k, hk⟩ := List.mem_iff_getElem?.mp hb
  rw [List.getElem?_drop] at hk
  obtain ⟨ops, rfl, hops⟩ := h.batch _ b hk
  refine independent_of_within (fun x hx hx' => ?_) hms hops
  obtain ⟨hpos, hdevice⟩ := hx'
  have hlen := h.length_eq
  have hlt := (List.getElem?_eq_some_iff.mp hk).1
  have hne := hslot ((n + k - 1) / 2) (by omega) (by omega)
  cases x with
  | gpuCache layer index => exact hx
  | gpuStaging s index => exact hx
  | cpuStaging s index => exact hne (hdevice.symm.trans hx)
  | cpuPool index => exact hdevice

theorem within_map {A : Cell → Prop} {n : Nat} {dst src : Nat → Cell} (hdst : ∀ i, A (dst i))
    (hsrc : ∀ i, A (src i)) :
    ∀ op ∈ moves ((List.range n).map fun i => (dst i, src i)), op.Within A := by
  intro op hop
  obtain ⟨m, hm, rfl⟩ := List.mem_map.mp hop
  obtain ⟨i, -, rfl⟩ := List.mem_map.mp hm
  exact ⟨hdst i, hsrc i⟩

theorem pack_within (blocks : List Int) (slot : Nat) :
    ∀ op ∈ moves (c.packMoves blocks slot), op.Within (Cell.OnDevice slot) :=
  within_map (fun _ => trivial) fun _ => trivial

theorem scatter_within (blocks : List Int) (slot : Nat) :
    ∀ op ∈ moves ((c.packMoves blocks slot).map Prod.swap), op.Within (Cell.OnDevice slot) := by
  unfold packMoves
  rw [List.map_map]
  exact within_map (fun _ => trivial) fun _ => trivial

theorem copyToCpu_within (slot count : Nat) :
    ∀ op ∈ c.copyToCpu slot count, op.Within (Cell.OnDevice slot) :=
  within_map (fun _ => rfl) fun _ => trivial

theorem copyToGpu_within (slot count : Nat) :
    ∀ op ∈ c.copyToGpu slot count, op.Within (Cell.OnDevice slot) :=
  within_map (fun _ => trivial) fun _ => rfl

theorem poolRows_onHost (blocks : List Int) (slot count : Nat) :
    ∀ m ∈ c.poolRows blocks slot count, m.1.OnHost slot ∧ m.2.OnHost slot := by
  intro m hm
  rw [poolRows_eq] at hm
  obtain ⟨i, -, rfl⟩ := List.mem_map.mp hm
  exact ⟨trivial, rfl⟩

/-- What is pending is the chunk before `index`. -/
structure InFlight (c : BlockMajorCpuKVCache) (pending : Option (Nat × Tile)) (index : Nat) :
    Prop where
  slot : ∀ slot tile, pending = some (slot, tile) →
    ∃ j, slot = j % c.stagingBufferCount ∧ j + 1 = index
  ok : c.PendingOk pending

theorem InFlight.next {tile : Tile} (h : c.TileOk tile c.numGpuBlocks c.numCpuBlocks)
    (index : Nat) : c.InFlight (some (index % c.stagingBufferCount, tile)) (index + 1) := by
  constructor
  · intro slot tile' heq
    cases heq
    exact ⟨index, rfl, rfl⟩
  · intro slot tile' heq
    cases heq
    exact h.destinations

/-- The host waits for the pending chunk, with at most one more in flight. -/
theorem raceFree_drain {pending : Option (Nat × Tile)} {rest : Program V}
    {issued : List (Batch (Memory Cell V))} {events : Nat → Nat} {index chunks n : Nat}
    (h : c.Issued issued events chunks) (hpending : c.InFlight pending index)
    (hle : index ≤ chunks) (hnear : chunks ≤ index + 1)
    (hrest : ∀ n, RaceFree rest issued n events) :
    RaceFree (c.outDrain V pending ++ rest) issued n events := by
  cases pending with
  | none => exact hrest n
  | some p =>
    obtain ⟨slot, tile⟩ := p
    have hblocks := hpending.ok slot tile rfl
    obtain ⟨j, rfl, rfl⟩ := hpending.slot slot tile rfl
    have hcount := c.two_le_stagingBufferCount
    have hevent := h.event j hle (by omega)
    have hpool := parallel_cpuScatter hblocks (j % c.stagingBufferCount)
    rw [List.length_map] at hpool
    refine ⟨hpool.unordered, ?_, hrest _⟩
    refine h.independent (fun j' hj' hn => ?_) (poolRows_onHost _ _ _)
    have hlt : j < j' := by omega
    exact mod_ne_mod hlt (by omega)

theorem raceFree_outLoop {ts : List Tile} {pending : Option (Nat × Tile)}
    {issued : List (Batch (Memory Cell V))} {events : Nat → Nat} {index n : Nat}
    (h : c.Issued issued events index) (hpending : c.InFlight pending index)
    (hts : ∀ tile ∈ ts, c.TileOk tile c.numGpuBlocks c.numCpuBlocks) :
    RaceFree (c.outLoop V index pending ts ++ [.finish]) issued n events := by
  induction ts generalizing index pending issued n events with
  | nil => exact raceFree_drain h hpending (by omega) (by omega) fun n => trivial
  | cons tile ts ih =>
    have hissued := h.chunk (pack_within (c := c) (tile.map Prod.fst) (index % c.stagingBufferCount))
      (copyToCpu_within (c := c) (index % c.stagingBufferCount) tile.length)
    refine ⟨(parallel_pack _).unordered, unordered_copyToCpu _ _, ?_⟩
    show RaceFree (c.outDrain V pending ++ _ ++ _) _ _ _
    rw [List.append_assoc]
    refine raceFree_drain hissued hpending (by omega) (by omega) fun n => ?_
    exact ih hissued (.next (hts tile List.mem_cons_self) index)
      fun t ht => hts t (List.mem_cons_of_mem _ ht)

theorem outProgram_raceFree {mapping : Tile} (h : Accepted mapping c.numGpuBlocks c.numCpuBlocks) :
    RaceFree (c.outProgram V mapping) [] 0 fun _ => 0 :=
  ⟨List.pairwise_singleton _ _, raceFree_outLoop .start ⟨nofun, nofun⟩ fun _ => tileOk_of_mem h⟩

theorem raceFree_inLoop {ts : List Tile} {issued : List (Batch (Memory Cell V))}
    {events : Nat → Nat} {index n : Nat} (h : c.Issued issued events index)
    (hts : ∀ tile ∈ ts, c.TileOk tile c.numCpuBlocks c.numGpuBlocks) :
    RaceFree (c.inLoop V index ts ++ [.finish]) issued n events := by
  induction ts generalizing index issued n events with
  | nil => exact trivial
  | cons tile ts ih =>
    have htile := hts tile List.mem_cons_self
    have hissued := h.chunk (copyToGpu_within (c := c) (index % c.stagingBufferCount) tile.length)
      (scatter_within (c := c) (tile.map Prod.snd) (index % c.stagingBufferCount))
    have hhost : ∀ m ∈ (c.poolRows (tile.map Prod.fst) (index % c.stagingBufferCount)
        tile.length).map Prod.swap, m.1.OnHost (index % c.stagingBufferCount) ∧
          m.2.OnHost (index % c.stagingBufferCount) :=
      List.forall_mem_map.mpr fun m hm => (poolRows_onHost _ _ _ m hm).symm
    -- the slot is free: its last chunk was waited for, or there was none
    have hfree : ∀ {n}, (c.stagingBufferCount ≤ index →
        events (index % c.stagingBufferCount) ≤ n) → ∀ j < index, n ≤ 2 * j + 2 →
          j % c.stagingBufferCount ≠ index % c.stagingBufferCount := by
      intro n hwait j hj hn
      refine (mod_ne_mod hj ?_).symm
      by_cases hle : c.stagingBufferCount ≤ index
      · have hcount := c.two_le_stagingBufferCount
        have hevent := h.event (index - c.stagingBufferCount) (by omega) (by omega)
        have hmod : (index - c.stagingBufferCount) % c.stagingBufferCount =
            index % c.stagingBufferCount := (Nat.mod_eq_sub_mod hle).symm
        rw [hmod] at hevent
        have := hwait hle
        omega
      · omega
    have hlater : ∀ n, RaceFree (c.inLoop V (index + 1) ts ++ [.finish]) _ n _ := fun n =>
      ih hissued fun t ht => hts t (List.mem_cons_of_mem _ ht)
    rw [inLoop]
    split
    · refine ⟨(parallel_cpuGather _ _).unordered, ?_, unordered_copyToGpu _ _,
        (parallel_scatter htile.destinations _).unordered, hlater _⟩
      exact h.independent (hfree fun _ => Nat.le_max_right _ _) hhost
    · next hle =>
      refine ⟨(parallel_cpuGather _ _).unordered, ?_, unordered_copyToGpu _ _,
        (parallel_scatter htile.destinations _).unordered, hlater _⟩
      exact h.independent (hfree fun hle' => absurd hle' hle) hhost

theorem inProgram_raceFree {mapping : Tile} (h : Accepted mapping c.numCpuBlocks c.numGpuBlocks) :
    RaceFree (c.inProgram V mapping) [] 0 fun _ => 0 :=
  ⟨List.pairwise_singleton _ _, raceFree_inLoop .start fun _ => tileOk_of_mem h⟩

end BlockMajorCpuKVCache

end Bi100
