import Bi100.Layerwise.Memory
import Mathlib.Algebra.BigOperators.Group.List.Basic
import Mathlib.Tactic.Ring
import Mathlib.Tactic.Linarith
import Mathlib.Tactic.LinearCombination

/-!
# What the estimate counts and what a rank allocates

- `headsListed` are the heads of all the entries of a rank, `headsStored` those of its first entry
  in each layer. They are the same when no layer lists a rank twice (`headsListed_eq`).
- `headElems` is what a rank allocates for a head of a block.
- `estimate_matches_iff`: when the estimate of a rank is what it allocates.
-/

namespace Bi100

open Py

/-! ## Heads -/

/-- The heads of all the entries of a rank. -/
def entriesHeads (entries : List (Int × Int)) (rank : Int) : Int :=
  (entries.map fun e => if e.1 = rank then e.2 else 0).sum

/-- The heads that the estimate counts. -/
def LayerwiseSplitLayout.headsListed (layout : LayerwiseSplitLayout) (rank : Int) : Int :=
  (layout.specs.map fun s => entriesHeads (s.assignedRanks.zip s.headsPerRank) rank).sum

/-- The heads that a worker allocates. -/
def LayerwiseSplitLayout.headsStored (layout : LayerwiseSplitLayout) (rank : Int) : Int :=
  (layout.specs.map fun s => s.headsForRank rank).sum

theorem entriesHeads_cons {r heads rank : Int} {rest : List (Int × Int)} :
    entriesHeads ((r, heads) :: rest) rank = (if r = rank then heads else 0) + entriesHeads rest rank :=
  rfl

theorem entriesHeads_zero {ranks heads : List Int} {rank : Int} (h : rank ∉ ranks) :
    entriesHeads (ranks.zip heads) rank = 0 := by
  unfold entriesHeads
  refine List.sum_eq_zero fun x hx => ?_
  obtain ⟨e, he, rfl⟩ := List.mem_map.mp hx
  rw [if_neg]
  rintro rfl
  exact h (List.of_mem_zip he).1

theorem entriesHeads_eq {s : LayerShardSpec} (hs : s.assignedRanks.Nodup) (rank : Int) :
    entriesHeads (s.assignedRanks.zip s.headsPerRank) rank = s.headsForRank rank := by
  obtain ⟨lid, ranks, heads⟩ := s
  show entriesHeads (ranks.zip heads) rank = _
  unfold LayerShardSpec.headsForRank
  dsimp only at hs ⊢
  induction ranks generalizing heads with
  | nil => rfl
  | cons r ranks ih =>
    obtain ⟨hr, hs⟩ := List.nodup_cons.mp hs
    cases heads with
    | nil => rfl
    | cons h heads =>
      rw [List.zip_cons_cons, List.find?_cons, entriesHeads_cons]
      by_cases hrank : r = rank
      · subst hrank
        simp [entriesHeads_zero hr]
      · simp [hrank, ih heads hs]

/-- The two counts agree for a layout whose layers list a rank at most once. -/
theorem headsListed_eq {layout : LayerwiseSplitLayout}
    (h : ∀ s ∈ layout.specs, s.assignedRanks.Nodup) (rank : Int) :
    layout.headsListed rank = layout.headsStored rank :=
  congrArg List.sum (List.map_congr_left fun s hs => entriesHeads_eq (h s hs) rank)

/-! ## The estimate -/

theorem addEntries_ok (headBytes : Int) {worldSize : Int} {entries : List (Int × Int)}
    (bytes : List Int) (hranks : ∀ e ∈ entries, 0 ≤ e.1 ∧ e.1 < worldSize) :
    ∃ bytes', addEntries headBytes worldSize entries bytes = .ok bytes' ∧
      ∀ r : Nat, bytes'[r]? = bytes[r]?.map (· + entriesHeads entries r * headBytes) := by
  induction entries generalizing bytes with
  | nil =>
    refine ⟨bytes, rfl, fun r => ?_⟩
    simp [entriesHeads]
  | cons e rest ih =>
    obtain ⟨rank, heads⟩ := e
    obtain ⟨h0, hlt⟩ := hranks _ List.mem_cons_self
    obtain ⟨bytes', hrun, hget⟩ := ih (bytes.modify rank.toNat (· + heads * headBytes))
      fun e he => hranks e (List.mem_cons_of_mem _ he)
    refine ⟨bytes', ?_, fun r => ?_⟩
    · rw [addEntries, checkThat, guardNot_bind_eq_ok, checkThat, guardNot_bind_eq_ok]
      exact ⟨not_not.mpr h0, not_not.mpr hlt, hrun⟩
    · rw [hget, List.getElem?_modify, Option.map_eq_map, Option.map_map, entriesHeads_cons]
      refine congrArg (Option.map · bytes[r]?) (funext fun x => ?_)
      show (if rank.toNat = r then x + heads * headBytes else x) + entriesHeads rest r * headBytes = _
      by_cases hr : rank = r
      · rw [if_pos (by omega), if_pos hr]
        ring
      · rw [if_neg (by omega), if_neg hr]
        ring

theorem addLayers_ok (headBytes : Int) {worldSize : Int} {specs : List LayerShardSpec}
    (bytes : List Int) (hranks : ∀ s ∈ specs, ∀ r ∈ s.assignedRanks, 0 ≤ r ∧ r < worldSize) :
    ∃ bytes', addLayers headBytes worldSize specs bytes = .ok bytes' ∧
      ∀ r : Nat, bytes'[r]? = bytes[r]?.map (· + (specs.map fun s =>
        entriesHeads (s.assignedRanks.zip s.headsPerRank) r).sum * headBytes) := by
  induction specs generalizing bytes with
  | nil =>
    refine ⟨bytes, rfl, fun r => ?_⟩
    simp
  | cons s rest ih =>
    obtain ⟨bytes₁, hentries, hget₁⟩ := addEntries_ok headBytes bytes
      fun e he => hranks s List.mem_cons_self e.1 (List.of_mem_zip he).1
    obtain ⟨bytes₂, hrest, hget₂⟩ := ih bytes₁
      fun s' hs => hranks s' (List.mem_cons_of_mem s hs)
    refine ⟨bytes₂, bind_eq_ok.mpr ⟨bytes₁, hentries, hrest⟩, fun r => ?_⟩
    rw [hget₂, hget₁, Option.map_map, List.map_cons, List.sum_cons]
    refine congrArg (Option.map · bytes[r]?) (funext fun x => ?_)
    show x + _ * headBytes + _ * headBytes = _
    ring

/-- The bytes that the estimate reports. -/
theorem estimate_eq (b : Build) {layout : LayerwiseSplitLayout}
    (nBlocks blockSize headDim dtype : Int) {worldSize : Int} (hworld : 0 < worldSize)
    (hlayers : 0 < layout.numLayers)
    (hranks : ∀ s ∈ layout.specs, ∀ r ∈ s.assignedRanks, 0 ≤ r ∧ r < worldSize) :
    let headBytes := 2 * nBlocks * blockSize * paddedHeadDim b headDim * dtypeBytes dtype
    let bytes := (List.range worldSize.toNat).map fun r : Nat => layout.headsListed r * headBytes
    estimateLayerwiseKvMemory b layout nBlocks blockSize headDim dtype worldSize =
      .ok ⟨bytes.foldl max (bytes.headD 0),
        (layout.specs.map LayerShardSpec.totalHeads).sum.tdiv worldSize * headBytes, bytes⟩ := by
  intro headBytes bytes
  obtain ⟨bytes', hbytes, hget⟩ := addLayers_ok headBytes (List.replicate worldSize.toNat 0) hranks
  have heq : bytes' = bytes := by
    refine List.ext_getElem? fun r => ?_
    rw [hget, List.getElem?_replicate, List.getElem?_map]
    by_cases hr : r < worldSize.toNat
    · rw [if_pos hr, List.getElem?_range hr, Option.map_some, Option.map_some, Int.zero_add]
      rfl
    · rw [if_neg hr, List.getElem?_eq_none (by rw [List.length_range]; omega)]
      rfl
  rw [estimateLayerwiseKvMemory, checkThat, guardNot_bind_eq_ok, checkThat, guardNot_bind_eq_ok]
  exact ⟨not_not.mpr hlayers, not_not.mpr hworld, bind_eq_ok.mpr ⟨bytes', hbytes, heq ▸ rfl⟩⟩

/-- The bytes that the estimate reports for a rank. -/
theorem estimate_ok (b : Build) {layout : LayerwiseSplitLayout}
    (nBlocks blockSize headDim dtype : Int) {worldSize : Int} (hworld : 0 < worldSize)
    (hlayers : 0 < layout.numLayers)
    (hranks : ∀ s ∈ layout.specs, ∀ r ∈ s.assignedRanks, 0 ≤ r ∧ r < worldSize) :
    ∃ est, estimateLayerwiseKvMemory b layout nBlocks blockSize headDim dtype worldSize = .ok est ∧
      ∀ r : Nat, r < worldSize → est.perRankBytes[r]? = some (layout.headsListed r *
        (2 * nBlocks * blockSize * paddedHeadDim b headDim * dtypeBytes dtype)) := by
  refine ⟨_, estimate_eq b nBlocks blockSize headDim dtype hworld hlayers hranks, fun r hr => ?_⟩
  rw [List.getElem?_map, List.getElem?_range (by omega), Option.map_some]

/-! ## The allocation -/

/-- A dimension as `shardShape` pads it. -/
def shardDim (b : Build) (dim : Int) : Int := if b.transposed then alignUp dim kWarpSize else dim

/-- The elements that are allocated for a head of a block. The fractal format keeps its block size
where the heads go, so it is lost. -/
def headElems (b : Build) (enablePrefixCache : Bool) (args : ModelArgs) (blockSize : Int) : Int :=
  if usesNz b enablePrefixCache args then
    (ceilDiv args.kvLoraRank kNzAlignment + ceilDiv args.qkRopeHeadDim kNzAlignment) * kNzAlignment
  else if args.enableMla then
    if b = .mlu then blockSize * shardDim b (args.kvLoraRank + args.qkRopeHeadDim)
    else blockSize * (shardDim b args.kvLoraRank + shardDim b args.qkRopeHeadDim)
  else blockSize * (2 * shardDim b args.headDim)

theorem alignUp_nonneg {dim align : Int} (hd : 0 ≤ dim) (ha : 0 < align) : 0 ≤ alignUp dim align :=
  Int.mul_nonneg (Int.tdiv_nonneg (by omega) ha.le) ha.le

theorem shardDim_nonneg {b : Build} {dim : Int} (hd : 0 ≤ dim) : 0 ≤ shardDim b dim := by
  unfold shardDim
  split
  · exact alignUp_nonneg hd (by decide)
  · exact hd

variable {b : Build} {pc : Bool} {args : ModelArgs} {nBlocks blockSize worldSize : Int}
  {base : KVCacheShape} {itemsize : Int → Int} {dtype rank : Int}

/-- The dimensions of a model. -/
structure ModelArgs.Nonneg (args : ModelArgs) : Prop where
  kvLoraRank : 0 ≤ args.kvLoraRank
  qkRopeHeadDim : 0 ≤ args.qkRopeHeadDim
  headDim : 0 ≤ args.headDim

theorem torchZeros_ok {shape : List Int} (h : ∀ d ∈ shape, 0 ≤ d) :
    torchZeros shape dtype = .ok ⟨shape, dtype⟩ := by
  rw [torchZeros, guardNot_bind, if_neg]
  · rfl
  · rintro ⟨d, hd, hneg⟩
    exact absurd (h d hd) (Int.not_le.mpr hneg)

/-- A base shape that gives tensors of `elems` elements for every head. -/
structure KVCacheShape.Gives (b : Build) (base : KVCacheShape) (elems : Int) : Prop where
  exists_shapes : ∃ k v, base = ⟨some k, v⟩ ∧ 4 ≤ k.length ∧ (∀ v' ∈ v, 4 ≤ v'.length) ∧
    ∀ h, 0 ≤ h → (∀ d ∈ shardShape b k h, 0 ≤ d) ∧ (∀ v' ∈ v, ∀ d ∈ shardShape b v' h, 0 ≤ d) ∧
      (shardShape b k h).prod + (v.map fun v' => (shardShape b v' h).prod).getD 0 = h * elems

theorem allocateLayer_owned {s : LayerShardSpec} {elems : Int} (hbase : base.Gives b elems)
    (hown : s.rankOwnsLayer rank = true) (hheads : 0 < s.headsForRank rank) :
    ∃ c, allocateLayer b base dtype rank s = .ok c ∧
      c.nbytes itemsize = s.headsForRank rank * (elems * itemsize dtype) := by
  obtain ⟨k, v, rfl, hk, hv, hshapes⟩ := hbase
  obtain ⟨hk0, hv0, helems⟩ := hshapes _ hheads.le
  have hown' : ¬ s.rankOwnsLayer rank = false := fun h => Bool.noConfusion (h.symm.trans hown)
  rw [allocateLayer, if_neg hown']
  dsimp only
  rw [checkThat, guardNot_bind, if_neg (not_not.mpr hheads), checkThat, guardNot_bind,
    if_neg (not_not.mpr hk), torchZeros_ok hk0]
  cases v with
  | none =>
    refine ⟨_, rfl, ?_⟩
    rw [Option.map_none, Option.getD_none, Int.add_zero] at helems
    show _ * itemsize dtype + 0 = _
    rw [helems]
    ring
  | some v =>
    refine ⟨⟨some ⟨shardShape b k (s.headsForRank rank), dtype⟩,
      some ⟨shardShape b v (s.headsForRank rank), dtype⟩⟩, ?_, ?_⟩
    · show (checkThat _ _ >>= _) = _
      rw [checkThat, guardNot_bind, if_neg (not_not.mpr (hv v rfl)), torchZeros_ok (hv0 v rfl)]
      rfl
    · show _ * itemsize dtype + _ * itemsize dtype = _
      rw [← Int.add_mul, ← Int.mul_assoc, ← helems]
      rfl

/-- A shape of the default layout in the layout of the build. -/
def deviceShape (b : Build) (n x heads dim : Int) : List Int :=
  if b.transposed then [n, heads, x, dim] else [n, x, heads, dim]

theorem shardShape_prod {n x heads dim h : Int} :
    (shardShape b (deviceShape b n x heads dim) h).prod = h * (n * (x * shardDim b dim)) := by
  unfold shardShape deviceShape shardDim
  cases b.transposed
  · show n * (x * (h * (dim * 1))) = h * (n * (x * dim))
    ring
  · show n * (h * (x * (alignUp dim kWarpSize * 1))) = h * (n * (x * alignUp dim kWarpSize))
    ring

theorem shardShape_nonneg {n x heads dim h : Int} (hn : 0 ≤ n) (hx : 0 ≤ x) (hd : 0 ≤ dim)
    (hh : 0 ≤ h) : ∀ d ∈ shardShape b (deviceShape b n x heads dim) h, 0 ≤ d := by
  have hdim := alignUp_nonneg hd (show 0 < kWarpSize by decide)
  unfold shardShape deviceShape
  cases b.transposed
  · simp [hn, hx, hh, hd]
  · simp [hn, hx, hh, hdim]

theorem deviceShape_length {n x heads dim : Int} : 4 ≤ (deviceShape b n x heads dim).length := by
  unfold deviceShape
  cases b.transposed <;> exact Nat.le_refl 4

theorem gives_both {x x' heads dim dim' : Int} (hn : 0 ≤ nBlocks) (hx : 0 ≤ x) (hx' : 0 ≤ x')
    (hd : 0 ≤ dim) (hd' : 0 ≤ dim') :
    KVCacheShape.Gives b ⟨some (deviceShape b nBlocks x heads dim),
      some (deviceShape b nBlocks x' heads dim')⟩
      (nBlocks * (x * shardDim b dim + x' * shardDim b dim')) := by
  refine ⟨_, _, rfl, deviceShape_length, fun v hv => ?_, fun h hh => ⟨?_, fun v hv => ?_, ?_⟩⟩
  · obtain rfl := Option.some.inj hv
    exact deviceShape_length
  · exact shardShape_nonneg hn hx hd hh
  · obtain rfl := Option.some.inj hv
    exact shardShape_nonneg hn hx' hd' hh
  · rw [Option.map_some, Option.getD_some, shardShape_prod, shardShape_prod]
    ring

theorem gives_key {x heads dim : Int} (hn : 0 ≤ nBlocks) (hx : 0 ≤ x) (hd : 0 ≤ dim) :
    KVCacheShape.Gives b ⟨some (deviceShape b nBlocks x heads dim), none⟩
      (nBlocks * (x * shardDim b dim)) := by
  refine ⟨_, _, rfl, deviceShape_length, fun v hv => (nomatch hv),
    fun h hh => ⟨shardShape_nonneg hn hx hd hh, fun v hv => (nomatch hv), ?_⟩⟩
  rw [Option.map_none, Option.getD_none, Int.add_zero, shardShape_prod]

theorem applyTransposed {n x heads dim dim' : Int} :
    (if b.transposed = true then
      (⟨(some [n, x, heads, dim]).map transposeDim1And2,
        (some [n, x, heads, dim']).map transposeDim1And2⟩ : KVCacheShape)
      else ⟨some [n, x, heads, dim], some [n, x, heads, dim']⟩) =
      ⟨some (deviceShape b n x heads dim), some (deviceShape b n x heads dim')⟩ := by
  unfold deviceShape
  cases b.transposed
  · rfl
  · rfl

/-- The shapes of every flavour. -/
theorem init_gives (hshape : KVCacheShape.init b pc args nBlocks blockSize worldSize = .ok base)
    (hn : 0 ≤ nBlocks) (hargs : args.Nonneg) :
    base.Gives b (nBlocks * headElems b pc args blockSize) := by
  rw [KVCacheShape.init, checkThat, guardNot_bind_eq_ok, checkThat, guardNot_bind_eq_ok] at hshape
  obtain ⟨-, hblock, hshape⟩ := hshape
  have hblock := (not_not.mp hblock).le
  obtain rfl := pure_eq_ok.mp hshape
  unfold headElems initCacheShape
  by_cases hnz : usesNz b pc args = true
  · obtain ⟨hmla, rfl, -⟩ := of_decide_eq_true hnz
    have hceil : ∀ {x : Int}, 0 ≤ x → 0 ≤ ceilDiv x kNzAlignment := fun hx =>
      Int.tdiv_nonneg (by unfold kNzAlignment; omega) (by decide)
    simp only [if_pos hnz]
    rw [Int.add_mul]
    exact gives_both (b := .npu) hn (hceil hargs.kvLoraRank) (hceil hargs.qkRopeHeadDim)
      (by decide) (by decide)
  · simp only [if_neg hnz]
    by_cases hmla : args.enableMla = true
    · simp only [if_pos hmla]
      by_cases hmlu : b = .mlu
      · subst hmlu
        rw [if_pos rfl, KVCacheShape.applyDeviceLayout, if_pos ⟨rfl, hmla⟩]
        exact gives_key hn hblock (Int.add_nonneg hargs.kvLoraRank hargs.qkRopeHeadDim)
      · rw [if_neg hmlu, KVCacheShape.applyDeviceLayout, if_neg fun h => hmlu h.1, Int.mul_add,
          applyTransposed]
        exact gives_both hn hblock hblock hargs.kvLoraRank hargs.qkRopeHeadDim
    · simp only [if_neg hmla]
      rw [KVCacheShape.applyDeviceLayout, if_neg fun h => hmla h.2, Int.two_mul, Int.mul_add,
        applyTransposed]
      exact gives_both hn hblock hblock hargs.headDim hargs.headDim

theorem headsForRank_pos {s : LayerShardSpec} (hs : s.isValid = true)
    (hown : s.rankOwnsLayer rank = true) : 0 < s.headsForRank rank := by
  obtain ⟨-, hlen, hpos⟩ := of_decide_eq_true hs
  obtain ⟨r, hr, heq⟩ := List.any_eq_true.mp hown
  obtain ⟨i, hi, rfl⟩ := List.mem_iff_getElem.mp hr
  unfold LayerShardSpec.headsForRank
  cases hfind : (s.assignedRanks.zip s.headsPerRank).find? (·.1 = rank) with
  | none =>
    have hi' : i < (s.assignedRanks.zip s.headsPerRank).length := by
      rw [List.length_zip]
      omega
    have hne := List.find?_eq_none.mp hfind _ (List.getElem_mem hi')
    rw [List.getElem_zip] at hne
    exact absurd heq hne
  | some entry => exact hpos _ (List.of_mem_zip (List.mem_of_find?_eq_some hfind)).2

theorem headsForRank_zero {s : LayerShardSpec} (hown : s.rankOwnsLayer rank = false) :
    s.headsForRank rank = 0 := by
  unfold LayerShardSpec.headsForRank
  rw [List.find?_eq_none.mpr]
  intro e he heq
  exact List.any_eq_false.mp hown e.1 (List.of_mem_zip he).1 heq

theorem allocateLayers_ok (itemsize : Int → Int) (dtype rank : Int) {specs : List LayerShardSpec}
    {elems : Int} (hbase : base.Gives b elems)
    (hvalid : ∀ s ∈ specs, s.isValid = true) :
    ∃ caches, specs.mapM (allocateLayer b base dtype rank) = .ok caches ∧
      (caches.map (KVCache.nbytes itemsize)).sum =
        (specs.map fun s => s.headsForRank rank).sum * (elems * itemsize dtype) := by
  induction specs with
  | nil => exact ⟨[], rfl, (Int.zero_mul _).symm⟩
  | cons s rest ih =>
    obtain ⟨caches, hrest, hsum⟩ := ih fun s' hs => hvalid s' (List.mem_cons_of_mem s hs)
    have hlayer : ∃ c, allocateLayer b base dtype rank s = .ok c ∧
        c.nbytes itemsize = s.headsForRank rank * (elems * itemsize dtype) := by
      cases hown : s.rankOwnsLayer rank with
      | true =>
        exact allocateLayer_owned hbase hown (headsForRank_pos (hvalid s List.mem_cons_self) hown)
      | false =>
        refine ⟨⟨none, none⟩, if_pos hown, ?_⟩
        rw [headsForRank_zero hown, Int.zero_mul]
        rfl
    obtain ⟨c, hc, hbytes⟩ := hlayer
    refine ⟨c :: caches, ?_, ?_⟩
    · rw [List.mapM_cons, hc, hrest]
      rfl
    · rw [List.map_cons, List.sum_cons, hsum, hbytes, List.map_cons, List.sum_cons]
      ring

/-! ## Both -/

theorem valid_of_validateFrom {i : Int} {specs : List LayerShardSpec}
    (h : validateFrom i specs = .ok ()) : ∀ s ∈ specs, s.isValid = true := by
  induction specs generalizing i with
  | nil => exact fun s hs => absurd hs List.not_mem_nil
  | cons s rest ih =>
    rw [validateFrom, checkThat, guardNot_bind_eq_ok, checkThat, guardNot_bind_eq_ok] at h
    intro s' hs
    rcases List.mem_cons.mp hs with rfl | hs
    · exact not_not.mp h.1
    · exact ih h.2.2 s' hs

/-- Both functions return, and each total is heads times the bytes of a head. -/
theorem estimate_allocate_ok (itemsize : Int → Int) (dtype headDim : Int)
    {layout : LayerwiseSplitLayout} {rank : Nat}
    (hshape : KVCacheShape.init b pc args nBlocks blockSize worldSize = .ok base)
    (hn : 0 ≤ nBlocks) (hargs : args.Nonneg) (hlayers : 0 < layout.numLayers)
    (hranks : ∀ s ∈ layout.specs, ∀ r ∈ s.assignedRanks, 0 ≤ r ∧ r < worldSize)
    (hrank : rank < worldSize) :
    ∃ est caches,
      estimateLayerwiseKvMemory b layout nBlocks blockSize headDim dtype worldSize = .ok est ∧
      allocateKvCachesLayerwise b [] base ⟨layout.numLayers, dtype⟩ layout rank = .ok caches ∧
      est.perRankBytes[rank]? = some (layout.headsListed rank *
        (2 * nBlocks * blockSize * paddedHeadDim b headDim * dtypeBytes dtype)) ∧
      (caches.map (KVCache.nbytes itemsize)).sum =
        layout.headsStored rank * (nBlocks * headElems b pc args blockSize * itemsize dtype) := by
  obtain ⟨est, hest, hget⟩ := estimate_ok b nBlocks blockSize headDim dtype (by omega)
    hlayers hranks
  obtain ⟨caches, hcaches, hsum⟩ := allocateLayers_ok itemsize dtype rank
    (init_gives hshape hn hargs) (valid_of_validateFrom layout.valid)
  refine ⟨est, caches, hest, ?_, hget rank hrank, hsum⟩
  rw [allocateKvCachesLayerwise, checkThat, guardNot_bind_eq_ok, checkThat, guardNot_bind_eq_ok]
  exact ⟨not_not.mpr rfl, not_not.mpr rfl, hcaches⟩

/-- The estimate is right for a layout whose layers list a rank at most once, with a value cache, an
element size that the estimate knows and a build that pads in both or in neither. -/
theorem estimate_matches {layout : LayerwiseSplitLayout} {rank : Nat}
    (hshape : KVCacheShape.init b pc args nBlocks blockSize worldSize = .ok base)
    (hn : 0 ≤ nBlocks) (hargs : args.Nonneg) (hlayers : 0 < layout.numLayers)
    (hranks : ∀ s ∈ layout.specs, ∀ r ∈ s.assignedRanks, 0 ≤ r ∧ r < worldSize)
    (hrank : rank < worldSize) (hnodup : ∀ s ∈ layout.specs, s.assignedRanks.Nodup)
    (hmla : args.enableMla = false) (hb : b ≠ .mlu) (hsize : itemsize dtype = dtypeBytes dtype) :
    ∃ est caches,
      estimateLayerwiseKvMemory b layout nBlocks blockSize args.headDim dtype worldSize = .ok est ∧
      allocateKvCachesLayerwise b [] base ⟨layout.numLayers, dtype⟩ layout rank = .ok caches ∧
      est.perRankBytes[rank]? = some (caches.map (KVCache.nbytes itemsize)).sum := by
  obtain ⟨est, caches, hest, hcaches, hlisted, hstored⟩ := estimate_allocate_ok itemsize dtype
    args.headDim hshape hn hargs hlayers hranks hrank
  have hpad : shardDim b args.headDim = paddedHeadDim b args.headDim := by
    cases b with
    | mlu => exact absurd rfl hb
    | _ => rfl
  refine ⟨est, caches, hest, hcaches, ?_⟩
  rw [hlisted, hstored, headsListed_eq hnodup, hsize, headElems, usesNz, hmla, hpad]
  simp only [Bool.false_eq_true, false_and, decide_false, if_false]
  refine congrArg some ?_
  ring

/-- The estimate of a rank is what the rank allocates, exactly when there are no blocks or the heads
take the same bytes of a block in both. -/
theorem estimate_matches_iff (itemsize : Int → Int) (dtype headDim : Int)
    (layout : LayerwiseSplitLayout) {rank : Nat}
    (hshape : KVCacheShape.init b pc args nBlocks blockSize worldSize = .ok base)
    (hn : 0 ≤ nBlocks) (hargs : args.Nonneg) (hlayers : 0 < layout.numLayers)
    (hranks : ∀ s ∈ layout.specs, ∀ r ∈ s.assignedRanks, 0 ≤ r ∧ r < worldSize)
    (hrank : rank < worldSize) :
    ∃ est caches,
      estimateLayerwiseKvMemory b layout nBlocks blockSize headDim dtype worldSize = .ok est ∧
      allocateKvCachesLayerwise b [] base ⟨layout.numLayers, dtype⟩ layout rank = .ok caches ∧
      (est.perRankBytes[rank]? = some (caches.map (KVCache.nbytes itemsize)).sum ↔
        nBlocks = 0 ∨
        layout.headsListed rank * (2 * blockSize * paddedHeadDim b headDim * dtypeBytes dtype) =
          layout.headsStored rank * (headElems b pc args blockSize * itemsize dtype)) := by
  obtain ⟨est, caches, hest, hcaches, hlisted, hstored⟩ := estimate_allocate_ok itemsize dtype
    headDim hshape hn hargs hlayers hranks hrank
  refine ⟨est, caches, hest, hcaches, ?_⟩
  rw [hlisted, hstored, Option.some_inj]
  constructor
  · intro h
    refine or_iff_not_imp_left.mpr fun hne => Int.eq_of_mul_eq_mul_left hne ?_
    linarith
  · rintro (rfl | h)
    · ring
    · linear_combination nBlocks * h

/-- One layer, with a head on each of two ranks. -/
def twoRanks : LayerwiseSplitLayout := ⟨[⟨0, [0, 1], [1, 1]⟩], rfl⟩

/-- A model with heads of 96 elements. -/
def headDim96 : ModelArgs := ⟨false, "llama", 0, 0, 2, some 2, 96⟩

theorem estimate_matches_iff_ilu :
    ∃ est caches,
      estimateLayerwiseKvMemory .ilu twoRanks 4 16 96 15 2 = .ok est ∧
      allocateKvCachesLayerwise .ilu [] ⟨some [4, 1, 16, 96], some [4, 1, 16, 96]⟩ ⟨1, 15⟩ twoRanks 0 =
        .ok caches ∧
      est.perRankBytes[0]? = some (caches.map (KVCache.nbytes fun _ => 2)).sum := by
  have hshape : KVCacheShape.init .ilu false headDim96 4 16 2 =
    .ok ⟨some [4, 1, 16, 96], some [4, 1, 16, 96]⟩ := rfl
  obtain ⟨est, caches, hest, hcaches, hiff⟩ := estimate_matches_iff (fun _ => 2) 15 96 twoRanks hshape
    (by decide) ⟨by decide, by decide, by decide⟩ (by decide) (by decide) (show ((0 : Nat) : Int) < 2 by
      decide)
  exact ⟨est, caches, hest, hcaches, hiff.mpr (.inr (by decide))⟩

/-- In an MLU build only the allocation pads the heads. -/
theorem estimate_under_reports :
    KVCacheShape.init .mlu false headDim96 4 16 2 =
      .ok ⟨some [4, 1, 16, 96], some [4, 1, 16, 96]⟩ ∧
    (estimateLayerwiseKvMemory .mlu twoRanks 4 16 96 15 2).map (·.perRankBytes) =
      .ok [24576, 24576] ∧
    (allocateKvCachesLayerwise .mlu [] ⟨some [4, 1, 16, 96], some [4, 1, 16, 96]⟩ ⟨1, 15⟩ twoRanks 0).map
      (fun caches => (caches.map (KVCache.nbytes fun _ => 2)).sum) = .ok 32768 := by
  decide

end Bi100
