import Bi100.Block.Failure

/-!
# Which ids are computed (`mark_blocks_as_computed`)

A promoted id is touched, and at the end of a scheduler step the touched ids are marked as
computed, by their number. Until then an id may have been freed, evicted and handed out again.

- `ComputedIsCached`: an id in use that is computed is cached, and its blocks have the hash it is
  cached under.
- `AllocStep.computed`: no step of an allocator call breaks this.
- `computed_is_cached_iff`: along a run it holds exactly as long as every touched id in use is
  cached when the ids are marked.
- `reused_id_is_computed`: an id that was touched, evicted and handed out for a mutable block.
-/

namespace Bi100

open Py PrefixCachingBlockAllocator

variable {H : Type} {s s' : AllocState H}

/-- The id is in use and computed, as far as its tracker says. -/
def AllocState.IsComputed (s : AllocState H) (id : Nat) : Prop :=
  (s.blockTracker id).active = true ∧ (s.blockTracker id).computed = true

/-! ## Trackers -/

/-- A tracker is replaced. -/
theorem isComputed_update_of_ne {id x : Nat} {t : BlockTracker} (hx : x ≠ id)
    (htracker : s'.blockTracker = Function.update s.blockTracker id t) (h : s'.IsComputed x) :
    s.IsComputed x := by
  unfold AllocState.IsComputed at h
  rw [htracker, Function.update_of_ne hx] at h
  exact h

/-- A tracker is replaced by one that is not computed. -/
theorem isComputed_update {id x : Nat} {t : BlockTracker} (ht : t.computed = false)
    (htracker : s'.blockTracker = Function.update s.blockTracker id t) (h : s'.IsComputed x) :
    s.IsComputed x ∧ x ≠ id := by
  have hx : x ≠ id := by
    rintro rfl
    unfold AllocState.IsComputed at h
    rw [htracker, Function.update_self, ht] at h
    exact Bool.false_ne_true h.2
  exact ⟨isComputed_update_of_ne hx htracker h, hx⟩

theorem isComputed_marked {id : Nat} : s.marked.IsComputed id ↔
    (s.blockTracker id).active = true ∧
      (id ∈ s.touchedBlocks ∨ (s.blockTracker id).computed = true) := by
  unfold AllocState.IsComputed AllocState.marked
  dsimp only
  split_ifs with hid
  · simp [hid]
  · simp [hid]

/-! ## Cached ids -/

variable [DecidableEq H]

/-- Some content is cached under the id. -/
def AllocState.IsCached (s : AllocState H) (id : Nat) : Prop :=
  ∃ h, s.cachedBlocks.get? h = some id

/-- A computed id is cached, and the blocks that hold it have the hash it is cached under: they
are immutable. -/
def ComputedIsCached [Sha256 H] (s : AllocState H) : Prop :=
  ∀ id, s.IsComputed id → ∃ h, s.cachedBlocks.get? h = some id ∧
    ∀ r ∈ s.live, (s.heap r).blockId = some id → HasHash s.blockSize s.heap r h

/-- Every touched id that is in use is cached. -/
def TouchedIsCached (s : AllocState H) : Prop :=
  ∀ id ∈ s.touchedBlocks, (s.blockTracker id).active = true → s.IsCached id

/-! ## Steps -/

/-- Computed ids are cached. -/
def AllocState.ComputedCached (s : AllocState H) : Prop := ∀ id, s.IsComputed id → s.IsCached id

/-- Ids are not computed anew and stay cached. -/
theorem AllocState.ComputedCached.of_le (hs : s.ComputedCached)
    (htracker : ∀ id, s'.IsComputed id → s.IsComputed id ∨ s'.IsCached id)
    (hcached : ∀ id, s'.IsComputed id → s.IsCached id → s'.IsCached id) : s'.ComputedCached := by
  intro id hid
  rcases htracker id hid with h | h
  · exact hcached id hid (hs id h)
  · exact h

/-- A new hash is cached, and the others stay cached. -/
theorem AllocState.IsCached.set {h : H} {id x : Nat} (huncached : s.cachedBlocks.get? h = none)
    (hcached : s'.cachedBlocks = s.cachedBlocks.set h id) (hx : s.IsCached x) : s'.IsCached x := by
  obtain ⟨h', hh'⟩ := hx
  have hne : h' ≠ h := by
    rintro rfl
    rw [huncached] at hh'
    cases hh'
  exact ⟨h', by rw [hcached, Dict.get?_set_of_ne hne, hh']⟩

variable [Sha256 H]

theorem AllocStep.computed {c c' : AllocConf H} (h : AllocStep c c') (hc : Inv c)
    (hs : c.st.ComputedCached) : c'.st.ComputedCached := by
  cases h with
  | hashes same sound =>
    rw [same.state]
    exact hs
  | takeFree free =>
    refine hs.of_le (fun x hx => .inl (isComputed_update rfl rfl hx).1) fun x _ hcached => hcached
  | @takeEvicted o p s id h e evict =>
    refine hs.of_le (fun x hx => .inl (isComputed_update rfl rfl hx).1) fun x hx ⟨h', hcached⟩ => ?_
    obtain ⟨⟨m, hm, rfl⟩, -⟩ := Evictor.evict_ok evict
    have hid : s.cachedBlocks.get? m.contentHash = some id := (hc.ids.evictable id m hm).2.2
    have hne : h' ≠ m.contentHash := by
      rintro rfl
      exact (isComputed_update rfl rfl hx).2 (Option.some.inj (hcached.symm.trans hid))
    exact ⟨h', (Dict.get?_erase_of_ne hne _).trans hcached⟩
  | @acquireEvicted o p s r id h e live blockId hash cached unused evictor pend =>
    refine hs.of_le (fun x hx => ?_) fun x _ hcached => hcached
    by_cases hid : x = id
    · exact .inr ⟨h, hid ▸ cached⟩
    · exact .inl (isComputed_update_of_ne hid rfl hx)
  | releaseCached live blockId last pend hash n t =>
    refine hs.of_le (fun x hx => .inl (isComputed_update rfl rfl hx).1) fun x _ hcached => hcached
  | releaseFree live blockId last hash =>
    refine hs.of_le (fun x hx => .inl (isComputed_update rfl rfl hx).1) fun x _ hcached => hcached
  | promote live blockId hash uncached last =>
    exact hs.of_le (fun x hx => .inl hx) fun x _ hcached => hcached.set uncached rfl
  | @restore o s r id h live blockId hash uncached last =>
    refine hs.of_le (fun x hx => ?_) fun x _ hcached => hcached.set uncached rfl
    by_cases hid : x = id
    · exact .inr ⟨h, hid ▸ Dict.get?_set_self _ _ _⟩
    · exact .inl (isComputed_update_of_ne hid rfl hx)
  | @accessUsed o p s id t =>
    refine hs.of_le (fun x hx => .inl ?_) fun x _ hcached => hcached
    by_cases hid : x = id
    · unfold AllocState.IsComputed at hx ⊢
      rw [hid] at hx ⊢
      dsimp only at hx
      rw [Function.update_self] at hx
      exact hx
    · exact isComputed_update_of_ne hid rfl hx
  | _ => exact hs

theorem AllocSteps.computed {c c' : AllocConf H} (h : AllocSteps c c') (hc : Inv c)
    (hs : c.st.ComputedCached) : c'.st.ComputedCached := by
  induction h with
  | refl => exact hs
  | tail hsteps hstep ih => exact hstep.computed (AllocSteps.inv hsteps hc) ih

/-! ## Marking -/

omit [Sha256 H] in
/-- Marking is right as far as the touched ids are cached. -/
theorem computedCached_marked (hs : s.ComputedCached) (ht : TouchedIsCached s) :
    s.marked.ComputedCached := by
  intro id hid
  obtain ⟨hactive, htouched | hcomputed⟩ := isComputed_marked.mp hid
  · exact ht id htouched hactive
  · exact hs id ⟨hactive, hcomputed⟩

omit [Sha256 H] in
theorem touched_of_marked (hs : s.marked.ComputedCached) : TouchedIsCached s :=
  fun id htouched hactive => hs id (isComputed_marked.mpr ⟨hactive, .inl htouched⟩)

/-- Blocks that hold a cached id have the hash. -/
theorem computedIsCached_iff (hc : Inv ⟨[], none, s⟩) :
    ComputedIsCached s ↔ s.ComputedCached := by
  constructor
  · intro h id hid
    obtain ⟨hash, hcached, -⟩ := h id hid
    exact ⟨hash, hcached⟩
  · intro h id hid
    obtain ⟨hash, hcached⟩ := h id hid
    refine ⟨hash, hcached, fun r hr hrid => ?_⟩
    by_contra hno
    by_cases hex : ∃ h', HasHash s.blockSize s.heap r h'
    · obtain ⟨h', hh'⟩ := hex
      have hcached' := hc.hashed r hr id h' hrid nofun hh'
      exact hno (hc.ids.cached_inj h' hash id hcached' hcached ▸ hh')
    · exact hc.unhashed r hr id hrid (.inr fun h' hh' => hex ⟨h', hh'⟩) hash hcached

omit [Sha256 H] in
theorem computedCached_of_fresh (h : Fresh s) : s.ComputedCached := by
  obtain ⟨device, blockSize, blockIds, policy, heap, contentCache, limit, -, rfl⟩ := h
  intro id hid
  exact absurd hid.1 Bool.false_ne_true

/-! ## Runs -/

/-- In every run, computed ids are cached all along exactly when every touched id in use is cached
whenever the touched ids are marked. -/
theorem computed_is_cached_iff {s : AllocState H} {steps : List (AllocState H × AllocState H)}
    (h : (allocSys H).Trace s steps) :
    (∀ p ∈ steps, ComputedIsCached p.2) ↔
      ∀ p ∈ steps, (markBlocksAsComputed.run p.1 = .ok () p.2 → TouchedIsCached p.1) := by
  refine Sys.Trace.all_iff (C := fun s s' => markBlocksAsComputed.run s = .ok () s' →
    TouchedIsCached s) ?_ ?_ ?_ h
  · intro s hs
    exact (computedIsCached_iff (inv_of_fresh hs).1).mpr (computedCached_of_fresh hs)
  · intro s s' hreach hs hop hmark
    have hc := inv_of_reachable hreach
    have hc' := inv_of_reachable (hreach.step hop)
    rw [computedIsCached_iff hc] at hs
    rw [computedIsCached_iff hc']
    rcases AllocOp.steps hop hc with rfl | hsteps
    · exact computedCached_marked hs (hmark rfl)
    · exact hsteps.computed hc hs
  · intro s s' hreach hop hs' hmark
    have hc' := inv_of_reachable (hreach.step hop)
    obtain rfl : s' = s.marked := run_modify_ok.mp hmark
    exact touched_of_marked ((computedIsCached_iff hc').mp hs')

/-- The only id is promoted, freed, evicted for a mutable block, and then marked. -/
theorem reuse_trace : ∃ s steps, (allocSys PlainDigest).Trace s steps ∧ steps.length = 4 ∧
    s.IsComputed 0 ∧ s.cachedBlocks.entries = [] := by
  obtain ⟨r, s₁, h₁, hs⟩ := check_eq_true.mp (show check (allocateImmutableBlock none [1] [])
    (oneBlock none) (fun r s₁ => decide (r.pool = s₁.device ∧ r.poolId < s₁.poolSize ∧ r.poolId ∉ s₁.poolFreeIds) &&
      check (free r) s₁ fun _ s₂ => decide (s₂.live = ∅) &&
      check (allocateMutableBlock none []) s₂ fun _ s₃ =>
      check markBlocksAsComputed s₃ fun _ s₄ =>
          decide (((s₄.blockTracker 0).active = true ∧ (s₄.blockTracker 0).computed = true) ∧
            s₄.cachedBlocks.entries = [])) = true by decide +kernel)
  simp only [Bool.and_eq_true, decide_eq_true_eq, check_eq_true] at hs
  obtain ⟨hown, _, s₂, h₂, hempty, r', s₃, h₃, _, s₄, h₄, hcomputed, hcached⟩ := hs
  have hpreds : s₂.PredsLive := fun q hq => absurd (hempty ▸ hq) (Finset.notMem_empty q)
  refine ⟨s₄, _, .step (.step (.step (.step (.init (fresh_oneBlock none))
    (.allocateImmutableBlock (predsLive_oneBlock none) (prevLive_none _) h₁)) (.free hown h₂))
    (.allocateMutableBlock hpreds (prevLive_none _) h₃)) (.markBlocksAsComputed h₄), rfl,
    hcomputed, hcached⟩

/-- An id is computed that is not cached: its block is mutable. -/
theorem reused_id_is_computed :
    ¬ ∀ s : AllocState PlainDigest, (allocSys PlainDigest).Reachable s → ComputedIsCached s := by
  intro hall
  obtain ⟨s, steps, htrace, -, hcomputed, hempty⟩ := reuse_trace
  obtain ⟨h, hcached, -⟩ := hall s htrace.reachable 0 hcomputed
  rw [← Dict.mem_entries, hempty] at hcached
  cases hcached

/-- The run of `reuse_trace`. -/
theorem computed_is_cached_four :
    ∃ (s : AllocState PlainDigest) (steps : List (AllocState PlainDigest × AllocState PlainDigest)),
      (allocSys PlainDigest).Trace s steps ∧ steps.length = 4 ∧
      ((∀ p ∈ steps, ComputedIsCached p.2) ↔
        ∀ p ∈ steps, (markBlocksAsComputed.run p.1 = .ok () p.2 → TouchedIsCached p.1)) := by
  obtain ⟨s, steps, htrace, hlength, -⟩ := reuse_trace
  exact ⟨s, steps, htrace, hlength, computed_is_cached_iff htrace⟩

end Bi100
