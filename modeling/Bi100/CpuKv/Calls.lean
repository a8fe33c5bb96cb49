import Bi100.CpuKv.Cache

/-!
# What a call of the content index does

One lemma per method of `CpuKvContentCache`: the guards that a successful call has passed and
the state it leaves. Later proofs use these and do not unfold the methods.
-/

namespace Bi100.CpuKvContentCache

open Py

variable {H : Type} [DecidableEq H]

/-- The state after the eviction of `oldHash` from `slot`. -/
def evicted (c : CpuKvContentCache H) (oldHash : H) (slot : Nat) : CpuKvContentCache H :=
  { c with
    hashToSlot := c.hashToSlot.erase oldHash
    readySlots := c.readySlots.erase slot
    evictions := c.evictions + 1 }

/-- The state after a D2H copy of `gpuBlock` to `slot` is recorded. -/
def stored (c : CpuKvContentCache H) (contentHash : H) (gpuBlock slot : Nat) :
    CpuKvContentCache H :=
  { c with
    hashToSlot := c.hashToSlot.set contentHash slot
    slotToHash := c.slotToHash.set slot contentHash
    readySlots := c.readySlots.erase slot
    lru := (c.lru.erase slot).set slot ()
    stepSlotsInUse := insert slot c.stepSlotsInUse
    stepD2h := c.stepD2h.set gpuBlock slot
    stores := c.stores + 1 }

/-- The state after a successful claim of `slot`. -/
def claimed (c : CpuKvContentCache H) (slot : Nat) : CpuKvContentCache H :=
  { c with
    lru := (c.lru.erase slot).set slot ()
    stepSlotsInUse := insert slot c.stepSlotsInUse
    stepLoadSlots := insert slot c.stepLoadSlots
    hits := c.hits + 1 }

/-- The state after a claim of `slot` is canceled. -/
def canceled (c : CpuKvContentCache H) (slot : Nat) : CpuKvContentCache H :=
  { c with
    stepSlotsInUse := c.stepSlotsInUse.erase slot
    stepLoadSlots := c.stepLoadSlots.erase slot }

/-- The state after a store is deferred to the end of the step. -/
def deferred (c : CpuKvContentCache H) (contentHash : H) (gpuBlock : Nat) :
    CpuKvContentCache H :=
  { c with
    deferredD2h := c.deferredD2h.set gpuBlock contentHash
    deferredHashes := insert contentHash c.deferredHashes }

theorem heappop_eq_some {l rest : List Nat} {s : Nat} (h : heappop l = some (s, rest)) :
    s ∈ l ∧ rest = l.erase s := by
  obtain ⟨m, hm, heq⟩ := Option.map_eq_some_iff.mp h
  obtain ⟨rfl, rfl⟩ := Prod.mk.injEq .. ▸ heq
  exact ⟨List.min?_mem hm, rfl⟩

theorem heappop_eq_none {l : List Nat} (h : heappop l = none) : l = [] :=
  List.min?_eq_none_iff.mp (Option.map_eq_none_iff.mp h)

/-! ## Stores -/

theorem evictOldHash_ok {slot : Nat} {c c' : CpuKvContentCache H} {u : Unit}
    (h : (evictOldHash slot).run c = .ok u c') :
    (c.slotToHash.get? slot = none ∧ c' = c) ∨
    ∃ oldHash, c.slotToHash.get? slot = some oldHash ∧ slot ∉ c.stepSlotsInUse ∧
      c' = c.evicted oldHash slot := by
  rw [evictOldHash, run_get_bind] at h
  split at h
  · next hs => exact .inl ⟨hs, (run_pure_ok.mp h).2⟩
  · next oldHash hs =>
    obtain ⟨hu, h⟩ := run_raiseIf_bind_ok.mp h
    obtain ⟨-, h⟩ := run_raiseUnless_bind_ok.mp h
    exact .inr ⟨oldHash, hs, hu, run_set_ok.mp h⟩

theorem commitStore_ok {contentHash : H} {gpuBlock slot : Nat} {c c' : CpuKvContentCache H}
    {u : Unit} (h : (commitStore contentHash gpuBlock slot).run c = .ok u c') :
    (c.slotToHash.get? slot = none ∧ c' = c.stored contentHash gpuBlock slot) ∨
    ∃ oldHash, c.slotToHash.get? slot = some oldHash ∧ slot ∉ c.stepSlotsInUse ∧
      c' = (c.evicted oldHash slot).stored contentHash gpuBlock slot := by
  rw [commitStore, run_bind_ok] at h
  obtain ⟨_, c₁, h₁, h⟩ := h
  simp only [run_get_bind, run_raiseIf_bind_ok, run_set_bind, touch, run_modify_bind,
    run_modify_ok] at h
  obtain ⟨-, -, h⟩ := h
  rcases evictOldHash_ok h₁ with ⟨hs, rfl⟩ | ⟨oldHash, hs, hu, rfl⟩
  · exact .inl ⟨hs, h⟩
  · exact .inr ⟨oldHash, hs, hu, h⟩

omit [DecidableEq H] in
theorem requireStepStarted_ok {c c' : CpuKvContentCache H} {u : Unit}
    (h : requireStepStarted.run c = .ok u c') : c.pendingReadySlots = ∅ ∧ c' = c := by
  rw [requireStepStarted, run_get_bind, run_raiseIf_ok] at h
  exact ⟨not_not.mp h.1, h.2⟩

/-- The three outcomes of `stage_store`. -/
theorem stageStore_ok {contentHash : H} {gpuBlock : Nat} {c c' : CpuKvContentCache H} {b : Bool}
    (h : (stageStore contentHash gpuBlock).run c = .ok b c') :
    c.pendingReadySlots = ∅ ∧
    ((∃ lru, c' = { c with lru := lru, deduplicatedStores := c.deduplicatedStores + 1 } ∧
        (lru = c.lru ∨ ∃ slot, c.hashToSlot.get? contentHash = some slot ∧
          lru = (c.lru.erase slot).set slot ())) ∨
     (contentHash ∉ c.hashToSlot ∧ contentHash ∉ c.deferredHashes ∧
        gpuBlock ∉ c.stepD2h ∧ gpuBlock ∉ c.deferredD2h ∧
        ((∃ slot rest, heappop c.freeSlots = some (slot, rest) ∧
            (commitStore contentHash gpuBlock slot).run { c with freeSlots := rest } =
              .ok () c') ∨
         (c.freeSlots = [] ∧ c' = c.deferred contentHash gpuBlock)))) := by
  rw [stageStore, run_bind_ok] at h
  obtain ⟨_, c₁, h₁, h⟩ := h
  obtain ⟨hp, rfl⟩ := requireStepStarted_ok h₁
  refine ⟨hp, ?_⟩
  rw [run_get_bind] at h
  split at h
  · refine .inl ?_
    cases hs : c₁.hashToSlot.get? contentHash with
    | none =>
      rw [hs] at h
      exact ⟨c₁.lru, (run_pure_ok.mp h).2, .inl rfl⟩
    | some slot =>
      rw [hs] at h
      exact ⟨_, (run_pure_ok.mp h).2, .inr ⟨slot, rfl, rfl⟩⟩
  · next hn =>
    refine .inr ⟨fun hm => hn (.inl hm), fun hm => hn (.inr hm), ?_⟩
    obtain ⟨hg, h⟩ := run_raiseIf_bind_ok.mp h
    refine ⟨fun hm => hg (.inl hm), fun hm => hg (.inr hm), ?_⟩
    split at h
    · next slot rest hpop =>
      rw [run_set_bind] at h
      obtain ⟨_, c₂, h₂, h⟩ := run_bind_ok.mp h
      obtain ⟨-, rfl⟩ := run_pure_ok.mp h
      exact .inl ⟨slot, rest, hpop, h₂⟩
    · next hpop =>
      rw [run_set_bind] at h
      exact .inr ⟨heappop_eq_none hpop, (run_pure_ok.mp h).2⟩

/-! ## Loads -/

/-- A miss counts; a hit pins the slot. -/
theorem claimLoad_ok {contentHash : H} {c c' : CpuKvContentCache H} {r : Option Nat}
    (h : (claimLoad contentHash).run c = .ok r c') :
    c.pendingReadySlots = ∅ ∧
    ((r = none ∧ c' = { c with misses := c.misses + 1 }) ∨
     ∃ slot, r = some slot ∧ c.hashToSlot.get? contentHash = some slot ∧
       slot ∈ c.readySlots ∧ slot ∉ c.stepSlotsInUse ∧ c' = c.claimed slot) := by
  rw [claimLoad, run_bind_ok] at h
  obtain ⟨_, c₁, h₁, h⟩ := h
  obtain ⟨hp, rfl⟩ := requireStepStarted_ok h₁
  refine ⟨hp, ?_⟩
  rw [run_get_bind] at h
  split at h
  · rw [run_set_bind] at h
    exact .inl (run_pure_ok.mp h)
  · next slot hs =>
    split at h
    · rw [run_set_bind] at h
      exact .inl (run_pure_ok.mp h)
    · next hr =>
      obtain ⟨hu, h⟩ := run_raiseIf_bind_ok.mp h
      rw [run_set_bind, touch, run_modify_bind, run_modify_bind] at h
      obtain ⟨rfl, rfl⟩ := run_pure_ok.mp h
      exact .inr ⟨slot, rfl, hs, not_not.mp hr, hu, rfl⟩

theorem cancelLoad_ok {contentHash : H} {cpuSlot : Nat} {c c' : CpuKvContentCache H} {u : Unit}
    (h : (cancelLoad contentHash cpuSlot).run c = .ok u c') :
    c.hashToSlot.get? contentHash = some cpuSlot ∧ cpuSlot ∉ c.stepH2d ∧
      cpuSlot ∈ c.stepLoadSlots ∧ c' = c.canceled cpuSlot := by
  simp only [cancelLoad, run_get_bind, run_raiseIf_bind_ok, run_set_bind,
    run_raiseUnless_bind_ok, run_modify_ok, not_not] at h
  obtain ⟨hs, hd, -, hl, rfl⟩ := h
  exact ⟨hs, hd, hl, rfl⟩

theorem stageLoad_ok {contentHash : H} {cpuSlot gpuBlock : Nat} {c c' : CpuKvContentCache H}
    {u : Unit} (h : (stageLoad contentHash cpuSlot gpuBlock).run c = .ok u c') :
    c.hashToSlot.get? contentHash = some cpuSlot ∧ cpuSlot ∈ c.readySlots ∧
      cpuSlot ∈ c.stepSlotsInUse ∧ cpuSlot ∉ c.stepH2d ∧ gpuBlock ∉ c.stepH2d.values ∧
      cpuSlot ∉ c.stepD2h.values ∧ c' = { c with stepH2d := c.stepH2d.set cpuSlot gpuBlock } := by
  simpa only [stageLoad, run_get_bind, run_raiseIf_bind_ok, run_set_ok, ne_eq, not_not] using h

/-! ## Steps -/

theorem beginStep_ok {c c' : CpuKvContentCache H} {u : Unit}
    (h : beginStep.run c = .ok u c') :
    c.stepSlotsInUse = ∅ ∧ c.stepH2d = ∅ ∧ c.stepD2h = ∅ ∧ c.deferredD2h = ∅ ∧
      c.deferredHashes = ∅ ∧
      c' = { c with
        readySlots := c.readySlots ∪ c.pendingReadySlots
        pendingReadySlots := ∅ } := by
  simp only [beginStep, run_get_bind, run_raiseIf_bind_ok, run_set_ok, ne_eq, not_or,
    not_not] at h
  obtain ⟨⟨h₁, h₂, h₃, h₄, h₅⟩, rfl⟩ := h
  exact ⟨h₁, Dict.ext h₂, Dict.ext h₃, Dict.ext h₄, h₅, rfl⟩

omit [DecidableEq H] in
theorem selectStoreSlot_ok {c c' : CpuKvContentCache H} {r : Option Nat}
    (h : selectStoreSlot.run c = .ok r c') :
    (∃ slot rest, heappop c.freeSlots = some (slot, rest) ∧ r = some slot ∧
      c' = { c with freeSlots := rest }) ∨
    (c' = c ∧ ∀ slot ∈ r, slot ∈ c.lru ∧ slot ∉ c.stepSlotsInUse) := by
  rw [selectStoreSlot, run_get_bind] at h
  split at h
  · next slot rest hpop =>
    rw [run_set_bind] at h
    obtain ⟨rfl, rfl⟩ := run_pure_ok.mp h
    exact .inl ⟨slot, rest, hpop, rfl, rfl⟩
  · obtain ⟨rfl, rfl⟩ := run_pure_ok.mp h
    refine .inr ⟨rfl, fun slot hs => ⟨List.mem_of_find?_eq_some hs, ?_⟩⟩
    simpa using List.find?_some hs

/-- The state after the final checks of `drain_step`. -/
def drained (c : CpuKvContentCache H) : CpuKvContentCache H :=
  { c with
    pendingReadySlots := c.pendingReadySlots ∪ c.stepD2h.values.toFinset
    stepH2d := ∅
    stepD2h := ∅
    stepSlotsInUse := ∅
    stepLoadSlots := ∅ }

theorem drainStep_ok {c c' : CpuKvContentCache H} {r : List (Nat × Nat) × List (Nat × Nat)}
    (h : drainStep.run c = .ok r c') :
    ∃ c₁, resolveDeferredStores.run c = .ok () c₁ ∧
      (∀ s, s ∈ c₁.stepH2d ↔ s ∈ c₁.stepLoadSlots) ∧
      (∀ s ∈ c₁.stepH2d, s ∉ c₁.stepD2h.values) ∧
      r = (sortedItems c₁.stepH2d, sortedItems c₁.stepD2h) ∧ c' = c₁.drained := by
  rw [drainStep, run_bind_ok] at h
  obtain ⟨_, c₁, h₁, h⟩ := h
  refine ⟨c₁, h₁, ?_⟩
  simp only [run_get_bind, run_raiseIf_bind_ok, run_set_bind, run_pure_ok, not_not] at h
  obtain ⟨-, hx, hl, rfl, rfl⟩ := h
  refine ⟨fun s => ?_, fun s hs hd => ?_, rfl, rfl⟩
  · rw [← hl, List.mem_toFinset, Dict.mem_def]
  · have : s ∈ c₁.stepH2d.keys.toFinset ∩ c₁.stepD2h.values.toFinset :=
      Finset.mem_inter.mpr ⟨List.mem_toFinset.mpr hs, List.mem_toFinset.mpr hd⟩
    rw [hx] at this
    exact absurd this (Finset.notMem_empty s)

end Bi100.CpuKvContentCache
