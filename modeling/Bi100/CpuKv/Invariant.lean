import Bi100.CpuKv.Calls

/-!
# The representation invariant of the content index

- `Core`: the hash and slot maps are inverse, free and occupied slots partition the capacity, the
  LRU order lists the occupied slots, and the slots pinned by the step are the claimed sources
  and the staged destinations. `Core c (some slot)` is the state in the middle of a store, when
  `slot` is neither free nor occupied.
- `Waiting`: the deferred stores are of new hashes and from new GPU blocks.
- `Inv`: both, with the slots whose copies the next step publishes. Every successful call keeps it.
-/

namespace Bi100.CpuKvContentCache

open Py

variable {H : Type} [DecidableEq H]

structure Core (c : CpuKvContentCache H) (hole : Option Nat) : Prop where
  hash_slot : ∀ h s, c.hashToSlot.get? h = some s ↔ c.slotToHash.get? s = some h ∧ s ∉ hole
  lru_mem : ∀ s, s ∉ hole → (s ∈ c.lru ↔ s ∈ c.slotToHash)
  free_nodup : c.freeSlots.Nodup
  free_mem : ∀ s, s ∈ c.freeSlots ↔ s < c.capacity ∧ s ∉ c.slotToHash ∧ s ∉ hole
  slot_lt : ∀ s, s ∈ c.slotToHash ∨ s ∈ hole → s < c.capacity
  hole_idle : ∀ s ∈ hole, s ∉ c.stepSlotsInUse ∧ s ∉ c.readySlots
  ready_res : ∀ s ∈ c.readySlots, s ∈ c.slotToHash
  load_ready : ∀ s ∈ c.stepLoadSlots, s ∈ c.readySlots
  d2h_res : ∀ s ∈ c.stepD2h.values, s ∈ c.slotToHash ∧ s ∉ c.readySlots
  d2h_nodup : c.stepD2h.values.Nodup
  h2d_load : ∀ s ∈ c.stepH2d, s ∈ c.stepLoadSlots
  h2d_nodup : c.stepH2d.values.Nodup
  in_use : ∀ s, s ∈ c.stepSlotsInUse ↔ s ∈ c.stepLoadSlots ∨ s ∈ c.stepD2h.values
  count : c.stores = c.evictions + c.hashToSlot.size

/-- The stores of `l` wait for the end of the step. -/
structure Waiting (hashToSlot : Dict H Nat) (stepD2h : Dict Nat Nat) (l : List (Nat × H)) :
    Prop where
  src_nodup : (l.map Prod.fst).Nodup
  hash_nodup : (l.map Prod.snd).Nodup
  new_hash : ∀ p ∈ l, p.2 ∉ hashToSlot
  new_src : ∀ p ∈ l, p.1 ∉ stepD2h

structure Inv (c : CpuKvContentCache H) : Prop where
  core : Core c none
  waiting : Waiting c.hashToSlot c.stepD2h c.deferredD2h.entries
  deferred_hashes : ∀ h, h ∈ c.deferredHashes ↔ h ∈ c.deferredD2h.values
  deferred_full : c.deferredHashes ≠ ∅ → c.freeSlots = []
  pending_res : ∀ s ∈ c.pendingReadySlots, s ∈ c.slotToHash ∧ s ∉ c.readySlots
  pending_idle : c.pendingReadySlots ≠ ∅ → c.stepSlotsInUse = ∅ ∧ c.deferredD2h = ∅

theorem Inv.fresh (capacity : Nat) : Inv (fresh capacity : CpuKvContentCache H) where
  core := by
    constructor <;>
      simp [CpuKvContentCache.fresh, List.nodup_range]
  waiting := by constructor <;> simp [CpuKvContentCache.fresh]
  deferred_hashes := by simp [CpuKvContentCache.fresh]
  deferred_full := by simp [CpuKvContentCache.fresh]
  pending_res := by simp [CpuKvContentCache.fresh]
  pending_idle := by simp [CpuKvContentCache.fresh]

/-! ## One store -/

namespace Core

variable {c : CpuKvContentCache H}

theorem in_use_res (hc : Core c none) {s : Nat} (h : s ∈ c.stepSlotsInUse) :
    s ∈ c.slotToHash := by
  rcases (hc.in_use s).mp h with hl | hd
  · exact hc.ready_res s (hc.load_ready s hl)
  · exact (hc.d2h_res s hd).1

theorem pop (hc : Core c none) {slot : Nat} {rest : List Nat}
    (h : heappop c.freeSlots = some (slot, rest)) :
    Core { c with freeSlots := rest } (some slot) := by
  obtain ⟨hm, rfl⟩ := heappop_eq_some h
  obtain ⟨hlt, hn, -⟩ := (hc.free_mem slot).mp hm
  have hne : ∀ s, s ∈ c.slotToHash → slot ≠ s := fun s hs he => hn (he ▸ hs)
  refine { hc with
    hash_slot := fun h s => ?_, lru_mem := fun s _ => hc.lru_mem s (by simp)
    free_nodup := hc.free_nodup.erase slot, free_mem := fun s => ?_
    slot_lt := fun s hs => ?_, hole_idle := fun s hs => ?_ }
  · rw [hc.hash_slot h s]
    simp only [Option.not_mem_none, not_false_eq_true, and_true, Option.mem_some_iff]
    exact ⟨fun hs => ⟨hs, hne s (Dict.mem_of_get? hs)⟩, fun hs => hs.1⟩
  · simp only [hc.free_nodup.mem_erase_iff, hc.free_mem s, Option.not_mem_none,
      not_false_eq_true, and_true, Option.mem_some_iff]
    constructor
    · rintro ⟨h₁, h₂, h₃⟩
      exact ⟨h₂, h₃, fun h => h₁ h.symm⟩
    · rintro ⟨h₁, h₂, h₃⟩
      exact ⟨fun h => h₃ h.symm, h₁, h₂⟩
  · rcases hs with hs | hs
    · exact hc.slot_lt s (.inl hs)
    · rw [Option.mem_some_iff] at hs
      exact hs ▸ hlt
  · rw [Option.mem_some_iff] at hs
    subst hs
    exact ⟨fun h => hn (hc.in_use_res h), fun h => hn (hc.ready_res _ h)⟩

theorem evict (hc : Core c none) {slot : Nat} {oldHash : H}
    (h : c.slotToHash.get? slot = some oldHash) (hu : slot ∉ c.stepSlotsInUse) :
    Core (c.evicted oldHash slot) (some slot) := by
  have hold : c.hashToSlot.get? oldHash = some slot := (hc.hash_slot ..).mpr ⟨h, by simp⟩
  have hres : slot ∈ c.slotToHash := Dict.mem_of_get? h
  refine { hc with
    hash_slot := fun h' s => ?_, lru_mem := fun s _ => hc.lru_mem s (by simp)
    free_mem := fun s => ?_, slot_lt := fun s hs => ?_, hole_idle := fun s hs => ?_
    ready_res := fun s hs => hc.ready_res s (Finset.mem_of_mem_erase hs)
    load_ready := fun s hs => ?_, d2h_res := fun s hs => ?_, count := ?_ }
  · rw [evicted, Dict.get?_erase]
    simp only [Option.mem_some_iff]
    by_cases he : h' = oldHash
    · subst he
      rw [if_pos rfl]
      simp only [reduceCtorEq, false_iff, not_and, not_not]
      intro hs
      exact Option.some.inj (hold.symm.trans ((hc.hash_slot ..).mpr ⟨hs, by simp⟩))
    · rw [if_neg he, hc.hash_slot h' s]
      simp only [Option.not_mem_none, not_false_eq_true, and_true]
      refine ⟨fun hs => ⟨hs, ?_⟩, fun hs => hs.1⟩
      rintro rfl
      exact he (Option.some.inj (hs.symm.trans h))
  · rw [show (c.evicted oldHash slot).freeSlots = c.freeSlots from rfl, hc.free_mem s]
    simp only [Option.not_mem_none, not_false_eq_true, and_true, Option.mem_some_iff]
    constructor
    · rintro ⟨h₁, h₂⟩
      exact ⟨h₁, h₂, fun he => h₂ (he ▸ hres)⟩
    · rintro ⟨h₁, h₂, -⟩
      exact ⟨h₁, h₂⟩
  · rcases hs with hs | hs
    · exact hc.slot_lt s (.inl hs)
    · rw [Option.mem_some_iff] at hs
      exact hs ▸ hc.slot_lt slot (.inl hres)
  · rw [Option.mem_some_iff] at hs
    subst hs
    exact ⟨hu, Finset.notMem_erase _ _⟩
  · refine Finset.mem_erase.mpr ⟨?_, hc.load_ready s hs⟩
    rintro rfl
    exact hu ((hc.in_use s).mpr (.inl hs))
  · exact ⟨(hc.d2h_res s hs).1, fun hr => (hc.d2h_res s hs).2 (Finset.mem_of_mem_erase hr)⟩
  · have := Dict.size_erase_of_mem (Dict.mem_of_get? hold)
    have := hc.count
    simp only [evicted]
    omega

theorem store {slot gpuBlock : Nat} {contentHash : H} (hc : Core c (some slot))
    (hh : contentHash ∉ c.hashToSlot) (hg : gpuBlock ∉ c.stepD2h) :
    Core (c.stored contentHash gpuBlock slot) none := by
  obtain ⟨hu, hr⟩ := hc.hole_idle slot (Option.mem_some_self slot)
  have hd : slot ∉ c.stepD2h.values := fun h => hu ((hc.in_use slot).mpr (.inr h))
  have hres : ∀ s, s ∈ c.slotToHash → s ∈ c.slotToHash.set slot contentHash :=
    fun s hs => Dict.mem_set.mpr (.inr hs)
  have hval : (c.stored contentHash gpuBlock slot).stepD2h.values = c.stepD2h.values ++ [slot] :=
    Dict.values_set_of_not_mem hg slot
  constructor
  · intro h s
    simp only [stored, Dict.get?_set, Option.not_mem_none, not_false_eq_true, and_true]
    have hiff := hc.hash_slot h s
    rw [Option.mem_some_iff] at hiff
    by_cases hs : s = slot
    · subst hs
      by_cases he : h = contentHash
      · simp [he]
      · simp [he, hiff, Ne.symm he]
    · by_cases he : h = contentHash
      · subst he
        have hnone := Dict.get?_eq_none.mpr hh
        simp only [↓reduceIte, hs, Option.some.injEq, eq_comm (a := slot), false_iff]
        intro h'
        rw [hiff.mpr ⟨h', fun h => hs h.symm⟩] at hnone
        exact absurd hnone (by simp)
      · simp only [he, hs, ↓reduceIte, hiff]
        exact ⟨fun h => h.1, fun h => ⟨h, fun h' => hs h'.symm⟩⟩
  · intro s _
    simp only [stored, Dict.mem_set, Dict.mem_erase]
    by_cases hs : s = slot
    · simp [hs]
    · simp [hs, hc.lru_mem s (by simpa [eq_comm] using hs)]
  · exact hc.free_nodup
  · intro s
    simp only [stored, hc.free_mem s, Dict.mem_set, Option.mem_some_iff, Option.not_mem_none,
      not_false_eq_true, and_true, not_or]
    constructor
    · rintro ⟨h₁, h₂, h₃⟩
      exact ⟨h₁, fun h => h₃ h.symm, h₂⟩
    · rintro ⟨h₁, h₂, h₃⟩
      exact ⟨h₁, h₃, fun h => h₂ h.symm⟩
  · intro s hs
    simp only [stored, Dict.mem_set, Option.not_mem_none, or_false] at hs
    rcases hs with rfl | hs
    · exact hc.slot_lt s (.inr (Option.mem_some_self s))
    · exact hc.slot_lt s (.inl hs)
  · simp
  · exact fun s hs => hres s (hc.ready_res s (Finset.mem_of_mem_erase hs))
  · intro s hs
    refine Finset.mem_erase.mpr ⟨?_, hc.load_ready s hs⟩
    rintro rfl
    exact hr (hc.load_ready s hs)
  · intro s hs
    rw [hval, List.mem_append, List.mem_singleton] at hs
    rcases hs with hs | rfl
    · exact ⟨hres s (hc.d2h_res s hs).1,
        fun h => (hc.d2h_res s hs).2 (Finset.mem_of_mem_erase h)⟩
    · exact ⟨Dict.mem_set.mpr (.inl rfl), Finset.notMem_erase _ _⟩
  · rw [hval, List.nodup_append]
    refine ⟨hc.d2h_nodup, List.nodup_singleton _, ?_⟩
    simp only [List.mem_singleton, forall_eq]
    rintro s hs rfl
    exact hd hs
  · exact hc.h2d_load
  · exact hc.h2d_nodup
  · intro s
    rw [hval, List.mem_append, List.mem_singleton, ← or_assoc]
    simp only [stored, Finset.mem_insert, hc.in_use s]
    exact or_comm
  · have := hc.count
    have := Dict.size_set_of_not_mem hh slot
    simp only [stored]
    omega

theorem touch (hc : Core c none) {slot : Nat} (hs : slot ∈ c.slotToHash) :
    Core { c with lru := (c.lru.erase slot).set slot () } none := by
  refine { hc with lru_mem := fun s hn => ?_ }
  simp only [Dict.mem_set, Dict.mem_erase, ← hc.lru_mem s hn]
  by_cases he : s = slot
  · simp [he, (hc.lru_mem slot (by simp)).mpr hs]
  · simp [he]

end Core

/-- A store of `contentHash` from `gpuBlock` to `slot`: a free slot, or one whose content is
replaced. -/
inductive Stores (c : CpuKvContentCache H) (contentHash : H) (gpuBlock slot : Nat) :
    CpuKvContentCache H → Prop where
  | free {rest : List Nat} (h : heappop c.freeSlots = some (slot, rest)) :
    Stores c contentHash gpuBlock slot
      ({ c with freeSlots := rest }.stored contentHash gpuBlock slot)
  | evict {oldHash : H} (h : c.slotToHash.get? slot = some oldHash)
      (hu : slot ∉ c.stepSlotsInUse) :
    Stores c contentHash gpuBlock slot ((c.evicted oldHash slot).stored contentHash gpuBlock slot)

namespace Stores

variable {c c' : CpuKvContentCache H} {contentHash : H} {gpuBlock slot : Nat}

theorem of_free (hc : Core c none) {rest : List Nat} {u : Unit}
    (hp : heappop c.freeSlots = some (slot, rest))
    (h : (commitStore contentHash gpuBlock slot).run { c with freeSlots := rest } = .ok u c') :
    Stores c contentHash gpuBlock slot c' := by
  obtain ⟨-, hn, -⟩ := (hc.free_mem slot).mp (heappop_eq_some hp).1
  rcases commitStore_ok h with ⟨-, rfl⟩ | ⟨oldHash, hs, -⟩
  · exact .free hp
  · exact absurd (Dict.mem_of_get? hs) hn

theorem of_evict (hc : Core c none) {u : Unit} (hl : slot ∈ c.lru)
    (h : (commitStore contentHash gpuBlock slot).run c = .ok u c') :
    Stores c contentHash gpuBlock slot c' := by
  rcases commitStore_ok h with ⟨hn, -⟩ | ⟨oldHash, hs, hu, rfl⟩
  · exact absurd ((hc.lru_mem slot (by simp)).mp hl) (Dict.get?_eq_none.mp hn)
  · exact .evict hs hu

/-- The slots of a store: the new content is there, and the other slots keep theirs. -/
theorem hash_of (hc : Core c none) (h : Stores c contentHash gpuBlock slot c')
    {h' : H} {s : Nat} (hs : c'.hashToSlot.get? h' = some s) :
    (h' = contentHash ∧ s = slot) ∨
      (h' ≠ contentHash ∧ s ≠ slot ∧ c.hashToSlot.get? h' = some s) := by
  have hslot : ∀ h'', c.hashToSlot.get? h'' = some s → c.slotToHash.get? s = some h'' :=
    fun h'' hs => ((hc.hash_slot h'' s).mp hs).1
  cases h with
  | free hp =>
    obtain ⟨-, hn, -⟩ := (hc.free_mem slot).mp (heappop_eq_some hp).1
    simp only [stored, Dict.get?_set] at hs
    split at hs
    · next he => exact .inl ⟨he, (Option.some.inj hs).symm⟩
    · next he =>
      refine .inr ⟨he, ?_, hs⟩
      rintro rfl
      exact hn (Dict.mem_of_get? (hslot h' hs))
  | @evict oldHash ho hu =>
    simp only [stored, evicted, Dict.get?_set, Dict.get?_erase] at hs
    split at hs
    · next he => exact .inl ⟨he, (Option.some.inj hs).symm⟩
    · next he =>
      split at hs
      · simp at hs
      · next hne =>
        refine .inr ⟨he, ?_, hs⟩
        rintro rfl
        exact hne (Option.some.inj ((hslot h' hs).symm.trans ho))

theorem core (hc : Core c none) (hh : contentHash ∉ c.hashToSlot) (hg : gpuBlock ∉ c.stepD2h)
    (h : Stores c contentHash gpuBlock slot c') : Core c' none := by
  cases h with
  | free hp => exact (hc.pop hp).store hh hg
  | evict ho hu =>
    exact (hc.evict ho hu).store (fun h => hh (Dict.mem_erase.mp h).2) hg

theorem d2h (h : Stores c contentHash gpuBlock slot c') :
    c'.stepD2h = c.stepD2h.set gpuBlock slot := by
  cases h <;> rfl

theorem ready (h : Stores c contentHash gpuBlock slot c') {s : Nat} :
    s ∈ c'.readySlots ↔ s ∈ c.readySlots ∧ s ≠ slot := by
  cases h <;> simp [stored, evicted, and_comm]

theorem idle (hc : Core c none) (h : Stores c contentHash gpuBlock slot c') :
    slot ∉ c.stepSlotsInUse := by
  cases h with
  | free hp => exact ((hc.pop hp).hole_idle slot (Option.mem_some_self slot)).1
  | evict _ hu => exact hu

/-- A store leaves the loads, the deferred stores and the pending slots of the step alone. -/
theorem frame (h : Stores c contentHash gpuBlock slot c') :
    c'.stepH2d = c.stepH2d ∧ c'.stepLoadSlots = c.stepLoadSlots ∧
      c'.deferredD2h = c.deferredD2h ∧ c'.deferredHashes = c.deferredHashes ∧
      c'.pendingReadySlots = c.pendingReadySlots := by
  cases h <;> exact ⟨rfl, rfl, rfl, rfl, rfl⟩

theorem mem_hash (h : Stores c contentHash gpuBlock slot c') {h' : H}
    (hm : h' ∈ c'.hashToSlot) : h' = contentHash ∨ h' ∈ c.hashToSlot := by
  cases h with
  | free _ => exact Dict.mem_set.mp hm
  | evict _ _ => exact (Dict.mem_set.mp hm).imp_right fun h => (Dict.mem_erase.mp h).2

theorem waiting {l : List (Nat × H)}
    (hw : Waiting c.hashToSlot c.stepD2h ((gpuBlock, contentHash) :: l))
    (h : Stores c contentHash gpuBlock slot c') : Waiting c'.hashToSlot c'.stepD2h l where
  src_nodup := (List.nodup_cons.mp hw.src_nodup).2
  hash_nodup := (List.nodup_cons.mp hw.hash_nodup).2
  new_hash p hp hm := by
    rcases h.mem_hash hm with he | hm
    · exact (List.nodup_cons.mp hw.hash_nodup).1 (List.mem_map.mpr ⟨p, hp, he⟩)
    · exact hw.new_hash p (List.mem_cons_of_mem _ hp) hm
  new_src p hp hm := by
    rw [h.d2h, Dict.mem_set] at hm
    rcases hm with he | hm
    · exact (List.nodup_cons.mp hw.src_nodup).1 (List.mem_map.mpr ⟨p, hp, he⟩)
    · exact hw.new_src p (List.mem_cons_of_mem _ hp) hm

end Stores

/-! ## The calls of a step -/

/-- One iteration of the drain's loop stores the content or skips it. -/
theorem resolveDeferredStore_ok {c c' : CpuKvContentCache H} {p : Nat × H} {u : Unit}
    (hc : Core c none) (h : (resolveDeferredStore p).run c = .ok u c') :
    c' = { c with skippedStores := c.skippedStores + 1 } ∨
      ∃ slot, Stores c p.2 p.1 slot c' := by
  rw [resolveDeferredStore, run_bind_ok] at h
  obtain ⟨r, c₁, h₁, h⟩ := h
  rcases selectStoreSlot_ok h₁ with ⟨slot, rest, hpop, rfl, rfl⟩ | ⟨rfl, hr⟩
  · exact .inr ⟨slot, .of_free hc hpop h⟩
  · cases r with
    | none => exact .inl (run_modify_ok.mp h)
    | some slot => exact .inr ⟨slot, .of_evict hc (hr slot rfl).1 h⟩

/-- The rule for the drain's loop: `I` survives a skipped store and a store. -/
theorem resolve_loop {I : List (Nat × H) → CpuKvContentCache H → Prop}
    (hskip : ∀ p l c, I (p :: l) c → I l { c with skippedStores := c.skippedStores + 1 })
    (hstore : ∀ p l c c' slot, Core c none → I (p :: l) c → Stores c p.2 p.1 slot c' → I l c')
    {l : List (Nat × H)} {c c' : CpuKvContentCache H} {u : PUnit}
    (hc : Core c none) (hw : Waiting c.hashToSlot c.stepD2h l) (hI : I l c)
    (h : (forM l resolveDeferredStore).run c = .ok u c') : Core c' none ∧ I [] c' := by
  induction l generalizing c with
  | nil =>
    obtain ⟨-, rfl⟩ := run_pure_ok.mp h
    exact ⟨hc, hI⟩
  | cons p l ih =>
    rw [List.forM_cons, run_bind_ok] at h
    obtain ⟨_, c₁, h₁, h⟩ := h
    rcases resolveDeferredStore_ok hc h₁ with rfl | ⟨slot, hs⟩
    · have hc' : Core { c with skippedStores := c.skippedStores + 1 } none := { hc with }
      refine ih hc' ?_ (hskip p l c hI) h
      exact ⟨(List.nodup_cons.mp hw.src_nodup).2, (List.nodup_cons.mp hw.hash_nodup).2,
        fun q hq => hw.new_hash q (List.mem_cons_of_mem p hq),
        fun q hq => hw.new_src q (List.mem_cons_of_mem p hq)⟩
    · exact ih (hs.core hc (hw.new_hash p List.mem_cons_self) (hw.new_src p List.mem_cons_self))
        (hs.waiting hw) (hstore p l c c₁ slot hc hI hs) h

theorem resolveDeferredStores_ok {c c' : CpuKvContentCache H} {u : Unit}
    (h : resolveDeferredStores.run c = .ok u c') :
    ∃ c₁, c' = { c₁ with deferredD2h := ∅, deferredHashes := ∅ } ∧
      ((c.stepLoadSlots ≠ ∅ ∧
          c₁ = { c with skippedStores := c.skippedStores + c.deferredD2h.size }) ∨
       (c.stepLoadSlots = ∅ ∧
          (forM c.deferredD2h.entries resolveDeferredStore).run c = .ok () c₁)) := by
  rw [resolveDeferredStores, run_get_bind] at h
  split at h
  · next hl =>
    rw [run_set_bind] at h
    exact ⟨_, run_modify_ok.mp h, .inl ⟨hl, rfl⟩⟩
  · next hl =>
    obtain ⟨_, c₁, h₁, h⟩ := run_bind_ok.mp h
    exact ⟨c₁, run_modify_ok.mp h, .inr ⟨not_not.mp hl, h₁⟩⟩

namespace Inv

variable {c c' : CpuKvContentCache H}

theorem beginStep (hc : Inv c) {u : Unit} (h : beginStep.run c = .ok u c') : Inv c' := by
  obtain ⟨hu, hh, hd, hf, hfh, rfl⟩ := beginStep_ok h
  have hload : c.stepLoadSlots = ∅ := by
    ext s
    simp only [Finset.notMem_empty, iff_false]
    intro hs
    have := (hc.core.in_use s).mpr (.inl hs)
    simp [hu] at this
  refine { hc with
    core := { hc.core with
      hole_idle := by simp
      ready_res := fun s hs => ?_
      load_ready := by simp [hload]
      d2h_res := by simp [hd] }
    pending_res := by simp
    pending_idle := by simp }
  rcases Finset.mem_union.mp hs with hs | hs
  · exact hc.core.ready_res s hs
  · exact (hc.pending_res s hs).1

theorem claimLoad (hc : Inv c) {h : H} {r : Option Nat}
    (hr : (claimLoad h).run c = .ok r c') : Inv c' := by
  obtain ⟨hp, ⟨-, rfl⟩ | ⟨slot, -, -, hready, hu, rfl⟩⟩ := claimLoad_ok hr
  · exact { hc with core := { hc.core with } }
  · have ht := hc.core.touch (hc.core.ready_res slot hready)
    refine { hc with
      core := { ht with
        hole_idle := by simp
        load_ready := fun s hs => ?_
        h2d_load := fun s hs => Finset.mem_insert_of_mem (hc.core.h2d_load s hs)
        in_use := fun s => ?_ }
      pending_idle := fun h => absurd hp h }
    · rcases Finset.mem_insert.mp hs with rfl | hs
      · exact hready
      · exact hc.core.load_ready s hs
    · simp only [claimed, Finset.mem_insert, hc.core.in_use s, or_assoc]

theorem cancelLoad (hc : Inv c) {h : H} {slot : Nat} {u : Unit}
    (hr : (cancelLoad h slot).run c = .ok u c') : Inv c' := by
  obtain ⟨-, hn, hl, rfl⟩ := cancelLoad_ok hr
  have hready := hc.core.load_ready slot hl
  refine { hc with
    core := { hc.core with
      hole_idle := by simp
      load_ready := fun s hs => hc.core.load_ready s (Finset.mem_of_mem_erase hs)
      h2d_load := fun s hs => ?_
      in_use := fun s => ?_ }
    pending_idle := fun h => ?_ }
  · refine Finset.mem_erase.mpr ⟨?_, hc.core.h2d_load s hs⟩
    rintro rfl
    exact hn hs
  · simp only [canceled, Finset.mem_erase, hc.core.in_use s]
    by_cases he : s = slot
    · subst he
      simp only [ne_eq, not_true_eq_false, false_and, false_or, false_iff]
      exact fun hd => (hc.core.d2h_res s hd).2 hready
    · simp [he]
  · have := (hc.core.in_use slot).mpr (.inl hl)
    simp [(hc.pending_idle h).1] at this

theorem stageLoad (hc : Inv c) {h : H} {slot gpuBlock : Nat} {u : Unit}
    (hr : (stageLoad h slot gpuBlock).run c = .ok u c') : Inv c' := by
  obtain ⟨-, hready, hu, hn, hg, hd, rfl⟩ := stageLoad_ok hr
  refine { hc with
    core := { hc.core with
      h2d_load := fun s hs => ?_
      h2d_nodup := ?_ } }
  · rcases Dict.mem_set.mp hs with rfl | hs
    · exact ((hc.core.in_use s).mp hu).resolve_right hd
    · exact hc.core.h2d_load s hs
  · rw [Dict.values_set_of_not_mem hn, List.nodup_append]
    refine ⟨hc.core.h2d_nodup, List.nodup_singleton _, ?_⟩
    simp only [List.mem_singleton, forall_eq]
    rintro s hs rfl
    exact hg hs

theorem deferred_empty (hc : Inv c) (hf : c.freeSlots ≠ []) : c.deferredD2h = ∅ := by
  have hh : c.deferredHashes = ∅ := by
    by_contra hne
    exact hf (hc.deferred_full hne)
  apply Dict.ext
  rw [Dict.entries_empty, List.eq_nil_iff_forall_not_mem]
  rintro ⟨g, h⟩ hm
  have := (hc.deferred_hashes h).mpr (List.mem_map.mpr ⟨(g, h), hm, rfl⟩)
  simp [hh] at this

theorem stores (hc : Inv c) {h : H} {gpuBlock slot : Nat} (hh : h ∉ c.hashToSlot)
    (hg : gpuBlock ∉ c.stepD2h) (hp : c.pendingReadySlots = ∅) (hd : c.deferredD2h = ∅)
    (hs : Stores c h gpuBlock slot c') : Inv c' := by
  obtain ⟨-, -, hd', hdh, hp'⟩ := hs.frame
  have hfh : c'.deferredHashes = ∅ := by
    ext h'
    rw [hdh, hc.deferred_hashes h', hd]
    simp
  exact {
    core := hs.core hc.core hh hg
    waiting := by rw [hd', hd]; constructor <;> simp
    deferred_hashes := fun h' => by rw [hfh, hd', hd]; simp
    deferred_full := fun h => absurd hfh h
    pending_res := by rw [hp', hp]; simp
    pending_idle := fun h => absurd (hp'.trans hp) h }

theorem defer (hc : Inv c) {h : H} {gpuBlock : Nat} (hh : h ∉ c.hashToSlot)
    (hhd : h ∉ c.deferredHashes) (hg : gpuBlock ∉ c.stepD2h) (hgd : gpuBlock ∉ c.deferredD2h)
    (hp : c.pendingReadySlots = ∅) (hf : c.freeSlots = []) :
    Inv (c.deferred h gpuBlock) := by
  have hvals : (c.deferred h gpuBlock).deferredD2h.values = c.deferredD2h.values ++ [h] :=
    Dict.values_set_of_not_mem hgd h
  have hmem : ∀ p ∈ (c.deferred h gpuBlock).deferredD2h.entries,
      p ∈ c.deferredD2h.entries ∨ p = (gpuBlock, h) := by
    intro p hp
    rw [deferred, Dict.entries_set_of_not_mem hgd] at hp
    simpa using hp
  refine { hc with
    core := { hc.core with }
    waiting := ⟨Dict.nodup _, ?_, fun p hp => ?_, fun p hp => ?_⟩
    deferred_hashes := fun h' => ?_
    deferred_full := fun _ => hf
    pending_idle := fun h => absurd hp h }
  · change (c.deferred h gpuBlock).deferredD2h.values.Nodup
    rw [hvals, List.nodup_append]
    refine ⟨hc.waiting.hash_nodup, List.nodup_singleton _, ?_⟩
    simp only [List.mem_singleton, forall_eq]
    rintro h' hm rfl
    exact hhd ((hc.deferred_hashes h').mpr hm)
  · rcases hmem p hp with hp | rfl
    · exact hc.waiting.new_hash p hp
    · exact hh
  · rcases hmem p hp with hp | rfl
    · exact hc.waiting.new_src p hp
    · exact hg
  · rw [hvals, List.mem_append, List.mem_singleton, ← hc.deferred_hashes h']
    simp [deferred, or_comm]

theorem dedup (hc : Inv c) {h : H} {lru : Dict Nat Unit}
    (hl : lru = c.lru ∨ ∃ slot, c.hashToSlot.get? h = some slot ∧
      lru = (c.lru.erase slot).set slot ()) (n : Nat) :
    Inv { c with lru := lru, deduplicatedStores := n } := by
  rcases hl with rfl | ⟨slot, hs, rfl⟩
  · exact { hc with core := { hc.core with } }
  · have ht := hc.core.touch (Dict.mem_of_get? ((hc.core.hash_slot h slot).mp hs).1)
    exact { hc with core := { ht with } }

theorem stageStore (hc : Inv c) {h : H} {gpuBlock : Nat} {b : Bool}
    (hr : (stageStore h gpuBlock).run c = .ok b c') : Inv c' := by
  obtain ⟨hp, ⟨lru, rfl, hl⟩ | ⟨hh, hhd, hg, hgd, ⟨slot, rest, hpop, hcommit⟩ | ⟨hf, rfl⟩⟩⟩ :=
    stageStore_ok hr
  · exact hc.dedup hl _
  · have hf : c.freeSlots ≠ [] := List.ne_nil_of_mem (heappop_eq_some hpop).1
    exact hc.stores hh hg hp (hc.deferred_empty hf) (.of_free hc.core hpop hcommit)
  · exact hc.defer hh hhd hg hgd hp hf

/-- What the drain's loop leaves: the core, and either nothing was pending or nothing was
deferred. -/
theorem resolve (hc : Inv c) {u : Unit} (h : resolveDeferredStores.run c = .ok u c') :
    Core c' none ∧ c'.deferredD2h = ∅ ∧ c'.deferredHashes = ∅ ∧
      ∀ s ∈ c'.pendingReadySlots, s ∈ c'.slotToHash ∧ s ∉ c'.readySlots := by
  obtain ⟨c₁, rfl, ⟨-, rfl⟩ | ⟨-, hloop⟩⟩ := resolveDeferredStores_ok h
  · exact ⟨{ hc.core with }, rfl, rfl, hc.pending_res⟩
  · by_cases hp : c.pendingReadySlots = ∅
    · obtain ⟨hcore, hp'⟩ := resolve_loop (I := fun _ c => c.pendingReadySlots = ∅)
        (fun _ _ _ h => h) (fun _ _ _ _ _ _ hp hs => hs.frame.2.2.2.2.trans hp)
        hc.core hc.waiting hp hloop
      exact ⟨{ hcore with }, rfl, rfl, by simp [hp']⟩
    · rw [(hc.pending_idle hp).2] at hloop
      obtain ⟨-, rfl⟩ := run_pure_ok.mp hloop
      exact ⟨{ hc.core with }, rfl, rfl, hc.pending_res⟩

theorem drainStep (hc : Inv c) {r : List (Nat × Nat) × List (Nat × Nat)}
    (h : drainStep.run c = .ok r c') : Inv c' := by
  obtain ⟨c₁, h₁, -, -, -, rfl⟩ := drainStep_ok h
  obtain ⟨hcore, hd, hdh, hp⟩ := hc.resolve h₁
  refine {
    core := { hcore with
      hole_idle := by simp
      load_ready := by simp [drained]
      d2h_res := by simp [drained]
      d2h_nodup := List.nodup_nil
      h2d_load := by simp [drained]
      h2d_nodup := List.nodup_nil
      in_use := by simp [drained] }
    waiting := ?_
    deferred_hashes := fun h => ?_
    deferred_full := fun h => absurd hdh h
    pending_res := fun s hs => ?_
    pending_idle := fun _ => ⟨rfl, hd⟩ }
  · rw [drained, hd]
    constructor <;> simp
  · rw [drained, hd, hdh]
    simp
  · rcases Finset.mem_union.mp hs with hs | hs
    · exact hp s hs
    · exact hcore.d2h_res s (List.mem_toFinset.mp hs)

end Inv

end Bi100.CpuKvContentCache
