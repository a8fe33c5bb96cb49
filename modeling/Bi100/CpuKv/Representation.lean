import Bi100.CpuKv.Invariant
import Bi100.Lib.Run

/-!
# The representation of the CPU KV tier over any sequence of calls

The calls come in any order: nothing ties `begin_step` and `drain_step` to each other. A call that
raises is skipped.

- `Placed`: every occupied slot is ready, waits for its copy to be published, or is the
  destination of a copy of this step.
- `Representation`: what holds of the containers after every call (`representation_of_reachable`).
-/

namespace Bi100.CpuKvContentCache

open Py

variable {H : Type} [DecidableEq H]

/-- A public call that changes the cache. -/
inductive CacheCall (H : Type) where
  | beginStep
  | claimLoad (contentHash : H)
  | cancelLoad (contentHash : H) (cpuSlot : Nat)
  | stageLoad (contentHash : H) (cpuSlot gpuBlock : Nat)
  | stageStore (contentHash : H) (gpuBlock : Nat)
  | drainStep

theorem run_discard_ok {σ α : Type} {x : EStateM Err σ α} {s s' : σ} :
    (discard x).run s = .ok () s' ↔ ∃ a, x.run s = .ok a s' :=
  run_map_ok.trans (exists_congr fun _ => and_iff_left rfl)

/-- Run a call, without its result. -/
def CacheCall.run : CacheCall H → EStateM Err (CpuKvContentCache H) Unit
  | .beginStep => CpuKvContentCache.beginStep
  | .claimLoad h => discard (CpuKvContentCache.claimLoad h)
  | .cancelLoad h slot => CpuKvContentCache.cancelLoad h slot
  | .stageLoad h slot gpuBlock => CpuKvContentCache.stageLoad h slot gpuBlock
  | .stageStore h gpuBlock => discard (CpuKvContentCache.stageStore h gpuBlock)
  | .drainStep => discard CpuKvContentCache.drainStep

/-- The runs of the cache: the calls that do not raise, in any order, from a new cache. -/
def cacheSys (capacity : Int) : Sys (CpuKvContentCache H) where
  init c := init capacity = .ok c
  step c c' := ∃ call : CacheCall H, call.run.run c = .ok () c'

/-! ## Where an occupied slot is -/

/-- Every occupied slot is ready, pending, or a destination of this step. -/
def Placed (c : CpuKvContentCache H) : Prop :=
  ∀ s ∈ c.slotToHash, s ∈ c.readySlots ∨ s ∈ c.pendingReadySlots ∨ s ∈ c.stepD2h.values

namespace Placed

variable {c c' : CpuKvContentCache H}

/-- The slot of a store is a destination of this step. -/
theorem stores {contentHash : H} {gpuBlock slot : Nat} (hp : Placed c) (hg : gpuBlock ∉ c.stepD2h)
    (h : Stores c contentHash gpuBlock slot c') : Placed c' := by
  intro s hs
  have hmem : s = slot ∨ s ∈ c.slotToHash := by
    cases h with
    | free _ => exact Dict.mem_set.mp hs
    | evict _ _ => exact Dict.mem_set.mp hs
  obtain ⟨-, -, -, -, hpending⟩ := h.frame
  rw [hpending, h.d2h, Dict.values_set_of_not_mem hg, List.mem_append, List.mem_singleton]
  by_cases heq : s = slot
  · exact .inr (.inr (.inr heq))
  · rcases hp s (hmem.resolve_left heq) with hr | hr | hr
    · exact .inl (h.ready.mpr ⟨hr, heq⟩)
    · exact .inr (.inl hr)
    · exact .inr (.inr (.inl hr))

/-- The destinations of the drained step wait to be published. -/
theorem drainStep (hc : Inv c) (hp : Placed c) {r : List (Nat × Nat) × List (Nat × Nat)}
    (h : drainStep.run c = .ok r c') : Placed c' := by
  obtain ⟨c₁, h₁, -, -, -, rfl⟩ := drainStep_ok h
  have hplaced : Placed c₁ := by
    obtain ⟨c₂, rfl, ⟨-, rfl⟩ | ⟨-, hloop⟩⟩ := resolveDeferredStores_ok h₁
    · exact hp
    · obtain ⟨-, hplaced, -⟩ := resolve_loop
        (I := fun l c => Placed c ∧ Waiting c.hashToSlot c.stepD2h l)
        (fun p l c hI => ⟨hI.1, (List.nodup_cons.mp hI.2.src_nodup).2,
          (List.nodup_cons.mp hI.2.hash_nodup).2,
          fun q hq => hI.2.new_hash q (List.mem_cons_of_mem p hq),
          fun q hq => hI.2.new_src q (List.mem_cons_of_mem p hq)⟩)
        (fun p l c c' slot _ hI hs =>
          ⟨hI.1.stores (hI.2.new_src p List.mem_cons_self) hs, hs.waiting hI.2⟩)
        hc.core hc.waiting ⟨hp, hc.waiting⟩ hloop
      exact hplaced
  intro s hs
  rcases hplaced s hs with hr | hr | hr
  · exact .inl hr
  · exact .inr (.inl (Finset.mem_union_left _ hr))
  · exact .inr (.inl (Finset.mem_union_right _ (List.mem_toFinset.mpr hr)))

/-- Every call keeps the slots placed. -/
theorem call (hc : Inv c) (hp : Placed c) {call : CacheCall H} (h : call.run.run c = .ok () c') :
    Placed c' := by
  cases call with
  | beginStep =>
    obtain ⟨-, -, hd, -, -, rfl⟩ := beginStep_ok h
    intro s hs
    rcases hp s hs with hr | hr | hr
    · exact .inl (Finset.mem_union_left _ hr)
    · exact .inl (Finset.mem_union_right _ hr)
    · simp [hd] at hr
  | claimLoad contentHash =>
    obtain ⟨r, hr⟩ := run_discard_ok.mp h
    obtain ⟨-, ⟨-, rfl⟩ | ⟨slot, -, -, -, -, rfl⟩⟩ := claimLoad_ok hr
    · exact hp
    · exact hp
  | cancelLoad contentHash slot =>
    obtain ⟨-, -, -, rfl⟩ := cancelLoad_ok h
    exact hp
  | stageLoad contentHash slot gpuBlock =>
    obtain ⟨-, -, -, -, -, -, rfl⟩ := stageLoad_ok h
    exact hp
  | stageStore contentHash gpuBlock =>
    obtain ⟨b, hb⟩ := run_discard_ok.mp h
    obtain ⟨-, ⟨lru, rfl, -⟩ | ⟨-, -, hg, -, ⟨slot, rest, hpop, hcommit⟩ | ⟨-, rfl⟩⟩⟩ :=
      stageStore_ok hb
    · exact hp
    · exact hp.stores hg (.of_free hc.core hpop hcommit)
    · exact hp
  | drainStep =>
    obtain ⟨r, hr⟩ := run_discard_ok.mp h
    exact hp.drainStep hc hr

end Placed

/-! ## The runs -/

/-- Every call keeps the invariant. -/
theorem Inv.call {c c' : CpuKvContentCache H} (hc : Inv c) {call : CacheCall H}
    (h : call.run.run c = .ok () c') : Inv c' := by
  cases call with
  | beginStep => exact hc.beginStep h
  | claimLoad contentHash => exact hc.claimLoad (run_discard_ok.mp h).choose_spec
  | cancelLoad contentHash slot => exact hc.cancelLoad h
  | stageLoad contentHash slot gpuBlock => exact hc.stageLoad h
  | stageStore contentHash gpuBlock => exact hc.stageStore (run_discard_ok.mp h).choose_spec
  | drainStep => exact hc.drainStep (run_discard_ok.mp h).choose_spec

/-- What holds of the containers. A hash is pending while its copy is staged, or is not yet
published. -/
structure Representation (c : CpuKvContentCache H) : Prop where
  inverse : ∀ h s, c.hashToSlot.get? h = some s ↔ c.slotToHash.get? s = some h
  free_nodup : c.freeSlots.Nodup
  free_disjoint : ∀ s ∈ c.freeSlots, s ∉ c.slotToHash
  slots : ∀ s, s < c.capacity ↔ s ∈ c.freeSlots ∨ s ∈ c.slotToHash
  lru : ∀ h, h ∈ c.hashToSlot ↔ ∃ s ∈ c.lru, c.slotToHash.get? s = some h
  lru_slots : ∀ s ∈ c.lru, s ∈ c.slotToHash
  ready_pending : Disjoint c.readySlots (c.pendingReadySlots ∪ c.stepD2h.values.toFinset)
  pending_staged : Disjoint c.pendingReadySlots c.stepD2h.values.toFinset
  resident : ∀ s, s ∈ c.slotToHash ↔
    s ∈ c.readySlots ∪ (c.pendingReadySlots ∪ c.stepD2h.values.toFinset)
  destinations : c.stepD2h.values.Nodup
  sources : ∀ s ∈ c.stepH2d, s ∉ c.stepD2h.values
  count : (c.stores : Int) - c.evictions = c.residentCount

theorem representation_of_inv {c : CpuKvContentCache H} (hc : Inv c) (hp : Placed c) :
    Representation c := by
  have hlru : ∀ s, s ∈ c.lru ↔ s ∈ c.slotToHash := fun s => hc.core.lru_mem s (by simp)
  have hinverse : ∀ h s, c.hashToSlot.get? h = some s ↔ c.slotToHash.get? s = some h := fun h s =>
    (hc.core.hash_slot h s).trans (and_iff_left (by simp))
  refine {
    inverse := hinverse
    free_nodup := hc.core.free_nodup
    free_disjoint := fun s hs => ((hc.core.free_mem s).mp hs).2.1
    slots := fun s => ⟨fun hs => ?_, fun hs => ?_⟩
    lru := fun h => ?_
    lru_slots := fun s hs => (hlru s).mp hs
    ready_pending := Finset.disjoint_left.mpr fun s hr hs => ?_
    pending_staged := Finset.disjoint_left.mpr fun s hs hd => ?_
    resident := fun s => ⟨fun hs => ?_, fun hs => ?_⟩
    destinations := hc.core.d2h_nodup
    sources := fun s hs hd => ?_
    count := ?_ }
  · by_cases hocc : s ∈ c.slotToHash
    · exact .inr hocc
    · exact .inl ((hc.core.free_mem s).mpr ⟨hs, hocc, by simp⟩)
  · rcases hs with hs | hs
    · exact ((hc.core.free_mem s).mp hs).1
    · exact hc.core.slot_lt s (.inl hs)
  · rw [Dict.mem_iff]
    refine exists_congr fun s => ?_
    rw [hinverse, hlru]
    exact ⟨fun h => ⟨Dict.mem_of_get? h, h⟩, fun h => h.2⟩
  · rcases Finset.mem_union.mp hs with hs | hs
    · exact (hc.pending_res s hs).2 hr
    · exact (hc.core.d2h_res s (List.mem_toFinset.mp hs)).2 hr
  · have hidle := (hc.pending_idle (Finset.ne_empty_of_mem hs)).1
    have hin := (hc.core.in_use s).mpr (.inr (List.mem_toFinset.mp hd))
    simp [hidle] at hin
  · rw [Finset.mem_union, Finset.mem_union, List.mem_toFinset]
    exact hp s hs
  · rw [Finset.mem_union, Finset.mem_union, List.mem_toFinset] at hs
    rcases hs with hs | hs | hs
    · exact hc.core.ready_res s hs
    · exact (hc.pending_res s hs).1
    · exact (hc.core.d2h_res s hs).1
  · exact (hc.core.d2h_res s hd).2 (hc.core.load_ready s (hc.core.h2d_load s hs))
  · have hcount := hc.core.count
    unfold residentCount
    omega

/-- **The containers agree after every call**, for every capacity and every sequence of calls. -/
theorem representation_of_reachable (capacity : Int) (c : CpuKvContentCache H)
    (h : (cacheSys capacity).Reachable c) : Representation c := by
  have hinv : Inv c ∧ Placed c := by
    refine h.invariant (I := fun c => Inv c ∧ Placed c) (fun c hinit => ?_) fun c c' _ hc hstep => ?_
    · obtain rfl : fresh capacity.toNat = c := by
        have hinit : init capacity = .ok c := hinit
        unfold init at hinit
        split at hinit
        · cases hinit
        · exact Except.ok.inj hinit
      refine ⟨Inv.fresh _, fun s hs => absurd hs (by simp [fresh])⟩
    · obtain ⟨call, hrun⟩ := hstep
      exact ⟨hc.1.call hrun, hc.2.call hc.1 hrun⟩
  exact representation_of_inv hinv.1 hinv.2

/-- A store of the hash `7` into a cache of one slot. -/
theorem representation_of_reachable_store :
    Representation ({ fresh 1 with
      hashToSlot := (∅ : Dict Nat Nat).set 7 0
      slotToHash := (∅ : Dict Nat Nat).set 0 7
      lru := (∅ : Dict Nat Unit).set 0 ()
      freeSlots := []
      stepSlotsInUse := insert 0 ∅
      stepD2h := (∅ : Dict Nat Nat).set 3 0
      stores := 1 } : CpuKvContentCache Nat) :=
  representation_of_reachable 1 _ (.step (s := fresh 1) (.init rfl) ⟨.stageStore 7 3, rfl⟩)

end Bi100.CpuKvContentCache
