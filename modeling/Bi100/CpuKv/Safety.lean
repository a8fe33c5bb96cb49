import Bi100.CpuKv.Invariant
import Bi100.Lib.Copies
import Bi100.Lib.Run

/-!
# The CPU KV tier never serves a wrong block

A step is `begin_step`, the scheduler's calls in any order, and `drain_step`; then the worker
executes the drained D2H copies and after them the drained H2D copies. `content h` is the KV of
the block that the hash `h` names. GPU memory is arbitrary at the start of every step, but for
the blocks that the step stores.

- `Published`: between two steps every ready or just copied slot holds the content of its hash.
- `Holds`: the same within a step, with what the staged copies will read and write.
- `tier_content_safe`: what the H2D copies of any step of any run deliver.
-/

namespace Bi100.CpuKvContentCache

open Py

variable {H D : Type} [DecidableEq H]

/-- A call of the scheduler within a step. -/
inductive Call (H : Type) where
  | claimLoad (contentHash : H)
  | cancelLoad (contentHash : H) (cpuSlot : Nat)
  | stageLoad (contentHash : H) (cpuSlot gpuBlock : Nat)
  | stageStore (contentHash : H) (gpuBlock : Nat)

/-- Run a call; a claim that hits is returned. -/
def Call.run : Call H → EStateM Err (CpuKvContentCache H) (List (H × Nat))
  | .claimLoad h => do
    let r ← CpuKvContentCache.claimLoad h
    pure (r.toList.map fun slot => (h, slot))
  | .cancelLoad h slot => do
    CpuKvContentCache.cancelLoad h slot
    pure []
  | .stageLoad h slot gpuBlock => do
    CpuKvContentCache.stageLoad h slot gpuBlock
    pure []
  | .stageStore h gpuBlock => do
    let _ ← CpuKvContentCache.stageStore h gpuBlock
    pure []

/-- Run the calls of a step in order; the claims that hit are returned. -/
def runCalls : List (Call H) → EStateM Err (CpuKvContentCache H) (List (H × Nat))
  | [] => pure []
  | call :: calls => do
    let claims ← call.run
    let rest ← runCalls calls
    pure (claims ++ rest)

/-- The claims of a step and its drained copies. -/
structure StepResult (H : Type) where
  claims : List (H × Nat)
  /-- (CPU slot, GPU block). -/
  h2d : List (Nat × Nat)
  /-- (GPU block, CPU slot). -/
  d2h : List (Nat × Nat)

/-- The scheduler's side of one step. -/
def schedulerStep (calls : List (Call H)) :
    EStateM Err (CpuKvContentCache H) (StepResult H) := do
  beginStep
  let claims ← runCalls calls
  let (h2d, d2h) ← drainStep
  pure ⟨claims, h2d, d2h⟩

/-- The index and the worker's CPU cache. -/
structure Tier (H D : Type) where
  cache : CpuKvContentCache H
  cpu : Nat → D

/-- Every GPU block that a step stores holds the content of its hash. -/
def StoresContent (content : H → D) (calls : List (Call H)) (gpu : Nat → D) : Prop :=
  ∀ h gpuBlock, .stageStore h gpuBlock ∈ calls → gpu gpuBlock = content h

/-- One step: no call raises, and the worker executes the D2H copies. H2D copies leave the CPU
cache alone. -/
inductive TierStep (content : H → D) : Tier H D → Tier H D → Prop where
  | mk {t : Tier H D} {calls : List (Call H)} {gpu : Nat → D} {r : StepResult H}
      {cache : CpuKvContentCache H} (hrun : (schedulerStep calls).run t.cache = .ok r cache)
      (hgpu : StoresContent content calls gpu) :
    TierStep content t ⟨cache, copies r.d2h gpu t.cpu⟩

/-- The runs of the tier, from a fresh index of any capacity. -/
def tierSys (content : H → D) (capacity : Int) : Sys (Tier H D) where
  init t := init capacity = .ok t.cache
  step := TierStep content

/-! ## The invariants -/

/-- Between two steps. -/
structure Published (content : H → D) (cpu : Nat → D) (c : CpuKvContentCache H) : Prop where
  inv : Inv c
  holds : ∀ h s, c.hashToSlot.get? h = some s → s ∈ c.readySlots ∨ s ∈ c.pendingReadySlots →
    cpu s = content h

/-- Within a step that has made `claims`. -/
structure Holds (content : H → D) (gpu cpu : Nat → D) (claims : List (H × Nat))
    (c : CpuKvContentCache H) : Prop where
  inv : Inv c
  started : c.pendingReadySlots = ∅
  ready : ∀ h s, c.hashToSlot.get? h = some s → s ∈ c.readySlots → cpu s = content h
  d2h : ∀ g s h, c.stepD2h.get? g = some s → c.hashToSlot.get? h = some s → gpu g = content h
  deferred : ∀ g h, c.deferredD2h.get? g = some h → gpu g = content h
  claim_slot : ∀ p ∈ claims, c.hashToSlot.get? p.1 = some p.2
  loads : ∀ s ∈ c.stepLoadSlots, ∃ h, (h, s) ∈ claims

theorem Published.beginStep {content : H → D} {cpu : Nat → D} {c c' : CpuKvContentCache H}
    {u : Unit} (hc : Published content cpu c) (gpu : Nat → D) (h : beginStep.run c = .ok u c') :
    Holds content gpu cpu [] c' := by
  have hinv := hc.inv.beginStep h
  obtain ⟨hu, -, hd, hf, -, rfl⟩ := beginStep_ok h
  refine ⟨hinv, rfl, fun h s hs hr => hc.holds h s hs (Finset.mem_union.mp hr), ?_, ?_, by simp,
    fun s hs => ?_⟩
  · simp [hd]
  · simp [hf]
  · have := (hc.inv.core.in_use s).mpr (.inl hs)
    simp [hu] at this

namespace Holds

variable {content : H → D} {gpu cpu : Nat → D} {claims : List (H × Nat)}
  {c c' : CpuKvContentCache H}

/-- A store keeps what the ready slots hold and what the staged D2H copies read. -/
theorem of_store {h : H} {gpuBlock slot : Nat} (hc : Core c none)
    (hready : ∀ h s, c.hashToSlot.get? h = some s → s ∈ c.readySlots → cpu s = content h)
    (hd2h : ∀ g s h, c.stepD2h.get? g = some s → c.hashToSlot.get? h = some s →
      gpu g = content h)
    (hg : gpu gpuBlock = content h) (hs : Stores c h gpuBlock slot c') :
    (∀ h s, c'.hashToSlot.get? h = some s → s ∈ c'.readySlots → cpu s = content h) ∧
    (∀ g s h, c'.stepD2h.get? g = some s → c'.hashToSlot.get? h = some s → gpu g = content h) := by
  refine ⟨fun h' s hs' hr => ?_, fun g s h' hgs hs' => ?_⟩
  · obtain ⟨hr, hne⟩ := hs.ready.mp hr
    rcases hs.hash_of hc hs' with ⟨-, rfl⟩ | ⟨-, -, hs'⟩
    · exact absurd rfl hne
    · exact hready h' s hs' hr
  · rw [hs.d2h, Dict.get?_set] at hgs
    rcases hs.hash_of hc hs' with ⟨rfl, rfl⟩ | ⟨-, hne, hs'⟩
    · split at hgs
      · next he => exact he ▸ hg
      · -- the destination of an earlier copy is in use, so it was not selected again
        exact absurd ((hc.in_use s).mpr (.inr (Dict.mem_values.mpr ⟨g, hgs⟩))) (hs.idle hc)
    · split at hgs
      · exact absurd (Option.some.inj hgs).symm hne
      · exact hd2h g s h' hgs hs'

theorem claimLoad {h : H} {r : Option Nat} (hc : Holds content gpu cpu claims c)
    (hr : (claimLoad h).run c = .ok r c') :
    Holds content gpu cpu (claims ++ r.toList.map fun slot => (h, slot)) c' := by
  have hinv := hc.inv.claimLoad hr
  obtain ⟨-, ⟨rfl, rfl⟩ | ⟨slot, rfl, hs, -, -, rfl⟩⟩ := claimLoad_ok hr
  · simp only [Option.toList_none, List.map_nil, List.append_nil]
    exact { hc with inv := hinv }
  · refine { hc with inv := hinv, claim_slot := fun p hp => ?_, loads := fun s hs' => ?_ }
    · simp only [Option.toList_some, List.map_cons, List.map_nil, List.mem_append,
        List.mem_singleton] at hp
      rcases hp with hp | rfl
      · exact hc.claim_slot p hp
      · exact hs
    · rcases Finset.mem_insert.mp hs' with rfl | hs'
      · exact ⟨h, by simp⟩
      · obtain ⟨h', hm⟩ := hc.loads s hs'
        exact ⟨h', List.mem_append_left _ hm⟩

theorem stageStore {h : H} {gpuBlock : Nat} {b : Bool} (hc : Holds content gpu cpu claims c)
    (hg : gpu gpuBlock = content h) (hr : (stageStore h gpuBlock).run c = .ok b c') :
    Holds content gpu cpu claims c' := by
  have hinv := hc.inv.stageStore hr
  obtain ⟨-, ⟨lru, rfl, -⟩ | ⟨hh, -, -, hgd, ⟨slot, rest, hpop, hcommit⟩ | ⟨-, rfl⟩⟩⟩ :=
    stageStore_ok hr
  · exact { hc with inv := hinv }
  · have hs := Stores.of_free hc.inv.core hpop hcommit
    obtain ⟨-, hl, hd, -, hp⟩ := hs.frame
    obtain ⟨hready, hd2h⟩ := of_store hc.inv.core hc.ready hc.d2h hg hs
    refine ⟨hinv, hp.trans hc.started, hready, hd2h, hd ▸ hc.deferred, fun p hp => ?_,
      hl ▸ hc.loads⟩
    have hp' := hc.claim_slot p hp
    have hne : p.1 ≠ h := fun he => hh (he ▸ Dict.mem_of_get? hp')
    rcases commitStore_ok hcommit with ⟨-, rfl⟩ | ⟨oldHash, hold, -⟩
    · exact (Dict.get?_set_of_ne hne ..).trans hp'
    · exact absurd (Dict.mem_of_get? hold)
        ((hc.inv.core.free_mem slot).mp (heappop_eq_some hpop).1).2.1
  · refine { hc with inv := hinv, deferred := fun g h' hg' => ?_ }
    simp only [CpuKvContentCache.deferred, Dict.get?_set] at hg'
    split at hg'
    · next he =>
      obtain rfl := Option.some.inj hg'
      exact he ▸ hg
    · exact hc.deferred g h' hg'

theorem call {call : Call H} {new : List (H × Nat)} (hc : Holds content gpu cpu claims c)
    (hg : StoresContent content [call] gpu) (hr : call.run.run c = .ok new c') :
    Holds content gpu cpu (claims ++ new) c' := by
  cases call with
  | claimLoad h =>
    obtain ⟨r, c₁, hr, h⟩ := run_bind_ok.mp hr
    obtain ⟨rfl, rfl⟩ := run_pure_ok.mp h
    exact hc.claimLoad hr
  | cancelLoad h slot =>
    obtain ⟨_, c₁, hr, h⟩ := run_bind_ok.mp hr
    obtain ⟨rfl, rfl⟩ := run_pure_ok.mp h
    have hinv := hc.inv.cancelLoad hr
    obtain ⟨-, -, -, rfl⟩ := cancelLoad_ok hr
    rw [List.append_nil]
    exact { hc with
      inv := hinv, loads := fun s hs => hc.loads s (Finset.mem_of_mem_erase hs) }
  | stageLoad h slot gpuBlock =>
    obtain ⟨_, c₁, hr, h⟩ := run_bind_ok.mp hr
    obtain ⟨rfl, rfl⟩ := run_pure_ok.mp h
    have hinv := hc.inv.stageLoad hr
    obtain ⟨-, -, -, -, -, -, rfl⟩ := stageLoad_ok hr
    rw [List.append_nil]
    exact { hc with inv := hinv }
  | stageStore h gpuBlock =>
    obtain ⟨_, c₁, hr, h⟩ := run_bind_ok.mp hr
    obtain ⟨rfl, rfl⟩ := run_pure_ok.mp h
    rw [List.append_nil]
    exact hc.stageStore (hg _ _ (List.mem_singleton.mpr rfl)) hr

theorem runCalls {calls : List (Call H)} {new : List (H × Nat)}
    (hc : Holds content gpu cpu claims c) (hg : StoresContent content calls gpu)
    (hr : (runCalls calls).run c = .ok new c') : Holds content gpu cpu (claims ++ new) c' := by
  induction calls generalizing c claims new with
  | nil =>
    obtain ⟨rfl, rfl⟩ := run_pure_ok.mp hr
    rwa [List.append_nil]
  | cons call calls ih =>
    rw [CpuKvContentCache.runCalls, run_bind_ok] at hr
    obtain ⟨first, c₁, h₁, hr⟩ := hr
    obtain ⟨rest, c₂, h₂, hr⟩ := run_bind_ok.mp hr
    obtain ⟨rfl, rfl⟩ := run_pure_ok.mp hr
    rw [← List.append_assoc]
    refine ih (hc.call ?_ h₁) (fun h g hm => hg h g (List.mem_cons_of_mem _ hm)) h₂
    intro h g hm
    exact hg h g (List.mem_singleton.mp hm ▸ List.mem_cons_self)

/-- The state in which `drain_step` returns the copies. If the step loads anything, no resident
content was replaced. -/
theorem resolve {u : Unit} (hc : Holds content gpu cpu claims c)
    (hr : resolveDeferredStores.run c = .ok u c') :
    Core c' none ∧ c'.pendingReadySlots = ∅ ∧
    (∀ h s, c'.hashToSlot.get? h = some s → s ∈ c'.readySlots → cpu s = content h) ∧
    (∀ g s h, c'.stepD2h.get? g = some s → c'.hashToSlot.get? h = some s → gpu g = content h) ∧
    (c'.stepLoadSlots = ∅ ∨
      (c'.stepLoadSlots = c.stepLoadSlots ∧ c'.hashToSlot = c.hashToSlot ∧
        c'.readySlots = c.readySlots)) := by
  have hcore := (hc.inv.resolve hr).1
  obtain ⟨c₁, rfl, ⟨-, rfl⟩ | ⟨hl, hloop⟩⟩ := resolveDeferredStores_ok hr
  · exact ⟨hcore, hc.started, hc.ready, hc.d2h, .inr ⟨rfl, rfl, rfl⟩⟩
  · let I : List (Nat × H) → CpuKvContentCache H → Prop := fun l c =>
      (∀ p ∈ l, gpu p.1 = content p.2) ∧ c.pendingReadySlots = ∅ ∧ c.stepLoadSlots = ∅ ∧
      (∀ h s, c.hashToSlot.get? h = some s → s ∈ c.readySlots → cpu s = content h) ∧
      (∀ g s h, c.stepD2h.get? g = some s → c.hashToSlot.get? h = some s → gpu g = content h)
    have hstep : I [] c₁ := by
      refine (resolve_loop (I := I) ?_ ?_ hc.inv.core hc.inv.waiting ?_ hloop).2
      · rintro p l c ⟨hg, hrest⟩
        exact ⟨fun q hq => hg q (List.mem_cons_of_mem p hq), hrest⟩
      · rintro p l c c' slot hcore ⟨hg, hp, hl, hready, hd2h⟩ hs
        refine ⟨fun q hq => hg q (List.mem_cons_of_mem p hq), hs.frame.2.2.2.2.trans hp,
          hs.frame.2.1.trans hl, ?_⟩
        exact of_store hcore hready hd2h (hg p List.mem_cons_self) hs
      · exact ⟨fun p hp => hc.deferred p.1 p.2 (Dict.mem_entries.mp hp), hc.started, hl, hc.ready,
          hc.d2h⟩
    obtain ⟨-, hp, hl, hready, hd2h⟩ := hstep
    exact ⟨hcore, hp, hready, hd2h, .inl hl⟩

end Holds

/-! ## The copies of a step -/

theorem mem_sortedItems {d : Dict Nat Nat} {p : Nat × Nat} :
    p ∈ sortedItems d ↔ d.get? p.1 = some p.2 := by
  rw [sortedItems, List.mem_insertionSort, ← Dict.mem_entries]

theorem nodup_sortedItems {d : Dict Nat Nat} (h : d.values.Nodup) :
    ((sortedItems d).map Prod.snd).Nodup :=
  ((List.perm_insertionSort _ d.entries).map Prod.snd).nodup_iff.mpr h

/-- The step rule: what the worker finds and leaves when it executes the copies of a step. -/
theorem Published.step {content : H → D} {gpu cpu : Nat → D} {c c' : CpuKvContentCache H}
    {calls : List (Call H)} {r : StepResult H} (hc : Published content cpu c)
    (hr : (schedulerStep calls).run c = .ok r c') (hg : StoresContent content calls gpu) :
    Published content (copies r.d2h gpu cpu) c' ∧
    (∀ s g, (s, g) ∈ r.h2d → (∃ h, (h, s) ∈ r.claims) ∧ ∀ h, (h, s) ∈ r.claims →
      copies r.d2h gpu cpu s = content h ∧
      copies r.h2d (copies r.d2h gpu cpu) gpu g = content h) ∧
    (∀ p ∈ r.d2h, ∀ q ∈ r.h2d, p.2 ≠ q.1) := by
  rw [schedulerStep, run_bind_ok] at hr
  obtain ⟨_, c₁, hbegin, hr⟩ := hr
  obtain ⟨claims, c₂, hcalls, hr⟩ := run_bind_ok.mp hr
  obtain ⟨⟨h2d, d2h⟩, c₃, hdrain, hr⟩ := run_bind_ok.mp hr
  obtain ⟨rfl, rfl⟩ := run_pure_ok.mp hr
  have h₂ := (hc.beginStep gpu hbegin).runCalls hg hcalls
  rw [List.nil_append] at h₂
  have hinv := h₂.inv.drainStep hdrain
  obtain ⟨c₃, hresolve, hloads, hdisj, heq, rfl⟩ := drainStep_ok hdrain
  obtain ⟨rfl, rfl⟩ := Prod.mk.injEq .. ▸ heq
  obtain ⟨hcore, hp, hready, hd2h, hkeep⟩ := h₂.resolve hresolve
  have hsep : ∀ p ∈ sortedItems c₃.stepD2h, ∀ q ∈ sortedItems c₃.stepH2d, p.2 ≠ q.1 := by
    intro p hp q hq he
    have hq' := Dict.mem_of_get? (mem_sortedItems.mp hq)
    exact hdisj q.1 hq' (he ▸ Dict.mem_values.mpr ⟨p.1, mem_sortedItems.mp hp⟩)
  have hkept : ∀ s, s ∉ c₃.stepD2h.values →
      copies (sortedItems c₃.stepD2h) gpu cpu s = cpu s := by
    intro s hs
    refine copies_of_not_mem fun hm => hs ?_
    obtain ⟨p, hp, rfl⟩ := List.mem_map.mp hm
    exact Dict.mem_values.mpr ⟨p.1, mem_sortedItems.mp hp⟩
  refine ⟨⟨hinv, fun h s hs hrp => ?_⟩, fun s g hsg => ?_, hsep⟩
  · by_cases hm : s ∈ c₃.stepD2h.values
    · obtain ⟨g, hg⟩ := Dict.mem_values.mp hm
      rw [copies_of_mem (nodup_sortedItems hcore.d2h_nodup) (mem_sortedItems.mpr hg)]
      exact hd2h g s h hg hs
    · rw [hkept s hm]
      rcases hrp with hr | hp'
      · exact hready h s hs hr
      · simp [drained, hp, hm] at hp'
  · have hs := Dict.mem_of_get? (mem_sortedItems.mp hsg)
    have hload := (hloads s).mp hs
    -- a step that loads replaces nothing, so the claims still name the slots' hashes
    rcases hkeep with hnone | ⟨hl, hh, hr⟩
    · simp [hnone] at hload
    have hcontent : ∀ h, (h, s) ∈ claims →
        copies (sortedItems c₃.stepD2h) gpu cpu s = content h := by
      intro h hm
      have hslot := h₂.claim_slot (h, s) hm
      rw [hkept s (hdisj s hs)]
      exact h₂.ready h s hslot (hr ▸ hcore.load_ready s hload)
    refine ⟨h₂.loads s (hl ▸ hload), fun h hm => ⟨hcontent h hm, ?_⟩⟩
    rw [copies_of_mem (nodup_sortedItems hcore.h2d_nodup) hsg]
    exact hcontent h hm

theorem published_of_reachable {content : H → D} {capacity : Int} {t : Tier H D}
    (h : (tierSys content capacity).Reachable t) : Published content t.cpu t.cache := by
  refine h.invariant (I := fun t => Published content t.cpu t.cache) ?_ ?_
  · intro t ht
    simp only [tierSys, init] at ht
    split at ht
    · cases ht
    · rw [← Except.ok.inj ht]
      refine ⟨Inv.fresh _, fun h s hs => ?_⟩
      simp [fresh] at hs
  · rintro t t' - ht ⟨hrun, hgpu⟩
    exact (ht.step hrun hgpu).1

/-- Content safety of the tier, in any reachable state. At the start of a step every hash that
is reported ready is mapped to a slot with its content. In any step that raises nothing, an H2D
copy finds in its slot the content of the hash that was claimed for it and leaves it in its GPU
block, and no D2H copy of the step writes to a slot that an H2D copy reads. -/
theorem tier_content_safe (content : H → D) (capacity : Int) (t : Tier H D)
    (ht : (tierSys content capacity).Reachable t) :
    (∀ c, beginStep.run t.cache = .ok () c → ∀ h,
      (isReady c h = true → ∃ s, c.hashToSlot.get? h = some s ∧ t.cpu s = content h) ∧
      (∀ s c', (claimLoad h).run c = .ok (some s) c' →
        c.hashToSlot.get? h = some s ∧ t.cpu s = content h)) ∧
    (∀ calls gpu r cache, (schedulerStep calls).run t.cache = .ok r cache →
      StoresContent content calls gpu →
      (∀ s g, (s, g) ∈ r.h2d → (∃ h, (h, s) ∈ r.claims) ∧ ∀ h, (h, s) ∈ r.claims →
        copies r.d2h gpu t.cpu s = content h ∧
        copies r.h2d (copies r.d2h gpu t.cpu) gpu g = content h) ∧
      (∀ p ∈ r.d2h, ∀ q ∈ r.h2d, p.2 ≠ q.1)) := by
  have hp := published_of_reachable ht
  refine ⟨fun c hc h => ⟨fun hr => ?_, fun s c' hs => ?_⟩, fun calls gpu r cache hr hg =>
    (hp.step hr hg).2⟩
  · have hh := hp.beginStep t.cpu hc
    rw [isReady] at hr
    split at hr
    · next s hs => exact ⟨s, hs, hh.ready h s hs (of_decide_eq_true hr)⟩
    · cases hr
  · have hh := hp.beginStep t.cpu hc
    obtain ⟨-, ⟨hn, -⟩ | ⟨slot, he, hs, hr, -, -⟩⟩ := claimLoad_ok hs
    · cases hn
    · cases he
      exact ⟨hs, hh.ready h s hs hr⟩

/-- A block is stored in one step and loaded into another GPU block in the next. -/
theorem tier_content_safe_reload : ∃ t : Tier Nat Nat,
    (tierSys (· + 1) 1).Reachable t ∧ ∃ r cache,
      (schedulerStep [.claimLoad 7, .stageLoad 7 0 5]).run t.cache = .ok r cache ∧
      copies r.h2d (copies r.d2h (fun _ => 0) t.cpu) (fun _ => 0) 5 = 8 := by
  have hrun : check (schedulerStep [.stageStore 7 3]) (fresh 1 : CpuKvContentCache Nat)
      (fun _ c => check (schedulerStep [.claimLoad 7, .stageLoad 7 0 5]) c
        fun r _ => r.h2d = [(0, 5)] ∧ r.claims = [(7, 0)]) = true := by decide +kernel
  obtain ⟨r₁, c₁, h₁, h₂⟩ := check_eq_true.mp hrun
  obtain ⟨r, cache, h₂, hr⟩ := check_eq_true.mp h₂
  obtain ⟨hload, hclaim⟩ := of_decide_eq_true hr
  have ht : (tierSys (· + 1) 1).Reachable ⟨c₁, copies r₁.d2h (fun _ => 8) fun _ => 0⟩ := by
    refine .step (.init (S := tierSys (· + 1) 1) (s := ⟨fresh 1, fun _ => 0⟩) rfl) (.mk h₁ ?_)
    intro h g hm
    obtain ⟨rfl, rfl⟩ : h = 7 ∧ g = 3 := by simpa using hm
    rfl
  refine ⟨_, ht, r, cache, h₂, ?_⟩
  refine ((tier_content_safe (· + 1) 1 _ ht).2 _ (fun _ => 0) r cache h₂ ?_).1 0 5
    (by rw [hload]; exact List.mem_singleton_self _) |>.2 7 ?_ |>.2
  · intro h g hm
    simp at hm
  · rw [hclaim]
    exact List.mem_singleton_self _

end Bi100.CpuKvContentCache
