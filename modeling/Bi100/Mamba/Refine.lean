import Bi100.Mamba.Slots
import Bi100.Lib.Run

/-!
# The recurrent state cache refines a map from sequences to states

A run interleaves `prepare` for any batch, after which the model writes the states in the batch
positions, and `release` of any requests. `Fits` is the capacity bound; `BatchRuns` is the condition
under which the code works: no request of the batch is among the finished ones of the same call.

- `assignBatch_run`, `prepareCurrentRun_run`, `releaseFinishedRequests_run`: what the calls do. They
  do not raise.
- `mamba_cache_refines`: in every run that meets the condition the cache holds the abstract map
  (`SeqStates`), and no next call raises.
- `prepare_finished_in_batch`: a call with a finished request in the batch raises.
-/

set_option linter.unusedSectionVars false

namespace Bi100.MambaCacheManager

open Py

variable {R Q S : Type} [DecidableEq R] [DecidableEq Q] [Zero S]
variable {m m' : MambaCacheManager R Q S}

/-- The number of live sequences when all of `batch` is live. -/
def liveAfter (m : MambaCacheManager R Q S) (batch : List (R × Q)) : Nat :=
  (m.livePairs ++ batch).toFinset.card

/-- The batch is one that the model runner builds: the sequences of a request are distinct. -/
def WellFormed (batch : Dict R (List Q)) : Prop := ∀ p ∈ batch.entries, p.2.Nodup

/-- The live sequences, those of the batch included, do not exceed the capacity. -/
def Fits (m : MambaCacheManager R Q S) (batch : Dict R (List Q)) : Prop :=
  m.liveAfter (flatten batch) ≤ m.maxBatchSize

/-- No request of the batch is in the finished list of the same call. -/
def BatchRuns (batch : Dict R (List Q)) (finished : List R) : Prop :=
  ∀ p ∈ flatten batch, p.1 ∉ finished

theorem nodup_flatten {batch : Dict R (List Q)} (h : WellFormed batch) : (flatten batch).Nodup := by
  rw [flatten, List.nodup_flatMap]
  refine ⟨fun p hp => (h p hp).map fun a b he => (Prod.mk.inj he).2, ?_⟩
  refine (List.pairwise_map.mp batch.nodup).imp ?_
  rintro ⟨r, qs⟩ ⟨r', qs'⟩ hne
  show List.Disjoint _ _
  rw [List.disjoint_left]
  intro x hx hx'
  obtain ⟨_, -, rfl⟩ := List.mem_map.mp hx
  obtain ⟨_, -, he⟩ := List.mem_map.mp hx'
  exact hne (Prod.mk.inj he).1.symm

/-! ## The batch loop -/

/-- The outcome of the batch loop from position `k` on. -/
structure Placed (m m' : MambaCacheManager R Q S) (k : Nat) (batch : List (R × Q)) : Prop where
  inv : Inv m'
  size : m'.maxBatchSize = m.maxBatchSize
  here : ∀ j r q, batch[j]? = some (r, q) → m'.index? r q = some (k + j)
  keep : ∀ r q i, m.index? r q = some i → i < k → (r, q) ∉ batch → m'.index? r q = some i
  states : m'.states = m.states.prepare batch

theorem length_le_liveAfter {batch : List (R × Q)} (h : batch.Nodup) :
    batch.length ≤ m.liveAfter batch := by
  rw [← List.toFinset_card_of_nodup h]
  apply Finset.card_le_card
  intro p hp
  rw [List.mem_toFinset] at hp ⊢
  exact List.mem_append_right _ hp

theorem livePairs_lt {batch : List (R × Q)} {r : R} {q : Q} (hn : m.index? r q = none)
    (hm : (r, q) ∈ batch) : m.livePairs.length < m.liveAfter batch := by
  have hnot : (r, q) ∉ m.livePairs.toFinset := by
    rw [List.mem_toFinset, mem_livePairs, hn]
    simp
  rw [← List.toFinset_card_of_nodup (nodup_livePairs m), Nat.lt_iff_add_one_le,
    ← Finset.card_insert_of_notMem hnot]
  apply Finset.card_le_card
  intro p hp
  rw [List.mem_toFinset, List.mem_append]
  rcases Finset.mem_insert.mp hp with rfl | hp
  · exact .inr hm
  · exact .inl (List.mem_toFinset.mp hp)

theorem Assigned.liveAfter {r : R} {q : Q} {dest : Nat} (h : Assigned m m' r q dest)
    (batch : List (R × Q)) : m'.liveAfter batch = m.liveAfter ((r, q) :: batch) := by
  rw [MambaCacheManager.liveAfter, MambaCacheManager.liveAfter]
  congr 1
  ext ⟨r', q'⟩
  simp only [List.mem_toFinset, List.mem_append, h.live, List.mem_cons, or_assoc]

theorem assignBatch_run {finished : List R} {batch : List (R × Q)} {k : Nat} (h : Inv m)
    (hnd : batch.Nodup) (hf : ∀ p ∈ batch, p.1 ∉ finished)
    (hk : k + batch.length ≤ m.maxBatchSize) (hl : m.liveAfter batch ≤ m.maxBatchSize) :
    ∃ m', (assignBatch finished k batch).run m = .ok (List.range' k batch.length) m' ∧
      Placed m m' k batch := by
  induction batch generalizing m k with
  | nil => exact ⟨m, rfl, h, rfl, by simp, fun _ _ _ hi _ _ => hi, rfl⟩
  | cons p batch ih =>
    obtain ⟨r, q⟩ := p
    obtain ⟨hnot, hnd⟩ := List.nodup_cons.mp hnd
    rw [List.length_cons] at hk
    have hlt : k < m.maxBatchSize := by omega
    obtain ⟨m₁, hrun, ha⟩ := assignSeqId_run h (r := r) (q := q) hlt
      fun hn => firstFreeIndex_run
        (Nat.lt_of_lt_of_le (livePairs_lt hn List.mem_cons_self) hl) k
    obtain ⟨m₂, hrun₂, hp⟩ := ih (k := k + 1) ha.inv hnd (fun p hp => hf p (List.mem_cons_of_mem _ hp))
      (by rw [ha.size]; omega) (by rw [ha.liveAfter, ha.size]; exact hl)
    refine ⟨m₂, ?_, hp.inv, hp.size.trans ha.size, ?_, ?_, ?_⟩
    · rw [assignBatch, if_neg (hf (r, q) List.mem_cons_self), run_bind_of_ok hrun,
        run_bind_of_ok hrun₂]
      rfl
    · intro j r' q' hj
      cases j with
      | zero =>
        obtain ⟨rfl, rfl⟩ := Prod.mk.inj (Option.some.inj hj)
        -- the later iterations leave position `k` alone
        exact hp.keep r q k ha.here (by omega) hnot
      | succ j =>
        rw [List.getElem?_cons_succ] at hj
        rw [hp.here j r' q' hj]
        congr 1
        omega
    · intro r' q' i hi hlt hnot'
      rw [List.mem_cons, not_or] at hnot'
      exact hp.keep r' q' i (ha.keep r' q' i hi (by omega) hnot'.1) (by omega) hnot'.2
    · rw [hp.states, ha.states]
      rfl

theorem cleanUpFirstBsBlocks_run {n : Nat} :
    (cleanUpFirstBsBlocks n (List.range' 0 n)).run m = .ok () m := by
  have hall : ∀ l : List Nat, (∀ i ∈ l, i < n) →
      (forM l (cleanUpIndex n (List.range' 0 n))).run m = .ok () m := by
    intro l
    induction l with
    | nil => intro _; rfl
    | cons i l ih =>
      intro hi
      have hone : (cleanUpIndex n (List.range' 0 n) i).run m = .ok () m := by
        rw [cleanUpIndex, run_get_bind, if_neg]
        · rfl
        · rintro ⟨-, hnot⟩
          exact hnot (List.mem_range'_1.mpr ⟨by omega, by have := hi i List.mem_cons_self; omega⟩)
      rw [List.forM_cons, run_bind_of_ok hone]
      exact ih fun j hj => hi j (List.mem_cons_of_mem i hj)
  exact hall _ fun i hi => List.mem_range.mp hi

/-- `prepare` does not raise, and places the batch in the first positions. -/
theorem prepareCurrentRun_run {batch : Dict R (List Q)} {finished : List R} (h : Inv m)
    (hw : WellFormed batch) (hl : m.Fits batch) (hf : BatchRuns batch finished) :
    ∃ m', (prepareCurrentRun batch finished).run m = .ok () m' ∧
      Placed m m' 0 (flatten batch) := by
  have hnd := nodup_flatten hw
  have hlen : 0 + (flatten batch).length ≤ m.maxBatchSize := by
    have := length_le_liveAfter (m := m) hnd
    have := hl
    rw [Fits] at this
    omega
  obtain ⟨m', hrun, hp⟩ := assignBatch_run h hnd hf hlen hl
  refine ⟨m', ?_, hp⟩
  rw [prepareCurrentRun, run_bind_of_ok hrun]
  exact cleanUpFirstBsBlocks_run

/-! ## Release -/

theorem zeroSlots_run {l : List Nat} (h : ∀ i ∈ l, i < m.maxBatchSize) :
    ∃ slot, (forM l zeroSlot).run m = .ok () { m with slot := slot } ∧
      ∀ i, i ∉ l → slot i = m.slot i := by
  induction l generalizing m with
  | nil => exact ⟨m.slot, rfl, fun _ _ => rfl⟩
  | cons i l ih =>
    obtain ⟨slot, hrun, hs⟩ := ih (m := { m with slot := Function.update m.slot i 0 })
      fun j hj => h j (List.mem_cons_of_mem i hj)
    refine ⟨slot, ?_, fun j hj => ?_⟩
    · rw [List.forM_cons, run_bind_of_ok (zeroSlot_run (h i List.mem_cons_self))]
      exact hrun
    · rw [List.mem_cons, not_or] at hj
      rw [hs j hj.2]
      exact Function.update_of_ne hj.1 ..

/-- The outcome of a release. -/
structure Released (m m' : MambaCacheManager R Q S) (rs : List R) : Prop where
  inv : Inv m'
  size : m'.maxBatchSize = m.maxBatchSize
  states : m'.states = m.states.release rs

theorem releaseRequest_run (h : Inv m) (r : R) :
    ∃ m', (releaseRequest r).run m = .ok () m' ∧ Released m m' [r] := by
  cases hr : m.mapping.get? r with
  | none =>
    refine ⟨m, ?_, h, rfl, ?_⟩
    · rw [releaseRequest, run_get_bind, hr]; rfl
    · ext1
      · funext r'
        simp only [SeqStates.release, List.mem_singleton]
        split
        · next he => subst he; simp [MambaCacheManager.states, hr]
        · rfl
      · funext r' q'
        simp only [SeqStates.release, List.mem_singleton]
        split
        · next he => subst he; simp [MambaCacheManager.states, index?, hr]
        · rfl
  | some d =>
    have hval : ∀ i, i ∈ d.values ↔ ∃ q, m.index? r q = some i := by
      intro i
      rw [Dict.mem_values]
      simp [index?, hr]
    obtain ⟨slot, hrun, hs⟩ := zeroSlots_run (m := { m with mapping := m.mapping.erase r })
      (l := d.values) fun i hi => by
        obtain ⟨q, hq⟩ := (hval i).mp hi
        exact h.lt r q i hq
    have hidx : ∀ r' q', MambaCacheManager.index? { m with
        mapping := m.mapping.erase r, slot := slot } r' q' =
        if r' = r then none else m.index? r' q' := by
      intro r' q'
      simp only [index?, Dict.get?_erase]
      split <;> rfl
    refine ⟨{ m with mapping := m.mapping.erase r, slot := slot }, ?_, ⟨?_, ?_, ?_⟩, rfl, ?_⟩
    · rw [releaseRequest, run_get_bind, hr, run_set_bind]
      exact hrun
    · intro r' q' i hi
      rw [hidx] at hi
      split at hi
      · cases hi
      · exact h.lt r' q' i hi
    · intro r₁ q₁ r₂ q₂ i h₁ h₂
      rw [hidx] at h₁ h₂
      split at h₁
      · cases h₁
      · split at h₂
        · cases h₂
        · exact h.inj r₁ q₁ r₂ q₂ i h₁ h₂
    · intro r' d' hd'
      rw [Dict.get?_erase] at hd'
      split at hd'
      · cases hd'
      · exact h.nonempty r' d' hd'
    · ext1
      · funext r'
        simp only [MambaCacheManager.states, SeqStates.release, List.mem_singleton,
          Dict.get?_erase]
        split <;> rfl
      · funext r' q'
        simp only [MambaCacheManager.states, SeqStates.release, List.mem_singleton, hidx]
        split
        · rfl
        · next hne =>
          cases hi : m.index? r' q' with
          | none => rfl
          | some i =>
            -- the slots of other requests are not zeroed
            have hnot : i ∉ d.values := by
              rw [hval]
              rintro ⟨q, hq⟩
              exact hne (h.inj r' q' r q i hi hq).1
            simp [hs i hnot]

theorem releaseFinishedRequests_run (h : Inv m) (rs : List R) :
    ∃ m', (releaseFinishedRequests rs).run m = .ok () m' ∧ Released m m' rs := by
  induction rs generalizing m with
  | nil => exact ⟨m, rfl, h, rfl, by ext1 <;> simp [SeqStates.release]⟩
  | cons r rs ih =>
    obtain ⟨m₁, hrun, hr⟩ := releaseRequest_run h r
    obtain ⟨m₂, hrun₂, hr₂⟩ := ih hr.inv
    refine ⟨m₂, ?_, hr₂.inv, hr₂.size.trans hr.size, ?_⟩
    · rw [releaseFinishedRequests, List.forM_cons, run_bind_of_ok hrun]
      exact hrun₂
    · rw [hr₂.states, hr.states]
      ext1
      · funext r'
        simp only [SeqStates.release, List.mem_cons]
        split_ifs <;> simp_all
      · funext r' q'
        simp only [SeqStates.release, List.mem_cons]
        split_ifs <;> simp_all

/-! ## Runs -/

/-- The model's forward writes the states of a batch of `n` sequences. -/
def writeStates (m : MambaCacheManager R Q S) (n : Nat) (w : Nat → S) : MambaCacheManager R Q S :=
  { m with slot := fun i => if i < n then w i else m.slot i }

/-- The outcome of the forward of a prepared batch. -/
theorem Placed.write {batch : List (R × Q)} (h : Placed m m' 0 batch) (w : Nat → S) :
    Inv (m'.writeStates batch.length w) ∧
      (m'.writeStates batch.length w).states = (m.states.prepare batch).write batch w := by
  refine ⟨⟨h.inv.lt, h.inv.inj, h.inv.nonempty⟩, ?_⟩
  ext1
  · rw [← h.states]
    rfl
  · funext r q
    rw [← h.states]
    simp only [SeqStates.write, MambaCacheManager.states, writeStates]
    have hidx : ∀ i, m'.index? r q = some i → (i < batch.length ↔ (r, q) ∈ batch) := by
      intro i hi
      constructor
      · intro hlt
        obtain ⟨⟨r₀, q₀⟩, hp⟩ : ∃ p, batch[i]? = some p := ⟨_, List.getElem?_eq_getElem hlt⟩
        have hp' := h.here i r₀ q₀ hp
        rw [Nat.zero_add] at hp'
        obtain ⟨rfl, rfl⟩ := h.inv.inj r q r₀ q₀ i hi hp'
        exact List.mem_of_getElem? hp
      · intro hm
        obtain ⟨j, hj⟩ := List.mem_iff_getElem?.mp hm
        have hj' := h.here j r q hj
        rw [hi, Nat.zero_add] at hj'
        rw [Option.some.inj hj']
        exact (List.getElem?_eq_some_iff.mp hj).1
    by_cases hm : (r, q) ∈ batch
    · rw [if_pos hm]
      have hlt := List.idxOf_lt_length_iff.mpr hm
      have hget : batch[batch.idxOf (r, q)]? = some (r, q) := by
        rw [List.getElem?_eq_getElem hlt, List.getElem_idxOf hlt]
      have hi := h.here _ r q hget
      rw [Nat.zero_add] at hi
      change (m'.index? r q).map _ = _
      rw [hi, Option.map_some, if_pos hlt]
    · rw [if_neg hm]
      change (m'.index? r q).map _ = _
      cases hi : m'.index? r q with
      | none => rfl
      | some i => rw [Option.map_some, Option.map_some, if_neg ((hidx i hi).not.mpr hm)]

/-- The cache and the abstract map that it should hold. -/
structure Refinement (R Q S : Type) where
  cache : MambaCacheManager R Q S
  abs : SeqStates R Q S

/-- One step of a run. The abstract map follows the calls, not the slots. -/
inductive Step : Refinement R Q S → Refinement R Q S → Prop where
  | release {s : Refinement R Q S} {m' : MambaCacheManager R Q S} (rs : List R)
      (h : (releaseFinishedRequests rs).run s.cache = .ok () m') :
    Step s ⟨m', s.abs.release rs⟩
  | forward {s : Refinement R Q S} {m' : MambaCacheManager R Q S} (batch : Dict R (List Q))
      (finished : List R) (w : Nat → S) (hw : WellFormed batch) (hl : s.cache.Fits batch)
      (hf : BatchRuns batch finished)
      (h : (prepareCurrentRun batch finished).run s.cache = .ok () m') :
    Step s ⟨m'.writeStates (flatten batch).length w,
      (s.abs.prepare (flatten batch)).write (flatten batch) w⟩

/-- The runs of a cache of any size whose steps all meet the condition. -/
def runs (R Q S : Type) [DecidableEq R] [DecidableEq Q] [Zero S] (maxBatchSize : Nat) :
    Sys (Refinement R Q S) where
  init s := s = ⟨init maxBatchSize, .empty⟩
  step := Step

theorem Inv.init (n : Nat) : Inv (init n : MambaCacheManager R Q S) := by
  constructor <;> simp [MambaCacheManager.init, index?]

theorem refines_of_reachable {n : Nat} {s : Refinement R Q S} (h : (runs R Q S n).Reachable s) :
    Inv s.cache ∧ s.cache.states = s.abs := by
  refine h.invariant (I := fun s => Inv s.cache ∧ s.cache.states = s.abs) ?_ ?_
  · rintro s rfl
    refine ⟨Inv.init n, ?_⟩
    ext1 <;> simp [MambaCacheManager.states, MambaCacheManager.init, index?, SeqStates.empty]
  · rintro s s' - ⟨hinv, habs⟩ hstep
    cases hstep with
    | release rs hrun =>
      obtain ⟨m₁, hrun₁, hr⟩ := releaseFinishedRequests_run hinv rs
      obtain ⟨-, rfl⟩ := EStateM.Result.ok.inj (hrun.symm.trans hrun₁)
      exact ⟨hr.inv, hr.states.trans (by rw [habs])⟩
    | forward batch finished w hw hl hf hrun =>
      obtain ⟨m₁, hrun₁, hp⟩ := prepareCurrentRun_run hinv hw hl hf
      obtain ⟨-, rfl⟩ := EStateM.Result.ok.inj (hrun.symm.trans hrun₁)
      obtain ⟨hinv', hstates⟩ := hp.write w
      exact ⟨hinv', hstates.trans (by rw [habs])⟩

/-- In every state of every run whose steps meet the condition: live sequences have distinct slots
in range, the cache holds the abstract map, and no call raises. After `prepare`, position `i` is
the slot of the batch's `i`-th sequence and holds its state (the zero state for a new request), and
every live sequence keeps its state. -/
theorem mamba_cache_refines {n : Nat} {s : Refinement R Q S} (h : (runs R Q S n).Reachable s) :
    (∀ r q i, s.cache.index? r q = some i → i < s.cache.maxBatchSize) ∧
    (∀ r q r' q' i, s.cache.index? r q = some i → s.cache.index? r' q' = some i →
      r = r' ∧ q = q') ∧
    s.cache.states = s.abs ∧
    (∀ rs, ∃ m', (releaseFinishedRequests rs).run s.cache = .ok () m' ∧
      m'.states = s.abs.release rs) ∧
    (∀ batch finished, WellFormed batch → s.cache.Fits batch → BatchRuns batch finished →
      ∃ m', (prepareCurrentRun batch finished).run s.cache = .ok () m' ∧
        m'.states = s.abs.prepare (flatten batch) ∧
        (∀ i r q, (flatten batch)[i]? = some (r, q) → m'.index? r q = some i ∧
          (s.abs.prepare (flatten batch)).state r q = some (m'.slot i) ∧
          (s.abs.first r = none → m'.slot i = 0)) ∧
        (∀ r q v, s.abs.state r q = some v → m'.states.state r q = some v)) := by
  obtain ⟨hinv, habs⟩ := refines_of_reachable h
  refine ⟨hinv.lt, hinv.inj, habs, fun rs => ?_, fun batch finished hw hl hf => ?_⟩
  · obtain ⟨m', hrun, hr⟩ := releaseFinishedRequests_run hinv rs
    exact ⟨m', hrun, hr.states.trans (by rw [habs])⟩
  · obtain ⟨m', hrun, hp⟩ := prepareCurrentRun_run hinv hw hl hf
    have hstates : m'.states = s.abs.prepare (flatten batch) := hp.states.trans (by rw [habs])
    refine ⟨m', hrun, hstates, fun i r q hi => ?_, fun r q v hv => ?_⟩
    · have hidx := hp.here i r q hi
      rw [Nat.zero_add] at hidx
      have hslot : (s.abs.prepare (flatten batch)).state r q = some (m'.slot i) := by
        rw [← hstates]
        simp [MambaCacheManager.states, hidx]
      refine ⟨hidx, hslot, fun hfirst => ?_⟩
      have hnew : ∀ q, s.abs.state r q = none := by
        intro q
        rw [← habs] at hfirst ⊢
        simp only [MambaCacheManager.states, Option.bind_eq_none_iff] at hfirst
        cases hd : s.cache.mapping.get? r with
        | none => simp [MambaCacheManager.states, index?, hd]
        | some d =>
          exact absurd (List.head?_eq_none_iff.mp (hfirst d hd)) (hinv.nonempty r d hd)
      have hzero := SeqStates.prepare_of_new (List.mem_of_getElem? hi) hfirst hnew
      exact Option.some.inj (hslot.symm.trans hzero)
    · rw [hstates]
      exact SeqStates.prepare_of_live _ hv

/-! ## Runs on two slots -/

/-- Two slots, with the state 7 of the sequence 0 of request 1 in slot 0. -/
def oneLive : Refinement Nat Nat Nat where
  cache := (⟨fun _ => 0, 2, (∅ : Dict Nat (Dict Nat Nat)).set 1 ((∅ : Dict Nat Nat).set 0 0)⟩ :
    MambaCacheManager Nat Nat Nat).writeStates 1 fun _ => 7
  abs := ((SeqStates.empty : SeqStates Nat Nat Nat).prepare [(1, 0)]).write [(1, 0)] fun _ => 7

theorem oneLive_reachable : (runs Nat Nat Nat 2).Reachable oneLive := by
  let batch : Dict Nat (List Nat) := (∅ : Dict Nat (List Nat)).set 1 [0]
  have hinit : (runs Nat Nat Nat 2).Reachable ⟨init 2, .empty⟩ := .init rfl
  have hrun : (prepareCurrentRun batch []).run (init 2 : MambaCacheManager Nat Nat Nat) =
      .ok () ⟨Function.update (fun _ => 0) 0 0, 2, (∅ : Dict Nat (Dict Nat Nat)).set 1
        ((∅ : Dict Nat Nat).set 0 0)⟩ := rfl
  rw [Function.update_eq_self_iff.mpr rfl] at hrun
  exact hinit.step (Step.forward batch [] (fun _ => 7) (by unfold WellFormed; decide)
    (by unfold Fits; decide) (by unfold BatchRuns; decide) hrun)

/-- A new request in position 0 moves the live sequence, with its state, to position 1. -/
theorem mamba_cache_refines_moves :
    ∃ s : Refinement Nat Nat Nat, (runs Nat Nat Nat 2).Reachable s ∧ ∃ m',
      (prepareCurrentRun ((∅ : Dict Nat (List Nat)).set 2 [0]) []).run s.cache = .ok () m' ∧
      m'.index? 2 0 = some 0 ∧ m'.slot 0 = 0 ∧ m'.states.state 1 0 = some 7 := by
  have h := mamba_cache_refines oneLive_reachable
  obtain ⟨m', hrun, -, hpos, hkeep⟩ := h.2.2.2.2 ((∅ : Dict Nat (List Nat)).set 2 [0]) []
    (by unfold WellFormed; decide) (by unfold Fits; decide) (by unfold BatchRuns; decide)
  obtain ⟨hidx, -, hnew⟩ := hpos 0 2 0 rfl
  exact ⟨_, oneLive_reachable, m', hrun, hidx, hnew rfl, hkeep 1 0 7 rfl⟩

/-- A request of the batch that is in the finished list of the same call gets no slot; if its
position is occupied, the clean-up calls a method that does not exist. -/
theorem prepare_finished_in_batch :
    ∃ s : Refinement Nat Nat Nat, (runs Nat Nat Nat 2).Reachable s ∧
      WellFormed ((∅ : Dict Nat (List Nat)).set 2 [0]) ∧
      s.cache.Fits ((∅ : Dict Nat (List Nat)).set 2 [0]) ∧
      (prepareCurrentRun ((∅ : Dict Nat (List Nat)).set 2 [0]) [2]).run s.cache = .error
        (.attributeError "'MambaCacheManager' object has no attribute '_swap_indices'") s.cache :=
  ⟨_, oneLive_reachable, by unfold WellFormed; decide, by unfold Fits; decide, rfl⟩

end Bi100.MambaCacheManager
