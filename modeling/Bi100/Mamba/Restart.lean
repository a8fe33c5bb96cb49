import Bi100.Mamba.Refine

/-!
# The state that a prefill from token 0 starts from

The GatedDeltaNet layers of a prefill chunk continue from the state in the sequence's slot. Without
a restore key, a chunk at context length 0 must find the zero state there. The cache zeroes a slot
when it maps a new request; the scheduler names a request to the worker as finished when it ends,
but a request that is preempted by recomputation starts again from token 0 without a message.

- `currentRunTensors_ok`: a call that does not raise, for any batch.
- `prefill_from_zero`: every chunk at context length 0 whose request is not mapped starts from zero.
- `preempted_prefill_not_from_zero`: a preempted request starts from the state it left.
-/

set_option linter.unusedSectionVars false

namespace Bi100.MambaCacheManager

open Py

variable {R Q S : Type} [DecidableEq R] [DecidableEq Q] [Zero S]
variable {m m' : MambaCacheManager R Q S}

/-! ## Successful calls, with any finished requests -/

/-- The sequences of a batch that get a slot. -/
def unfinished (finished : List R) (batch : List (R × Q)) : List (R × Q) :=
  batch.filter fun p => p.1 ∉ finished

theorem assignBatch_ok {finished : List R} {batch : List (R × Q)} {k : Nat} {running : List Nat}
    (h : Inv m) (hnd : batch.Nodup)
    (hrun : (assignBatch finished k batch).run m = .ok running m') :
    Inv m' ∧
    (∀ j r q, batch[j]? = some (r, q) → r ∉ finished → m'.index? r q = some (k + j)) ∧
    (∀ r q i, m.index? r q = some i → i < k → (r, q) ∉ batch → m'.index? r q = some i) ∧
    m'.states = m.states.prepare (unfinished finished batch) := by
  induction batch generalizing m k running with
  | nil =>
    obtain ⟨-, rfl⟩ := run_pure_ok.mp hrun
    exact ⟨h, by simp, fun _ _ _ hi _ _ => hi, rfl⟩
  | cons p batch ih =>
    obtain ⟨r, q⟩ := p
    obtain ⟨hnot, hnd⟩ := List.nodup_cons.mp hnd
    rw [assignBatch] at hrun
    split at hrun
    · next hfin =>
      obtain ⟨hinv, hhere, hkeep, hstates⟩ := ih h hnd hrun
      refine ⟨hinv, fun j r' q' hj hf => ?_, fun r' q' i hi hlt hnot' => ?_, ?_⟩
      · cases j with
        | zero =>
          obtain ⟨rfl, rfl⟩ := Prod.mk.inj (Option.some.inj hj)
          exact absurd hfin hf
        | succ j =>
          rw [hhere j r' q' hj hf]
          congr 1
          omega
      · rw [List.mem_cons, not_or] at hnot'
        exact hkeep r' q' i hi (by omega) hnot'.2
      · rw [hstates, unfinished, unfinished, List.filter_cons_of_neg (by simpa using hfin)]
    · next hfin =>
      rw [run_bind_ok] at hrun
      obtain ⟨_, m₁, h₁, hrun⟩ := hrun
      rw [run_bind_ok] at hrun
      obtain ⟨rest, m₂, h₂, hrun⟩ := hrun
      obtain ⟨-, rfl⟩ := run_pure_ok.mp hrun
      have ha := assignSeqId_ok h h₁
      obtain ⟨hinv, hhere, hkeep, hstates⟩ := ih ha.inv hnd h₂
      refine ⟨hinv, fun j r' q' hj hf => ?_, fun r' q' i hi hlt hnot' => ?_, ?_⟩
      · cases j with
        | zero =>
          obtain ⟨rfl, rfl⟩ := Prod.mk.inj (Option.some.inj hj)
          exact hkeep r q k ha.here (by omega) hnot
        | succ j =>
          rw [hhere j r' q' hj hf]
          congr 1
          omega
      · rw [List.mem_cons, not_or] at hnot'
        exact hkeep r' q' i (ha.keep r' q' i hi (by omega) hnot'.1) (by omega) hnot'.2
      · rw [hstates, ha.states, unfinished, unfinished,
          List.filter_cons_of_pos (by simpa using hfin)]
        rfl

/-- The clean-up moves nothing: it raises or has nothing to do. -/
theorem cleanUpFirstBsBlocks_ok {n : Nat} {running : List Nat} {u : Unit}
    (hclean : (cleanUpFirstBsBlocks n running).run m = .ok u m') : m' = m := by
  have hall : ∀ (l : List Nat) (u : PUnit),
      (forM l (cleanUpIndex n running)).run m = .ok u m' → m' = m := by
    intro l
    induction l with
    | nil => exact fun u h => (run_pure_ok.mp h).2
    | cons i l ih =>
      intro u h
      rw [List.forM_cons, run_bind_ok] at h
      obtain ⟨_, m₁, h₁, h⟩ := h
      rw [cleanUpIndex, run_get_bind] at h₁
      split at h₁
      · rw [run_bind_ok] at h₁
        obtain ⟨_, _, _, h₁⟩ := h₁
        exact absurd (run_throw_ok.mp h₁) id
      · obtain ⟨-, rfl⟩ := run_pure_ok.mp h₁
        exact ih u h
  exact hall _ u hclean

theorem currentRunTensors_ok {batch : Dict R (List Q)} {finished : List R} {u : Unit} (h : Inv m)
    (hw : WellFormed batch) (hrun : (currentRunTensors batch finished).run m = .ok u m') :
    Inv m' ∧
    (∀ j r q, (flatten batch)[j]? = some (r, q) → r ∉ finished → m'.index? r q = some j) ∧
    m'.states = (m.states.release finished).prepare (unfinished finished (flatten batch)) := by
  rw [currentRunTensors, run_bind_ok] at hrun
  obtain ⟨_, m₁, h₁, hrun⟩ := hrun
  obtain ⟨m₁', hrel, hr⟩ := releaseFinishedRequests_run h finished
  obtain ⟨-, rfl⟩ := EStateM.Result.ok.inj (h₁.symm.trans hrel)
  rw [prepareCurrentRun, run_bind_ok] at hrun
  obtain ⟨running, m₂, h₂, hrun⟩ := hrun
  obtain rfl := cleanUpFirstBsBlocks_ok hrun
  obtain ⟨hinv, hhere, -, hstates⟩ := assignBatch_ok hr.inv (nodup_flatten hw) h₂
  refine ⟨hinv, fun j r q hj hf => ?_, by rw [hstates, hr.states]⟩
  rw [hhere j r q hj hf, Nat.zero_add]

/-- A request that is new to the cache starts from the zero state. -/
theorem slot_of_new {batch : Dict R (List Q)} {finished : List R} {u : Unit} (h : Inv m)
    (hw : WellFormed batch) (hrun : (currentRunTensors batch finished).run m = .ok u m')
    {j : Nat} {r : R} {q : Q} (hj : (flatten batch)[j]? = some (r, q)) (hf : r ∉ finished)
    (hn : m.mapping.get? r = none) : m'.slot j = 0 := by
  obtain ⟨-, hhere, hstates⟩ := currentRunTensors_ok h hw hrun
  have hm : (r, q) ∈ unfinished finished (flatten batch) :=
    List.mem_filter.mpr ⟨List.mem_of_getElem? hj, by simpa using hf⟩
  have hzero := SeqStates.prepare_of_new (σ := m.states.release finished) hm
    (by simp [SeqStates.release, MambaCacheManager.states, hn])
    (fun q => by simp [SeqStates.release, MambaCacheManager.states, index?_eq_none_of_new hn q])
  rw [← hstates] at hzero
  simpa [MambaCacheManager.states, hhere j r q hj hf] using hzero

/-! ## Runs of the worker -/

/-- What a scheduled sequence does in a step. -/
inductive Work (S : Type) where
  /-- A prefill chunk; `restore` is the saved state that its GDN restore key names. -/
  | prefill (tokens : Nat) (restore : Option S)
  | decode

def Work.tokens : Work S → Nat
  | .prefill n _ => n
  | .decode => 1

/-- The worker's cache, and what the scheduler knows of the requests. -/
structure Worker (R Q S : Type) where
  cache : MambaCacheManager R Q S
  /-- `get_num_computed_tokens()`, the context length of the next chunk. -/
  numComputedTokens : R → Nat
  /-- `_finished_requests_ids`. -/
  finishedRequestsIds : List R

/-- The state that the layers of batch position `i` start from, after the restore. -/
def startState (m : MambaCacheManager R Q S) (i : Nat) : Work S → S
  | .prefill _ (some saved) => saved
  | _ => m.slot i

/-- One step. A forward sends the finished requests, and the model writes the states `w`. -/
inductive WorkerStep : Worker R Q S → Worker R Q S → Prop where
  /-- `_free_finished_seq_group`, or an abort. -/
  | finish {s : Worker R Q S} (r : R) :
    WorkerStep s { s with finishedRequestsIds := s.finishedRequestsIds ++ [r] }
  /-- `_preempt_by_recompute`: `reset_state_for_recompute`, and no message to the worker. -/
  | preempt {s : Worker R Q S} (r : R) :
    WorkerStep s { s with numComputedTokens := Function.update s.numComputedTokens r 0 }
  | forward {s : Worker R Q S} {m' : MambaCacheManager R Q S} (batch : Dict R (List Q))
      (work : R → Work S) (w : Nat → S) (hw : WellFormed batch)
      (h : (currentRunTensors batch s.finishedRequestsIds).run s.cache = .ok () m') :
    WorkerStep s {
      cache := m'.writeStates (flatten batch).length w
      numComputedTokens := fun r =>
        if r ∈ batch then s.numComputedTokens r + (work r).tokens else s.numComputedTokens r
      finishedRequestsIds := [] }

/-- All runs, from an empty cache of any size. -/
def workerSys (R Q S : Type) [DecidableEq R] [DecidableEq Q] [Zero S] (maxBatchSize : Nat) :
    Sys (Worker R Q S) where
  init s := s = ⟨init maxBatchSize, fun _ => 0, []⟩
  step := WorkerStep

/-- The sequence in position `i` is a prefill chunk at context length 0 without a restore key. -/
def FromZero (s : Worker R Q S) (batch : Dict R (List Q)) (work : R → Work S) (i : Nat) (r : R) :
    Prop :=
  (∃ q, (flatten batch)[i]? = some (r, q)) ∧ s.numComputedTokens r = 0 ∧
    ∃ n, work r = .prefill n none

/-- The chunks at context length 0 without a restore key are of requests that the cache does not
map, and that are not in the finished list of the call. -/
def FreshStarts (s : Worker R Q S) (batch : Dict R (List Q)) (work : R → Work S) : Prop :=
  ∀ i r, FromZero s batch work i r → s.cache.mapping.get? r = none ∧ r ∉ s.finishedRequestsIds

theorem workerInv_of_reachable {n : Nat} {s : Worker R Q S}
    (h : (workerSys R Q S n).Reachable s) : Inv s.cache := by
  refine h.invariant (I := fun s => Inv s.cache) ?_ ?_
  · rintro s rfl
    exact Inv.init n
  · rintro s s' - hinv hstep
    cases hstep with
    | finish r => exact hinv
    | preempt r => exact hinv
    | forward batch work w hw hrun =>
      have h' := (currentRunTensors_ok hinv hw hrun).1
      exact ⟨h'.lt, h'.inj, h'.nonempty⟩

/-- In every state of every run, a forward whose chunks at context length 0 are all of unmapped
requests starts each of them, without a restore key, from the zero state. -/
theorem prefill_from_zero {n : Nat} {s : Worker R Q S} (h : (workerSys R Q S n).Reachable s)
    (batch : Dict R (List Q)) (work : R → Work S) (hw : WellFormed batch)
    (hfresh : FreshStarts s batch work) (m' : MambaCacheManager R Q S)
    (hrun : (currentRunTensors batch s.finishedRequestsIds).run s.cache = .ok () m') :
    ∀ i r, FromZero s batch work i r → startState m' i (work r) = 0 := by
  intro i r hz
  obtain ⟨hn, hf⟩ := hfresh i r hz
  obtain ⟨⟨q, hi⟩, -, tokens, hwork⟩ := hz
  rw [hwork]
  exact slot_of_new (workerInv_of_reachable h) hw hrun hi hf hn

/-! ## Runs on one slot -/

/-- One slot, with the state 7 of request 1, which has computed four tokens. -/
def oneChunk : Worker Nat Nat Nat where
  cache := (⟨fun _ => 0, 1, (∅ : Dict Nat (Dict Nat Nat)).set 1 ((∅ : Dict Nat Nat).set 0 0)⟩ :
    MambaCacheManager Nat Nat Nat).writeStates 1 fun _ => 7
  numComputedTokens := fun r => if r = 1 then 4 else 0
  finishedRequestsIds := []

def batchOf (r : Nat) : Dict Nat (List Nat) := (∅ : Dict Nat (List Nat)).set r [0]

theorem wellFormed_batchOf (r : Nat) : WellFormed (batchOf r) := by
  intro p hp
  obtain rfl : p = (r, [0]) := by simpa [batchOf, Dict.set] using hp
  exact List.nodup_singleton 0

theorem oneChunk_reachable : (workerSys Nat Nat Nat 1).Reachable oneChunk := by
  have hinit : (workerSys Nat Nat Nat 1).Reachable ⟨init 1, fun _ => 0, []⟩ := .init rfl
  have hrun : (currentRunTensors (batchOf 1) []).run (init 1 : MambaCacheManager Nat Nat Nat) =
      .ok () ⟨Function.update (fun _ => 0) 0 0, 1, (∅ : Dict Nat (Dict Nat Nat)).set 1
        ((∅ : Dict Nat Nat).set 0 0)⟩ := rfl
  rw [Function.update_eq_self_iff.mpr rfl] at hrun
  have hstep := hinit.step (WorkerStep.forward (batchOf 1) (fun _ => .prefill 4 none)
    (fun _ => 7) (wellFormed_batchOf 1) hrun)
  have hcomputed : (fun r => if r ∈ batchOf 1 then 0 + (Work.prefill 4 none : Work Nat).tokens
      else 0) = oneChunk.numComputedTokens := by
    funext r
    simp [batchOf, oneChunk, Work.tokens]
  simp only [hcomputed] at hstep
  exact hstep

/-- Request 1 finishes and request 2 takes its slot: it starts from zero. -/
theorem prefill_from_zero_next :
    ∃ s : Worker Nat Nat Nat, (workerSys Nat Nat Nat 1).Reachable s ∧ ∃ m',
      (currentRunTensors (batchOf 2) s.finishedRequestsIds).run s.cache = .ok () m' ∧
      startState m' 0 (.prefill 3 none) = 0 := by
  have hs := oneChunk_reachable.step (WorkerStep.finish 1)
  have hfresh : FreshStarts { oneChunk with finishedRequestsIds := [1] } (batchOf 2)
      (fun _ => .prefill 3 none) := by
    rintro i r ⟨⟨q, hi⟩, -, -⟩
    have hm : (r, q) ∈ flatten (batchOf 2) := List.mem_of_getElem? hi
    obtain ⟨rfl, -⟩ : r = 2 ∧ q = 0 := by simpa [batchOf, flatten, Dict.set] using hm
    exact ⟨rfl, by simp⟩
  exact ⟨_, hs, _, rfl, prefill_from_zero hs (batchOf 2) (fun _ => .prefill 3 none)
    (wellFormed_batchOf 2) hfresh _ rfl 0 2 ⟨⟨0, rfl⟩, rfl, 3, rfl⟩⟩

/-- Request 1 is preempted by recomputation after its first chunk and is scheduled again: its
chunk at context length 0 starts from the state that the first chunk left. -/
theorem preempted_prefill_not_from_zero :
    ∃ s : Worker Nat Nat Nat, (workerSys Nat Nat Nat 1).Reachable s ∧ WellFormed (batchOf 1) ∧
      ∃ m', (currentRunTensors (batchOf 1) s.finishedRequestsIds).run s.cache = .ok () m' ∧
      FromZero s (batchOf 1) (fun _ => .prefill 4 none) 0 1 ∧
      startState m' 0 (.prefill 4 none) = 7 :=
  ⟨_, oneChunk_reachable.step (WorkerStep.preempt 1), wellFormed_batchOf 1, _, rfl,
    ⟨⟨0, rfl⟩, rfl, 4, rfl⟩, rfl⟩

end Bi100.MambaCacheManager
