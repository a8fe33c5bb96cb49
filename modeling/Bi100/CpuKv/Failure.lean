import Bi100.CpuKv.Representation
import Bi100.Lib.Budget

/-!
# Calls of the content index that raise

The calls come in any order, and a run goes on after a call that raised.

- `commitStore_runs`, `resolveDeferredStores_runs`: a store into a slot that the step does not use
  does not raise.
- `Misdirected`: a load is cancelled whose slot a store of this step has taken. `cancel_load` tests
  whether the step uses the slot, not whether it was claimed.
- `raising_call_atomic_iff`: any other call that raises changes nothing.
-/

namespace Bi100.CpuKvContentCache

open Py

variable {H : Type} [DecidableEq H] {c c' : CpuKvContentCache H}

/-! ## Stores do not raise -/

theorem evictOldHash_runs {slot : Nat} (hidle : slot ∉ c.stepSlotsInUse)
    (hhash : ∀ h, c.slotToHash.get? slot = some h → h ∈ c.hashToSlot) :
    (evictOldHash slot).run c = .ok () c ∨
      ∃ h, (evictOldHash slot).run c = .ok () (c.evicted h slot) := by
  rw [evictOldHash, run_get_bind]
  cases hs : c.slotToHash.get? slot with
  | none => exact .inl rfl
  | some oldHash =>
    refine .inr ⟨oldHash, ?_⟩
    dsimp only
    rw [run_raiseIf_bind, if_neg hidle, run_raiseUnless_bind, if_pos (hhash oldHash hs)]
    rfl

theorem commitStore_runs {contentHash : H} {gpuBlock slot : Nat} (hidle : slot ∉ c.stepSlotsInUse)
    (hhash : ∀ h, c.slotToHash.get? slot = some h → h ∈ c.hashToSlot) (hload : slot ∉ c.stepH2d)
    (hstore : slot ∉ c.stepD2h.values) :
    ∃ c', (commitStore contentHash gpuBlock slot).run c = .ok () c' := by
  have hrest : ∀ c₁ : CpuKvContentCache H, c₁.stepH2d = c.stepH2d → c₁.stepD2h = c.stepD2h →
      (evictOldHash slot).run c = .ok () c₁ →
      ∃ c', (commitStore contentHash gpuBlock slot).run c = .ok () c' := by
    intro c₁ hh2d hd2h h₁
    rw [commitStore, run_bind_of_ok h₁, run_get_bind, run_raiseIf_bind, if_neg (hh2d ▸ hload),
      run_raiseIf_bind, if_neg (hd2h ▸ hstore)]
    exact ⟨_, rfl⟩
  rcases evictOldHash_runs hidle hhash with h₁ | ⟨oldHash, h₁⟩
  · exact hrest c rfl rfl h₁
  · exact hrest (c.evicted oldHash slot) rfl rfl h₁

/-- A slot that the step does not use is not in its copies. -/
theorem Core.idle_copies {hole : Option Nat} (hc : Core c hole) {slot : Nat}
    (hidle : slot ∉ c.stepSlotsInUse) : slot ∉ c.stepH2d ∧ slot ∉ c.stepD2h.values :=
  ⟨fun hs => hidle ((hc.in_use slot).mpr (.inl (hc.h2d_load slot hs))),
    fun hs => hidle ((hc.in_use slot).mpr (.inr hs))⟩

theorem Core.hash_resident (hc : Core c none) {slot : Nat} {h : H}
    (hs : c.slotToHash.get? slot = some h) : h ∈ c.hashToSlot :=
  Dict.mem_of_get? ((hc.hash_slot h slot).mpr ⟨hs, by simp⟩)

theorem Core.free_idle (hc : Core c none) {slot : Nat} (hf : slot ∈ c.freeSlots) :
    slot ∉ c.stepSlotsInUse := fun hu =>
  ((hc.free_mem slot).mp hf).2.1 (hc.in_use_res hu)

/-- A store into a free slot. -/
theorem commitStore_free (hc : Core c none) (contentHash : H) (gpuBlock : Nat) {slot : Nat}
    {rest : List Nat} (hpop : heappop c.freeSlots = some (slot, rest)) :
    ∃ c', (commitStore contentHash gpuBlock slot).run { c with freeSlots := rest } =
      .ok () c' := by
  have hidle := hc.free_idle (heappop_eq_some hpop).1
  obtain ⟨hh2d, hd2h⟩ := hc.idle_copies hidle
  exact commitStore_runs (c := { c with freeSlots := rest }) hidle
    (fun h hs => hc.hash_resident hs) hh2d hd2h

omit [DecidableEq H] in
theorem selectStoreSlot_runs (c : CpuKvContentCache H) :
    ∃ r c', selectStoreSlot.run c = .ok r c' := by
  rw [selectStoreSlot, run_get_bind]
  cases heappop c.freeSlots with
  | none => exact ⟨_, _, rfl⟩
  | some p => exact ⟨_, _, rfl⟩

theorem resolveDeferredStore_runs (hc : Core c none) (p : Nat × H) :
    ∃ c', (resolveDeferredStore p).run c = .ok () c' := by
  obtain ⟨r, c₁, h₁⟩ := selectStoreSlot_runs c
  rw [resolveDeferredStore, run_bind_of_ok h₁]
  rcases selectStoreSlot_ok h₁ with ⟨slot, rest, hpop, rfl, rfl⟩ | ⟨rfl, hr⟩
  · exact commitStore_free hc _ _ hpop
  · cases r with
    | none => exact ⟨_, rfl⟩
    | some slot =>
      obtain ⟨-, hidle⟩ := hr slot rfl
      obtain ⟨hh2d, hd2h⟩ := hc.idle_copies hidle
      exact commitStore_runs hidle (fun h hs => hc.hash_resident hs) hh2d hd2h

/-- The loop of the drain, by the induction of `resolve_loop`. -/
theorem resolve_loop_runs {l : List (Nat × H)} (hc : Core c none)
    (hw : Waiting c.hashToSlot c.stepD2h l) :
    ∃ c', (forM l resolveDeferredStore).run c = .ok () c' := by
  induction l generalizing c with
  | nil => exact ⟨c, rfl⟩
  | cons p l ih =>
    obtain ⟨c₁, h₁⟩ := resolveDeferredStore_runs hc p
    rw [List.forM_cons, run_bind_of_ok h₁]
    rcases resolveDeferredStore_ok hc h₁ with rfl | ⟨slot, hs⟩
    · exact ih { hc with } ⟨(List.nodup_cons.mp hw.src_nodup).2,
        (List.nodup_cons.mp hw.hash_nodup).2,
        fun q hq => hw.new_hash q (List.mem_cons_of_mem p hq),
        fun q hq => hw.new_src q (List.mem_cons_of_mem p hq)⟩
    · exact ih (hs.core hc (hw.new_hash p List.mem_cons_self) (hw.new_src p List.mem_cons_self))
        (hs.waiting hw)

theorem resolveDeferredStores_runs (hc : Inv c) :
    ∃ c', resolveDeferredStores.run c = .ok () c' := by
  rw [resolveDeferredStores, run_get_bind]
  split
  · exact ⟨_, rfl⟩
  · obtain ⟨c₁, h₁⟩ := resolve_loop_runs hc.core hc.waiting
    rw [run_bind_of_ok h₁]
    exact ⟨_, rfl⟩

/-! ## The calls -/

theorem beginStep_error {e : Err} (h : beginStep.run c = .error e c') : c' = c := by
  rw [beginStep, run_get_bind, run_raiseIf_bind_error] at h
  rcases h with ⟨-, -, rfl⟩ | ⟨-, h⟩
  · rfl
  · cases h

omit [DecidableEq H] in
theorem requireStepStarted_error {e : Err} (h : requireStepStarted.run c = .error e c') :
    c' = c := by
  rw [requireStepStarted, run_get_bind, ← bind_pure (raiseIf _ _), run_raiseIf_bind_error] at h
  rcases h with ⟨-, -, rfl⟩ | ⟨-, h⟩
  · rfl
  · cases h

theorem claimLoad_error {contentHash : H} {e : Err}
    (h : (claimLoad contentHash).run c = .error e c') : c' = c := by
  rw [claimLoad] at h
  rcases run_bind_error.mp h with h | ⟨_, c₁, h₁, hrest⟩
  · exact requireStepStarted_error h
  obtain ⟨-, he⟩ := requireStepStarted_ok h₁
  rw [run_get_bind, he] at hrest
  split at hrest
  · cases hrest
  split at hrest
  · cases hrest
  rw [run_raiseIf_bind_error] at hrest
  rcases hrest with ⟨-, -, hsame⟩ | ⟨-, hrest⟩
  · exact hsame
  · cases hrest

theorem stageLoad_error {contentHash : H} {cpuSlot gpuBlock : Nat} {e : Err}
    (h : (stageLoad contentHash cpuSlot gpuBlock).run c = .error e c') : c' = c := by
  simp only [stageLoad, run_get_bind, run_raiseIf_bind_error] at h
  rcases h with ⟨-, -, rfl⟩ | ⟨-, ⟨-, -, rfl⟩ | ⟨-, ⟨-, -, rfl⟩ | ⟨-, ⟨-, -, rfl⟩ |
    ⟨-, ⟨-, -, rfl⟩ | ⟨-, ⟨-, -, rfl⟩ | ⟨-, h⟩⟩⟩⟩⟩⟩
  all_goals first | rfl | cases h

theorem stageStore_error (hc : Core c none) {contentHash : H} {gpuBlock : Nat} {e : Err}
    (h : (stageStore contentHash gpuBlock).run c = .error e c') : c' = c := by
  rw [stageStore] at h
  rcases run_bind_error.mp h with h | ⟨_, c₁, h₁, hrest⟩
  · exact requireStepStarted_error h
  obtain ⟨-, he⟩ := requireStepStarted_ok h₁
  rw [run_get_bind, he] at hrest
  split at hrest
  · cases hs : c.hashToSlot.get? contentHash with
    | none =>
      rw [hs] at hrest
      cases hrest
    | some slot =>
      rw [hs] at hrest
      cases hrest
  rw [run_raiseIf_bind_error] at hrest
  rcases hrest with ⟨-, -, hsame⟩ | ⟨-, hrest⟩
  · exact hsame
  split at hrest
  · next slot rest hpop =>
    obtain ⟨c₂, h₂⟩ := commitStore_free hc contentHash gpuBlock hpop
    rw [run_set_bind, run_bind_of_ok h₂] at hrest
    cases hrest
  · cases hrest

/-- A slot that a store of this step has taken is given up for a load. -/
def Misdirected (c : CpuKvContentCache H) : CacheCall H → Prop
  | .cancelLoad h slot => c.hashToSlot.get? h = some slot ∧ slot ∈ c.stepD2h.values
  | _ => False

/-- `cancel_load` has changed the slots in use when it finds that the slot was not claimed. -/
theorem cancelLoad_error (hc : Core c none) {contentHash : H} {slot : Nat} {e : Err}
    (h : (cancelLoad contentHash slot).run c = .error e c') :
    c' = c ↔ ¬ (c.hashToSlot.get? contentHash = some slot ∧ slot ∈ c.stepD2h.values) := by
  simp only [cancelLoad, run_get_bind, run_raiseIf_bind_error, run_set_bind,
    run_raiseUnless_bind_error] at h
  rcases h with ⟨hne, -, rfl⟩ | ⟨hslot, ⟨hload, -, rfl⟩ | ⟨hload, ⟨hidle, -, rfl⟩ |
    ⟨hused, ⟨hclaim, -, rfl⟩ | ⟨-, h⟩⟩⟩⟩
  · exact iff_of_true rfl fun hm => hne hm.1
  · refine iff_of_true rfl fun hm => ?_
    exact (hc.d2h_res slot hm.2).2 (hc.load_ready slot (hc.h2d_load slot hload))
  · exact iff_of_true rfl fun hm => hidle ((hc.in_use slot).mpr (.inr hm.2))
  · have hused : slot ∈ c.stepSlotsInUse := not_not.mp hused
    refine iff_of_false (fun he => ?_) (not_not.mpr ⟨not_not.mp hslot,
      ((hc.in_use slot).mp hused).resolve_left hclaim⟩)
    have herase : c.stepSlotsInUse.erase slot = c.stepSlotsInUse :=
      congrArg stepSlotsInUse he
    exact Finset.notMem_erase slot _ (herase ▸ hused)
  · cases h

theorem call_error (hc : Inv c) {call : CacheCall H} (hcall : call ≠ .drainStep) {e : Err}
    (h : call.run.run c = .error e c') : c' = c ↔ ¬ Misdirected c call := by
  have hdiscard : ∀ {α : Type} {x : EStateM Err (CpuKvContentCache H) α},
      (discard x).run c = .error e c' → x.run c = .error e c' := fun h =>
    (run_bind_error.mp h).resolve_right fun ⟨_, _, _, h⟩ => nomatch h
  cases call with
  | beginStep => exact iff_of_true (beginStep_error h) id
  | claimLoad contentHash => exact iff_of_true (claimLoad_error (hdiscard h)) id
  | cancelLoad contentHash slot => exact cancelLoad_error hc.core h
  | stageLoad contentHash slot gpuBlock => exact iff_of_true (stageLoad_error h) id
  | stageStore contentHash gpuBlock => exact iff_of_true (stageStore_error hc.core (hdiscard h)) id
  | drainStep => exact absurd rfl hcall

/-- The checks of a drain come after the deferred stores. -/
theorem drainStep_error (hc : Inv c) {e : Err} (h : drainStep.run c = .error e c') :
    resolveDeferredStores.run c = .ok () c' := by
  obtain ⟨c₁, h₁⟩ := resolveDeferredStores_runs hc
  rw [drainStep, run_bind_of_ok h₁] at h
  simp only [run_get_bind, run_raiseIf_bind_error, run_set_bind] at h
  rcases h with ⟨-, -, rfl⟩ | ⟨-, ⟨-, -, rfl⟩ | ⟨-, ⟨-, -, rfl⟩ | ⟨-, h⟩⟩⟩
  · exact h₁
  · exact h₁
  · exact h₁
  · cases h

/-- Resolved stores keep the invariant. -/
theorem Inv.resolved (hc : Inv c) (h : resolveDeferredStores.run c = .ok () c') : Inv c' := by
  obtain ⟨hcore, hd, hdh, hpending⟩ := hc.resolve h
  refine ⟨hcore, ?_, ?_, fun hne => absurd hdh hne, hpending, fun hne => ⟨?_, hd⟩⟩
  · rw [hd]
    constructor <;> simp
  · simp [hd, hdh]
  · obtain ⟨c₁, rfl, ⟨hl, rfl⟩ | ⟨hl, hloop⟩⟩ := resolveDeferredStores_ok h
    · exact (hc.pending_idle hne).1
    · by_cases hp : c.pendingReadySlots = ∅
      · obtain ⟨-, hp'⟩ := resolve_loop (I := fun _ c => c.pendingReadySlots = ∅)
          (fun _ _ _ h => h) (fun _ _ _ _ _ _ hp hs => hs.frame.2.2.2.2.trans hp)
          hc.core hc.waiting hp hloop
        exact absurd hp' hne
      · rw [(hc.pending_idle hp).2] at hloop
        obtain ⟨-, rfl⟩ := run_pure_ok.mp hloop
        exact (hc.pending_idle hp).1

/-! ## The runs -/

/-- The runs of the cache: any calls but misdirected ones, and after a call that raises the run
goes on from the state that it left. -/
def anyCallSys (capacity : Int) : Sys (CpuKvContentCache H) where
  init c := init capacity = .ok c
  step c c' := ∃ call : CacheCall H, ¬ Misdirected c call ∧
    (call.run.run c = .ok () c' ∨ ∃ e, call.run.run c = .error e c')

theorem inv_of_anyCall {capacity : Int} (h : (anyCallSys capacity).Reachable c) : Inv c := by
  refine h.invariant (fun c hinit => ?_) fun c c' _ hc hstep => ?_
  · have hinit : init capacity = .ok c := hinit
    unfold init at hinit
    split at hinit
    · cases hinit
    · cases hinit
      exact Inv.fresh _
  · obtain ⟨call, hm, hok | ⟨e, herror⟩⟩ := hstep
    · exact hc.call hok
    · by_cases hcall : call = .drainStep
      · subst hcall
        have herror := (run_bind_error.mp herror).resolve_right fun ⟨_, _, _, h⟩ => nomatch h
        exact hc.resolved (drainStep_error hc herror)
      · exact (call_error hc hcall herror).mpr hm ▸ hc

/-- **A call that raises changes nothing, unless it cancels the load of a slot that a store of this
step has taken.** -/
theorem raising_call_atomic_iff (capacity : Int) (h : (anyCallSys capacity).Reachable c)
    (call : CacheCall H) (hcall : call ≠ .drainStep) (e : Err)
    (hr : call.run.run c = .error e c') : c' = c ↔ ¬ Misdirected c call :=
  call_error (inv_of_anyCall h) hcall hr

/-- A load of a hash that is not resident is staged. -/
theorem raising_call_atomic_load : ((fresh 1 : CpuKvContentCache Nat) = fresh 1) ↔
    ¬ Misdirected (fresh 1) (CacheCall.stageLoad 7 0 3) :=
  raising_call_atomic_iff 1 (.init rfl) (.stageLoad 7 0 3) nofun
    (.runtimeError "CPU KV load key/slot mismatch") rfl

/-- A hash is stored and its slot is given up for a load. -/
theorem cancel_of_store : ∃ c c' : CpuKvContentCache Nat, (cacheSys 1).Reachable c ∧
    (CacheCall.cancelLoad 7 0).run.run c = .error .keyError c' ∧ c' ≠ c := by
  obtain ⟨_, c, hrun, hc⟩ := check_eq_true.mp (show check (CacheCall.stageStore 7 3).run (fresh 1)
    (fun _ c => decide (0 ∈ c.stepSlotsInUse) && raisesWith (CacheCall.cancelLoad 7 0).run c
      .keyError fun c' => decide (0 ∉ c'.stepSlotsInUse)) = true by decide +kernel)
  simp only [Bool.and_eq_true, decide_eq_true_eq, raisesWith_eq_true] at hc
  obtain ⟨hused, c', hr, hidle⟩ := hc
  refine ⟨c, c', .step (.init rfl) ⟨.stageStore 7 3, hrun⟩, hr, ?_⟩
  rintro rfl
  exact hidle hused

end Bi100.CpuKvContentCache
