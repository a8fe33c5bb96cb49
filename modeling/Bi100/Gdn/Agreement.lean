import Bi100.Gdn.Worker
import Bi100.Lib.Run

/-!
# The scheduler's index and the worker's cache agree

Both sides start empty. In a step at most one prefill carries GDN actions: its request may be
admitted in this step (`select_restore`), `schedule()` then derives the actions, and the worker's
forward applies them. The keys on both sides are the same after every step (`Agree`), because the
restored key and the captured ones are among the most recent ones when the index evicts.
-/

namespace Bi100

open Py

variable {D S : Type} [DecidableEq D]

/-- The scheduler's side of a step. `admission` is the live prefix of a request admitted in this
step; its restore key is chosen now. -/
def scheduleGdn (cfg : GdnConfig) (r : GdnPrefill D)
    (admission : Option (List (GdnPrefixKey D) × Nat)) :
    EStateM Err (GdnPrefixStatePolicy D) (GdnActions D) := do
  match admission with
  | some (livePrefixKeys, maxBlocks) =>
    let key ← GdnPrefixStatePolicy.selectRestore livePrefixKeys maxBlocks
    prefillActions cfg { r with restoreKey := key }
  | none => prefillActions cfg { r with restoreKey := none }

structure GdnSystem (D S : Type) where
  scheduler : GdnPrefixStatePolicy D
  worker : Dict (GdnPrefixKey D) S

/-- One executed step with a prefill that carries GDN actions. -/
inductive GdnStep : GdnSystem D S → GdnSystem D S → Prop where
  | prefill {s s' : GdnSystem D S} (cfg : GdnConfig) (r : GdnPrefill D)
      (admission : Option (List (GdnPrefixKey D) × Nat)) (actions : GdnActions D)
      (queryLen : Nat) (run : Option S → Nat → S)
      (hs : (scheduleGdn cfg r admission).run s.scheduler = .ok actions s'.scheduler)
      (hw : (GdnWorker.forward actions queryLen run).run s.worker = .ok () s'.worker) :
    GdnStep s s'

/-- All runs from empty caches under one policy. -/
def gdnSys (D S : Type) [DecidableEq D] (policy : GdnCachePolicy) : Sys (GdnSystem D S) where
  init s := s = ⟨.init policy, ∅⟩
  step := GdnStep

/-- The invariant between steps. -/
structure Agree (policy : GdnCachePolicy) (s : GdnSystem D S) : Prop where
  same_policy : s.scheduler.policy = policy
  same : ∀ key, key ∈ s.worker ↔ key ∈ s.scheduler.residentKeys
  bounded : s.scheduler.residentKeys.length ≤ policy.capacity

theorem GdnCachePolicy.capacity_ge {policy : GdnCachePolicy} (h : policy.capacity ≠ 0) :
    32 ≤ policy.capacity := by
  cases policy <;> simp [capacity] at h ⊢

/-- The actions of a step: the index after it is the mirror of the messages, and the restore key
is resident and survives the step's evictions. -/
theorem scheduleGdn_ok {cfg : GdnConfig} {r : GdnPrefill D}
    {admission : Option (List (GdnPrefixKey D) × Nat)} {p p' : GdnPrefixStatePolicy D}
    {a : GdnActions D} (hb : p.residentKeys.length ≤ p.capacity)
    (h : (scheduleGdn cfg r admission).run p = .ok a p') :
    p'.policy = p.policy ∧ p'.residentKeys.length ≤ p.capacity ∧
    (∀ key, key ∈ p'.residentKeys ↔
      (key ∈ p.residentKeys ∧ key ∉ a.evictKeys) ∨ key ∈ a.capturePoints.map Prod.snd) ∧
    (∀ key ∈ a.restoreKey, key ∈ p.residentKeys ∧ key ∉ a.evictKeys) := by
  -- the index after the choice of the restore key, and that key
  obtain ⟨q, key, hq, hqk, hrun⟩ : ∃ (q : GdnPrefixStatePolicy D)
      (key : Option (GdnPrefixKey D)), q.policy = p.policy ∧
      ((key = none ∧ q = p) ∨ ∃ k, key = some k ∧ k ∈ p.residentKeys ∧
        q.residentKeys = Lru.touch p.residentKeys k) ∧
      (prefillActions cfg { r with restoreKey := key }).run q = .ok a p' := by
    cases admission with
    | none => exact ⟨p, none, rfl, .inl ⟨rfl, rfl⟩, h⟩
    | some adm =>
      rw [scheduleGdn, run_bind_ok] at h
      obtain ⟨key, q, hsel, hrun⟩ := h
      obtain ⟨hq, hk | ⟨k, hk, -, hres, htouch⟩⟩ := GdnPrefixStatePolicy.selectRestore_ok hsel
      · exact ⟨q, key, hq, .inl hk, hrun⟩
      · exact ⟨q, key, hq, .inr ⟨k, hk, hres, htouch⟩, hrun⟩
  have hnd : p.residentKeys.Nodup := Dict.nodup_keys _
  have hmem : ∀ k, k ∈ q.residentKeys ↔ k ∈ p.residentKeys := by
    rcases hqk with ⟨-, rfl⟩ | ⟨k, -, hk, htouch⟩
    · exact fun _ => Iff.rfl
    · intro x
      rw [htouch, Lru.mem_touch]
      exact ⟨fun h => h.elim id (fun he => he ▸ hk), .inl⟩
  have hrestore : ∀ k ∈ key, k ∈ p.residentKeys ∧ Lru.Recent 1 q.residentKeys k := by
    rintro k hk
    rcases hqk with ⟨rfl, -⟩ | ⟨k', rfl, hres, htouch⟩
    · cases hk
    · cases hk
      exact ⟨hres, htouch ▸ Lru.recent_touch_self _ _⟩
  have hqn : q.residentKeys.Nodup := Dict.nodup_keys _
  have hqb : q.residentKeys.length ≤ p.capacity := by
    have hp : q.residentKeys.Perm p.residentKeys :=
      (List.perm_ext_iff_of_nodup hqn hnd).mpr hmem
    exact hp.length_eq ▸ hb
  have hcap : q.capacity = p.capacity := by
    rw [GdnPrefixStatePolicy.capacity, hq, GdnPrefixStatePolicy.capacity]
  obtain ⟨hkey, ⟨-, rfl, hpts, hev, -⟩ | ⟨hoff, -, ⟨targets, -, hcap2⟩, hadmit⟩⟩ :=
    prefillActions_ok hrun
  · refine ⟨hq, hqb, fun x => ?_, fun x hx => ?_⟩
    · simp [hpts, hev, hmem x]
    · rw [hkey] at hx
      have hx' : x ∈ key := by
        rw [GdnPrefill.sentRestoreKey] at hx
        split at hx
        · exact hx
        · cases hx
      exact ⟨(hrestore x hx').1, by simp [hev]⟩
  · obtain ⟨hp', ⟨hz, -, -⟩ | ⟨hz, heq⟩⟩ := GdnPrefixStatePolicy.admitCaptures_ok hadmit
    · -- only the policy `off` has capacity 0
      cases hpol : q.policy with
      | off => exact absurd hpol hoff
      | fine32 => simp [GdnPrefixStatePolicy.capacity, hpol, GdnCachePolicy.capacity] at hz
      | admission64 => simp [GdnPrefixStatePolicy.capacity, hpol, GdnCachePolicy.capacity] at hz
    · have hge : 32 ≤ q.capacity := GdnCachePolicy.capacity_ge hz
      have hlen : (a.capturePoints.map Prod.snd).length ≤ 2 := by
        rw [List.length_map]
        exact capturePointsForStep_length hcap2
      obtain ⟨hev, hres⟩ := Prod.mk.injEq .. ▸ heq
      refine ⟨hp'.trans hq, ?_, fun x => ?_, fun x hx => ?_⟩
      · rw [← hcap, GdnPrefixStatePolicy.residentKeys, hres]
        exact Lru.length_admitAll (by rw [hcap]; exact hqb) _
      · rw [← hmem x, GdnPrefixStatePolicy.residentKeys, hres, hev]
        exact Lru.admitAll_mirror hqn (by omega) x
      · rw [hkey] at hx
        have hx' : x ∈ key := by
          rw [GdnPrefill.sentRestoreKey] at hx
          split at hx
          · exact hx
          · cases hx
        obtain ⟨hxp, hrec⟩ := hrestore x hx'
        refine ⟨hxp, hev ▸ (Lru.admitAll_recent hqn hrec ?_).2⟩
        omega

theorem Agree.step {policy : GdnCachePolicy} {s s' : GdnSystem D S} (h : Agree policy s)
    (hs : GdnStep s s') : Agree policy s' := by
  obtain ⟨cfg, r, admission, actions, queryLen, run, hsched, hwork⟩ := hs
  have hcap : s.scheduler.capacity = policy.capacity := by
    rw [GdnPrefixStatePolicy.capacity, h.same_policy]
  obtain ⟨hp, hb, hmirror, -⟩ := scheduleGdn_ok (hcap ▸ h.bounded) hsched
  refine ⟨hp.trans h.same_policy, fun key => ?_, hcap ▸ hb⟩
  rw [GdnWorker.forward_ok hwork key, hmirror key, h.same key]

theorem agree_of_reachable {policy : GdnCachePolicy} {s : GdnSystem D S}
    (h : (gdnSys D S policy).Reachable s) : Agree policy s := by
  refine h.invariant (I := Agree policy) ?_ fun _ _ _ hI hs => hI.step hs
  rintro s rfl
  exact ⟨rfl, by simp [GdnPrefixStatePolicy.init, GdnPrefixStatePolicy.residentKeys],
    Nat.zero_le _⟩

/-- After every executed step of every run the worker holds exactly the states that the scheduler
counts as resident, at most `capacity` of them; and whatever the next step is, the key that it
restores is in the worker's cache after the step's evictions. -/
theorem gdn_prefix_agreement {policy : GdnCachePolicy} {s : GdnSystem D S}
    (h : (gdnSys D S policy).Reachable s) :
    (∀ key, key ∈ s.worker ↔ key ∈ s.scheduler.residentKeys) ∧
    s.worker.size ≤ policy.capacity ∧ s.scheduler.residentKeys.length ≤ policy.capacity ∧
    ∀ cfg r admission actions scheduler,
      (scheduleGdn cfg r admission).run s.scheduler = .ok actions scheduler →
      ∀ cache, (forM actions.evictKeys GdnWorker.evictKey).run s.worker = .ok () cache →
      ∀ key ∈ actions.restoreKey, key ∈ cache := by
  have ha := agree_of_reachable h
  have hcap : s.scheduler.capacity = policy.capacity := by
    rw [GdnPrefixStatePolicy.capacity, ha.same_policy]
  refine ⟨ha.same, ?_, ha.bounded, ?_⟩
  · have hperm : s.worker.keys.Perm s.scheduler.residentKeys :=
      (List.perm_ext_iff_of_nodup (Dict.nodup_keys _) (Dict.nodup_keys _)).mpr ha.same
    rw [← Dict.length_keys, hperm.length_eq]
    exact ha.bounded
  · intro cfg r admission actions scheduler hs cache hev key hkey
    obtain ⟨-, -, -, hrestore⟩ := scheduleGdn_ok (hcap ▸ ha.bounded) hs
    obtain ⟨hres, hnot⟩ := hrestore key hkey
    rw [Dict.mem_iff, GdnWorker.evictKeys_ok hev key, if_neg hnot, ← Dict.mem_iff]
    exact (ha.same key).mpr hres

/-- A prompt of five tokens captures its first block; the next request with the same prompt
restores it. -/
theorem gdn_prefix_agreement_restore :
    ∃ s : GdnSystem Nat Nat, (gdnSys Nat Nat .fine32).Reachable s ∧
      ∃ cfg r admission actions scheduler cache,
        (scheduleGdn cfg r admission).run s.scheduler = .ok actions scheduler ∧
        actions.restoreKey = some (1, 10) ∧
        (forM actions.evictKeys GdnWorker.evictKey).run s.worker = .ok () cache ∧
        (1, 10) ∈ cache := by
  let cfg : GdnConfig := ⟨.direct, 2, 2, 8⟩
  let r : GdnPrefill Nat := ⟨[10, 20], 5, 0, 5, none, []⟩
  let first : GdnActions Nat := ⟨none, [(2, 1, 10)], [], []⟩
  have hruns : check (do
      let a₁ ← scheduleGdn cfg r none
      let a₂ ← scheduleGdn cfg r (some ([(1, 10)], 1))
      pure (a₁, a₂)) (.init .fine32)
      (fun a _ => a.1 = first ∧ a.2.restoreKey = some (1, 10) ∧ a.2.evictKeys = []) := by
    decide +kernel
  have hwork : check (GdnWorker.forward first 5 fun _ n => n) (∅ : Dict (GdnPrefixKey Nat) Nat)
      (fun _ _ => true) := by
    decide +kernel
  obtain ⟨⟨a₁, a₂⟩, p₂, hruns, ha⟩ := check_eq_true.mp hruns
  rw [run_bind_ok] at hruns
  obtain ⟨_, p₁, h₁, hruns⟩ := hruns
  rw [run_bind_ok] at hruns
  obtain ⟨_, p₂, h₂, hruns⟩ := hruns
  obtain ⟨heq, rfl⟩ := run_pure_ok.mp hruns
  cases heq
  obtain ⟨rfl, hkey, hev⟩ := of_decide_eq_true ha
  obtain ⟨_, c₁, hwork, -⟩ := check_eq_true.mp hwork
  have hs : (gdnSys Nat Nat .fine32).Reachable ⟨p₁, c₁⟩ :=
    Sys.Reachable.step (.init rfl) (GdnStep.prefill cfg r none first 5 _ h₁ hwork)
  have hnone : (forM a₂.evictKeys GdnWorker.evictKey).run c₁ = .ok () c₁ := by
    rw [hev]; rfl
  exact ⟨_, hs, cfg, r, _, a₂, _, c₁, h₂, hkey, hnone,
    (gdn_prefix_agreement hs).2.2.2 cfg r _ a₂ _ h₂ c₁ hnone (1, 10) hkey⟩

end Bi100
