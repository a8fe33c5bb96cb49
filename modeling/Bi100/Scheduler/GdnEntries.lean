import Bi100.Scheduler.Requests

/-!
# The GDN choices of a request (`_gdn_request_restore_keys`, `_gdn_request_capture_targets`)

A request gets an entry in both tables when it is admitted. The pass that schedules the end of its
prompt drops the entry, and so does `_free_finished_seq_group`; the other ways out of the running
queue leave it (`abort_seq_group`, `_preempt_by_recompute`, a swapped group that can never be
swapped in, a group that the asynchronous engine stops).

- `entries_in_progress`: while no request with an entry takes one of these, every entry belongs to
  a prefill in progress, and no waiting request has one.
- `abort_leaves_entry`: a run that aborts a request in the middle of its prompt.
-/

namespace Bi100.Scheduler

open Py

variable {M D : Type} {cfg : Config} {ops : BlockManagerOps M D} {mode : Option PreemptionMode}

/-- One of the tables has an entry for the request. -/
def HasEntry (s : Scheduler M D) (requestId : String) : Prop :=
  requestId ∈ s.gdnRequestRestoreKeys ∨ requestId ∈ s.gdnRequestCaptureTargets

/-- Every entry belongs to a prefill in progress, and no waiting request has one. -/
structure EntriesInProgress (s : Scheduler M D) : Prop where
  inProgress : ∀ requestId, HasEntry s requestId →
    ∃ g ∈ s.running ++ s.swapped, g.requestId = requestId ∧ g.isPrefill = true ∧
      g.isFinished = false
  waiting : ∀ g ∈ s.waiting, ¬ HasEntry s g.requestId

/-! ## Where the entries are dropped -/

/-- A victim with an entry is not preempted by recomputation. -/
def KeepsVictim (cfg : Config) (ops : BlockManagerOps M D) (mode : Option PreemptionMode)
    (victim : SeqGroup) (p : Pass M D) : Prop :=
  HasEntry p.toScheduler victim.requestId →
    ∀ g, AfterCallback cfg ops p.blockManager victim g → preemptionMode mode g = .swap

/-- None of the victims that the loop takes is. -/
def KeepsVictims (cfg : Config) (ops : BlockManagerOps M D) (mode : Option PreemptionMode)
    (g : SeqGroup) (n : Int) : List SeqGroup → Pass M D → Prop
  | [], _ => True
  | victim :: queue, p =>
    ops.canAppendSlots p.blockManager g (getNumLookaheadSlots cfg g.isPrefill true) = false →
      KeepsVictim cfg ops mode victim p ∧
      ∀ p', preemptVictim cfg ops mode victim (uncount g n p) = .ok p' →
        KeepsVictims cfg ops mode g n queue p'

/-- The steps of a run that lose no request with an entry: it is not aborted, stopped at the model's
length, preempted by recomputation or found too large to swap in; and a group that is admitted
prefills. -/
def keepsEntries (cfg : Config) (ops : BlockManagerOps M D) (mode : Option PreemptionMode) :
    Allowed M D where
  abort s requestIds := ∀ requestId ∈ requestIds, ¬ HasEntry s requestId
  iteration
    | .idle _ _ => True
    | .running p => ∀ g queue, p.running = g :: queue →
      ((cfg.useAsyncOutputProc ∧ ∃ seq ∈ g.seqs.head?, cfg.maxModelLen < seq.len) →
        ¬ HasEntry p.toScheduler g.requestId) ∧
      ∀ n chunk, getNumNewTokens cfg g .running true p.budget = .ok n → n ≠ 0 →
        runningChunk cfg g p n = .ok chunk →
        KeepsVictims cfg ops mode g chunk (queue.reverse ++ [g]) p
    | .swapped p => ∀ g queue, p.swapped = g :: queue →
      ops.canSwapIn p.blockManager g (getNumLookaheadSlots cfg g.isPrefill false) = .never →
      ¬ HasEntry p.toScheduler g.requestId
    | .prefills p => ∀ g queue, p.waiting = g :: queue → g.isPrefill = true

/-! ## The invariant -/

/-- The group prefills for the request. -/
def prefilling (requestId : String) (g : SeqGroup) : Bool :=
  hasId requestId g && g.isPrefill && !g.isFinished

theorem prefilling_iff {requestId : String} {g : SeqGroup} : prefilling requestId g = true ↔
    g.requestId = requestId ∧ g.isPrefill = true ∧ g.isFinished = false := by
  unfold prefilling hasId
  simp [and_assoc]

theorem prefilling_eq_false {requestId : String} {g : SeqGroup} (h : g.requestId ≠ requestId) :
    prefilling requestId g = false := by
  rw [Bool.eq_false_iff, ne_eq, prefilling_iff]
  exact fun hp => h hp.1

/-- How many groups of a pass that were admitted satisfy `q`; a decode does not count. -/
def Pass.admitted (p : Pass M D) (q : SeqGroup → Bool) : Nat :=
  p.running.countP q + p.swapped.countP q + p.swappedOut.countP q + p.leftoverSwapped.countP q +
    (p.prefills.map ScheduledSequenceGroup.seqGroup).countP q +
    (p.runningPrefills.map ScheduledSequenceGroup.seqGroup).countP q +
    (p.swappedInPrefills.map ScheduledSequenceGroup.seqGroup).countP q

/-- Every entry of a pass belongs to a prefill. -/
def PassEntries (p : Pass M D) : Prop :=
  ∀ requestId, HasEntry p.toScheduler requestId → 0 < p.admitted (prefilling requestId)

/-- Between the passes. A scheduled prefill with an entry does not complete its prompt. -/
structure IdleEntries (s : Scheduler M D) (scheduled : List ScheduledSequenceGroup) : Prop where
  prefilling : ∀ requestId, HasEntry s requestId →
    ∃ g ∈ s.running ++ s.swapped, prefilling requestId g = true
  chunk : ∀ sg ∈ scheduled, sg.seqGroup.isPrefill = true → HasEntry s sg.seqGroup.requestId →
    ∃ seq, sg.seqGroup.seqs = [seq] ∧ seq.numComputedTokens + sg.tokenChunkSize < seq.len

def EntriesInv : RunState M D → Prop
  | .idle s scheduled => IdleEntries s scheduled
  | .running p | .swapped p | .prefills p => PassEntries p

theorem isFinished_setStatus {g : SeqGroup} {old new : SequenceStatus}
    (hnew : new.isFinished = false) (h : g.isFinished = false) :
    (g.setStatus old new).isFinished = false := by
  unfold SeqGroup.isFinished SeqGroup.setStatus at *
  rw [List.all_eq_false] at h ⊢
  obtain ⟨seq, hseq, hlive⟩ := h
  refine ⟨_, List.mem_map_of_mem hseq, ?_⟩
  split
  · rw [hnew]
    decide
  · exact hlive

theorem prefilling_setStatus {requestId : String} {g : SeqGroup} {old new : SequenceStatus}
    (hnew : new.isFinished = false) (h : prefilling requestId g = true) :
    prefilling requestId (g.setStatus old new) = true := by
  obtain ⟨hid, hpre, hlive⟩ := prefilling_iff.mp h
  exact prefilling_iff.mpr ⟨hid, (isPrefill_setStatus g old new).trans hpre,
    isFinished_setStatus hnew hlive⟩

theorem HasEntry.erase {s s' : Scheduler M D} {requestId requestId' : String}
    (hkeys : s'.gdnRequestRestoreKeys = s.gdnRequestRestoreKeys.erase requestId')
    (htargets : s'.gdnRequestCaptureTargets = s.gdnRequestCaptureTargets.erase requestId')
    (h : HasEntry s' requestId) : requestId' ≠ requestId ∧ HasEntry s requestId := by
  unfold HasEntry at h ⊢
  rw [hkeys, htargets, Dict.mem_erase, Dict.mem_erase] at h
  rcases h with ⟨hne, h⟩ | ⟨hne, h⟩
  · exact ⟨hne.symm, .inl h⟩
  · exact ⟨hne.symm, .inr h⟩

/-! ## Iterations -/

/-- A victim with an entry is swapped out, or finished. -/
theorem PassEntries.removed {p p' : Pass M D} {v : SeqGroup} {rest : List SeqGroup}
    (hk : KeepsRequests ops) (h : PassEntries { p with running := v :: rest })
    (hkeep : KeepsVictim cfg ops mode v p) (hrem : Removed cfg ops mode v p p') :
    PassEntries { p' with running := rest } := by
  intro requestId hentry
  cases hrem with
  | @finished g m hg hfin =>
    obtain ⟨hne, hentry⟩ := HasEntry.erase (s := p.toScheduler) rfl rfl hentry
    have hcount := h requestId hentry
    have hv := prefilling_eq_false ((hk.afterCallback hg).1 ▸ hne)
    unfold Pass.admitted at hcount ⊢
    rw [List.countP_cons, if_neg (by rw [hv]; decide)] at hcount
    exact hcount
  | @recompute g m hg hlive hmode =>
    have hcount := h requestId hentry
    have hv : prefilling requestId v = false := by
      refine prefilling_eq_false fun hid => ?_
      have := hkeep (hid ▸ hentry) g hg
      rw [hmode] at this
      cases this
    unfold Pass.admitted at hcount ⊢
    rw [List.countP_cons, if_neg (by rw [hv]; decide)] at hcount
    exact hcount
  | @swap g m hg hlive hmode =>
    have hcount := h requestId hentry
    unfold Pass.admitted at hcount ⊢
    simp only [List.countP_cons, List.countP_append] at hcount ⊢
    by_cases hv : prefilling requestId v = true
    · have hg' : prefilling requestId (g.setStatus .running .swapped) = true := by
        obtain ⟨hid, hpre, hfin⟩ := prefilling_iff.mp hv
        obtain ⟨hid', hpre'⟩ := hk.afterCallback hg
        refine prefilling_setStatus rfl (prefilling_iff.mpr ⟨hid'.trans hid, hpre' hpre, ?_⟩)
        rcases hlive with rfl | hlive
        · exact hfin
        · exact hlive
      rw [if_pos hg']
      omega
    · rw [if_neg hv] at hcount
      omega

theorem PassEntries.perm {p : Pass M D} {l l' : List SeqGroup} (hl : l.Perm l')
    (h : PassEntries { p with running := l }) : PassEntries { p with running := l' } := by
  intro requestId hentry
  have hcount := h requestId hentry
  unfold Pass.admitted at hcount ⊢
  rw [← hl.countP_eq]
  exact hcount

theorem PassEntries.scheduleRunning {p p' : Pass M D} {g : SeqGroup} {n : Int}
    {queue : List SeqGroup} (h : PassEntries { p with running := g :: queue })
    (hsched : scheduleRunning cfg ops g n { p with running := queue } = .ok p') :
    PassEntries p' := by
  intro requestId
  obtain ⟨m, ⟨hpre, rfl⟩ | ⟨hpre, rfl⟩⟩ := scheduleRunning_ok hsched
  · intro hentry
    have hcount := h requestId hentry
    unfold Pass.admitted at hcount ⊢
    simp only [List.countP_cons, List.map_append, List.map_singleton, List.countP_append] at hcount ⊢
    omega
  · intro hentry
    have hcount := h requestId hentry
    have hg : ¬ prefilling requestId g = true := fun hg => by
      obtain ⟨-, hpre', -⟩ := prefilling_iff.mp hg
      rw [hpre] at hpre'
      cases hpre'
    unfold Pass.admitted at hcount ⊢
    rw [List.countP_cons, if_neg hg] at hcount
    exact hcount

theorem runningStep_entries {p p' : Pass M D} (hk : KeepsRequests ops) (hp : PassEntries p)
    (hok : (keepsEntries cfg ops mode).iteration (.running p))
    (h : runningStep cfg ops mode p = .ok (some p')) : PassEntries p' := by
  obtain ⟨g, queue, n, chunk, hrun, hn, hne, hchunk, hcase⟩ := runningStep_cases h
  obtain ⟨hstopOk, hvictims⟩ := hok g queue hrun
  have hkeeps := hvictims n chunk hn hne hchunk
  have hp' : PassEntries { p with running := g :: queue } := hrun ▸ hp
  have hlast : PassEntries { p with running := queue.reverse ++ [g] } :=
    hp'.perm (by simpa using (List.reverse_perm (g :: queue)).symm)
  have hrule {p₁ : Pass M D} {hasRoom : Bool}
      (hroom : makeRoom cfg ops mode g chunk queue.reverse p = .ok (p₁, hasRoom)) :=
    makeRoom_rule (J := fun l p => PassEntries { p with running := l } ∧
        KeepsVictims cfg ops mode g chunk l p)
      (fun v rest p₁ p₂ hJ hno hpre => by
        obtain ⟨hv, hrest⟩ := hJ.2 hno
        exact ⟨PassEntries.removed (p := uncount g chunk p₁) hk hJ.1 hv (preemptVictim_removed hpre),
          hrest p₂ hpre⟩)
      ⟨hlast, hkeeps⟩ hroom
  rcases hcase with ⟨hstop, rfl⟩ | hroom | ⟨p₁, hroom, hsched⟩
  · intro requestId hentry
    have hcount := hp' requestId hentry
    have hg : prefilling requestId g = false :=
      prefilling_eq_false fun hid => hstopOk hstop (hid ▸ hentry)
    unfold Pass.admitted at hcount ⊢
    rw [List.countP_cons, if_neg (by rw [hg]; decide)] at hcount
    exact hcount
  · rcases hrule hroom with ⟨hno, -⟩ | ⟨-, p₁, hJ, rfl⟩
    · cases hno
    · exact hJ.1
  · rcases hrule hroom with ⟨-, rest, p₁, hJ, rfl⟩ | ⟨hno, -⟩
    · refine PassEntries.scheduleRunning (hJ.1.perm ?_) hsched
      simpa using (List.reverse_perm (rest ++ [g])).symm
    · cases hno

theorem swappedStep_entries {p p' : Pass M D} (hp : PassEntries p)
    (hok : (keepsEntries cfg ops mode).iteration (.swapped p))
    (h : swappedStep cfg ops p = .ok (some p')) : PassEntries p' := by
  obtain ⟨g, queue, hsw, hcase⟩ := swappedStep_cases h
  intro requestId hentry'
  have hentry : HasEntry p.toScheduler requestId := by
    rcases hcase with ⟨-, ignored, rfl⟩ | rfl | ⟨n, -, -, hsched⟩
    · exact hentry'
    · exact hentry'
    · obtain ⟨m, ⟨-, rfl⟩ | ⟨-, rfl⟩⟩ := scheduleSwapped_ok hsched
      · exact hentry'
      · exact hentry'
  have hcount := hp requestId hentry
  unfold Pass.admitted at hcount ⊢
  rw [hsw, List.countP_cons] at hcount
  rcases hcase with ⟨hnever, ignored, rfl⟩ | rfl | ⟨n, -, -, hsched⟩
  · have hg : prefilling requestId g = false :=
      prefilling_eq_false fun hid => hok g queue hsw hnever (hid ▸ hentry)
    rw [if_neg (by rw [hg]; decide)] at hcount
    exact hcount
  · simp only [List.countP_cons]
    omega
  · obtain ⟨m, ⟨hpre, rfl⟩ | ⟨hpre, rfl⟩⟩ := scheduleSwapped_ok hsched
    · simp only [List.map_append, List.map_singleton, List.countP_append, List.countP_singleton]
      by_cases hg : prefilling requestId g = true
      · rw [if_pos (prefilling_setStatus rfl hg)]
        omega
      · rw [if_neg hg] at hcount
        omega
    · have hg : ¬ prefilling requestId g = true := fun hg => by
        obtain ⟨-, hpre', -⟩ := prefilling_iff.mp hg
        rw [hpre] at hpre'
        cases hpre'
      rw [if_neg hg] at hcount
      exact hcount

theorem HasEntry.set {s s' : Scheduler M D} {requestId requestId' : String}
    {key : Option (GdnPrefixKey D)} {targets : List (GdnPrefixKey D)}
    (hkeys : s'.gdnRequestRestoreKeys = s.gdnRequestRestoreKeys.set requestId' key)
    (htargets : s'.gdnRequestCaptureTargets = s.gdnRequestCaptureTargets.set requestId' targets)
    (h : HasEntry s' requestId) : requestId' = requestId ∨ HasEntry s requestId := by
  unfold HasEntry at h ⊢
  rw [hkeys, htargets, Dict.mem_set, Dict.mem_set] at h
  tauto

/-- An admitted group has a sequence to run. -/
theorem isFinished_admitted {g : SeqGroup} {seq : Seq} (h : g.getSeqs .waiting = [seq]) :
    (g.setStatus .waiting .running).isFinished = false := by
  have hseq : seq ∈ g.getSeqs .waiting := by
    rw [h]
    exact List.mem_singleton_self seq
  obtain ⟨hmem, hstatus⟩ := List.mem_filter.mp hseq
  refine isFinished_setStatus rfl ?_
  unfold SeqGroup.isFinished
  rw [List.all_eq_false]
  refine ⟨seq, hmem, ?_⟩
  rw [of_decide_eq_true hstatus]
  decide

section

variable [DecidableEq D]

theorem prefillStep_entries {p p' : Pass M D} (hp : PassEntries p)
    (hok : (keepsEntries cfg ops mode).iteration (.prefills p))
    (h : prefillStep cfg ops p = .ok (some p')) : PassEntries p' := by
  obtain ⟨g, queue, seq, hw, hseqs, hcase⟩ := prefillStep_cases h
  intro requestId
  rcases hcase with rfl | rfl | ⟨n, -, -, -, hadm⟩
  · exact fun hentry => hp requestId hentry
  · exact fun hentry => hp requestId hentry
  · cases hadm with
    | plain hc =>
      intro hentry
      have hcount := hp requestId hentry
      unfold Pass.admitted at hcount ⊢
      simp only [List.map_append, List.countP_append]
      omega
    | gdn hc hplan =>
      intro hentry
      unfold Pass.admitted
      simp only [List.map_append, List.map_singleton, List.countP_append, List.countP_singleton]
      rcases HasEntry.set (s := p.toScheduler) rfl rfl hentry with hid | hold
      · have hg : prefilling requestId (g.setStatus .waiting .running) = true :=
          prefilling_iff.mpr ⟨hid, (isPrefill_setStatus g _ _).trans (hok g queue hw),
            isFinished_admitted hseqs⟩
        rw [if_pos hg]
        omega
      · have hcount := hp requestId hold
        unfold Pass.admitted at hcount
        omega

/-! ## The end of a pass -/

theorem gdnActions_entries {g : SeqGroup} {seq : Seq} {n : Int} {s s' : Scheduler M D}
    (h : gdnActions cfg ops g seq n s = .ok s') :
    s'.gdnRequestRestoreKeys = s.gdnRequestRestoreKeys ∧
      s'.gdnRequestCaptureTargets = s.gdnRequestCaptureTargets := by
  unfold gdnActions at h
  obtain ⟨-, h⟩ := guardNot_bind_eq_ok.mp h
  obtain ⟨-, h⟩ := guardNot_bind_eq_ok.mp h
  obtain ⟨hashes, -, h⟩ := bind_eq_ok.mp h
  dsimp only at h
  split at h
  · exact (throw_eq_ok.mp h).elim
  · obtain rfl := pure_eq_ok.mp h
    exact ⟨rfl, rfl⟩

/-- The metadata of a prefill drops the entry at the end of its prompt, and no other. -/
theorem metadataStep_entries {s s' : Scheduler M D} {sg : ScheduledSequenceGroup}
    (h : metadataStep cfg ops s sg = .ok s') :
    (∀ requestId, HasEntry s' requestId → HasEntry s requestId) ∧
    (sg.seqGroup.isPrefill = true → HasEntry s' sg.seqGroup.requestId → ∃ seq,
      sg.seqGroup.seqs = [seq] ∧ seq.numComputedTokens + sg.tokenChunkSize < seq.len) := by
  unfold metadataStep at h
  split at h
  · cases hseqs : sg.seqGroup.seqs with
    | nil =>
      rw [hseqs] at h
      exact (throw_eq_ok.mp h).elim
    | cons seq rest =>
      rw [hseqs] at h
      cases rest with
      | cons => exact (throw_eq_ok.mp h).elim
      | nil =>
        dsimp only at h
        obtain ⟨s₁, hkeys, htargets, rfl⟩ : ∃ s₁ : Scheduler M D,
            s₁.gdnRequestRestoreKeys = s.gdnRequestRestoreKeys ∧
            s₁.gdnRequestCaptureTargets = s.gdnRequestCaptureTargets ∧
            s' = dropChoice sg.seqGroup seq sg.tokenChunkSize s₁ := by
          unfold prefillMetadata at h
          split at h
          · obtain ⟨s₁, hact, rfl⟩ := map_eq_ok.mp h
            exact ⟨s₁, (gdnActions_entries hact).1, (gdnActions_entries hact).2, rfl⟩
          · exact ⟨s, rfl, rfl, pure_eq_ok.mp h⟩
        have hsame (requestId : String) : HasEntry s₁ requestId ↔ HasEntry s requestId := by
          unfold HasEntry
          rw [hkeys, htargets]
        unfold dropChoice
        split
        · refine ⟨fun requestId hentry => (hsame _).mp (HasEntry.erase rfl rfl hentry).2,
            fun _ hentry => ?_⟩
          exact absurd rfl (HasEntry.erase (s := s₁) rfl rfl hentry).1
        · next hlt =>
          exact ⟨fun requestId hentry => (hsame _).mp hentry, fun _ _ => ⟨seq, rfl, by omega⟩⟩
  · next hdec =>
    obtain rfl := pure_eq_ok.mp h
    exact ⟨fun _ => id, fun hpre => absurd hpre hdec⟩

theorem metadata_entries {l : List ScheduledSequenceGroup} {s s' : Scheduler M D}
    (h : l.foldlM (metadataStep cfg ops) s = .ok s') :
    (∀ requestId, HasEntry s' requestId → HasEntry s requestId) ∧
    ∀ sg ∈ l, sg.seqGroup.isPrefill = true → HasEntry s' sg.seqGroup.requestId → ∃ seq,
      sg.seqGroup.seqs = [seq] ∧ seq.numComputedTokens + sg.tokenChunkSize < seq.len := by
  induction l generalizing s with
  | nil =>
    obtain rfl := pure_eq_ok.mp h
    exact ⟨fun _ => id, fun sg hsg => absurd hsg List.not_mem_nil⟩
  | cons sg l ih =>
    rw [List.foldlM_cons] at h
    obtain ⟨s₁, h₁, h⟩ := bind_eq_ok.mp h
    obtain ⟨hstep, hchunk⟩ := metadataStep_entries h₁
    obtain ⟨hfold, hchunks⟩ := ih h
    refine ⟨fun requestId hentry => hstep _ (hfold _ hentry), List.forall_mem_cons.mpr ⟨?_, hchunks⟩⟩
    exact fun hpre hentry => hchunk hpre (hfold _ hentry)

omit [DecidableEq D] in
theorem mark_entries {l : List ScheduledSequenceGroup} {s s' : Scheduler M D}
    (h : l.foldlM (markStep ops) s = .ok s') :
    ∀ requestId, HasEntry s' requestId → HasEntry s requestId :=
  (foldlM_eq_ok (fun t => ∀ requestId, HasEntry t requestId → HasEntry s requestId) (fun _ => True)
    (fun t sg t' ht hstep => by
      unfold markStep at hstep
      obtain ⟨m, -, hstep⟩ := bind_eq_ok.mp hstep
      obtain rfl := pure_eq_ok.mp hstep
      exact ⟨ht, trivial⟩) (fun _ => id) h).1

theorem finishPass_entries {p : Pass M D} {s : Scheduler M D}
    {scheduled : List ScheduledSequenceGroup} (hp : PassEntries p)
    (h : finishPass cfg ops p = .ok (s, scheduled)) : IdleEntries s scheduled := by
  obtain ⟨-, ⟨-, hrun, hsw⟩, -⟩ := finishPass_ok h
  unfold finishPass at h
  obtain ⟨-, h⟩ := guardNot_bind_eq_ok.mp h
  obtain ⟨-, h⟩ := guardNot_bind_eq_ok.mp h
  obtain ⟨s₁, hmeta, h⟩ := bind_eq_ok.mp h
  obtain ⟨s₂, hmark, h⟩ := bind_eq_ok.mp h
  obtain ⟨rfl, rfl⟩ := Prod.mk.inj (pure_eq_ok.mp h)
  obtain ⟨hfold, hchunks⟩ := metadata_entries hmeta
  have hmarked := mark_entries hmark
  refine ⟨fun requestId hentry => ?_, fun sg hsg hpre hentry =>
    hchunks sg hsg hpre (hmarked _ hentry)⟩
  have hcount := hp requestId (hfold _ (hmarked _ hentry))
  have hpos : 0 < (s.running ++ s.swapped).countP (prefilling requestId) := by
    rw [hrun, hsw]
    unfold Pass.queues extendLeft
    unfold Pass.admitted at hcount
    simp only [List.map_append, List.countP_append, List.countP_reverse]
    omega
  exact List.countP_pos_iff.mp hpos

end

/-! ## Between the passes -/

theorem abortedOf_mem (queue : List SeqGroup) (requestIds : Finset String) :
    (∀ g ∈ (abortedOf queue requestIds).1, g.requestId ∈ requestIds) ∧
      (abortedOf queue requestIds).2 ⊆ requestIds := by
  induction queue generalizing requestIds with
  | nil => exact ⟨fun g hg => absurd hg List.not_mem_nil, subset_rfl⟩
  | cons g queue ih =>
    unfold abortedOf
    split
    · next hg =>
      obtain ⟨hmem, hsub⟩ := ih (requestIds.erase g.requestId)
      exact ⟨List.forall_mem_cons.mpr ⟨hg, fun g' hg' => Finset.mem_of_mem_erase (hmem g' hg')⟩,
        hsub.trans (Finset.erase_subset _ _)⟩
    · exact ih requestIds

/-- A group that is not named stays. -/
theorem mem_abortSeqGroup {requestIds : Finset String} {m : M} {s : Scheduler M D} {g : SeqGroup}
    (hg : g ∈ s.running ++ s.swapped) (hid : g.requestId ∉ requestIds) :
    g ∈ (abortSeqGroup requestIds m s).running ++ (abortSeqGroup requestIds m s).swapped := by
  obtain ⟨-, hw⟩ := abortedOf_mem s.waiting requestIds
  obtain ⟨hr, hr'⟩ := abortedOf_mem s.running (abortedOf s.waiting requestIds).2
  obtain ⟨hs, -⟩ := abortedOf_mem s.swapped
    (abortedOf s.running (abortedOf s.waiting requestIds).2).2
  rcases List.mem_append.mp hg with hg | hg
  · exact List.mem_append_left _
      (List.mem_diff_of_mem hg fun hab => hid (hw (hr g hab)))
  · exact List.mem_append_right _
      (List.mem_diff_of_mem hg fun hab => hid (hw (hr' (hs g hab))))

/-- A prefill with an entry is still one after its chunk was computed. -/
theorem EngineUpdate.prefilling {scheduled : List ScheduledSequenceGroup} {g g' : SeqGroup}
    {requestId : String} (h : EngineUpdate scheduled g g') (hg : prefilling requestId g = true)
    (hchunk : ∀ sg ∈ scheduled, sg.seqGroup = g →
      ∃ seq, g.seqs = [seq] ∧ seq.numComputedTokens + sg.tokenChunkSize < seq.len) :
    Scheduler.prefilling requestId g' = true := by
  obtain ⟨g₁, h₁, hid, hkept⟩ := h
  suffices hsame : Scheduler.prefilling requestId g₁ = true by
    obtain rfl := hkept (prefilling_iff.mp hsame).2.1
    exact hsame
  split at h₁
  · next sg hfind =>
    obtain ⟨rfl, -⟩ : sg.seqGroup = g ∧ g.isPrefill = true := by
      simpa using List.find?_some hfind
    obtain ⟨seq, hseqs, hlt⟩ := hchunk sg (List.mem_of_find?_eq_some hfind) rfl
    obtain ⟨hid, hpre, hlive⟩ := prefilling_iff.mp hg
    have hstage : seq.stage = .prefill := by
      unfold SeqGroup.isPrefill at hpre
      rw [hseqs] at hpre
      simpa using hpre
    have hstatus : seq.status.isFinished = false := by
      unfold SeqGroup.isFinished at hlive
      rw [hseqs] at hlive
      simpa using hlive
    unfold SeqGroup.updateNumComputedTokens at h₁
    rw [hseqs, List.mapM_cons, List.mapM_nil, if_neg (by rw [hstatus]; decide)] at h₁
    unfold Seq.updateNumComputedTokens at h₁
    dsimp only at h₁
    rw [if_neg (by omega), if_neg (by omega)] at h₁
    obtain rfl := Except.ok.inj h₁
    refine prefilling_iff.mpr ⟨hid, ?_, ?_⟩
    · unfold SeqGroup.isPrefill
      simpa using hstage
    · unfold SeqGroup.isFinished
      simpa using hstatus
  · obtain rfl := pure_eq_ok.mp h₁
    exact hg

theorem exists_engineUpdate {scheduled : List ScheduledSequenceGroup} {l l' : List SeqGroup}
    (h : List.Forall₂ (EngineUpdate scheduled) l l') {g : SeqGroup} (hg : g ∈ l) :
    ∃ g' ∈ l', EngineUpdate scheduled g g' := by
  induction h with
  | nil => exact absurd hg List.not_mem_nil
  | cons hhead _ ih =>
    rcases List.mem_cons.mp hg with rfl | hg
    · exact ⟨_, List.mem_cons_self, hhead⟩
    · obtain ⟨g', hg', hupdate⟩ := ih hg
      exact ⟨g', List.mem_cons_of_mem _ hg', hupdate⟩

theorem IdleEntries.process {s s' : Scheduler M D} {scheduled : List ScheduledSequenceGroup}
    (h : IdleEntries s scheduled) (hproc : Processes scheduled s s') : IdleEntries s' [] := by
  refine ⟨fun requestId hentry => ?_, fun sg hsg => absurd hsg List.not_mem_nil⟩
  rw [hproc.rest] at hentry ⊢
  obtain ⟨g, hg, hpre⟩ := h.prefilling requestId hentry
  rcases List.mem_append.mp hg with hg | hg
  · obtain ⟨g', hg', hupdate⟩ := exists_engineUpdate hproc.running hg
    refine ⟨g', List.mem_append_left _ hg', hupdate.prefilling hpre fun sg hsg hsame => ?_⟩
    subst hsame
    obtain ⟨hid, hpre, -⟩ := prefilling_iff.mp hpre
    exact h.chunk sg hsg hpre (hid ▸ hentry)
  · exact ⟨g, List.mem_append_right _ hg, hpre⟩

theorem foldl_freeFinished_entries (groups : List SeqGroup) (s : Scheduler M D)
    (requestId : String) (h : HasEntry (groups.foldl freeFinishedSeqGroup s) requestId) :
    HasEntry s requestId := by
  induction groups generalizing s with
  | nil => exact h
  | cons g groups ih =>
    have hentry := ih (freeFinishedSeqGroup s g) h
    unfold freeFinishedSeqGroup at hentry
    split at hentry
    · exact (HasEntry.erase (s := s) rfl rfl hentry).2
    · exact hentry

theorem IdleEntries.freeFinished {s : Scheduler M D} {scheduled : List ScheduledSequenceGroup}
    {m : M} (h : IdleEntries s scheduled) :
    IdleEntries (freeFinishedSeqGroups m s) scheduled := by
  have hback (requestId : String) (hentry : HasEntry (freeFinishedSeqGroups m s) requestId) :
      HasEntry s requestId := foldl_freeFinished_entries s.running s requestId hentry
  refine ⟨fun requestId hentry => ?_, fun sg hsg hpre hentry => h.chunk sg hsg hpre (hback _ hentry)⟩
  obtain ⟨g, hg, hpre⟩ := h.prefilling requestId (hback requestId hentry)
  refine ⟨g, ?_, hpre⟩
  rcases List.mem_append.mp hg with hg | hg
  · exact List.mem_append_left _ (List.mem_filter.mpr
      ⟨hg, decide_eq_true (prefilling_iff.mp hpre).2.2⟩)
  · refine List.mem_append_right _ ?_
    have hsame := (foldl_freeFinished s.running s).2.2
    unfold freeFinishedSeqGroups
    dsimp only
    rw [hsame]
    exact hg

/-! ## Runs -/

section

variable [DecidableEq D]

theorem entriesStep_inv {r r' : RunState M D} (hk : KeepsRequests ops) (hr : EntriesInv r)
    (h : RequestStep cfg ops mode (keepsEntries cfg ops mode) r r') : EntriesInv r' := by
  cases h with
  | addSeqGroup _ _ => exact ⟨hr.prefilling, hr.chunk⟩
  | @abortSeqGroup s scheduled m requestIds hok =>
    refine ⟨fun requestId hentry => ?_, hr.chunk⟩
    obtain ⟨g, hg, hpre⟩ := hr.prefilling requestId hentry
    have hid := (prefilling_iff.mp hpre).1
    exact ⟨g, mem_abortSeqGroup hg fun hmem => hok _ hmem (hid ▸ hentry), hpre⟩
  | process hproc => exact IdleEntries.process hr hproc
  | freeFinishedSeqGroups => exact IdleEntries.freeFinished hr
  | pass hstep hpass hok =>
    cases hstep with
    | addSeqGroup _ => simp [RunState.pass?] at hpass
    | process _ => simp [RunState.pass?] at hpass
    | begin _ =>
      intro requestId hentry
      obtain ⟨g, hg, hpre⟩ := hr.prefilling requestId hentry
      have hpos := List.countP_pos_iff.mpr ⟨g, hg, hpre⟩
      rw [List.countP_append] at hpos
      unfold Pass.admitted beginPass
      dsimp only
      omega
    | runningIter hstep => exact runningStep_entries hk hr (hok rfl) hstep
    | runningEnd _ =>
      split
      · exact hr
      · exact hr
    | swappedIter hstep => exact swappedStep_entries hr (hok rfl) hstep
    | swappedEnd _ => exact hr
    | prefillIter _ hstep => exact prefillStep_entries hr (hok rfl) hstep
    | finish hfin => exact finishPass_entries hr hfin

theorem entriesInv_of_reachable (hk : KeepsRequests ops) {r : RunState M D}
    (h : (requestSys cfg ops mode (keepsEntries cfg ops mode)).Reachable r) : EntriesInv r :=
  h.invariant (I := EntriesInv)
    (fun t ht => by
      obtain ⟨policy, m, rfl⟩ := ht
      refine IdleEntries.mk (fun requestId hentry => ?_) fun sg hsg => absurd hsg List.not_mem_nil
      unfold HasEntry at hentry
      rcases hentry with hentry | hentry
      · exact absurd hentry (Dict.not_mem_empty _)
      · exact absurd hentry (Dict.not_mem_empty _))
    (fun t t' _ ht hstep => entriesStep_inv hk ht hstep)

/-- Every entry belongs to a prefill in progress. -/
theorem entries_in_progress (hk : KeepsRequests ops) {s : Scheduler M D}
    {scheduled : List ScheduledSequenceGroup}
    (h : (requestSys cfg ops mode (keepsEntries cfg ops mode)).Reachable (.idle s scheduled)) :
    EntriesInProgress s := by
  have hinv : IdleEntries s scheduled := entriesInv_of_reachable hk h
  have hrequests : QueueRequests s := requestsInv_of_reachable hk h
  refine ⟨fun requestId hentry => ?_, fun g hg hentry => ?_⟩
  · obtain ⟨g, hg, hpre⟩ := hinv.prefilling requestId hentry
    exact ⟨g, hg, prefilling_iff.mp hpre⟩
  · obtain ⟨g', hg', hpre⟩ := hinv.prefilling _ hentry
    -- the waiting group and the one that prefills have the same id
    have hcount := hrequests.distinct g.requestId
    have hwaiting : 0 < s.waiting.countP (hasId g.requestId) :=
      List.countP_pos_iff.mpr ⟨g, hg, decide_eq_true rfl⟩
    have hlive : 0 < (s.running ++ s.swapped).countP (hasId g.requestId) :=
      List.countP_pos_iff.mpr ⟨g', hg', decide_eq_true (prefilling_iff.mp hpre).1⟩
    rw [List.countP_append] at hlive
    unfold queued at hcount
    omega

end

/-! ## Runs on a small prompt -/

instance (s : Scheduler M D) (requestId : String) : Decidable (HasEntry s requestId) :=
  inferInstanceAs (Decidable (_ ∨ _))

/-- After the first chunk of the prompt its entry is there. -/
theorem entries_in_progress_first : ∃ s scheduled,
    (requestSys smallConfig (sharedPrefixOps 0) none
      (keepsEntries smallConfig (sharedPrefixOps 0) none)).Reachable (.idle s scheduled) ∧
    HasEntry s "a" ∧ EntriesInProgress s := by
  obtain ⟨⟨p, s, scheduled⟩, hrun, hentry, hempty⟩ := exists_of_any (x := admitOnePrompt)
    (P := fun r => HasEntry r.2.1 "a" ∧ r.1.waiting = []) (by decide +kernel)
  obtain ⟨hreach, hfin⟩ := admitOnePrompt_reachable
    (A := keepsEntries smallConfig (sharedPrefixOps 0) none)
    (fun g queue hq => by cases hq) (fun g queue hq => by cases hq)
    (fun g queue hq => by
      obtain ⟨rfl, -⟩ := List.cons.inj hq
      rfl) hrun
  have hidle := hreach.step (.pass (.finish hfin) (.inl rfl) fun _ g queue hq => by
    rw [hempty] at hq
    cases hq)
  exact ⟨s, scheduled, hidle, hentry, entries_in_progress (sharedPrefixOps_keepsRequests 0) hidle⟩

/-- The request is aborted after its first chunk: its entry stays. -/
theorem abort_leaves_entry :
    ¬ ∀ (s : Scheduler Unit Nat) (scheduled : List ScheduledSequenceGroup),
      (requestSys smallConfig (sharedPrefixOps 0) none ⟨fun _ _ => True, fun _ => True⟩).Reachable
        (.idle s scheduled) → EntriesInProgress s := by
  intro hall
  obtain ⟨⟨s, scheduled⟩, hrun, hentry, hempty⟩ := exists_of_any
    (x := scheduleChunkedPrefill smallConfig (sharedPrefixOps 0) none onePrompt)
    (P := fun r => HasEntry (abortSeqGroup {"a"} () r.1) "a" ∧
      (abortSeqGroup {"a"} () r.1).running ++ (abortSeqGroup {"a"} () r.1).swapped = [])
    (by decide +kernel)
  have hreach := pass_reachable
    (S := requestSys smallConfig (sharedPrefixOps 0) none ⟨fun _ _ => True, fun _ => True⟩)
    (fun r r' hstep hpass => .pass hstep hpass fun _ => trivial) (fun _ => trivial)
    (onePrompt_reachable _) hrun
  obtain ⟨g, hg, -⟩ := (hall _ _ (hreach.step (.abortSeqGroup {"a"} trivial))).inProgress "a" hentry
  rw [hempty] at hg
  exact absurd hg List.not_mem_nil

end Bi100.Scheduler
