import Bi100.Scheduler.Iterations
import Bi100.Scheduler.Runs

/-!
# Requests come and go

`requestSys` are the runs of the scheduler with every way a request leaves it: it finishes
(`freeFinishedSeqGroups`), it is aborted at any time (`abortSeqGroup`), or a pass drops it. An id is
used again only when its request has left, as the engines see to.

- `RequestsInv`: the ids of the requests are distinct, and the sequences of a swapped group do not
  run. Every step keeps it (`requestsInv_of_reachable`).
- What the engine's output callback may change is a named assumption (`KeepsRequests`).
-/

namespace Bi100.Scheduler

open Py

variable {M D : Type} {cfg : Config} {ops : BlockManagerOps M D} {mode : Option PreemptionMode}

/-! ## Requests that leave -/

/-- The groups of a queue that `abort_seq_group` takes, and the ids that are left. -/
def abortedOf : List SeqGroup → Finset String → List SeqGroup × Finset String
  | [], requestIds => ([], requestIds)
  | g :: queue, requestIds =>
    if g.requestId ∈ requestIds then
      let (aborted, rest) := abortedOf queue (requestIds.erase g.requestId)
      (g :: aborted, rest)
    else abortedOf queue requestIds

/-- `abort_seq_group`. The block manager after it freed the sequences is a parameter. -/
def abortSeqGroup (requestIds : Finset String) (blockManager : M) (s : Scheduler M D) :
    Scheduler M D :=
  let (fromWaiting, requestIds) := abortedOf s.waiting requestIds
  let (fromRunning, requestIds) := abortedOf s.running requestIds
  let (fromSwapped, _) := abortedOf s.swapped requestIds
  { s with
    waiting := s.waiting.diff fromWaiting
    running := s.running.diff fromRunning
    swapped := s.swapped.diff fromSwapped
    blockManager }

/-- `_free_finished_seq_group`, apart from the block manager. -/
def freeFinishedSeqGroup (s : Scheduler M D) (g : SeqGroup) : Scheduler M D :=
  if g.isFinished then
    { s with
      gdnRequestRestoreKeys := s.gdnRequestRestoreKeys.erase g.requestId
      gdnRequestCaptureTargets := s.gdnRequestCaptureTargets.erase g.requestId }
  else s

/-- `free_finished_seq_groups` -/
def freeFinishedSeqGroups (blockManager : M) (s : Scheduler M D) : Scheduler M D :=
  { s.running.foldl freeFinishedSeqGroup s with
    running := s.running.filter fun g => g.isFinished = false
    asyncStopped := []
    blockManager }

/-! ## The runs -/

/-- A running group when the outputs of a step have been processed: a scheduled prefill has computed
its chunk, and the engine changes only groups that decode. -/
def EngineUpdate (scheduled : List ScheduledSequenceGroup) (g g' : SeqGroup) : Prop :=
  ∃ g₁, (match scheduled.find? fun sg => sg.seqGroup = g ∧ g.isPrefill with
    | some sg => g.updateNumComputedTokens sg.tokenChunkSize
    | none => pure g) = .ok g₁ ∧ g'.requestId = g.requestId ∧ (g₁.isPrefill = true → g' = g₁)

/-- The outputs of a step are processed. -/
structure Processes (scheduled : List ScheduledSequenceGroup) (s s' : Scheduler M D) : Prop where
  running : List.Forall₂ (EngineUpdate scheduled) s.running s'.running
  rest : s' = { s with running := s'.running, blockManager := s'.blockManager }

/-- Which aborts and which iterations a run may make. -/
structure Allowed (M D : Type) where
  abort : Scheduler M D → Finset String → Prop
  iteration : RunState M D → Prop

section

variable [DecidableEq D]

inductive RequestStep (cfg : Config) (ops : BlockManagerOps M D) (mode : Option PreemptionMode)
    (allowed : Allowed M D) : RunState M D → RunState M D → Prop where
  | addSeqGroup {s : Scheduler M D} {scheduled : List ScheduledSequenceGroup} {g : SeqGroup}
    (hfresh : g.Fresh)
    (hnew : ∀ g' ∈ s.waiting ++ s.running ++ s.swapped, g'.requestId ≠ g.requestId) :
    RequestStep cfg ops mode allowed (.idle s scheduled)
      (.idle { s with waiting := s.waiting ++ [g] } scheduled)
  | abortSeqGroup {s : Scheduler M D} {scheduled : List ScheduledSequenceGroup} {m : M}
    (requestIds : Finset String) (hok : allowed.abort s requestIds) :
    RequestStep cfg ops mode allowed (.idle s scheduled)
      (.idle (abortSeqGroup requestIds m s) scheduled)
  | process {s s' : Scheduler M D} {scheduled : List ScheduledSequenceGroup}
    (h : Processes scheduled s s') :
    RequestStep cfg ops mode allowed (.idle s scheduled) (.idle s' [])
  | freeFinishedSeqGroups {s : Scheduler M D} {scheduled : List ScheduledSequenceGroup} {m : M} :
    RequestStep cfg ops mode allowed (.idle s scheduled)
      (.idle (freeFinishedSeqGroups m s) scheduled)
  /-- `schedule()` begins, goes on or ends. -/
  | pass {r r' : RunState M D} (h : Step cfg ops mode (fun _ => True) r r')
    (hpass : r.pass?.isSome ∨ r'.pass?.isSome) (hok : r.pass?.isSome → allowed.iteration r) :
    RequestStep cfg ops mode allowed r r'

def requestSys (cfg : Config) (ops : BlockManagerOps M D) (mode : Option PreemptionMode)
    (allowed : Allowed M D) : Sys (RunState M D) where
  init r := ∃ policy blockManager, r = .idle (init policy blockManager) []
  step := RequestStep cfg ops mode allowed

end

/-! ## Counting groups -/

/-- The output callback leaves the request what it is, and does not end a prefill. -/
structure KeepsRequests (ops : BlockManagerOps M D) : Prop where
  requestId : ∀ {m m' : M} {g g' : SeqGroup},
    ops.outputProcCallback m g = .ok (m', g') → g'.requestId = g.requestId
  isPrefill : ∀ {m m' : M} {g g' : SeqGroup},
    ops.outputProcCallback m g = .ok (m', g') → g.isPrefill = true → g'.isPrefill = true

theorem KeepsRequests.afterCallback (h : KeepsRequests ops) {m : M} {v g : SeqGroup}
    (hg : AfterCallback cfg ops m v g) :
    g.requestId = v.requestId ∧ (v.isPrefill = true → g.isPrefill = true) := by
  unfold AfterCallback at hg
  split at hg
  · obtain ⟨m', hcb⟩ := hg
    exact ⟨h.requestId hcb, h.isPrefill hcb⟩
  · subst hg
    exact ⟨rfl, id⟩

def hasId (requestId : String) (g : SeqGroup) : Bool := g.requestId = requestId

/-- How many groups of the queues satisfy `q`. -/
def queued (s : Scheduler M D) (q : SeqGroup → Bool) : Nat :=
  s.waiting.countP q + s.running.countP q + s.swapped.countP q

/-- How many groups of a pass satisfy `q`. -/
def Pass.count (p : Pass M D) (q : SeqGroup → Bool) : Nat :=
  p.waiting.countP q + p.running.countP q + p.swapped.countP q + p.preempted.countP q +
    p.swappedOut.countP q + p.leftoverSwapped.countP q + p.leftoverWaiting.countP q +
    (p.scheduled.map ScheduledSequenceGroup.seqGroup).countP q

theorem countP_scheduled (p : Pass M D) (q : SeqGroup → Bool) :
    (p.scheduled.map ScheduledSequenceGroup.seqGroup).countP q =
      (p.prefills.map ScheduledSequenceGroup.seqGroup).countP q +
      (p.runningPrefills.map ScheduledSequenceGroup.seqGroup).countP q +
      (p.swappedInPrefills.map ScheduledSequenceGroup.seqGroup).countP q +
      (p.runningDecodes.map ScheduledSequenceGroup.seqGroup).countP q +
      (p.swappedInDecodes.map ScheduledSequenceGroup.seqGroup).countP q := by
  unfold Pass.scheduled
  simp only [List.map_append, List.countP_append]

theorem count_beginPass (cfg : Config) (s : Scheduler M D) (q : SeqGroup → Bool) :
    (beginPass cfg s).count q = queued s q := rfl

theorem queued_queues (p : Pass M D) (q : SeqGroup → Bool) : queued p.queues q = p.count q := by
  unfold queued Pass.count Pass.queues extendLeft
  rw [countP_scheduled]
  simp only [List.map_append, List.countP_append, List.countP_reverse]
  omega

theorem hasId_congr {g g' : SeqGroup} (h : g'.requestId = g.requestId) (requestId : String) :
    hasId requestId g' = hasId requestId g := by
  unfold hasId
  rw [h]

theorem hasId_setStatus (requestId : String) (g : SeqGroup) (old new : SequenceStatus) :
    hasId requestId (g.setStatus old new) = hasId requestId g :=
  hasId_congr rfl requestId

/-- Two groups with one id are counted twice. -/
theorem countP_le_one_ne {l₁ l₂ : List SeqGroup} {g : SeqGroup}
    (h : (l₁ ++ g :: l₂).countP (hasId g.requestId) ≤ 1) :
    ∀ g' ∈ l₁ ++ l₂, g'.requestId ≠ g.requestId := by
  intro g' hg' heq
  have hpos : 0 < (l₁ ++ l₂).countP (hasId g.requestId) :=
    List.countP_pos_iff.mpr ⟨g', hg', decide_eq_true heq⟩
  have hself : hasId g.requestId g = true := decide_eq_true rfl
  rw [List.countP_append] at hpos
  rw [List.countP_append, List.countP_cons, if_pos hself] at h
  omega

/-! ## Requests keep their ids -/

/-- The groups of a pass are distinct requests, and the sequences of a swapped one do not run. -/
structure PassRequests (p : Pass M D) : Prop where
  distinct : ∀ requestId, p.count (hasId requestId) ≤ 1
  swapped : ∀ g ∈ p.swapped, g.getSeqs .running = []
  leftoverSwapped : ∀ g ∈ p.leftoverSwapped, g.getSeqs .running = []
  swappedOut : ∀ g ∈ p.swappedOut, g.getSeqs .running = []

structure QueueRequests (s : Scheduler M D) : Prop where
  distinct : ∀ requestId, queued s (hasId requestId) ≤ 1
  swapped : ∀ g ∈ s.swapped, g.getSeqs .running = []

def RequestsInv : RunState M D → Prop
  | .idle s _ => QueueRequests s
  | .running p | .swapped p | .prefills p => PassRequests p

theorem QueueRequests.beginPass {s : Scheduler M D} (h : QueueRequests s) :
    PassRequests (beginPass cfg s) where
  distinct requestId := count_beginPass cfg s _ ▸ h.distinct requestId
  swapped := h.swapped
  leftoverSwapped _ hg := absurd hg List.not_mem_nil
  swappedOut _ hg := absurd hg List.not_mem_nil

theorem PassRequests.queues {p : Pass M D} (h : PassRequests p) : QueueRequests p.queues where
  distinct requestId := queued_queues p _ ▸ h.distinct requestId
  swapped := by
    unfold Pass.queues extendLeft
    simp only [List.forall_mem_append, List.mem_reverse]
    exact ⟨⟨h.leftoverSwapped, h.swapped⟩, h.swappedOut⟩

theorem getSeqs_setStatus_old (g : SeqGroup) {old new : SequenceStatus} (hne : new ≠ old) :
    (g.setStatus old new).getSeqs old = [] := by
  unfold SeqGroup.getSeqs SeqGroup.setStatus
  rw [List.filter_eq_nil_iff]
  intro seq hseq
  obtain ⟨seq', -, rfl⟩ := List.mem_map.mp hseq
  by_cases hold : seq'.status = old
  · rw [if_pos hold]
    simpa using hne
  · rw [if_neg hold]
    simpa using hold

/-- A victim goes to another list, at most. -/
theorem PassRequests.removed {p p' : Pass M D} {v : SeqGroup} {rest : List SeqGroup}
    (hk : KeepsRequests ops) (h : PassRequests { p with running := v :: rest })
    (hrem : Removed cfg ops mode v p p') : PassRequests { p' with running := rest } := by
  have hcount (requestId : String) := h.distinct requestId
  unfold Pass.count at hcount
  simp only [countP_scheduled, List.countP_cons] at hcount
  cases hrem with
  | finished hg hfin =>
    refine ⟨fun requestId => ?_, h.swapped, h.leftoverSwapped, h.swappedOut⟩
    have := hcount requestId
    unfold Pass.count
    simp only [countP_scheduled]
    omega
  | @recompute g m hg hlive hmode =>
    refine ⟨fun requestId => ?_, h.swapped, h.leftoverSwapped, h.swappedOut⟩
    have := hcount requestId
    have hid : hasId requestId g.recomputed = hasId requestId v :=
      hasId_congr (hk.afterCallback hg).1 requestId
    unfold Pass.count
    simp only [countP_scheduled, List.countP_append, List.countP_singleton, hid]
    omega
  | @swap g m hg hlive hmode =>
    refine ⟨fun requestId => ?_, h.swapped, h.leftoverSwapped,
      forall_mem_concat h.swappedOut (getSeqs_setStatus_old g (by decide))⟩
    have := hcount requestId
    have hid : hasId requestId (g.setStatus .running .swapped) = hasId requestId v :=
      hasId_congr (hk.afterCallback hg).1 requestId
    unfold Pass.count
    simp only [countP_scheduled, List.countP_append, List.countP_singleton, hid]
    omega

/-- The order of the groups that run does not matter. -/
theorem PassRequests.perm {p : Pass M D} {l l' : List SeqGroup} (hl : l.Perm l')
    (h : PassRequests { p with running := l }) : PassRequests { p with running := l' } where
  distinct requestId := by
    have hcount := h.distinct requestId
    unfold Pass.count at hcount ⊢
    simp only [countP_scheduled, hl.countP_eq] at hcount ⊢
    exact hcount
  swapped := h.swapped
  leftoverSwapped := h.leftoverSwapped
  swappedOut := h.swappedOut

/-- A group leaves the running queue. -/
theorem PassRequests.tail {p : Pass M D} {g : SeqGroup} {queue : List SeqGroup}
    (h : PassRequests { p with running := g :: queue }) :
    PassRequests { p with running := queue } where
  distinct requestId := by
    have hcount := h.distinct requestId
    unfold Pass.count at hcount ⊢
    simp only [countP_scheduled, List.countP_cons] at hcount ⊢
    omega
  swapped := h.swapped
  leftoverSwapped := h.leftoverSwapped
  swappedOut := h.swappedOut

theorem PassRequests.scheduleRunning {p p' : Pass M D} {g : SeqGroup} {n : Int}
    {queue : List SeqGroup} (h : PassRequests { p with running := g :: queue })
    (hsched : scheduleRunning cfg ops g n { p with running := queue } = .ok p') :
    PassRequests p' := by
  have hcount (requestId : String) := h.distinct requestId
  unfold Pass.count at hcount
  simp only [countP_scheduled, List.countP_cons] at hcount
  obtain ⟨m, ⟨-, rfl⟩ | ⟨-, rfl⟩⟩ := scheduleRunning_ok hsched
  all_goals
    refine ⟨fun requestId => ?_, h.swapped, h.leftoverSwapped, h.swappedOut⟩
    have := hcount requestId
    unfold Pass.count
    simp only [countP_scheduled, List.map_append, List.countP_append, List.map_singleton,
      List.countP_singleton]
    omega

theorem runningStep_requests {p p' : Pass M D} (hk : KeepsRequests ops) (hp : PassRequests p)
    (h : runningStep cfg ops mode p = .ok (some p')) : PassRequests p' := by
  obtain ⟨g, queue, n, chunk, hrun, -, -, -, hcase⟩ := runningStep_cases h
  have hp' : PassRequests { p with running := g :: queue } := hrun ▸ hp
  have hlast : PassRequests { p with running := queue.reverse ++ [g] } :=
    hp'.perm (by simpa using (List.reverse_perm (g :: queue)).symm)
  have hrule {p₁ : Pass M D} {hasRoom : Bool}
      (hroom : makeRoom cfg ops mode g chunk queue.reverse p = .ok (p₁, hasRoom)) :=
    makeRoom_rule (J := fun l p => PassRequests { p with running := l })
      (fun v rest p₁ p₂ hJ _ hpre => PassRequests.removed (p := uncount g chunk p₁) hk
        ⟨hJ.distinct, hJ.swapped, hJ.leftoverSwapped, hJ.swappedOut⟩ (preemptVictim_removed hpre))
      hlast hroom
  rcases hcase with ⟨-, rfl⟩ | hroom | ⟨p₁, hroom, hsched⟩
  · have htail := hp'.tail
    exact ⟨htail.distinct, htail.swapped, htail.leftoverSwapped, htail.swappedOut⟩
  · rcases hrule hroom with ⟨hno, -⟩ | ⟨-, p₁, hJ, rfl⟩
    · cases hno
    · exact hJ
  · rcases hrule hroom with ⟨-, rest, p₁, hJ, rfl⟩ | ⟨hno, -⟩
    · refine PassRequests.scheduleRunning (hJ.perm ?_) hsched
      simpa using (List.reverse_perm (rest ++ [g])).symm
    · cases hno

theorem swappedStep_requests {p p' : Pass M D} (hp : PassRequests p)
    (h : swappedStep cfg ops p = .ok (some p')) : PassRequests p' := by
  obtain ⟨g, queue, hsw, hcase⟩ := swappedStep_cases h
  have hcount (requestId : String) := hp.distinct requestId
  unfold Pass.count at hcount
  simp only [countP_scheduled, hsw, List.countP_cons] at hcount
  obtain ⟨hg, hqueue⟩ := List.forall_mem_cons.mp (hsw ▸ hp.swapped)
  rcases hcase with ⟨-, ignored, rfl⟩ | rfl | ⟨n, -, -, hsched⟩
  · refine ⟨fun requestId => ?_, hqueue, hp.leftoverSwapped, hp.swappedOut⟩
    have := hcount requestId
    unfold Pass.count
    simp only [countP_scheduled]
    omega
  · refine ⟨fun requestId => ?_, hqueue, List.forall_mem_cons.mpr ⟨hg, hp.leftoverSwapped⟩,
      hp.swappedOut⟩
    have := hcount requestId
    unfold Pass.count
    simp only [countP_scheduled, List.countP_cons]
    omega
  · obtain ⟨m, ⟨-, rfl⟩ | ⟨-, rfl⟩⟩ := scheduleSwapped_ok hsched
    all_goals
      refine ⟨fun requestId => ?_, hqueue, hp.leftoverSwapped, hp.swappedOut⟩
      have := hcount requestId
      unfold Pass.count
      simp only [countP_scheduled, List.map_append, List.countP_append, List.map_singleton,
        List.countP_singleton, hasId_setStatus]
      omega

theorem prefillStep_requests [DecidableEq D] {p p' : Pass M D} (hp : PassRequests p)
    (h : prefillStep cfg ops p = .ok (some p')) : PassRequests p' := by
  obtain ⟨g, queue, seq, hw, -, hcase⟩ := prefillStep_cases h
  have hcount (requestId : String) := hp.distinct requestId
  unfold Pass.count at hcount
  simp only [countP_scheduled, hw, List.countP_cons] at hcount
  rcases hcase with rfl | rfl | ⟨n, -, -, -, hadm⟩
  · refine ⟨fun requestId => ?_, hp.swapped, hp.leftoverSwapped, hp.swappedOut⟩
    have := hcount requestId
    unfold Pass.count ignoreWaiting
    simp only [countP_scheduled]
    omega
  · refine ⟨fun requestId => ?_, hp.swapped, hp.leftoverSwapped, hp.swappedOut⟩
    have := hcount requestId
    unfold Pass.count
    simp only [countP_scheduled, List.countP_cons]
    omega
  · cases hadm
    all_goals
      refine ⟨fun requestId => ?_, hp.swapped, hp.leftoverSwapped, hp.swappedOut⟩
      have := hcount requestId
      unfold Pass.count
      simp only [countP_scheduled, List.map_append, List.countP_append, List.map_singleton,
        List.countP_singleton, hasId_setStatus]
      omega

/-! ## Steps between the passes -/

theorem abortedOf_sublist (queue : List SeqGroup) (requestIds : Finset String) :
    (abortedOf queue requestIds).1.Sublist queue := by
  induction queue generalizing requestIds with
  | nil => exact .slnil
  | cons g queue ih =>
    unfold abortedOf
    split
    · exact (ih _).cons_cons g
    · exact (ih _).cons g

theorem abortSeqGroup_queues (requestIds : Finset String) (m : M) (s : Scheduler M D) :
    (abortSeqGroup requestIds m s).waiting.Sublist s.waiting ∧
      (abortSeqGroup requestIds m s).running.Sublist s.running ∧
      (abortSeqGroup requestIds m s).swapped.Sublist s.swapped :=
  ⟨List.diff_sublist _ _, List.diff_sublist _ _, List.diff_sublist _ _⟩

/-- Groups leave the queues. -/
theorem QueueRequests.sublist {s s' : Scheduler M D} (h : QueueRequests s)
    (hw : s'.waiting.Sublist s.waiting) (hr : s'.running.Sublist s.running)
    (hs : s'.swapped.Sublist s.swapped) : QueueRequests s' where
  distinct requestId := by
    have hcount := h.distinct requestId
    have hw := hw.countP_le (p := hasId requestId)
    have hr := hr.countP_le (p := hasId requestId)
    have hs := hs.countP_le (p := hasId requestId)
    unfold queued at hcount ⊢
    omega
  swapped g hg := h.swapped g (hs.subset hg)

theorem foldl_freeFinished (groups : List SeqGroup) (s : Scheduler M D) :
    SameQueues s (groups.foldl freeFinishedSeqGroup s) := by
  induction groups generalizing s with
  | nil => exact ⟨rfl, rfl, rfl⟩
  | cons g groups ih =>
    rw [List.foldl_cons]
    refine SameQueues.trans ?_ (ih _)
    unfold freeFinishedSeqGroup
    split
    · exact ⟨rfl, rfl, rfl⟩
    · exact ⟨rfl, rfl, rfl⟩

theorem EngineUpdate.requestId {scheduled : List ScheduledSequenceGroup} {g g' : SeqGroup}
    (h : EngineUpdate scheduled g g') : g'.requestId = g.requestId := by
  obtain ⟨g₁, -, hid, -⟩ := h
  exact hid

theorem countP_engineUpdate {scheduled : List ScheduledSequenceGroup} {l l' : List SeqGroup}
    (h : List.Forall₂ (EngineUpdate scheduled) l l') (requestId : String) :
    l'.countP (hasId requestId) = l.countP (hasId requestId) := by
  induction h with
  | nil => rfl
  | cons hg _ ih => rw [List.countP_cons, List.countP_cons, ih, hasId_congr hg.requestId]

variable [DecidableEq D]

theorem requestStep_inv {allowed : Allowed M D} {r r' : RunState M D} (hk : KeepsRequests ops)
    (hr : RequestsInv r) (h : RequestStep cfg ops mode allowed r r') : RequestsInv r' := by
  cases h with
  | @addSeqGroup s scheduled g hfresh hnew =>
    refine ⟨fun requestId => ?_, hr.swapped⟩
    have hcount := hr.distinct requestId
    unfold queued at hcount ⊢
    dsimp only
    rw [List.countP_append, List.countP_singleton]
    split
    · next hid =>
      have hzero : (s.waiting ++ s.running ++ s.swapped).countP (hasId requestId) = 0 := by
        rw [List.countP_eq_zero]
        intro g' hg' hid'
        refine hnew g' hg' ?_
        rw [of_decide_eq_true hid, of_decide_eq_true hid']
      rw [List.countP_append, List.countP_append] at hzero
      omega
    · exact hcount
  | abortSeqGroup requestIds hok =>
    obtain ⟨hw, hrun, hs⟩ := abortSeqGroup_queues requestIds _ _
    exact QueueRequests.sublist hr hw hrun hs
  | @process s s' scheduled hproc =>
    have hrest := hproc.rest
    refine ⟨fun requestId => ?_, ?_⟩
    · have hcount := hr.distinct requestId
      unfold queued at hcount ⊢
      rw [countP_engineUpdate hproc.running requestId, hrest]
      exact hcount
    · rw [hrest]
      exact hr.swapped
  | @freeFinishedSeqGroups s scheduled m =>
    obtain ⟨hw, hrun, hs⟩ := foldl_freeFinished s.running s
    refine QueueRequests.sublist hr ?_ ?_ ?_
    · exact hw ▸ List.Sublist.refl _
    · exact List.filter_sublist
    · exact hs ▸ List.Sublist.refl _
  | pass hstep hpass hok =>
    cases hstep with
    | addSeqGroup _ => simp [RunState.pass?] at hpass
    | process _ => simp [RunState.pass?] at hpass
    | begin _ => exact QueueRequests.beginPass hr
    | runningIter hstep => exact runningStep_requests hk hr hstep
    | runningEnd _ =>
      split
      · exact hr
      · exact hr
    | swappedIter hstep => exact swappedStep_requests hr hstep
    | swappedEnd _ => exact hr
    | prefillIter _ hstep => exact prefillStep_requests hr hstep
    | finish hfin =>
      obtain ⟨-, ⟨hw, hrun, hs⟩, -⟩ := finishPass_ok hfin
      have hq := PassRequests.queues hr
      exact hq.sublist (hw ▸ .refl _) (hrun ▸ .refl _) (hs ▸ .refl _)

/-- In every run the requests are distinct. -/
theorem requestsInv_of_reachable {allowed : Allowed M D} (hk : KeepsRequests ops)
    {r : RunState M D} (h : (requestSys cfg ops mode allowed).Reachable r) : RequestsInv r :=
  h.invariant (I := RequestsInv)
    (fun t ht => by
      obtain ⟨policy, m, rfl⟩ := ht
      exact QueueRequests.mk (fun requestId => Nat.zero_le 1)
        fun g hg => absurd hg List.not_mem_nil)
    (fun t t' _ ht hstep => requestStep_inv hk ht hstep)

/-! ## A small prompt -/

theorem sharedPrefixOps_keepsRequests (numShared : Nat) :
    KeepsRequests (sharedPrefixOps numShared) where
  requestId h := by
    obtain ⟨-, rfl⟩ := Prod.mk.inj (pure_eq_ok.mp h)
    rfl
  isPrefill h hpre := by
    obtain ⟨-, rfl⟩ := Prod.mk.inj (pure_eq_ok.mp h)
    exact hpre

/-- The scheduler with a prompt of ten tokens, of which a step computes four. -/
def onePrompt : Scheduler Unit Nat :=
  { init .fine32 () with waiting := [promptGroup "a" 10] }

theorem onePrompt_reachable (allowed : Allowed Unit Nat) :
    (requestSys smallConfig (sharedPrefixOps 0) none allowed).Reachable (.idle onePrompt []) :=
  Sys.Reachable.step (.init ⟨_, _, rfl⟩) <|
    .addSeqGroup (promptGroup_fresh "a" 10) fun _ hg => absurd hg List.not_mem_nil

/-- The prompt is admitted, and the pass ends. -/
def admitOnePrompt :
    Except Err (Pass Unit Nat × Scheduler Unit Nat × List ScheduledSequenceGroup) := do
  match ← prefillStep smallConfig (sharedPrefixOps 0) (beginPass smallConfig onePrompt) with
  | none => throw .recursionError
  | some p =>
    let r ← finishPass smallConfig (sharedPrefixOps 0) p
    return (p, r)

theorem admitOnePrompt_reachable {A : Allowed Unit Nat} {p : Pass Unit Nat}
    {r : Scheduler Unit Nat × List ScheduledSequenceGroup}
    (hrunning : A.iteration (.running (beginPass smallConfig onePrompt)))
    (hswapped : A.iteration (.swapped (beginPass smallConfig onePrompt)))
    (hprefills : A.iteration (.prefills (beginPass smallConfig onePrompt)))
    (h : admitOnePrompt = .ok (p, r)) :
    (requestSys smallConfig (sharedPrefixOps 0) none A).Reachable (.prefills p) ∧
      finishPass smallConfig (sharedPrefixOps 0) p = .ok r := by
  unfold admitOnePrompt at h
  obtain ⟨next, hnext, h⟩ := bind_eq_ok.mp h
  cases next with
  | none => exact (throw_eq_ok.mp h).elim
  | some p₁ =>
    obtain ⟨r₁, hfin, h⟩ := bind_eq_ok.mp h
    obtain ⟨rfl, rfl⟩ := Prod.mk.inj (pure_eq_ok.mp h)
    refine ⟨?_, hfin⟩
    have hbegan := (onePrompt_reachable A).step (.pass (.begin rfl) (.inr rfl) nofun)
    have hran := hbegan.step (.pass (.runningEnd rfl) (.inl rfl) fun _ => hrunning)
    have hswap := hran.step (.pass (.swappedEnd rfl) (.inl rfl) fun _ => hswapped)
    exact hswap.step (.pass (.prefillIter trivial hnext) (.inl rfl) fun _ => hprefills)

end Bi100.Scheduler
