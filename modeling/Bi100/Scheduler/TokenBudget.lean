import Bi100.Scheduler.Requests
import Mathlib.Algebra.BigOperators.Group.List.Basic

/-!
# The token budget of a step (`SchedulingBudget`, `_plan_gdn_prefix_fast_forward`)

A prefill that restores a GDN state advances by more tokens than the model runs. The budget of the
step is charged for the tokens that run, and counts the tokens of the progress beside them.

- `planGdnPrefixFastForward_sound`, `capGdnCaptureBoundary_sound`: a plan is the fallback, or it
  starts at the checkpoint and fits into the budget, also after it is capped.
- `step_within_budget`: what a pass emits fits into the budget, and `num_batched_tokens` is what the
  groups count for, a decode one token for each sequence that runs.
- `decode_counts_sequences`, `budget_overdrawn`, `mixed_stages`: passes that count otherwise.
-/

namespace Bi100.Scheduler

open Py

variable {M D : Type} {cfg : Config} {ops : BlockManagerOps M D} {mode : Option PreemptionMode}

/-! ## Plans -/

/-- The plan skips the checkpoint of the restore key, and the rest fits into the budget. -/
def Skips (restoreKey : Option (GdnPrefixKey D)) (numComputedTokens : Int) (promptLen : Nat)
    (remainingTokenBudget : Int) (blockSize : Nat) (chunk query : Int) : Prop :=
  ∃ key, restoreKey = some key ∧ numComputedTokens = 0 ∧ ((key.1 * blockSize : Nat) : Int) < chunk ∧
    chunk ≤ promptLen ∧ query = chunk - (key.1 * blockSize : Nat) ∧ 0 < query ∧
    query ≤ remainingTokenBudget

theorem fastForwardEnd_le (checkpointTokens promptLen : Nat) (remaining : Int)
    (alignment : Option Nat) :
    fastForwardEnd checkpointTokens promptLen remaining alignment ≤ promptLen :=
  min_le_left _ _

/-- The plan is the fallback, or skips a prefix. -/
theorem planGdnPrefixFastForward_sound {restoreKey : Option (GdnPrefixKey D)}
    {computed nominal remaining chunk query : Int} {promptLen blockSize : Nat}
    {alignment : Option Nat}
    (h : planGdnPrefixFastForward restoreKey computed promptLen nominal remaining blockSize
      alignment = .ok (chunk, query)) :
    (chunk = nominal ∧ query = nominal) ∨
      Skips restoreKey computed promptLen remaining blockSize chunk query := by
  unfold planGdnPrefixFastForward at h
  cases restoreKey with
  | none => exact .inl (Prod.mk.inj (pure_eq_ok.mp h))
  | some key =>
    dsimp only at h
    split at h
    · exact .inl (Prod.mk.inj (pure_eq_ok.mp h))
    · next hgo =>
      obtain ⟨-, h⟩ := guardNot_bind_eq_ok.mp h
      split at h
      · exact .inl (Prod.mk.inj (pure_eq_ok.mp h))
      · next hfits =>
        split at h
        · exact .inl (Prod.mk.inj (pure_eq_ok.mp h))
        · obtain ⟨rfl, rfl⟩ := Prod.mk.inj (pure_eq_ok.mp h)
          have hend := fastForwardEnd_le (key.1 * blockSize) promptLen remaining alignment
          exact .inr ⟨key, rfl, by omega, by omega, hend, rfl, by omega, by omega⟩

/-- A cap takes as much from the progress as from the query, and leaves something. -/
theorem capGdnCaptureBoundary_ok {blockSize : Nat} {policy : GdnCachePolicy}
    {targets : List (GdnPrefixKey D)} {g : SeqGroup} {chunk query chunk' query' : Int}
    (h : capGdnCaptureBoundary blockSize policy targets g chunk query = .ok (chunk', query')) :
    chunk' - query' = chunk - query ∧ chunk' ≤ chunk ∧ (0 < chunk → 0 < chunk') ∧
      (0 < query → 0 < query') := by
  unfold capGdnCaptureBoundary at h
  split at h
  · obtain ⟨rfl, rfl⟩ := Prod.mk.inj (pure_eq_ok.mp h)
    exact ⟨rfl, le_rfl, id, id⟩
  · obtain ⟨-, h⟩ := guardNot_bind_eq_ok.mp h
    cases hseqs : g.seqs with
    | nil =>
      rw [hseqs] at h
      exact (throw_eq_ok.mp h).elim
    | cons seq rest =>
      rw [hseqs] at h
      cases rest with
      | cons => exact (throw_eq_ok.mp h).elim
      | nil =>
        dsimp only at h
        obtain ⟨-, h⟩ := guardNot_bind_eq_ok.mp h
        obtain ⟨-, h⟩ := guardNot_bind_eq_ok.mp h
        obtain ⟨hneg, h⟩ := guardNot_bind_eq_ok.mp h
        obtain ⟨e, he, h⟩ := bind_eq_ok.mp h
        obtain ⟨hle, -, -⟩ := capPrefillEnd_ok he
        split at h
        · obtain ⟨rfl, rfl⟩ := Prod.mk.inj (pure_eq_ok.mp h)
          exact ⟨rfl, le_rfl, id, id⟩
        · obtain ⟨hempty, h⟩ := guardNot_bind_eq_ok.mp h
          obtain ⟨rfl, rfl⟩ := Prod.mk.inj (pure_eq_ok.mp h)
          exact ⟨by omega, by omega, by omega, by omega⟩

/-- A capped plan does not skip, or skips what it did. -/
theorem capGdnCaptureBoundary_sound {restoreKey : Option (GdnPrefixKey D)}
    {computed nominal remaining chunk query chunk' query' : Int} {promptLen blockSize : Nat}
    {policy : GdnCachePolicy} {targets : List (GdnPrefixKey D)} {g : SeqGroup}
    (hplan : (chunk = nominal ∧ query = nominal) ∨
      Skips restoreKey computed promptLen remaining blockSize chunk query)
    (h : capGdnCaptureBoundary blockSize policy targets g chunk query = .ok (chunk', query')) :
    (chunk' = query' ∧ chunk' ≤ nominal ∧ (0 < nominal → 0 < chunk')) ∨
      Skips restoreKey computed promptLen remaining blockSize chunk' query' := by
  obtain ⟨hsub, hle, hchunk, hquery⟩ := capGdnCaptureBoundary_ok h
  rcases hplan with ⟨rfl, rfl⟩ | ⟨key, hkey, hzero, hlt, hend, rfl, hpos, hfits⟩
  · exact .inl ⟨by omega, hle, hchunk⟩
  · have := hquery hpos
    exact .inr ⟨key, hkey, hzero, by omega, by omega, by omega, by omega, by omega⟩

theorem gdnChunk_sound {c : GdnChoice D} {g : SeqGroup} {seq : Seq} {n remaining chunk query : Int}
    (h : gdnChunk cfg c g seq n remaining = .ok (chunk, query)) :
    (chunk = query ∧ chunk ≤ n ∧ (0 < n → 0 < chunk)) ∨
      Skips c.restoreKey seq.numComputedTokens seq.len remaining cfg.gdn.blockSize chunk query := by
  unfold gdnChunk at h
  obtain ⟨⟨chunk₁, query₁⟩, hplan, h⟩ := bind_eq_ok.mp h
  exact capGdnCaptureBoundary_sound (planGdnPrefixFastForward_sound hplan) h

/-! ## The tokens of a group -/

/-- `restore_tokens` of the first prefill step -/
def restoreTokens (cfg : Config) (s : Scheduler M D) (requestId : String) : Nat :=
  if cfg.enablePrefixCaching then
    match (s.gdnRequestRestoreKeys.get? requestId).getD none with
    | some key => key.1 * cfg.gdn.blockSize
    | none => 0
  else 0

/-- The tokens that the model runs for a scheduled group: from `physical_context_tokens` to
`logical_end_tokens`, or one for each sequence that decodes. -/
def physicalTokens (cfg : Config) (s : Scheduler M D) (sg : ScheduledSequenceGroup) : Int :=
  if sg.seqGroup.isPrefill then
    match sg.seqGroup.seqs with
    | [seq] =>
      let logicalEndTokens := min (seq.len : Int) (seq.numComputedTokens + sg.tokenChunkSize)
      let physicalContextTokens :=
        if seq.numComputedTokens = 0 then (restoreTokens cfg s sg.seqGroup.requestId : Int)
        else seq.numComputedTokens
      max 0 (logicalEndTokens - physicalContextTokens)
    | _ => 0
  else (sg.seqGroup.getSeqs .running).length

/-- The tokens that a group counts for: the chunk of a prefill, the sequences of a decode. -/
def countedTokens (sg : ScheduledSequenceGroup) : Int :=
  if sg.seqGroup.isPrefill then sg.tokenChunkSize else (sg.seqGroup.getSeqs .running).length

theorem physicalTokens_congr {s s' : Scheduler M D} {sg : ScheduledSequenceGroup}
    (h : s'.gdnRequestRestoreKeys.get? sg.seqGroup.requestId =
      s.gdnRequestRestoreKeys.get? sg.seqGroup.requestId) :
    physicalTokens cfg s' sg = physicalTokens cfg s sg := by
  unfold physicalTokens restoreTokens
  rw [h]

/-- A prefill runs no more than its chunk. -/
theorem physicalTokens_le_chunk {s : Scheduler M D} {sg : ScheduledSequenceGroup}
    (hpre : sg.seqGroup.isPrefill = true) (hpos : 0 ≤ sg.tokenChunkSize) :
    physicalTokens cfg s sg ≤ sg.tokenChunkSize := by
  unfold physicalTokens
  rw [if_pos hpre]
  split
  · dsimp only
    split
    · omega
    · omega
  · exact hpos

/-- Every sequence of the group is in the same stage. -/
def SameStage (g : SeqGroup) : Prop := ∀ seq ∈ g.seqs, seq.stage = .prefill ↔ g.isPrefill = true

theorem sum_getNumNewTokens_decode {l : List Seq} (h : ∀ seq ∈ l, seq.stage = .decode) :
    (l.map Seq.getNumNewTokens).sum = l.length := by
  induction l with
  | nil => rfl
  | cons seq l ih =>
    obtain ⟨hseq, hl⟩ := List.forall_mem_cons.mp h
    rw [List.map_cons, List.sum_cons, ih hl, List.length_cons]
    unfold Seq.getNumNewTokens
    rw [if_pos hseq]
    omega

theorem stage_eq_decode {g : SeqGroup} {status : SequenceStatus} (hstage : SameStage g)
    (hdec : g.isPrefill = false) : ∀ seq ∈ g.getSeqs status, seq.stage = .decode := by
  intro seq hseq
  have hne : seq.stage ≠ .prefill := fun hpre => by
    have := (hstage seq (List.mem_of_mem_filter hseq)).mp hpre
    rw [hdec] at this
    cases this
  cases hst : seq.stage with
  | prefill => exact absurd hst hne
  | decode => rfl

/-- With tokens left in the budget, the number is not negative. -/
theorem getNumNewTokens_nonneg {g : SeqGroup} {status : SequenceStatus} {chunking : Bool}
    {budget : SchedulingBudget} {n : Int} (hbudget : 0 ≤ budget.remainingTokenBudget)
    (h : getNumNewTokens cfg g status chunking budget = .ok n) : 0 ≤ n := by
  unfold getNumNewTokens at h
  dsimp only at h
  obtain ⟨hpos, h⟩ := guardNot_bind_eq_ok.mp h
  split at h
  · obtain rfl := pure_eq_ok.mp h
    omega
  split at h
  · obtain ⟨limit, -, h⟩ := bind_eq_ok.mp h
    obtain rfl := pure_eq_ok.mp h
    split
    · exact le_rfl
    · omega
  split at h
  · obtain ⟨-, h⟩ := guardNot_bind_eq_ok.mp h
    obtain ⟨-, h⟩ := guardNot_bind_eq_ok.mp h
    obtain rfl := pure_eq_ok.mp h
    split
    · exact Int.mul_nonneg (Int.ediv_nonneg hbudget (Int.natCast_nonneg _)) (Int.natCast_nonneg _)
    · omega
  · obtain rfl := pure_eq_ok.mp h
    omega

/-- A decode counts one token for each of its sequences. -/
theorem getNumNewTokens_decode {g : SeqGroup} {status : SequenceStatus} {chunking : Bool}
    {budget : SchedulingBudget} {n : Int} (hbudget : 0 ≤ budget.remainingTokenBudget)
    (hdec : ∀ seq ∈ g.getSeqs status, seq.stage = .decode) (hn : n ≠ 0)
    (h : getNumNewTokens cfg g status chunking budget = .ok n) :
    n = (g.getSeqs status).length := by
  have hsum := sum_getNumNewTokens_decode hdec
  unfold getNumNewTokens at h
  dsimp only at h
  obtain ⟨hpos, h⟩ := guardNot_bind_eq_ok.mp h
  rw [hsum] at h hpos
  split at h
  · exact pure_eq_ok.mp h
  next hone =>
  have hlength : (g.getSeqs status).length = 1 := by
    by_contra hne
    exact hone (.inr hne)
  rw [hlength] at h ⊢
  split at h
  · obtain ⟨limit, -, h⟩ := bind_eq_ok.mp h
    obtain rfl := pure_eq_ok.mp h
    split
    · next hzero => exact absurd (if_pos hzero) hn
    · rfl
  split at h
  · obtain ⟨-, h⟩ := guardNot_bind_eq_ok.mp h
    obtain ⟨-, h⟩ := guardNot_bind_eq_ok.mp h
    obtain rfl := pure_eq_ok.mp h
    split
    · next hlow =>
      -- no token is left, so no block is
      have hzero : budget.remainingTokenBudget = 0 := by omega
      rw [if_pos hlow, hzero, Int.zero_ediv, Int.zero_mul] at hn
      exact absurd rfl hn
    · rfl
  · obtain rfl := pure_eq_ok.mp h
    omega

/-! ## The budget of a pass -/

/-- What was scheduled is charged and counted. -/
structure PassBudget (cfg : Config) (p : Pass M D) : Prop where
  charged : (p.scheduled.map (physicalTokens cfg p.toScheduler)).sum ≤ p.budget.numBatchedTokens
  reported : p.budget.numScheduledTokens = (p.scheduled.map countedTokens).sum
  counted : ∀ requestId ∈ p.budget.requestIdsNumBatchedTokens,
    0 < (p.scheduled.map ScheduledSequenceGroup.seqGroup).countP (hasId requestId)

theorem sum_scheduled (p : Pass M D) (f : ScheduledSequenceGroup → Int) :
    (p.scheduled.map f).sum = (p.prefills.map f).sum + (p.runningPrefills.map f).sum +
      (p.swappedInPrefills.map f).sum + (p.runningDecodes.map f).sum +
      (p.swappedInDecodes.map f).sum := by
  unfold Pass.scheduled
  simp only [List.map_append, List.sum_append]

/-- A group that is still in a queue is not scheduled. -/
theorem PassRequests.not_scheduled {p : Pass M D} {requestId : String} (hp : PassRequests p)
    (h : 0 < p.waiting.countP (hasId requestId) + p.running.countP (hasId requestId) +
      p.swapped.countP (hasId requestId)) :
    ∀ sg ∈ p.scheduled, sg.seqGroup.requestId ≠ requestId := by
  intro sg hsg hid
  have hcount := hp.distinct requestId
  have hpos : 0 < (p.scheduled.map ScheduledSequenceGroup.seqGroup).countP (hasId requestId) :=
    List.countP_pos_iff.mpr ⟨_, List.mem_map_of_mem hsg, decide_eq_true hid⟩
  unfold Pass.count at hcount
  omega

theorem PassBudget.not_counted {p : Pass M D} {requestId : String} (h : PassBudget cfg p)
    (hnot : ∀ sg ∈ p.scheduled, sg.seqGroup.requestId ≠ requestId) :
    requestId ∉ p.budget.requestIdsNumBatchedTokens := by
  intro hmem
  obtain ⟨g, hg, hid⟩ := List.countP_pos_iff.mp (h.counted requestId hmem)
  obtain ⟨sg, hsg, rfl⟩ := List.mem_map.mp hg
  exact hnot sg hsg (of_decide_eq_true hid)

theorem addNumBatchedTokens_new {b : SchedulingBudget} {requestId : String} {n scheduled : Int}
    (h : requestId ∉ b.requestIdsNumBatchedTokens) :
    b.addNumBatchedTokens requestId n scheduled = { b with
      requestIdsNumBatchedTokens := insert requestId b.requestIdsNumBatchedTokens
      numBatchedTokens := b.numBatchedTokens + n
      numScheduledTokens := b.numScheduledTokens + scheduled
      requestNumScheduledTokens := b.requestNumScheduledTokens.set requestId scheduled } :=
  if_neg h

/-- The tokens of a budget, without its sequences. -/
def SameTokens (b b' : SchedulingBudget) : Prop :=
  b'.numBatchedTokens = b.numBatchedTokens ∧ b'.numScheduledTokens = b.numScheduledTokens ∧
    b'.requestIdsNumBatchedTokens = b.requestIdsNumBatchedTokens ∧ b'.tokenBudget = b.tokenBudget

theorem sameTokens_addNumSeqs (b : SchedulingBudget) (requestId : String) (n : Nat) :
    SameTokens b (b.addNumSeqs requestId n) := by
  unfold SchedulingBudget.addNumSeqs
  split
  · exact ⟨rfl, rfl, rfl, rfl⟩
  · exact ⟨rfl, rfl, rfl, rfl⟩

theorem sameTokens_subtractNumSeqs (b : SchedulingBudget) (requestId : String) (n : Nat) :
    SameTokens b (b.subtractNumSeqs requestId n) := by
  unfold SchedulingBudget.subtractNumSeqs
  split
  · exact ⟨rfl, rfl, rfl, rfl⟩
  · exact ⟨rfl, rfl, rfl, rfl⟩

/-- The scheduled groups are the same ones, and the budget has the same tokens. -/
theorem PassBudget.congr {p p' : Pass M D} (h : PassBudget cfg p)
    (hscheduled : p'.scheduled = p.scheduled) (hbudget : SameTokens p.budget p'.budget)
    (hkeys : ∀ sg ∈ p.scheduled, p'.gdnRequestRestoreKeys.get? sg.seqGroup.requestId =
      p.gdnRequestRestoreKeys.get? sg.seqGroup.requestId) : PassBudget cfg p' where
  charged := by
    have hsame : p'.scheduled.map (physicalTokens cfg p'.toScheduler) =
        p.scheduled.map (physicalTokens cfg p.toScheduler) := by
      rw [hscheduled]
      exact List.map_congr_left fun sg hsg => physicalTokens_congr (hkeys sg hsg)
    rw [hsame, hbudget.1]
    exact h.charged
  reported := by
    rw [hbudget.2.1, hscheduled]
    exact h.reported
  counted := by
    rw [hbudget.2.2.1, hscheduled]
    exact h.counted

/-- A group is scheduled for the first time. -/
theorem PassBudget.schedule {p p' : Pass M D} {n scheduled : Int} {numSeqs : Nat}
    (h : PassBudget cfg p) (sg : ScheduledSequenceGroup)
    (hnot : ∀ sg' ∈ p.scheduled, sg'.seqGroup.requestId ≠ sg.seqGroup.requestId)
    (hperm : p'.scheduled.Perm (sg :: p.scheduled))
    (hbudget : p'.budget = (p.budget.addNumBatchedTokens sg.seqGroup.requestId n scheduled).addNumSeqs
      sg.seqGroup.requestId numSeqs)
    (hkeys : ∀ sg' ∈ p.scheduled, p'.gdnRequestRestoreKeys.get? sg'.seqGroup.requestId =
      p.gdnRequestRestoreKeys.get? sg'.seqGroup.requestId)
    (hcharged : physicalTokens cfg p'.toScheduler sg ≤ n) (hcounted : countedTokens sg = scheduled) :
    PassBudget cfg p' := by
  obtain ⟨hbatched, hsched, hids, -⟩ := sameTokens_addNumSeqs
    (p.budget.addNumBatchedTokens sg.seqGroup.requestId n scheduled) sg.seqGroup.requestId numSeqs
  rw [← hbudget, addNumBatchedTokens_new (h.not_counted hnot)] at hbatched hsched hids
  dsimp only at hbatched hsched hids
  refine ⟨?_, ?_, fun requestId hid => ?_⟩
  · have hsame : p.scheduled.map (physicalTokens cfg p'.toScheduler) =
        p.scheduled.map (physicalTokens cfg p.toScheduler) :=
      List.map_congr_left fun sg' hsg' => physicalTokens_congr (hkeys sg' hsg')
    have := h.charged
    rw [(hperm.map _).sum_eq, List.map_cons, List.sum_cons, hsame, hbatched]
    omega
  · have := h.reported
    rw [hsched, (hperm.map _).sum_eq, List.map_cons, List.sum_cons, hcounted]
    omega
  · rw [hids, Finset.mem_insert] at hid
    rw [(hperm.map _).countP_eq, List.map_cons, List.countP_cons]
    rcases hid with rfl | hid
    · have hself : hasId sg.seqGroup.requestId sg.seqGroup = true := decide_eq_true rfl
      rw [if_pos hself]
      omega
    · have := h.counted requestId hid
      omega

/-! ## Iterations -/

/-- The iterations whose groups are counted: the budget is not overdrawn, the sequences of a group
are in one stage, and a group that is admitted prefills. -/
def countsGroups (M D : Type) : Allowed M D where
  abort _ _ := True
  iteration r := (∀ p ∈ r.pass?, 0 ≤ p.budget.remainingTokenBudget) ∧
    match r with
    | .idle _ _ => True
    | .running p => ∀ g queue, p.running = g :: queue → SameStage g
    | .swapped p => ∀ g queue, p.swapped = g :: queue → SameStage g
    | .prefills p => ∀ g queue, p.waiting = g :: queue → g.isPrefill = true

theorem get?_erase_scheduled {p : Pass M D} {requestId : String}
    (hnot : ∀ sg ∈ p.scheduled, sg.seqGroup.requestId ≠ requestId) :
    ∀ sg ∈ p.scheduled,
      (p.gdnRequestRestoreKeys.erase requestId).get? sg.seqGroup.requestId =
        p.gdnRequestRestoreKeys.get? sg.seqGroup.requestId :=
  fun sg hsg => Dict.get?_erase_of_ne (hnot sg hsg) _

/-- A victim is not scheduled, so nothing is charged for it. -/
theorem PassBudget.removed {p p' : Pass M D} {v : SeqGroup} (hk : KeepsRequests ops)
    (h : PassBudget cfg p) (hnot : ∀ sg ∈ p.scheduled, sg.seqGroup.requestId ≠ v.requestId)
    (hrem : Removed cfg ops mode v p p') :
    PassBudget cfg p' ∧ p'.scheduled = p.scheduled ∧ p'.budget = p.budget := by
  cases hrem with
  | finished hg hfin =>
    rw [(hk.afterCallback hg).1]
    exact ⟨h.congr rfl ⟨rfl, rfl, rfl, rfl⟩ (get?_erase_scheduled hnot), rfl, rfl⟩
  | recompute hg hlive hmode =>
    exact ⟨h.congr rfl ⟨rfl, rfl, rfl, rfl⟩ fun _ _ => rfl, rfl, rfl⟩
  | swap hg hlive hmode =>
    exact ⟨h.congr rfl ⟨rfl, rfl, rfl, rfl⟩ fun _ _ => rfl, rfl, rfl⟩

/-- Nothing is given back for a group that was not counted. -/
theorem sameTokens_uncount {p : Pass M D} {g : SeqGroup} {n : Int}
    (h : g.requestId ∉ p.budget.requestIdsNumBatchedTokens) :
    SameTokens p.budget (uncount g n p).budget := by
  unfold uncount SchedulingBudget.subtractNumBatchedTokens
  dsimp only
  rw [if_neg h]
  exact sameTokens_subtractNumSeqs _ _ _

/-- The chunk of a running group: it is charged for it and counts for it. -/
theorem running_tokens {p : Pass M D} {g : SeqGroup} {n chunk : Int}
    (hbudget : 0 ≤ p.budget.remainingTokenBudget) (hstage : SameStage g)
    (hn : getNumNewTokens cfg g .running true p.budget = .ok n) (hne : n ≠ 0)
    (hchunk : runningChunk cfg g p n = .ok chunk) :
    0 < chunk ∧ (g.isPrefill = false → chunk = (g.getSeqs .running).length) := by
  have hpos : 0 < n := by
    have := getNumNewTokens_nonneg hbudget hn
    omega
  unfold runningChunk at hchunk
  split at hchunk
  · next hpre =>
    obtain ⟨⟨chunk', query⟩, hcap, rfl⟩ := map_eq_ok.mp hchunk
    obtain ⟨-, -, hchunk, -⟩ := capGdnCaptureBoundary_ok hcap
    refine ⟨hchunk hpos, fun hdec => ?_⟩
    rw [hpre] at hdec
    cases hdec
  · obtain rfl := pure_eq_ok.mp hchunk
    exact ⟨hpos, fun hdec => getNumNewTokens_decode hbudget (stage_eq_decode hstage hdec) hne hn⟩

theorem PassBudget.scheduleRunning {p p' : Pass M D} {g : SeqGroup} {n : Int}
    (h : PassBudget cfg p) (hnot : ∀ sg ∈ p.scheduled, sg.seqGroup.requestId ≠ g.requestId)
    (hpos : 0 < n) (hdec : g.isPrefill = false → n = (g.getSeqs .running).length)
    (hsched : scheduleRunning cfg ops g n p = .ok p') : PassBudget cfg p' := by
  obtain ⟨m, ⟨hpre, rfl⟩ | ⟨hpre, rfl⟩⟩ := scheduleRunning_ok hsched
  · refine h.schedule ⟨g, n⟩ hnot ?_ rfl (fun _ _ => rfl)
      (physicalTokens_le_chunk hpre hpos.le) ?_
    · unfold Pass.scheduled
      rw [List.perm_iff_count]
      intro sg
      simp only [List.count_append, List.count_cons, List.count_nil]
      omega
    · unfold countedTokens
      rw [if_pos hpre]
  · have hn := hdec hpre
    refine h.schedule ⟨g, 1⟩ hnot ?_ rfl (fun _ _ => rfl) ?_ ?_
    · unfold Pass.scheduled
      rw [List.perm_iff_count]
      intro sg
      simp only [List.count_append, List.count_cons, List.count_nil]
      omega
    · unfold physicalTokens
      rw [if_neg (by rw [hpre]; decide), hn]
    · unfold countedTokens
      rw [if_neg (by rw [hpre]; decide), hn]

theorem runningStep_budget {p p' : Pass M D} (hk : KeepsRequests ops) (hp : PassRequests p)
    (hb : PassBudget cfg p) (hok : (countsGroups M D).iteration (.running p))
    (h : runningStep cfg ops mode p = .ok (some p')) : PassBudget cfg p' := by
  obtain ⟨g, queue, n, chunk, hrun, hn, hne, hchunk, hcase⟩ := runningStep_cases h
  have hbudget := hok.1 p rfl
  have hstage := hok.2 g queue hrun
  obtain ⟨hpos, hdec⟩ := running_tokens hbudget hstage hn hne hchunk
  have hself : hasId g.requestId g = true := decide_eq_true rfl
  have hnot : ∀ sg ∈ p.scheduled, sg.seqGroup.requestId ≠ g.requestId :=
    hp.not_scheduled (by rw [hrun, List.countP_cons, if_pos hself]; omega)
  have hp' : PassRequests { p with running := g :: queue } := hrun ▸ hp
  have hlast : PassRequests { p with running := queue.reverse ++ [g] } :=
    hp'.perm (by simpa using (List.reverse_perm (g :: queue)).symm)
  have hrule {p₁ : Pass M D} {hasRoom : Bool}
      (hroom : makeRoom cfg ops mode g chunk queue.reverse p = .ok (p₁, hasRoom)) :=
    makeRoom_rule (J := fun l p => PassRequests { p with running := l } ∧ PassBudget cfg p ∧
        ∀ sg ∈ p.scheduled, sg.seqGroup.requestId ≠ g.requestId)
      (fun v rest p₁ p₂ ⟨hreq, hb, hnot⟩ _ hpre => by
        have hrem := preemptVictim_removed hpre
        have hreq' : PassRequests { uncount g chunk p₁ with running := v :: rest } :=
          ⟨hreq.distinct, hreq.swapped, hreq.leftoverSwapped, hreq.swappedOut⟩
        have hselfV : hasId v.requestId v = true := decide_eq_true rfl
        have hnotV : ∀ sg ∈ p₁.scheduled, sg.seqGroup.requestId ≠ v.requestId :=
          PassRequests.not_scheduled (p := { p₁ with running := v :: rest }) hreq
            (by rw [List.countP_cons, if_pos hselfV]; omega)
        have hb' : PassBudget cfg (uncount g chunk p₁) :=
          hb.congr rfl (sameTokens_uncount (hb.not_counted hnot)) fun _ _ => rfl
        obtain ⟨hb₂, hsame, -⟩ := hb'.removed hk hnotV hrem
        exact ⟨hreq'.removed hk hrem, hb₂, hsame ▸ hnot⟩)
      ⟨hlast, hb, hnot⟩ hroom
  rcases hcase with ⟨-, rfl⟩ | hroom | ⟨p₁, hroom, hsched⟩
  · exact hb.congr rfl ⟨rfl, rfl, rfl, rfl⟩ fun _ _ => rfl
  · rcases hrule hroom with ⟨hno, -⟩ | ⟨-, p₁, hJ, rfl⟩
    · cases hno
    · exact hJ.2.1.congr rfl ⟨rfl, rfl, rfl, rfl⟩ fun _ _ => rfl
  · rcases hrule hroom with ⟨-, rest, p₁, ⟨-, hb₁, hnot₁⟩, rfl⟩ | ⟨hno, -⟩
    · have hb₂ : PassBudget cfg { p₁ with running := rest.reverse } :=
        hb₁.congr rfl ⟨rfl, rfl, rfl, rfl⟩ fun _ _ => rfl
      exact hb₂.scheduleRunning hnot₁ hpos hdec hsched
    · cases hno

theorem getSeqs_setStatus_new {g : SeqGroup} (h : g.getSeqs .running = []) :
    ((g.setStatus .swapped .running).getSeqs .running).length = (g.getSeqs .swapped).length := by
  unfold SeqGroup.getSeqs SeqGroup.setStatus at *
  dsimp only
  rw [← List.countP_eq_length_filter, ← List.countP_eq_length_filter, List.countP_map]
  refine List.countP_congr fun seq hseq => ?_
  have hrun := List.filter_eq_nil_iff.mp h seq hseq
  rw [decide_eq_true_iff] at hrun
  by_cases hsw : seq.status = .swapped
  · simp [hsw]
  · simp [hsw, hrun]

theorem swappedStep_budget {p p' : Pass M D} (hp : PassRequests p) (hb : PassBudget cfg p)
    (hok : (countsGroups M D).iteration (.swapped p))
    (h : swappedStep cfg ops p = .ok (some p')) : PassBudget cfg p' := by
  obtain ⟨g, queue, hsw, hcase⟩ := swappedStep_cases h
  have hbudget := hok.1 p rfl
  have hstage := hok.2 g queue hsw
  have hself : hasId g.requestId g = true := decide_eq_true rfl
  have hnot : ∀ sg ∈ p.scheduled, sg.seqGroup.requestId ≠ g.requestId :=
    hp.not_scheduled (by rw [hsw, List.countP_cons, if_pos hself]; omega)
  rcases hcase with ⟨-, ignored, rfl⟩ | rfl | ⟨n, hn, hne, hsched⟩
  · exact hb.congr rfl ⟨rfl, rfl, rfl, rfl⟩ fun _ _ => rfl
  · exact hb.congr rfl ⟨rfl, rfl, rfl, rfl⟩ fun _ _ => rfl
  have hnonneg := getNumNewTokens_nonneg hbudget hn
  obtain ⟨m, ⟨hpre, rfl⟩ | ⟨hpre, rfl⟩⟩ := scheduleSwapped_ok hsched
  · have hpre' := (isPrefill_setStatus g .swapped .running).trans hpre
    refine hb.schedule ⟨g.setStatus .swapped .running, n⟩ hnot ?_ rfl (fun _ _ => rfl)
      (physicalTokens_le_chunk hpre' hnonneg) ?_
    · unfold Pass.scheduled
      rw [List.perm_iff_count]
      intro sg
      simp only [List.count_append, List.count_cons, List.count_nil]
      omega
    · unfold countedTokens
      rw [if_pos hpre']
  · have hpre' := (isPrefill_setStatus g .swapped .running).trans hpre
    have hrun := getSeqs_setStatus_new (hp.swapped g (hsw ▸ List.mem_cons_self))
    have hlength := getNumNewTokens_decode hbudget (stage_eq_decode hstage hpre) hne hn
    refine hb.schedule ⟨g.setStatus .swapped .running, 1⟩ hnot ?_ rfl (fun _ _ => rfl) ?_ ?_
    · unfold Pass.scheduled
      rw [List.perm_iff_count]
      intro sg
      simp only [List.count_append, List.count_cons, List.count_nil]
      omega
    · unfold physicalTokens
      rw [if_neg (by rw [hpre']; decide), hrun, hlength]
    · unfold countedTokens
      rw [if_neg (by rw [hpre']; decide), hrun, hlength]

/-- A prefill that skips its checkpoint runs the rest. -/
theorem physicalTokens_le_query {s : Scheduler M D} {g : SeqGroup} {seq : Seq}
    {restoreKey : Option (GdnPrefixKey D)} {remaining chunk query : Int}
    (hc : cfg.enablePrefixCaching = true) (hpre : g.isPrefill = true)
    (hseqs : g.getSeqs .waiting = [seq])
    (hkey : s.gdnRequestRestoreKeys.get? g.requestId = some restoreKey)
    (hskip : Skips restoreKey seq.numComputedTokens seq.len remaining cfg.gdn.blockSize chunk query) :
    physicalTokens cfg s ⟨g.setStatus .waiting .running, chunk⟩ ≤ query := by
  obtain ⟨key, rfl, hzero, -, -, rfl, hpos, -⟩ := hskip
  have hrestore : restoreTokens cfg s g.requestId = key.1 * cfg.gdn.blockSize := by
    unfold restoreTokens
    rw [if_pos hc, hkey]
    rfl
  unfold physicalTokens
  rw [if_pos ((isPrefill_setStatus g _ _).trans hpre)]
  split
  · next seq' hseqs' =>
    have hcomputed : seq'.numComputedTokens = 0 := by
      have hmem : seq ∈ g.seqs := List.mem_of_mem_filter (by
        unfold SeqGroup.getSeqs at hseqs
        rw [hseqs]
        exact List.mem_singleton_self seq)
      have hmap := List.mem_map_of_mem
        (f := fun s : Seq => if s.status = .waiting then { s with status := .running } else s) hmem
      have heq : g.seqs.map (fun s : Seq =>
          if s.status = .waiting then { s with status := .running } else s) = [seq'] := hseqs'
      rw [heq, List.mem_singleton] at hmap
      rw [← hmap]
      split
      · exact hzero
      · exact hzero
    dsimp only
    have hid : (g.setStatus .waiting .running).requestId = g.requestId := rfl
    rw [if_pos hcomputed, hid, hrestore]
    omega
  · exact hpos.le

variable [DecidableEq D]

theorem prefillStep_budget {p p' : Pass M D} (hp : PassRequests p) (hb : PassBudget cfg p)
    (hok : (countsGroups M D).iteration (.prefills p))
    (h : prefillStep cfg ops p = .ok (some p')) : PassBudget cfg p' := by
  obtain ⟨g, queue, seq, hw, hseqs, hcase⟩ := prefillStep_cases h
  have hbudget := hok.1 p rfl
  have hpre := hok.2 g queue hw
  have hself : hasId g.requestId g = true := decide_eq_true rfl
  have hnot : ∀ sg ∈ p.scheduled, sg.seqGroup.requestId ≠ g.requestId :=
    hp.not_scheduled (by rw [hw, List.countP_cons, if_pos hself]; omega)
  have hpre' := (isPrefill_setStatus g .waiting .running).trans hpre
  have hperm (sg : ScheduledSequenceGroup) : (p.prefills ++ [sg] ++ p.runningPrefills ++
      p.swappedInPrefills ++ p.runningDecodes ++ p.swappedInDecodes).Perm (sg :: p.scheduled) := by
    unfold Pass.scheduled
    rw [List.perm_iff_count]
    intro sg
    simp only [List.count_append, List.count_cons, List.count_nil]
    omega
  rcases hcase with rfl | rfl | ⟨n, hn, hne, -, hadm⟩
  · exact hb.congr rfl ⟨rfl, rfl, rfl, rfl⟩ fun _ _ => rfl
  · exact hb.congr rfl ⟨rfl, rfl, rfl, rfl⟩ fun _ _ => rfl
  have hpos : 0 < n := by
    have := getNumNewTokens_nonneg hbudget hn
    omega
  cases hadm with
  | plain hc =>
    refine hb.schedule ⟨g.setStatus .waiting .running, n⟩ hnot (hperm _) rfl
      (fun _ _ => rfl) (physicalTokens_le_chunk hpre' hpos.le) ?_
    unfold countedTokens
    rw [if_pos hpre']
  | @gdn m loras c chunk query hc hplan =>
    refine hb.schedule ⟨g.setStatus .waiting .running, chunk⟩ hnot (hperm _) rfl
      (fun sg hsg => Dict.get?_set_of_ne (hnot sg hsg) _ _) ?_ ?_
    · rcases gdnChunk_sound hplan with ⟨rfl, -, hchunk⟩ | hskip
      · exact physicalTokens_le_chunk hpre' (hchunk hpos).le
      · exact physicalTokens_le_query hc hpre hseqs (Dict.get?_set_self _ _ _) hskip
    · unfold countedTokens
      rw [if_pos hpre']

/-! ## Runs -/

def BudgetInv (cfg : Config) : RunState M D → Prop
  | .idle _ _ => True
  | .running p | .swapped p | .prefills p => PassBudget cfg p

omit [DecidableEq D] in
theorem beginPass_budget (s : Scheduler M D) : PassBudget cfg (beginPass cfg s) where
  charged := le_rfl
  reported := rfl
  counted _ h := absurd h (Finset.notMem_empty _)

theorem budgetInv_of_reachable (hk : KeepsRequests ops) {r : RunState M D}
    (h : (requestSys cfg ops mode (countsGroups M D)).Reachable r) : BudgetInv cfg r :=
  h.invariant (I := BudgetInv cfg)
    (fun t ht => by
      obtain ⟨policy, m, rfl⟩ := ht
      exact trivial)
    (fun t t' hreach ht hstep => by
      have hrequests := requestsInv_of_reachable hk hreach
      cases hstep with
      | addSeqGroup _ _ => exact trivial
      | abortSeqGroup _ _ => exact trivial
      | process _ => exact trivial
      | freeFinishedSeqGroups => exact trivial
      | pass hstep hpass hok =>
        cases hstep with
        | addSeqGroup _ => exact trivial
        | process _ => exact trivial
        | begin _ => exact beginPass_budget _
        | runningIter hstep => exact runningStep_budget hk hrequests ht (hok rfl) hstep
        | runningEnd _ =>
          split
          · exact ht
          · exact ht
        | swappedIter hstep => exact swappedStep_budget hrequests ht (hok rfl) hstep
        | swappedEnd _ => exact ht
        | prefillIter _ hstep => exact prefillStep_budget hrequests ht (hok rfl) hstep
        | finish _ => exact trivial)

/-- The plans are sound, and a pass whose iterations count their groups emits no more than fits into
the budget and reports what it counted. -/
theorem step_within_budget :
    (∀ (restoreKey : Option (GdnPrefixKey D)) (computed nominal remaining chunk query : Int)
      (promptLen blockSize : Nat) (alignment : Option Nat),
      planGdnPrefixFastForward restoreKey computed promptLen nominal remaining blockSize alignment =
        .ok (chunk, query) →
      ((chunk = nominal ∧ query = nominal) ∨
        Skips restoreKey computed promptLen remaining blockSize chunk query) ∧
      ∀ (policy : GdnCachePolicy) (targets : List (GdnPrefixKey D)) (g : SeqGroup)
        (chunk' query' : Int),
        capGdnCaptureBoundary blockSize policy targets g chunk query = .ok (chunk', query') →
        (chunk' = query' ∧ chunk' ≤ nominal ∧ (0 < nominal → 0 < chunk')) ∨
          Skips restoreKey computed promptLen remaining blockSize chunk' query') ∧
    ∀ (p : Pass M D) (s : Scheduler M D) (scheduled : List ScheduledSequenceGroup),
      KeepsRequests ops →
      (requestSys cfg ops mode (countsGroups M D)).Reachable (.prefills p) →
      finishPass cfg ops p = .ok (s, scheduled) →
      (scheduled.map (physicalTokens cfg p.toScheduler)).sum ≤ cfg.gdn.maxNumBatchedTokens ∧
        p.outputs.numBatchedTokens = (scheduled.map countedTokens).sum := by
  refine ⟨fun restoreKey computed nominal remaining chunk query promptLen blockSize alignment h =>
    ⟨planGdnPrefixFastForward_sound h, fun policy targets g chunk' query' hcap =>
      capGdnCaptureBoundary_sound (planGdnPrefixFastForward_sound h) hcap⟩,
    fun p s scheduled hk hreach hfin => ?_⟩
  have hb : PassBudget cfg p := budgetInv_of_reachable hk hreach
  obtain ⟨rfl, -, -⟩ := finishPass_ok hfin
  unfold finishPass at hfin
  obtain ⟨hle, -⟩ := guardNot_bind_eq_ok.mp hfin
  exact ⟨hb.charged.trans (Int.not_lt.mp hle), hb.reported⟩

/-- The first chunk of a prompt of ten tokens. -/
theorem step_within_budget_first : ∃ (p : Pass Unit Nat) (scheduled : List ScheduledSequenceGroup),
    scheduled.map (physicalTokens smallConfig p.toScheduler) = [4] ∧
    (scheduled.map (physicalTokens smallConfig p.toScheduler)).sum ≤
      smallConfig.gdn.maxNumBatchedTokens ∧
    p.outputs.numBatchedTokens = (scheduled.map countedTokens).sum := by
  obtain ⟨⟨p, s, scheduled⟩, hrun, htokens⟩ := exists_of_any (x := admitOnePrompt)
    (P := fun r => r.2.2.map (physicalTokens smallConfig r.1.toScheduler) = [4]) (by decide +kernel)
  have hbudget : ∀ q ∈ some (beginPass smallConfig onePrompt),
      0 ≤ q.budget.remainingTokenBudget := fun q hq => by
    obtain rfl := Option.some.inj hq
    decide
  obtain ⟨hreach, hfin⟩ := admitOnePrompt_reachable (A := countsGroups Unit Nat)
    ⟨hbudget, fun g queue hq => by cases hq⟩ ⟨hbudget, fun g queue hq => by cases hq⟩
    ⟨hbudget, fun g queue hq => by
      obtain ⟨rfl, -⟩ := List.cons.inj hq
      rfl⟩ hrun
  exact ⟨p, scheduled, htokens,
    step_within_budget.2 p s scheduled (sharedPrefixOps_keepsRequests 0) hreach hfin⟩

/-! ## Runs that count otherwise -/

/-- A scheduled prefill has computed its chunk. -/
def afterChunk (scheduled : List ScheduledSequenceGroup) (g : SeqGroup) : Except Err SeqGroup :=
  match scheduled.find? fun sg => sg.seqGroup = g ∧ g.isPrefill with
  | some sg => g.updateNumComputedTokens sg.tokenChunkSize
  | none => pure g

/-- The engine processes the outputs of one group; `f` is what it does to a group that decodes. -/
def engineStep (scheduled : List ScheduledSequenceGroup) (f : SeqGroup → SeqGroup) (g : SeqGroup) :
    Except Err SeqGroup := do
  let g₁ ← afterChunk scheduled g
  return if g₁.isPrefill then g₁ else { f g₁ with requestId := g.requestId }

/-- Passes, and between them what the engine does to the groups and the blocks. -/
def runPasses (cfg : Config) (ops : BlockManagerOps M D) (mode : Option PreemptionMode) :
    List ((SeqGroup → SeqGroup) × M) → Scheduler M D → Except Err (Pass M D)
  | [], s => planPass cfg ops mode s
  | (f, blockManager) :: rest, s => do
    let (s, scheduled) ← scheduleChunkedPrefill cfg ops mode s
    let running ← s.running.mapM (engineStep scheduled f)
    runPasses cfg ops mode rest { s with running, blockManager }

omit [DecidableEq D] in
theorem updateNumComputedTokens_requestId {g g' : SeqGroup} {n : Int}
    (h : g.updateNumComputedTokens n = .ok g') : g'.requestId = g.requestId := by
  unfold SeqGroup.updateNumComputedTokens at h
  obtain ⟨seqs, -, h⟩ := bind_eq_ok.mp h
  obtain rfl := pure_eq_ok.mp h
  rfl

omit [DecidableEq D] in
theorem engineStep_update {scheduled : List ScheduledSequenceGroup} {f : SeqGroup → SeqGroup}
    {g g' : SeqGroup} (h : engineStep scheduled f g = .ok g') : EngineUpdate scheduled g g' := by
  unfold engineStep at h
  obtain ⟨g₁, h₁, h⟩ := bind_eq_ok.mp h
  obtain rfl := pure_eq_ok.mp h
  refine ⟨g₁, h₁, ?_, fun hpre => if_pos hpre⟩
  split
  · unfold afterChunk at h₁
    split at h₁
    · exact updateNumComputedTokens_requestId h₁
    · rw [pure_eq_ok.mp h₁]
  · rfl

omit [DecidableEq D] in
theorem forall₂_engineStep {scheduled : List ScheduledSequenceGroup} {f : SeqGroup → SeqGroup}
    {l l' : List SeqGroup} (h : l.mapM (engineStep scheduled f) = .ok l') :
    List.Forall₂ (EngineUpdate scheduled) l l' := by
  induction l generalizing l' with
  | nil =>
    obtain rfl := pure_eq_ok.mp h
    exact .nil
  | cons g l ih =>
    rw [List.mapM_cons] at h
    obtain ⟨g', hg', h⟩ := bind_eq_ok.mp h
    obtain ⟨rest, hrest, h⟩ := bind_eq_ok.mp h
    obtain rfl := pure_eq_ok.mp h
    exact .cons (engineStep_update hg') (ih hrest)

theorem runPasses_reachable {allowed : Allowed M D} (hallowed : ∀ r, allowed.iteration r)
    {l : List ((SeqGroup → SeqGroup) × M)} {s : Scheduler M D} {p : Pass M D}
    (hs : (requestSys cfg ops mode allowed).Reachable (.idle s []))
    (h : runPasses cfg ops mode l s = .ok p) :
    (requestSys cfg ops mode allowed).Reachable (.prefills p) := by
  have hpass (r r' : RunState M D) (hstep : Step cfg ops mode (fun _ => True) r r')
      (hin : r.pass?.isSome ∨ r'.pass?.isSome) : RequestStep cfg ops mode allowed r r' :=
    .pass hstep hin fun _ => hallowed r
  induction l generalizing s with
  | nil => exact planPass_reachable hpass (fun _ => trivial) hs h
  | cons step l ih =>
    unfold runPasses at h
    obtain ⟨⟨s₁, scheduled⟩, h₁, h⟩ := bind_eq_ok.mp h
    obtain ⟨running, hrun, h⟩ := bind_eq_ok.mp h
    have hidle := pass_reachable hpass (fun _ => trivial) hs h₁
    exact ih (hidle.step (.process ⟨forall₂_engineStep hrun, rfl⟩)) h

/-- A decode step: every sequence that runs gets a token, and the prompt of `"d"` gets two. -/
def decodeStep (g : SeqGroup) : SeqGroup :=
  let seqs := g.seqs.map fun s =>
    if s.status.isFinished then s else { s with len := s.len + 1, numComputedTokens := s.len }
  { g with seqs := if g.requestId = "d" ∧ g.seqs.length = 1 then seqs ++ seqs else seqs }

/-- A request for two sequences, one for one, and a longer prompt. -/
def threePrompts : Scheduler Unit Nat :=
  { init .fine32 () with
    waiting := [{ promptGroup "d" 1 with n := some 2 }, promptGroup "c" 1, promptGroup "e" 5] }

theorem threePrompts_reachable (allowed : Allowed Unit Nat) :
    (requestSys smallConfig (sharedPrefixOps 0) none allowed).Reachable (.idle threePrompts []) :=
  Sys.Reachable.step (Sys.Reachable.step (Sys.Reachable.step (.init ⟨_, _, rfl⟩)
    (.addSeqGroup (g := { promptGroup "d" 1 with n := some 2 }) ⟨1, rfl⟩ (by decide)))
    (.addSeqGroup (promptGroup_fresh "c" 1) (by decide)))
    (.addSeqGroup (promptGroup_fresh "e" 5) (by decide))

/-- Every abort and every iteration. -/
def allowAll (M D : Type) : Allowed M D := ⟨fun _ _ => True, fun _ => True⟩

/-- In the second step two sequences of `"d"` decode: its chunk is 1, and it counts for two. -/
theorem decode_counts_sequences :
    ¬ ∀ (p : Pass Unit Nat) (s : Scheduler Unit Nat) (scheduled : List ScheduledSequenceGroup),
      (requestSys smallConfig (sharedPrefixOps 0) none (allowAll Unit Nat)).Reachable (.prefills p) →
      finishPass smallConfig (sharedPrefixOps 0) p = .ok (s, scheduled) →
      (scheduled.map (physicalTokens smallConfig p.toScheduler)).sum ≤
          smallConfig.gdn.maxNumBatchedTokens ∧
        p.outputs.numBatchedTokens = (scheduled.map (·.tokenChunkSize)).sum := by
  intro hall
  obtain ⟨⟨p, s, scheduled⟩, hrun, hbad⟩ := exists_of_any (x := do
      let p ← runPasses smallConfig (sharedPrefixOps 0) none [(decodeStep, ())] threePrompts
      let r ← finishPass smallConfig (sharedPrefixOps 0) p
      return (p, r))
    (P := fun r => r.1.outputs.numBatchedTokens ≠ (r.2.2.map (·.tokenChunkSize)).sum)
    (by decide +kernel)
  obtain ⟨p₁, hpasses, hrun⟩ := bind_eq_ok.mp hrun
  obtain ⟨r, hfin, hrun⟩ := bind_eq_ok.mp hrun
  obtain ⟨rfl, rfl⟩ := Prod.mk.inj (pure_eq_ok.mp hrun)
  exact hbad (hall p s scheduled
    (runPasses_reachable (fun _ => trivial) (threePrompts_reachable _) hpasses) hfin).2

/-- In the third step the prompt goes first: the two sequences overdraw the budget, and the group
after them gets a negative number of tokens. Six tokens run in a step of four. -/
theorem budget_overdrawn : ∃ (p : Pass Unit Nat) (s : Scheduler Unit Nat)
    (scheduled : List ScheduledSequenceGroup),
    (requestSys smallConfig (sharedPrefixOps 0) none (allowAll Unit Nat)).Reachable (.prefills p) ∧
    finishPass smallConfig (sharedPrefixOps 0) p = .ok (s, scheduled) ∧
    (scheduled.map (physicalTokens smallConfig p.toScheduler)).sum = 6 ∧
    p.outputs.numBatchedTokens = 3 := by
  obtain ⟨⟨p, s, scheduled⟩, hrun, htokens⟩ := exists_of_any (x := do
      let p ← runPasses smallConfig (sharedPrefixOps 0) none
        [(decodeStep, ()), (decodeStep, ())] threePrompts
      let r ← finishPass smallConfig (sharedPrefixOps 0) p
      return (p, r))
    (P := fun r => (r.2.2.map (physicalTokens smallConfig r.1.toScheduler)).sum = 6 ∧
      r.1.outputs.numBatchedTokens = 3) (by decide +kernel)
  obtain ⟨p₁, hpasses, hrun⟩ := bind_eq_ok.mp hrun
  obtain ⟨r, hfin, hrun⟩ := bind_eq_ok.mp hrun
  obtain ⟨rfl, rfl⟩ := Prod.mk.inj (pure_eq_ok.mp hrun)
  exact ⟨p, s, scheduled,
    runPasses_reachable (fun _ => trivial) (threePrompts_reachable _) hpasses, hfin, htokens⟩

/-- A block manager that has room while its flag is set. -/
def roomOps : BlockManagerOps Bool Nat where
  canAppendSlots room _ _ := room
  appendSlots room _ _ := pure room
  canAllocate room _ _ := if room then .ok else .later
  allocate room _ := pure room
  canSwapIn room _ _ := if room then .ok else .later
  swapIn room _ := pure room
  canSwapOut _ _ := true
  swapOut room _ := pure room
  free room _ := pure room
  markBlocksAsComputed room _ _ := pure room
  numCommonComputedBlocks _ _ := 0
  getContentHashes _ _ := pure []
  outputProcCallback room g := pure (room, g)
  outputProcCallback_kept h := by
    obtain ⟨-, rfl⟩ := Prod.mk.inj (pure_eq_ok.mp h)
    exact .refl _

/-- The first sequence of a group finishes. -/
def finishFirst (g : SeqGroup) : SeqGroup :=
  { g with seqs := match g.seqs with
    | s :: rest => { s with status := .finishedStopped } :: rest
    | [] => [] }

/-- The chunk of a group is computed. -/
def advance (n : Int) (g : SeqGroup) : SeqGroup := (g.updateNumComputedTokens n).toOption.getD g

/-- A prompt of four tokens for two sequences. -/
def forkedPrompt : Scheduler Bool Nat :=
  { init .fine32 true with waiting := [{ promptGroup "d" 4 with n := some 2 }] }

/-- The first sequence finishes and the second is recomputed: the group counts as one that decodes,
with a chunk of one token, and two tokens are charged for it. -/
theorem mixed_stages : ∃ (p : Pass Bool Nat) (s : Scheduler Bool Nat)
    (scheduled : List ScheduledSequenceGroup),
    (requestSys smallConfig roomOps none (allowAll Bool Nat)).Reachable (.prefills p) ∧
    finishPass smallConfig roomOps p = .ok (s, scheduled) ∧
    scheduled.map (·.tokenChunkSize) = [1] ∧ (scheduled.map countedTokens).sum = 1 ∧
    p.outputs.numBatchedTokens = 2 := by
  obtain ⟨⟨p, s, scheduled⟩, hrun, htokens⟩ := exists_of_any (x := do
      let p ← runPasses smallConfig roomOps none [(finishFirst ∘ decodeStep, true),
        (decodeStep, false), (id, true), (advance 4, true)] forkedPrompt
      let r ← finishPass smallConfig roomOps p
      return (p, r))
    (P := fun r => r.2.2.map (·.tokenChunkSize) = [1] ∧ (r.2.2.map countedTokens).sum = 1 ∧
      r.1.outputs.numBatchedTokens = 2) (by decide +kernel)
  obtain ⟨p₁, hpasses, hrun⟩ := bind_eq_ok.mp hrun
  obtain ⟨r, hfin, hrun⟩ := bind_eq_ok.mp hrun
  obtain ⟨rfl, rfl⟩ := Prod.mk.inj (pure_eq_ok.mp hrun)
  have hstart : (requestSys smallConfig roomOps none (allowAll Bool Nat)).Reachable
      (.idle forkedPrompt []) := Sys.Reachable.step (.init ⟨_, _, rfl⟩)
    (.addSeqGroup (g := { promptGroup "d" 4 with n := some 2 }) ⟨4, rfl⟩ (by decide))
  exact ⟨p, s, scheduled, runPasses_reachable (fun _ => trivial) hstart hpasses, hfin, htokens⟩

end Bi100.Scheduler
