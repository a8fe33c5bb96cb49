import Bi100.Scheduler.Boundary

/-!
# Runs of the scheduler

Between two passes requests arrive or leave, and the engine advances what was scheduled. The
blocks of the manager may change at any of these steps.

- `chunks_end_on_blocks`: in a run whose fast-forwards are aligned, what `schedule()` returns has
  no prefill chunk that ends inside a block and does not complete its prompt.
- `chunk_ends_inside_block`: a run with a fast-forward after a decode, whose chunk does.
-/

namespace Bi100.Scheduler

open Py

variable {M D : Type} {cfg : Config} {ops : BlockManagerOps M D} {mode : Option PreemptionMode}

/-- Between two passes, or in one of the three loops of a pass. -/
inductive RunState (M D : Type) where
  | idle (s : Scheduler M D) (scheduled : List ScheduledSequenceGroup)
  | running (p : Pass M D)
  | swapped (p : Pass M D)
  | prefills (p : Pass M D)

/-- The pass that is going on. -/
def RunState.pass? : RunState M D → Option (Pass M D)
  | .idle _ _ => none
  | .running p => some p
  | .swapped p => some p
  | .prefills p => some p

/-- A group before and after the engine processed the outputs of a step: a scheduled prefill has
computed its chunk. Other groups may change as long as they do not start a prefill. -/
def Processed (scheduled : List ScheduledSequenceGroup) (g g' : SeqGroup) : Prop :=
  ∃ g₁, (match scheduled.find? fun sg => sg.seqGroup = g ∧ g.isPrefill with
    | some sg => g.updateNumComputedTokens sg.tokenChunkSize
    | none => pure g) = .ok g₁ ∧ g₁.Kept g'

/-- The groups of the queues after the outputs were processed and groups finished or were aborted. -/
structure Advanced (scheduled : List ScheduledSequenceGroup) (s s' : Scheduler M D) : Prop where
  waiting : ∀ g' ∈ s'.waiting, ∃ g ∈ s.waiting, g.Kept g'
  running : ∀ g' ∈ s'.running, ∃ g ∈ s.running, Processed scheduled g g'
  swapped : ∀ g' ∈ s'.swapped, ∃ g ∈ s.swapped, g.Kept g'

/-- A request as it is added: one sequence of which nothing is computed. -/
def SeqGroup.Fresh (g : SeqGroup) : Prop :=
  ∃ len, g.seqs = [⟨len, 0, .prefill, .waiting⟩]

variable [DecidableEq D]

/-- The steps. An iteration of `_schedule_prefills` is taken where `ok` holds; this loop may end at
any time, as new prompts may have to wait (`_passed_delay`). -/
inductive Step (cfg : Config) (ops : BlockManagerOps M D) (mode : Option PreemptionMode)
    (ok : Pass M D → Prop) : RunState M D → RunState M D → Prop where
  | addSeqGroup {s : Scheduler M D} {scheduled : List ScheduledSequenceGroup} {g : SeqGroup}
      (h : g.Fresh) :
      Step cfg ops mode ok (.idle s scheduled)
        (.idle { s with waiting := s.waiting ++ [g] } scheduled)
  | process {s s' : Scheduler M D} {scheduled : List ScheduledSequenceGroup}
      (h : Advanced scheduled s s') :
      Step cfg ops mode ok (.idle s scheduled) (.idle s' [])
  | begin {s : Scheduler M D} (h : s.asyncStopped = []) :
      Step cfg ops mode ok (.idle s []) (.running (beginPass cfg s))
  | runningIter {p p' : Pass M D} (h : runningStep cfg ops mode p = .ok (some p')) :
      Step cfg ops mode ok (.running p) (.running p')
  | runningEnd {p : Pass M D} (h : runningStep cfg ops mode p = .ok none) :
      Step cfg ops mode ok (.running p)
        (if p.preempted = [] ∧ p.swappedOut = [] then .swapped p else .prefills p)
  | swappedIter {p p' : Pass M D} (h : swappedStep cfg ops p = .ok (some p')) :
      Step cfg ops mode ok (.swapped p) (.swapped p')
  | swappedEnd {p : Pass M D} (h : swappedStep cfg ops p = .ok none) :
      Step cfg ops mode ok (.swapped p) (.prefills p)
  | prefillIter {p p' : Pass M D} (hok : ok p) (h : prefillStep cfg ops p = .ok (some p')) :
      Step cfg ops mode ok (.prefills p) (.prefills p')
  | finish {p : Pass M D} {s : Scheduler M D} {scheduled : List ScheduledSequenceGroup}
      (h : finishPass cfg ops p = .ok (s, scheduled)) :
      Step cfg ops mode ok (.prefills p) (.idle s scheduled)

/-- The scheduler after `__init__`, with the policy of the environment. -/
def init (policy : GdnCachePolicy) (blockManager : M) : Scheduler M D :=
  { waiting := [], running := [], swapped := [], asyncStopped := [], blockManager
    gdnPrefixPolicy := .init policy, gdnRequestRestoreKeys := ∅, gdnRequestCaptureTargets := ∅ }

/-- The runs of the scheduler whose prefill iterations meet `ok`. -/
def chunkedPrefillSys (cfg : Config) (ops : BlockManagerOps M D) (mode : Option PreemptionMode)
    (ok : Pass M D → Prop) : Sys (RunState M D) where
  init s := ∃ policy blockManager, s = .idle (init policy blockManager) []
  step := Step cfg ops mode ok

/-! ## The invariant of the runs -/

/-- A chunk that `schedule()` returns: its prefill has one sequence, and the chunk completes it or
ends at a block. -/
def ChunkOk (blockSize : Nat) (sg : ScheduledSequenceGroup) : Prop :=
  sg.seqGroup.isPrefill → ∀ seq ∈ sg.seqGroup.seqs,
    seq.numComputedTokens + sg.tokenChunkSize < seq.len →
    (blockSize : Int) ∣ seq.numComputedTokens + sg.tokenChunkSize

/-- The groups of the queues are aligned. -/
structure QueuesInv (blockSize : Nat) (s : Scheduler M D) : Prop where
  waiting : ∀ g ∈ s.waiting, HeadAligned blockSize g
  running : ∀ g ∈ s.running, HeadAligned blockSize g
  swapped : ∀ g ∈ s.swapped, HeadAligned blockSize g

/-- The invariant of a run. -/
def RunInv (blockSize : Nat) : RunState M D → Prop
  | .idle s scheduled => QueuesInv blockSize s ∧ ∀ sg ∈ scheduled,
      ChunkOk blockSize sg ∧ (sg.seqGroup.isPrefill → ∃ seq, sg.seqGroup.seqs = [seq])
  | .running p | .swapped p | .prefills p => PassInv blockSize p

omit [DecidableEq D] in
theorem QueuesInv.beginPass {s : Scheduler M D} (h : QueuesInv cfg.gdn.blockSize s) :
    PassInv cfg.gdn.blockSize (beginPass cfg s) where
  waiting := h.waiting
  running := h.running
  swapped := h.swapped
  preempted _ hg := absurd hg List.not_mem_nil
  swappedOut _ hg := absurd hg List.not_mem_nil
  leftoverSwapped _ hg := absurd hg List.not_mem_nil
  leftoverWaiting _ hg := absurd hg List.not_mem_nil
  runningDecodes _ hg := absurd hg List.not_mem_nil
  runningPrefills _ hg := absurd hg List.not_mem_nil
  swappedInDecodes _ hg := absurd hg List.not_mem_nil
  swappedInPrefills _ hg := absurd hg List.not_mem_nil
  prefills _ hg := absurd hg List.not_mem_nil

omit [DecidableEq D] in
theorem PassInv.scheduled {blockSize : Nat} {p : Pass M D} (h : PassInv blockSize p) :
    ∀ sg ∈ p.scheduled, Scheduled blockSize sg := by
  unfold Pass.scheduled
  simp only [List.forall_mem_append]
  exact ⟨⟨⟨⟨h.prefills, h.runningPrefills⟩, h.swappedInPrefills⟩, h.runningDecodes⟩,
    h.swappedInDecodes⟩

omit [DecidableEq D] in
theorem PassInv.queues {blockSize : Nat} {p : Pass M D} (h : PassInv blockSize p) :
    QueuesInv blockSize p.queues where
  waiting := by
    unfold Pass.queues extendLeft
    simp only [List.forall_mem_append, List.mem_reverse]
    exact ⟨h.preempted, h.leftoverWaiting, h.waiting⟩
  running := by
    unfold Pass.queues
    simp only [List.forall_mem_append, List.map_append, List.forall_mem_map]
    exact ⟨h.running, ⟨⟨⟨fun sg hsg => (h.swappedInDecodes sg hsg).1,
      fun sg hsg => (h.swappedInPrefills sg hsg).1⟩, fun sg hsg => (h.runningDecodes sg hsg).1⟩,
      fun sg hsg => (h.runningPrefills sg hsg).1⟩, fun sg hsg => (h.prefills sg hsg).1⟩
  swapped := by
    unfold Pass.queues extendLeft
    simp only [List.forall_mem_append, List.mem_reverse]
    exact ⟨⟨h.leftoverSwapped, h.swapped⟩, h.swappedOut⟩

/-! ## The end of a pass -/

/-- The queues of two states are the same. -/
def SameQueues (s s' : Scheduler M D) : Prop :=
  s'.waiting = s.waiting ∧ s'.running = s.running ∧ s'.swapped = s.swapped

omit [DecidableEq D] in
theorem SameQueues.dropChoice {s s' : Scheduler M D} (h : SameQueues s s') (g : SeqGroup)
    (seq : Seq) (n : Int) : SameQueues s (dropChoice g seq n s') := by
  unfold Scheduler.dropChoice
  split
  · exact h
  · exact h

theorem gdnActions_sameQueues {g : SeqGroup} {seq : Seq} {n : Int} {s s' : Scheduler M D}
    (h : gdnActions cfg ops g seq n s = .ok s') : SameQueues s s' := by
  unfold gdnActions at h
  obtain ⟨-, h⟩ := guardNot_bind_eq_ok.mp h
  obtain ⟨-, h⟩ := guardNot_bind_eq_ok.mp h
  obtain ⟨hashes, -, h⟩ := bind_eq_ok.mp h
  dsimp only at h
  split at h
  · exact (throw_eq_ok.mp h).elim
  · obtain rfl := pure_eq_ok.mp h
    exact ⟨rfl, rfl, rfl⟩

theorem metadataStep_ok {s s' : Scheduler M D} {sg : ScheduledSequenceGroup}
    (h : metadataStep cfg ops s sg = .ok s') :
    SameQueues s s' ∧ (sg.seqGroup.isPrefill → ∃ seq, sg.seqGroup.seqs = [seq]) := by
  unfold metadataStep at h
  split at h
  · cases hseqs : sg.seqGroup.seqs with
    | nil =>
      rw [hseqs] at h
      exact (throw_eq_ok.mp h).elim
    | cons seq rest =>
      rw [hseqs] at h
      cases rest with
      | cons => exact (throw_eq_ok.mp h).elim
      | nil =>
        refine ⟨?_, fun _ => ⟨seq, rfl⟩⟩
        dsimp only at h
        unfold prefillMetadata at h
        split at h
        · cases hact : gdnActions cfg ops sg.seqGroup seq sg.tokenChunkSize s with
          | error e =>
            rw [hact] at h
            cases h
          | ok s₁ =>
            rw [hact] at h
            obtain rfl := Except.ok.inj h
            exact (gdnActions_sameQueues hact).dropChoice _ _ _
        · obtain rfl := pure_eq_ok.mp h
          exact SameQueues.dropChoice ⟨rfl, rfl, rfl⟩ _ _ _
  · next hdec =>
    obtain rfl := pure_eq_ok.mp h
    exact ⟨⟨rfl, rfl, rfl⟩, fun hpre => absurd hpre hdec⟩

omit [DecidableEq D] in
theorem SameQueues.trans {s₁ s₂ s₃ : Scheduler M D} (h : SameQueues s₁ s₂)
    (h' : SameQueues s₂ s₃) : SameQueues s₁ s₃ :=
  ⟨h'.1.trans h.1, h'.2.1.trans h.2.1, h'.2.2.trans h.2.2⟩

theorem finishPass_ok {p : Pass M D} {s : Scheduler M D}
    {scheduled : List ScheduledSequenceGroup} (h : finishPass cfg ops p = .ok (s, scheduled)) :
    scheduled = p.scheduled ∧ SameQueues p.queues s ∧
      ∀ sg ∈ scheduled, sg.seqGroup.isPrefill → ∃ seq, sg.seqGroup.seqs = [seq] := by
  unfold finishPass at h
  obtain ⟨-, h⟩ := guardNot_bind_eq_ok.mp h
  obtain ⟨-, h⟩ := guardNot_bind_eq_ok.mp h
  obtain ⟨s₁, hmeta, h⟩ := bind_eq_ok.mp h
  obtain ⟨s₂, hmark, h⟩ := bind_eq_ok.mp h
  obtain ⟨rfl, rfl⟩ := Prod.mk.inj (pure_eq_ok.mp h)
  obtain ⟨h₁, hsingle⟩ := foldlM_eq_ok (SameQueues p.queues)
    (fun sg => sg.seqGroup.isPrefill → ∃ seq, sg.seqGroup.seqs = [seq])
    (fun s sg s' hs hstep =>
      ⟨hs.trans (metadataStep_ok hstep).1, (metadataStep_ok hstep).2⟩) ⟨rfl, rfl, rfl⟩ hmeta
  obtain ⟨h₂, -⟩ := foldlM_eq_ok (SameQueues s₁) (fun _ => True)
    (fun s sg s' hs hstep => by
      unfold markStep at hstep
      obtain ⟨m, -, hstep⟩ := bind_eq_ok.mp hstep
      obtain rfl := pure_eq_ok.mp hstep
      exact ⟨hs, trivial⟩) ⟨rfl, rfl, rfl⟩ hmark
  exact ⟨rfl, h₁.trans h₂, hsingle⟩

/-! ## The steps keep the invariant -/

omit [DecidableEq D] in
/-- Advancing a scheduled prefill by its chunk keeps it at a block, or ends the prefill. -/
theorem updateNumComputedTokens_headAligned {blockSize : Nat} {g g' : SeqGroup} {seq : Seq} {n : Int}
    (hseqs : g.seqs = [seq]) (hg : HeadAligned blockSize g)
    (hend : seq.numComputedTokens + n < seq.len → (blockSize : Int) ∣ seq.numComputedTokens + n)
    (h : g.updateNumComputedTokens n = .ok g') : HeadAligned blockSize g' := by
  unfold SeqGroup.updateNumComputedTokens at h
  obtain ⟨seqs, hmap, h⟩ := bind_eq_ok.mp h
  obtain rfl := pure_eq_ok.mp h
  rw [hseqs, List.mapM_cons, List.mapM_nil] at hmap
  obtain ⟨seq', hseq', hmap⟩ := bind_eq_ok.mp hmap
  obtain ⟨rest, hrest, hmap⟩ := bind_eq_ok.mp hmap
  obtain rfl := pure_eq_ok.mp hmap
  intro s hs hstage
  obtain rfl : seq' = s := Option.some.inj hs
  split at hseq'
  · obtain rfl := pure_eq_ok.mp hseq'
    exact hg _ (by rw [hseqs]; rfl) hstage
  · unfold Seq.updateNumComputedTokens at hseq'
    dsimp only at hseq'
    split at hseq'
    · exact (throw_eq_ok.mp hseq').elim
    · next hle =>
      obtain rfl := pure_eq_ok.mp hseq'
      dsimp only at hstage ⊢
      split at hstage
      · cases hstage
      · exact hend (by omega)

omit [DecidableEq D] in
theorem Processed.headAligned {blockSize : Nat} {scheduled : List ScheduledSequenceGroup}
    {g g' : SeqGroup} (hg : HeadAligned blockSize g)
    (hs : ∀ sg ∈ scheduled, ChunkOk blockSize sg ∧
      (sg.seqGroup.isPrefill → ∃ seq, sg.seqGroup.seqs = [seq]))
    (h : Processed scheduled g g') : HeadAligned blockSize g' := by
  obtain ⟨g₁, h₁, hkept⟩ := h
  refine HeadAligned.kept ?_ hkept
  split at h₁
  · next sg hfind =>
    obtain ⟨rfl, hpre⟩ : sg.seqGroup = g ∧ g.isPrefill = true := by
      simpa using List.find?_some hfind
    obtain ⟨hend, hsingle⟩ := hs sg (List.mem_of_find?_eq_some hfind)
    obtain ⟨seq, hseqs⟩ := hsingle hpre
    exact updateNumComputedTokens_headAligned hseqs hg
      (hend hpre seq (by rw [hseqs]; exact List.mem_singleton_self seq)) h₁
  · obtain rfl := pure_eq_ok.mp h₁
    exact hg

theorem step_inv {s s' : RunState M D} (hc : cfg.enablePrefixCaching = true)
    (hs : RunInv cfg.gdn.blockSize s)
    (h : Step cfg ops mode (AlignedAdmission cfg ops) s s') : RunInv cfg.gdn.blockSize s' := by
  cases h with
  | addSeqGroup hfresh =>
    obtain ⟨hq, hsched⟩ := hs
    obtain ⟨len, hseqs⟩ := hfresh
    refine ⟨{ hq with waiting := forall_mem_concat hq.waiting fun seq hseq _ => ?_ }, hsched⟩
    rw [hseqs] at hseq
    obtain rfl := Option.some.inj hseq
    exact Int.dvd_zero _
  | process hadv =>
    obtain ⟨hq, hsched⟩ := hs
    refine ⟨⟨fun g' hg' => ?_, fun g' hg' => ?_, fun g' hg' => ?_⟩,
      fun sg hsg => absurd hsg List.not_mem_nil⟩
    · obtain ⟨g, hg, hk⟩ := hadv.waiting g' hg'
      exact (hq.waiting g hg).kept hk
    · obtain ⟨g, hg, hpr⟩ := hadv.running g' hg'
      exact hpr.headAligned (hq.running g hg) hsched
    · obtain ⟨g, hg, hk⟩ := hadv.swapped g' hg'
      exact (hq.swapped g hg).kept hk
  | begin _ => exact hs.1.beginPass
  | runningIter hstep => exact runningStep_inv hc hs hstep
  | runningEnd _ =>
    split
    · exact hs
    · exact hs
  | swappedIter hstep => exact swappedStep_inv hc hs hstep
  | swappedEnd _ => exact hs
  | prefillIter hok hstep => exact prefillStep_inv hc hok hs hstep
  | finish hfin =>
    obtain ⟨rfl, ⟨hw, hr, hsw⟩, hsingle⟩ := finishPass_ok hfin
    have hq := PassInv.queues hs
    refine ⟨⟨hw ▸ hq.waiting, hr ▸ hq.running, hsw ▸ hq.swapped⟩, fun sg hsg => ?_⟩
    refine ⟨fun hpre seq hseq => ?_, hsingle sg hsg⟩
    obtain ⟨seq', hseqs⟩ := hsingle sg hsg hpre
    rw [hseqs] at hseq
    obtain rfl := List.mem_singleton.mp hseq
    exact (PassInv.scheduled hs sg hsg).2 hpre seq hseqs

/-- No prefill chunk ends inside a block unless it completes its prompt. -/
theorem chunks_end_on_blocks (hc : cfg.enablePrefixCaching = true) {s : Scheduler M D}
    {scheduled : List ScheduledSequenceGroup}
    (h : (chunkedPrefillSys cfg ops mode (AlignedAdmission cfg ops)).Reachable (.idle s scheduled)) :
    ∀ sg ∈ scheduled, ChunkOk cfg.gdn.blockSize sg := by
  have hinv : RunInv cfg.gdn.blockSize (.idle s scheduled) := h.invariant
    (I := RunInv cfg.gdn.blockSize)
    (fun t ht => by
      obtain ⟨policy, m, rfl⟩ := ht
      exact ⟨⟨fun g hg => absurd hg List.not_mem_nil, fun g hg => absurd hg List.not_mem_nil,
        fun g hg => absurd hg List.not_mem_nil⟩, fun sg hsg => absurd hsg List.not_mem_nil⟩)
    (fun t t' _ ht hstep => step_inv hc ht hstep)
  exact fun sg hsg => (hinv.2 sg hsg).1

/-! ## Whole passes -/

omit [DecidableEq D] in
theorem loop_reachable {S : Sys (RunState M D)} (place : Pass M D → RunState M D)
    {step : Pass M D → Except Err (Option (Pass M D))}
    (hstep : ∀ p p', step p = .ok (some p') → S.step (place p) (place p')) {fuel : Nat}
    {p p' : Pass M D} (hp : S.Reachable (place p)) (h : loop step fuel p = .ok p') :
    S.Reachable (place p') ∧ step p' = .ok none := by
  induction fuel generalizing p with
  | zero => exact (throw_eq_ok.mp h).elim
  | succ fuel ih =>
    unfold loop at h
    obtain ⟨next, hnext, h⟩ := bind_eq_ok.mp h
    cases next with
    | none =>
      obtain rfl := pure_eq_ok.mp h
      exact ⟨hp, hnext⟩
    | some p₁ => exact ih (hp.step (hstep p p₁ hnext)) h

/-- The loops of a pass. -/
def planPass (cfg : Config) (ops : BlockManagerOps M D) (mode : Option PreemptionMode)
    (s : Scheduler M D) : Except Err (Pass M D) := do
  guardNot (s.asyncStopped ≠ []) (.assertionError "")
  let p ← loop (runningStep cfg ops mode) (s.running.length + 1) (beginPass cfg s)
  let p ← scheduleSwappedQueue cfg ops p
  loop (prefillStep cfg ops) (p.waiting.length + 1) p

theorem scheduleChunkedPrefill_eq (s : Scheduler M D) :
    scheduleChunkedPrefill cfg ops mode s = planPass cfg ops mode s >>= finishPass cfg ops := by
  unfold scheduleChunkedPrefill planPass
  simp only [bind_assoc]

/-- The loops are a run of every system that takes their steps. -/
theorem planPass_reachable {ok : Pass M D → Prop} {S : Sys (RunState M D)}
    (hS : ∀ r r', Step cfg ops mode ok r r' → r.pass?.isSome ∨ r'.pass?.isSome → S.step r r')
    (hok : ∀ p, ok p) {s : Scheduler M D} {p : Pass M D} (hs : S.Reachable (.idle s []))
    (h : planPass cfg ops mode s = .ok p) : S.Reachable (.prefills p) := by
  unfold planPass at h
  obtain ⟨hstop, h⟩ := guardNot_bind_eq_ok.mp h
  obtain ⟨p₁, h₁, h⟩ := bind_eq_ok.mp h
  obtain ⟨p₂, h₂, h⟩ := bind_eq_ok.mp h
  obtain ⟨hr₁, hend₁⟩ := loop_reachable .running
    (fun p p' hstep => hS _ _ (.runningIter hstep) (.inl rfl))
    (hs.step (hS _ _ (.begin (not_not.mp hstop)) (.inr rfl))) h₁
  have hr := hr₁.step (hS _ _ (.runningEnd hend₁) (.inl rfl))
  have hr₂ : S.Reachable (.prefills p₂) := by
    unfold scheduleSwappedQueue at h₂
    split at h₂
    · next hnone =>
      rw [if_pos hnone] at hr
      obtain ⟨hr₂, hend₂⟩ := loop_reachable .swapped
        (fun p p' hstep => hS _ _ (.swappedIter hstep) (.inl rfl)) hr h₂
      exact hr₂.step (hS _ _ (.swappedEnd hend₂) (.inl rfl))
    · next hsome =>
      rw [if_neg hsome] at hr
      obtain rfl := pure_eq_ok.mp h₂
      exact hr
  exact (loop_reachable .prefills
    (fun p p' hstep => hS _ _ (.prefillIter (hok p) hstep) (.inl rfl)) hr₂ h).1

/-- A pass is a run. -/
theorem pass_reachable {ok : Pass M D → Prop} {S : Sys (RunState M D)}
    (hS : ∀ r r', Step cfg ops mode ok r r' → r.pass?.isSome ∨ r'.pass?.isSome → S.step r r')
    (hok : ∀ p, ok p) {s s' : Scheduler M D} {scheduled : List ScheduledSequenceGroup}
    (hs : S.Reachable (.idle s []))
    (h : scheduleChunkedPrefill cfg ops mode s = .ok (s', scheduled)) :
    S.Reachable (.idle s' scheduled) := by
  rw [scheduleChunkedPrefill_eq] at h
  obtain ⟨p, hplan, h⟩ := bind_eq_ok.mp h
  exact (planPass_reachable hS hok hs hplan).step (hS _ _ (.finish h) (.inl rfl))

theorem schedule_reachable {ok : Pass M D → Prop} (hok : ∀ p, ok p) {s s' : Scheduler M D}
    {scheduled : List ScheduledSequenceGroup}
    (hs : (chunkedPrefillSys cfg ops mode ok).Reachable (.idle s []))
    (h : scheduleChunkedPrefill cfg ops mode s = .ok (s', scheduled)) :
    (chunkedPrefillSys cfg ops mode ok).Reachable (.idle s' scheduled) :=
  pass_reachable (fun _ _ hstep _ => hstep) hok hs h

/-! ## Runs on small prompts -/

/-- A block manager with room for everything, in blocks of two. The prompts of the requests `"a"`
and `"b"` start with the same block, which is computed once `"a"` ran. -/
def sharedPrefixOps (numShared : Nat) : BlockManagerOps Unit Nat where
  canAppendSlots _ _ _ := true
  appendSlots _ _ _ := pure ()
  canAllocate _ _ _ := .ok
  allocate _ _ := pure ()
  canSwapIn _ _ _ := .ok
  swapIn _ _ := pure ()
  canSwapOut _ _ := true
  swapOut _ _ := pure ()
  free _ _ := pure ()
  markBlocksAsComputed _ _ _ := pure ()
  numCommonComputedBlocks _ g := if g.requestId = "b" then numShared else 0
  getContentHashes _ g :=
    pure (if g.requestId = "b" then [0, 2, 3, 4, 5] else if g.requestId = "a" then [0, 1] else [])
  outputProcCallback m g := pure (m, g)
  outputProcCallback_kept h := by
    obtain ⟨-, rfl⟩ := Prod.mk.inj (pure_eq_ok.mp h)
    exact .refl _

/-- Blocks of two tokens and steps of four, direct restores. -/
def smallConfig : Config where
  gdn := ⟨.direct, 2, 2, 4⟩
  enablePrefixCaching := true
  maxNumSeqs := 4
  maxModelLen := 64
  isMultiStep := false
  numLookaheadSlots := 0
  loraEnabled := false
  maxLoras := 0
  useAsyncOutputProc := false

def promptGroup (requestId : String) (len : Nat) : SeqGroup :=
  ⟨requestId, [⟨len, 0, .prefill, .waiting⟩], some 1, 0, none⟩

theorem promptGroup_fresh (requestId : String) (len : Nat) : (promptGroup requestId len).Fresh :=
  ⟨len, rfl⟩

/-- The first request is scheduled. -/
def afterPrompt (numShared len : Nat) :
    Except Err (Scheduler Unit Nat × List ScheduledSequenceGroup) :=
  scheduleChunkedPrefill smallConfig (sharedPrefixOps numShared) none
    { init .fine32 () with waiting := [promptGroup "a" len] }

/-- It finishes, and a prompt of one token and a prompt with its first block are scheduled. -/
def afterSharedPrompt : Except Err (Scheduler Unit Nat × List ScheduledSequenceGroup) := do
  let (s, _) ← afterPrompt 1 4
  scheduleChunkedPrefill smallConfig (sharedPrefixOps 1) none
    { s with running := [], waiting := s.waiting ++ [promptGroup "c" 1] ++ [promptGroup "b" 10] }

instance (blockSize : Nat) (sg : ScheduledSequenceGroup) : Decidable (ChunkOk blockSize sg) :=
  inferInstanceAs (Decidable (_ → ∀ seq ∈ sg.seqGroup.seqs, _ → _))

/-- The second request is fast-forwarded with the three tokens that are left: its chunk ends at 5. -/
theorem chunk_ends_inside_block :
    ¬ ∀ (s : Scheduler Unit Nat) (scheduled : List ScheduledSequenceGroup),
      (chunkedPrefillSys smallConfig (sharedPrefixOps 1) none fun _ => True).Reachable
        (.idle s scheduled) → ∀ sg ∈ scheduled, ChunkOk smallConfig.gdn.blockSize sg := by
  intro hall
  obtain ⟨⟨s, scheduled⟩, hrun, hbad⟩ := exists_of_any (x := afterSharedPrompt)
    (P := fun r => ¬ ∀ sg ∈ r.2, ChunkOk smallConfig.gdn.blockSize sg) (by decide +kernel)
  refine hbad (hall s scheduled ?_)
  obtain ⟨⟨s₁, scheduled₁⟩, hfirst, hrun⟩ := bind_eq_ok.mp hrun
  have hinit : (chunkedPrefillSys smallConfig (sharedPrefixOps 1) none fun _ => True).Reachable
      (.idle (init .fine32 ()) []) := .init ⟨_, _, rfl⟩
  have hadded := hinit.step (.addSeqGroup (promptGroup_fresh "a" 4))
  have hran := schedule_reachable (fun _ => trivial) hadded hfirst
  have hfinish : Advanced scheduled₁ s₁ { s₁ with running := [] } :=
    ⟨fun g hg => ⟨g, hg, .refl g⟩, fun g hg => absurd hg List.not_mem_nil,
      fun g hg => ⟨g, hg, .refl g⟩⟩
  have hdone := hran.step (.process hfinish)
  have hadded₂ := (hdone.step (.addSeqGroup (promptGroup_fresh "c" 1))).step
    (.addSeqGroup (promptGroup_fresh "b" 10))
  exact schedule_reachable (fun _ => trivial) hadded₂ hrun

/-- If no block of a new prompt is computed there is nothing to restore. -/
theorem alignedAdmission_of_no_shared (p : Pass Unit Nat) :
    AlignedAdmission smallConfig (sharedPrefixOps 0) p := by
  intro g queue _ seq _ _ n _ _ _ m _ c hchoose key hkey
  unfold chooseGdnKeys at hchoose
  obtain ⟨hashes, -, hchoose⟩ := bind_eq_ok.mp hchoose
  unfold chooseKeys at hchoose
  obtain ⟨live, hlive, hchoose⟩ := bind_eq_ok.mp hchoose
  have hnil : live = [] := by
    unfold liveKeys at hlive
    obtain ⟨strict, -, hlive⟩ := bind_eq_ok.mp hlive
    obtain ⟨final, -, hlive⟩ := bind_eq_ok.mp hlive
    have hzero : (sharedPrefixOps 0).numCommonComputedBlocks m
        (g.setStatus .waiting .running) = 0 := by
      unfold sharedPrefixOps
      dsimp only
      split <;> rfl
    rw [hzero, Nat.zero_min, Nat.zero_min, List.take_zero] at hlive
    exact pure_eq_ok.mp hlive
  subst hnil
  split at hchoose
  · exact (throw_eq_ok.mp hchoose).elim
  · next restoreKey policy hselect =>
    obtain ⟨targets, -, hchoose⟩ := bind_eq_ok.mp hchoose
    obtain rfl := pure_eq_ok.mp hchoose
    unfold GdnPrefixStatePolicy.selectRestore at hselect
    rw [run_get_bind, if_pos (.inr List.length_nil)] at hselect
    obtain ⟨rfl, -⟩ := run_pure_ok.mp hselect
    cases hkey

/-- The first chunk of a prompt of ten tokens. -/
theorem chunks_end_on_blocks_first : ∃ r, afterPrompt 0 10 = .ok r ∧
    r.2.map (·.tokenChunkSize) = [4] ∧ ∀ sg ∈ r.2, ChunkOk smallConfig.gdn.blockSize sg := by
  obtain ⟨r, hrun, hchunk⟩ := exists_of_any (x := afterPrompt 0 10)
    (P := fun r => r.2.map (·.tokenChunkSize) = [4]) (by decide +kernel)
  refine ⟨r, hrun, hchunk, ?_⟩
  have hinit : (chunkedPrefillSys smallConfig (sharedPrefixOps 0) none
      (AlignedAdmission smallConfig (sharedPrefixOps 0))).Reachable
      (.idle (init .fine32 ()) []) := .init ⟨_, _, rfl⟩
  have hadded := hinit.step (.addSeqGroup (promptGroup_fresh "a" 10))
  exact chunks_end_on_blocks rfl (schedule_reachable alignedAdmission_of_no_shared hadded hrun)

example : afterSharedPrompt.toOption.map (·.2.map (·.tokenChunkSize)) = some [1, 5] := by
  decide +kernel

end Bi100.Scheduler
