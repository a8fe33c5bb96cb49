import Bi100.Block.Manager
import Bi100.Lib.Run
import Bi100.Scheduler.Chunking

/-!
# A scheduling pass with chunked prefill (`scheduler.py`, `_schedule_chunked_prefill`)

A pass goes through the running, the swapped and the waiting queue, each in a loop that stops when
the step's budget or the memory is used up. One definition is one iteration of a loop
(`runningStep`, `swappedStep`, `prefillStep`); `none` is its `break`. `finishPass` joins what was
scheduled and chooses the GDN actions of every prefill.

- The block manager is a parameter: a type `M` of its states and its operations
  (`BlockManagerOps`). What is scheduled depends on its answers only.
- A pass works on values where the source works on shared objects; a group is in one queue or list
  at a time.
- `Config` fixes prefix caching on or off; chunked prefill is always on here.
-/

namespace Bi100

open Py

/-- What the scheduler calls of the block manager, and the output processor of the asynchronous
engine, which may finish a sequence that is about to be preempted. -/
structure BlockManagerOps (M D : Type) where
  canAppendSlots : M → Scheduler.SeqGroup → Nat → Bool
  appendSlots : M → Scheduler.SeqGroup → Nat → Except Err M
  canAllocate : M → Scheduler.SeqGroup → Nat → AllocStatus
  allocate : M → Scheduler.SeqGroup → Except Err M
  canSwapIn : M → Scheduler.SeqGroup → Nat → AllocStatus
  swapIn : M → Scheduler.SeqGroup → Except Err M
  canSwapOut : M → Scheduler.SeqGroup → Bool
  swapOut : M → Scheduler.SeqGroup → Except Err M
  free : M → Scheduler.SeqGroup → Except Err M
  markBlocksAsComputed : M → Scheduler.SeqGroup → Int → Except Err M
  /-- The length of `get_common_computed_block_ids`. -/
  numCommonComputedBlocks : M → Scheduler.SeqGroup → Nat
  getContentHashes : M → Scheduler.SeqGroup → Except Err (List D)
  outputProcCallback : M → Scheduler.SeqGroup → Except Err (M × Scheduler.SeqGroup)
  outputProcCallback_kept : ∀ {m m' : M} {g g' : Scheduler.SeqGroup},
    outputProcCallback m g = .ok (m', g') → g.Kept g'

/-- The user's choice of `preemption_mode`, and the modes. -/
inductive PreemptionMode where
  | swap
  | recompute
deriving DecidableEq, Repr

structure ScheduledSequenceGroup where
  seqGroup : Scheduler.SeqGroup
  tokenChunkSize : Int
deriving DecidableEq, Repr

structure Scheduler (M D : Type) where
  waiting : List Scheduler.SeqGroup
  running : List Scheduler.SeqGroup
  swapped : List Scheduler.SeqGroup
  asyncStopped : List Scheduler.SeqGroup
  blockManager : M
  gdnPrefixPolicy : GdnPrefixStatePolicy D
  gdnRequestRestoreKeys : Dict String (Option (GdnPrefixKey D))
  gdnRequestCaptureTargets : Dict String (List (GdnPrefixKey D))

namespace Scheduler

variable {M D : Type}

/-- The scheduler and the local variables of a pass. -/
structure Pass (M D : Type) extends Scheduler M D where
  budget : SchedulingBudget
  currLoras : Finset Nat
  /-- `_schedule_running` -/
  runningDecodes : List ScheduledSequenceGroup
  runningPrefills : List ScheduledSequenceGroup
  preempted : List SeqGroup
  swappedOut : List SeqGroup
  /-- `_schedule_swapped` -/
  swappedInDecodes : List ScheduledSequenceGroup
  swappedInPrefills : List ScheduledSequenceGroup
  leftoverSwapped : List SeqGroup
  /-- `_schedule_prefills` -/
  prefills : List ScheduledSequenceGroup
  leftoverWaiting : List SeqGroup
  ignored : List SeqGroup

def beginPass (cfg : Config) (s : Scheduler M D) : Pass M D :=
  { s with
    budget := .fresh cfg.gdn.maxNumBatchedTokens cfg.maxNumSeqs
    currLoras := ∅
    runningDecodes := [], runningPrefills := [], preempted := [], swappedOut := []
    swappedInDecodes := [], swappedInPrefills := [], leftoverSwapped := []
    prefills := [], leftoverWaiting := [], ignored := [] }

/-- `_get_num_lookahead_slots` with chunking -/
def getNumLookaheadSlots (cfg : Config) (isPrefill enableChunking : Bool) : Nat :=
  if isPrefill then
    if cfg.isMultiStep ∧ enableChunking then cfg.numLookaheadSlots + 1 else 0
  else cfg.numLookaheadSlots

/-- There is no room for the group's LoRA adapter. -/
def loraBlocked (cfg : Config) (g : SeqGroup) (currLoras : Finset Nat) : Bool :=
  cfg.loraEnabled ∧ 0 < g.loraIntId ∧ g.loraIntId ∉ currLoras ∧ cfg.maxLoras ≤ currLoras.card

def addLora (g : SeqGroup) (currLoras : Finset Nat) : Finset Nat :=
  if 0 < g.loraIntId then insert g.loraIntId currLoras else currLoras

/-- `deque.extendleft` -/
def extendLeft (queue groups : List SeqGroup) : List SeqGroup := groups.reverse ++ queue

section

variable (cfg : Config) (ops : BlockManagerOps M D) (mode : Option PreemptionMode)

/-! ## The running queue -/

/-- `_preempt`: the mode is the user's, or recompute for a single sequence. -/
def preemptionMode (g : SeqGroup) : PreemptionMode :=
  mode.getD (if g.getMaxNumRunningSeqs = 1 then .recompute else .swap)

/-- `_preempt_by_recompute` -/
def preemptByRecompute (g : SeqGroup) (p : Pass M D) : Except Err (Pass M D) := do
  guardNot ((g.getSeqs .running).length ≠ 1) (.assertionError "")
  let blockManager ← ops.free p.blockManager g
  let seqs := g.seqs.map fun s =>
    if s.status = .running then { s.resetStateForRecompute with status := .waiting } else s
  return { p with blockManager, preempted := p.preempted ++ [{ g with seqs }] }

/-- `_preempt_by_swap` -/
def preemptBySwap (g : SeqGroup) (p : Pass M D) : Except Err (Pass M D) := do
  guardNot (ops.canSwapOut p.blockManager g = false) (.runtimeError
    "Aborted due to the lack of CPU swap space. Please increase the swap space to avoid this error.")
  let blockManager ← ops.swapOut p.blockManager g
  return { p with blockManager, swappedOut := p.swappedOut ++ [g.setStatus .running .swapped] }

def preempt (g : SeqGroup) (p : Pass M D) : Except Err (Pass M D) :=
  match preemptionMode mode g with
  | .recompute => preemptByRecompute ops g p
  | .swap => preemptBySwap ops g p

/-- A victim's pending output is processed first; a group that it finishes is freed instead. -/
def preemptVictim (victim : SeqGroup) (p : Pass M D) : Except Err (Pass M D) :=
  if cfg.useAsyncOutputProc then do
    let (blockManager, victim) ← ops.outputProcCallback p.blockManager victim
    let p := { p with blockManager }
    if victim.isFinished then do
      let blockManager ← ops.free p.blockManager victim
      return { p with blockManager
                      gdnRequestRestoreKeys := p.gdnRequestRestoreKeys.erase victim.requestId
                      gdnRequestCaptureTargets := p.gdnRequestCaptureTargets.erase victim.requestId }
    else
      preempt ops mode victim p
  else
    preempt ops mode victim p

/-- Give back what the group may have been counted for. -/
def uncount (g : SeqGroup) (n : Int) (p : Pass M D) : Pass M D :=
  { p with
    budget := (p.budget.subtractNumBatchedTokens g.requestId n).subtractNumSeqs g.requestId
      g.getMaxNumRunningSeqs
    currLoras := if 0 < g.loraIntId then p.currLoras.erase g.loraIntId else p.currLoras }

/-- The `while not can_append_slots` loop: groups at the end of the queue are preempted until there
are slots, at last the group itself. The queue is given last group first. -/
def makeRoom (g : SeqGroup) (n : Int) : List SeqGroup → Pass M D → Except Err (Pass M D × Bool)
  | queue, p => do
    if ops.canAppendSlots p.blockManager g (getNumLookaheadSlots cfg g.isPrefill true) then
      return ({ p with running := queue.reverse }, true)
    let p := uncount g n p
    match queue with
    | [] =>
      let p ← preemptVictim cfg ops mode g p
      return ({ p with running := [] }, false)
    | victim :: queue =>
      let p ← preemptVictim cfg ops mode victim p
      makeRoom g n queue p

/-- The chunk of a running group. -/
def runningChunk (g : SeqGroup) (p : Pass M D) (numRunningTokens : Int) : Except Err Int :=
  if g.isPrefill then
    Prod.fst <$> capGdnCaptureBoundary cfg.gdn.blockSize p.gdnPrefixPolicy.policy
      ((p.gdnRequestCaptureTargets.get? g.requestId).getD []) g numRunningTokens numRunningTokens
  else pure numRunningTokens

/-- The `else` branch: the group is scheduled. -/
def scheduleRunning (g : SeqGroup) (numRunningTokens : Int) (p : Pass M D) :
    Except Err (Pass M D) := do
  let blockManager ← ops.appendSlots p.blockManager g (getNumLookaheadSlots cfg g.isPrefill true)
  let p := { p with
    blockManager
    budget := (p.budget.addNumBatchedTokens g.requestId numRunningTokens
      numRunningTokens).addNumSeqs g.requestId g.getMaxNumRunningSeqs
    currLoras := addLora g p.currLoras }
  return if g.isPrefill then
    { p with runningPrefills := p.runningPrefills ++ [⟨g, numRunningTokens⟩] }
  else
    { p with runningDecodes := p.runningDecodes ++ [⟨g, 1⟩] }

/-- One iteration of `_schedule_running`. -/
def runningStep (p : Pass M D) : Except Err (Option (Pass M D)) :=
  match p.running with
  | [] => pure none
  | g :: queue => do
    let numRunningTokens ← getNumNewTokens cfg g .running true p.budget
    if numRunningTokens = 0 then
      return none
    let numRunningTokens ← runningChunk cfg g p numRunningTokens
    if cfg.useAsyncOutputProc ∧ ∃ seq ∈ g.seqs.head?, cfg.maxModelLen < seq.len then
      return some { p with running := queue, asyncStopped := p.asyncStopped ++ [g] }
    let (p, hasRoom) ← makeRoom cfg ops mode g numRunningTokens queue.reverse p
    if hasRoom then
      some <$> scheduleRunning cfg ops g numRunningTokens p
    else
      return some p

/-! ## The swapped queue -/

/-- A swapped group is swapped in and scheduled. -/
def scheduleSwapped (g : SeqGroup) (queue : List SeqGroup) (numNewTokens : Int) (p : Pass M D) :
    Except Err (Pass M D) := do
  let blockManager ← ops.swapIn p.blockManager g
  let numNewSeqs := g.getMaxNumRunningSeqs
  let g := g.setStatus .swapped .running
  let blockManager ← ops.appendSlots blockManager g (getNumLookaheadSlots cfg g.isPrefill false)
  let p := { p with
    swapped := queue
    blockManager
    budget := (p.budget.addNumBatchedTokens g.requestId numNewTokens numNewTokens).addNumSeqs
      g.requestId numNewSeqs
    currLoras := addLora g p.currLoras }
  return if g.isPrefill then
    { p with swappedInPrefills := p.swappedInPrefills ++ [⟨g, numNewTokens⟩] }
  else
    { p with swappedInDecodes := p.swappedInDecodes ++ [⟨g, 1⟩] }

/-- One iteration of `_schedule_swapped`, which the pass calls without chunking. -/
def swappedStep (p : Pass M D) : Except Err (Option (Pass M D)) :=
  match p.swapped with
  | [] => pure none
  | g :: queue =>
    match ops.canSwapIn p.blockManager g (getNumLookaheadSlots cfg g.isPrefill false) with
    | .later => pure none
    | .never =>
      let g := { g with seqs := g.seqs.map fun s => { s with status := .finishedIgnored } }
      pure (some { p with swapped := queue, ignored := p.ignored ++ [g] })
    | .ok =>
      if loraBlocked cfg g p.currLoras then
        pure (some { p with swapped := queue, leftoverSwapped := g :: p.leftoverSwapped })
      else do
        let numNewTokens ← getNumNewTokens cfg g .swapped false p.budget
        if numNewTokens = 0 ∨ p.budget.canSchedule numNewTokens g.getMaxNumRunningSeqs = false then
          return none
        some <$> scheduleSwapped cfg ops g queue numNewTokens p

/-! ## The waiting queue -/

variable [DecidableEq D]

/-- What is chosen for a request when it is admitted. -/
structure GdnChoice (D : Type) where
  restoreKey : Option (GdnPrefixKey D)
  captureTargets : List (GdnPrefixKey D)
  policy : GdnPrefixStatePolicy D

/-- The live keys that the request may restore. -/
def liveKeys (blockHashes : List D) (numComputedBlocks promptLen : Nat) :
    Except Err (List (GdnPrefixKey D)) := do
  let strict ← strictPrefixBlockCount promptLen cfg.gdn.blockSize
  let maxLiveBlocks := min (min numComputedBlocks blockHashes.length) strict
  let directFinalKey ← finalCaptureKey blockHashes promptLen cfg.gdn.blockSize .direct
    cfg.gdn.blockSize
  (keysFromBlockHashes (blockHashes.take maxLiveBlocks)).filterM fun key =>
    restoreKeyIsEligible key promptLen cfg.gdn.blockSize cfg.gdn.restoreMode
      cfg.gdn.replayAlignment (if cfg.gdn.restoreMode = .hybrid64 then directFinalKey else none)

/-- The capture targets of a request: a branch that repeats, and the final state. -/
def requestCaptureTargets (policy : GdnPrefixStatePolicy D) (blockHashes : List D)
    (live : List (GdnPrefixKey D)) (promptLen : Nat) : Except Err (List (GdnPrefixKey D)) := do
  let branch := (policy.repeatedBranchCandidate live live.length).toList
  match ← finalCaptureKey blockHashes promptLen cfg.gdn.blockSize cfg.gdn.restoreMode
      cfg.gdn.replayAlignment with
  | none => return branch
  | some finalKey =>
    if finalKey ∈ branch then
      return branch
    let capture ← policy.shouldCaptureFinal finalKey
    return if capture then branch ++ [finalKey] else branch

/-- The keys for a prompt with these hashes, of which some blocks are computed. -/
def chooseKeys (blockHashes : List D) (numComputedBlocks : Nat) (policy : GdnPrefixStatePolicy D)
    (promptLen : Nat) : Except Err (GdnChoice D) := do
  let live ← liveKeys cfg blockHashes numComputedBlocks promptLen
  match (GdnPrefixStatePolicy.selectRestore live live.length).run policy with
  | .error e _ => throw e
  | .ok restoreKey policy =>
    let captureTargets ← requestCaptureTargets cfg policy blockHashes live promptLen
    return { restoreKey, captureTargets, policy }

/-- The keys of a request that is admitted. -/
def chooseGdnKeys (blockManager : M) (policy : GdnPrefixStatePolicy D) (g : SeqGroup)
    (promptLen : Nat) : Except Err (GdnChoice D) := do
  let blockHashes ← ops.getContentHashes blockManager g
  chooseKeys cfg blockHashes (ops.numCommonComputedBlocks blockManager g) policy promptLen

/-- The chunk of an admitted prefill, and the tokens that count for the budget. -/
def gdnChunk (c : GdnChoice D) (g : SeqGroup) (seq : Seq) (numNewTokens remaining : Int) :
    Except Err (Int × Int) := do
  let (chunk, query) ← planGdnPrefixFastForward c.restoreKey seq.numComputedTokens seq.len
    numNewTokens remaining cfg.gdn.blockSize
    (if cfg.gdn.restoreMode = .hybrid64 then some cfg.gdn.maxNumBatchedTokens else none)
  capGdnCaptureBoundary cfg.gdn.blockSize c.policy.policy c.captureTargets g chunk query

/-- The chunk of an admitted group; with prefix caching the request's GDN keys are chosen. -/
def prefillChunk (g : SeqGroup) (seq : Seq) (numNewTokens : Int) (p : Pass M D) :
    Except Err (Pass M D × Int × Int) :=
  if cfg.enablePrefixCaching then do
    let c ← chooseGdnKeys cfg ops p.blockManager p.gdnPrefixPolicy g seq.len
    let p := { p with
      gdnPrefixPolicy := c.policy
      gdnRequestRestoreKeys := p.gdnRequestRestoreKeys.set g.requestId c.restoreKey
      gdnRequestCaptureTargets := p.gdnRequestCaptureTargets.set g.requestId c.captureTargets }
    let chunk ← gdnChunk cfg c g seq numNewTokens p.budget.remainingTokenBudget
    return (p, chunk)
  else pure (p, numNewTokens, numNewTokens)

/-- With several steps the slots of the first decodes are appended to a prefill. -/
def appendMultiStepSlots (g : SeqGroup) (p : Pass M D) : Except Err (Pass M D) :=
  if cfg.isMultiStep then do
    let blockManager ← ops.appendSlots p.blockManager g (getNumLookaheadSlots cfg g.isPrefill true)
    return { p with blockManager }
  else pure p

/-- A waiting group is admitted. -/
def schedulePrefill (g : SeqGroup) (seq : Seq) (queue : List SeqGroup) (numNewTokens : Int)
    (p : Pass M D) : Except Err (Pass M D) := do
  let numNewSeqs := g.getMaxNumRunningSeqs
  let blockManager ← ops.allocate p.blockManager g
  let g := g.setStatus .waiting .running
  let (p, chunk, query) ← prefillChunk cfg ops g seq numNewTokens
    { p with waiting := queue, blockManager, currLoras := addLora g p.currLoras }
  let p ← appendMultiStepSlots cfg ops g p
  return { p with
    prefills := p.prefills ++ [⟨g, chunk⟩]
    budget := (p.budget.addNumBatchedTokens g.requestId query chunk).addNumSeqs g.requestId
      numNewSeqs }

/-- A group that can never run. -/
def ignoreWaiting (g : SeqGroup) (queue : List SeqGroup) (p : Pass M D) : Pass M D :=
  { p with waiting := queue, ignored := p.ignored ++ [g.setStatus .waiting .finishedIgnored] }

/-- One iteration of `_schedule_prefills`. -/
def prefillStep (p : Pass M D) : Except Err (Option (Pass M D)) :=
  match p.waiting with
  | [] => pure none
  | g :: queue =>
    match g.getSeqs .waiting with
    | [seq] => do
      let numNewTokens ← getNumNewTokens cfg g .waiting true p.budget
      let promptLimit ← getPromptLimit cfg g
      if promptLimit < numNewTokens then
        return some (ignoreWaiting g queue p)
      match ops.canAllocate p.blockManager g
          (if cfg.isMultiStep then getNumLookaheadSlots cfg true true else 0) with
      | .later => return none
      | .never => return some (ignoreWaiting g queue p)
      | .ok =>
        if loraBlocked cfg g p.currLoras then
          return some { p with waiting := queue, leftoverWaiting := g :: p.leftoverWaiting }
        if numNewTokens = 0 ∨ p.budget.canSchedule numNewTokens g.getMaxNumRunningSeqs = false then
          return none
        some <$> schedulePrefill cfg ops g seq queue numNewTokens p
    | _ => throw (.assertionError "Waiting sequence group should have only one prompt sequence.")

/-! ## The end of a pass -/

/-- The GDN actions of a scheduled prefill, which change the index of resident keys. -/
def gdnActions (g : SeqGroup) (seq : Seq) (tokenChunkSize : Int) (s : Scheduler M D) :
    Except Err (Scheduler M D) := do
  let restoreKey := (s.gdnRequestRestoreKeys.get? g.requestId).getD none
  guardNot (seq.numComputedTokens = 0 ∧ ∃ key ∈ restoreKey,
    ops.numCommonComputedBlocks s.blockManager g < key.1)
    (.runtimeError "GDN restore key exceeds the live KV prefix")
  guardNot (s.gdnPrefixPolicy.policy ≠ .off ∧
    (seq.numComputedTokens < 0 ∨ min (seq.len : Int) (seq.numComputedTokens + tokenChunkSize) < 0))
    (.valueError "token positions must be non-negative")
  let blockHashes ← ops.getContentHashes s.blockManager g
  let r : GdnPrefill D := {
    blockHashes, seqLen := seq.len, numComputedTokens := seq.numComputedTokens.toNat
    tokenChunkSize := tokenChunkSize.toNat, restoreKey
    captureTargets := (s.gdnRequestCaptureTargets.get? g.requestId).getD [] }
  match (prefillActions cfg.gdn r).run s.gdnPrefixPolicy with
  | .error e _ => throw e
  | .ok _ policy => return { s with gdnPrefixPolicy := policy }

/-- At the end of the prompt the request's choice is dropped. -/
def dropChoice (g : SeqGroup) (seq : Seq) (tokenChunkSize : Int) (s : Scheduler M D) :
    Scheduler M D :=
  if (seq.len : Int) ≤ seq.numComputedTokens + tokenChunkSize then
    { s with
      gdnRequestRestoreKeys := s.gdnRequestRestoreKeys.erase g.requestId
      gdnRequestCaptureTargets := s.gdnRequestCaptureTargets.erase g.requestId }
  else s

/-- `schedule()` for one scheduled prefill. -/
def prefillMetadata (g : SeqGroup) (seq : Seq) (tokenChunkSize : Int) (s : Scheduler M D) :
    Except Err (Scheduler M D) :=
  if cfg.enablePrefixCaching then
    dropChoice g seq tokenChunkSize <$> gdnActions cfg ops g seq tokenChunkSize s
  else pure (dropChoice g seq tokenChunkSize s)

/-- The metadata of one scheduled group; a prefill has one sequence. -/
def metadataStep (s : Scheduler M D) (sg : ScheduledSequenceGroup) : Except Err (Scheduler M D) :=
  if sg.seqGroup.isPrefill then
    match sg.seqGroup.seqs with
    | [seq] => prefillMetadata cfg ops sg.seqGroup seq sg.tokenChunkSize s
    | _ => throw (.assertionError "")
  else pure s

/-- The blocks of a scheduled group count as computed from now on. -/
def markStep (s : Scheduler M D) (sg : ScheduledSequenceGroup) : Except Err (Scheduler M D) := do
  let blockManager ← ops.markBlocksAsComputed s.blockManager sg.seqGroup sg.tokenChunkSize
  return { s with blockManager }

/-- `SchedulerOutputs`, without the block copies. -/
structure SchedulerOutputs where
  scheduledSeqGroups : List ScheduledSequenceGroup
  numPrefillGroups : Nat
  numBatchedTokens : Int

namespace Pass

/-- `scheduled_seq_groups` -/
def scheduled (p : Pass M D) : List ScheduledSequenceGroup :=
  p.prefills ++ p.runningPrefills ++ p.swappedInPrefills ++ p.runningDecodes ++ p.swappedInDecodes

/-- The queues after the pass. -/
def queues (p : Pass M D) : Scheduler M D :=
  { p.toScheduler with
    waiting := extendLeft (extendLeft p.waiting p.leftoverWaiting) p.preempted
    running := p.running ++ (p.swappedInDecodes ++ p.swappedInPrefills ++ p.runningDecodes ++
      p.runningPrefills ++ p.prefills).map ScheduledSequenceGroup.seqGroup
    swapped := extendLeft p.swapped p.leftoverSwapped ++ p.swappedOut }

def outputs (p : Pass M D) : SchedulerOutputs where
  scheduledSeqGroups := p.scheduled
  numPrefillGroups := p.prefills.length + p.swappedInPrefills.length + p.runningPrefills.length
  numBatchedTokens := p.budget.numScheduledTokens

end Pass

/-- The end of `_schedule_chunked_prefill` and the rest of `schedule()`. -/
def finishPass (p : Pass M D) : Except Err (Scheduler M D × List ScheduledSequenceGroup) := do
  guardNot ((cfg.gdn.maxNumBatchedTokens : Int) < p.budget.numBatchedTokens) (.assertionError "")
  guardNot ((cfg.maxNumSeqs : Int) < p.budget.numCurrSeqs) (.assertionError "")
  let s ← p.scheduled.foldlM (metadataStep cfg ops) p.queues
  let s ← p.scheduled.foldlM (markStep ops) s
  return (s, p.scheduled)

/-! ## The pass -/

/-- A `while` loop. Every iteration takes a group from the queue, so its length is enough fuel. -/
def loop (step : Pass M D → Except Err (Option (Pass M D))) : Nat → Pass M D → Except Err (Pass M D)
  | 0, _ => throw .recursionError
  | fuel + 1, p => do
    match ← step p with
    | none => return p
    | some p' => loop step fuel p'

/-- The swapped queue is left alone if groups were preempted. -/
def scheduleSwappedQueue (p : Pass M D) : Except Err (Pass M D) :=
  if p.preempted = [] ∧ p.swappedOut = [] then
    loop (swappedStep cfg ops) (p.swapped.length + 1) p
  else pure p

/-- `schedule()` when no prompt has to wait. -/
def scheduleChunkedPrefill (s : Scheduler M D) :
    Except Err (Scheduler M D × List ScheduledSequenceGroup) := do
  guardNot (s.asyncStopped ≠ []) (.assertionError "")
  let p ← loop (runningStep cfg ops mode) (s.running.length + 1) (beginPass cfg s)
  let p ← scheduleSwappedQueue cfg ops p
  let p ← loop (prefillStep cfg ops) (p.waiting.length + 1) p
  finishPass cfg ops p

end

end Scheduler

end Bi100
