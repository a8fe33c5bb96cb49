import Bi100.Dp.AclGraph

/-!
# The model executor (`model_executor/executor.py`)

It calls both graph runners through one interface. A call with a keyword that the method does not
have is a `TypeError` (`checkKeywords`). The model returns an output `β` for the input rows; the
device and the embeddings are left out.

- `execute_acl`: with the ACL graph runner, no call of `execute` returns.
- `aclRunner_covers_iff`: what `warmup` would capture.
-/

namespace Bi100.Dp

open Py

/-- The runners that the executor makes. -/
inductive DecodeGraphRunner where
  | cuda (r : DecodeCudaGraphRunner)
  | acl (r : DecodeAclGraphRunner)

/-- What the executor reads of its configuration, with the defaults of `config.get`. -/
structure ExecutorConfig where
  pythonGraphBackend : String := "off"
  enableGraph : Bool := false
  dpSize : Int := 1
  dpRank : Int := 0
  /-- Whether `torch_npu` can be imported. -/
  torchNpu : Bool := true
deriving DecidableEq, Repr

/-- The backends that disable the graphs. -/
def graphDisabled : List String := ["", "off", "none", "0"]

/-- `_resolve_graph_backend` -/
def resolveGraphBackend (config : ExecutorConfig) : Except Err String :=
  let graphBackend := config.pythonGraphBackend.toLower
  if graphBackend ∈ graphDisabled ∧ config.enableGraph then do
    guardNot (¬ config.torchNpu) (.exception "No module named 'torch_npu'")
    pure "aclgraph"
  else pure graphBackend

structure ModelExecutor where
  dpSize : Int
  decodeGraphRunner : Option DecodeGraphRunner
  kvBound : Bool

namespace ModelExecutor

/-- The ACL runner of `__init__`. -/
def aclRunner (config : ExecutorConfig) (maxSeqsPerBatch numDecodingTokens : Int)
    (aclGraphDecodeBatchSizeLimit : Option Int) : Except Err DecodeAclGraphRunner :=
  let numDecodingTokens := max 1 numDecodingTokens
  let decodeBatchSizeLimit := aclGraphDecodeBatchSizeLimit.map fun limit => max 1 limit
  let graphSequenceCapacity := match decodeBatchSizeLimit with
    | none => maxSeqsPerBatch
    | some limit => min maxSeqsPerBatch limit
  let maxGraphTokens := graphSequenceCapacity * numDecodingTokens
  DecodeAclGraphRunner.mk? maxGraphTokens config.dpSize config.dpRank decodeBatchSizeLimit
    numDecodingTokens

/-- `__init__` -/
def mk? (config : ExecutorConfig) (maxSeqsPerBatch numDecodingTokens : Int)
    (aclGraphDecodeBatchSizeLimit : Option Int) : Except Err ModelExecutor := do
  let graphBackend ← resolveGraphBackend config
  guardNot (1 < config.dpSize ∧ graphBackend ∉ graphDisabled ++ ["cudagraphs", "aclgraph"])
    (.notImplementedError
      "Python data parallel graph execution supports cudagraphs and aclgraph only")
  if graphBackend ∈ graphDisabled then pure ⟨config.dpSize, none, false⟩
  else if graphBackend = "cudagraphs" then do
    let runner ← DecodeCudaGraphRunner.mk? maxSeqsPerBatch config.dpSize config.dpRank
    pure ⟨config.dpSize, some (.cuda runner), false⟩
  else if graphBackend = "aclgraph" then do
    let runner ← aclRunner config maxSeqsPerBatch numDecodingTokens aclGraphDecodeBatchSizeLimit
    pure ⟨config.dpSize, some (.acl runner), false⟩
  else pure ⟨config.dpSize, none, false⟩

/-- `bind_kv_caches` -/
def bindKvCaches (e : ModelExecutor) : ModelExecutor := { e with kvBound := true }

/-- A call passes keywords to a method with these parameters. -/
def checkKeywords (method : String) (parameters keywords : List String) : Except Err Unit :=
  match keywords.find? fun k => k ∉ parameters with
  | none => pure ()
  | some k => throw (.typeError (method ++ "() got an unexpected keyword argument '" ++ k ++ "'"))

/-- `graph_runner.can_execute(input_ids, dp_token_counts=…, dp_is_decode=…)` -/
def callCanExecute (runner : DecodeGraphRunner) (rows : Nat)
    (dpTokenCounts dpIsDecode : Option (List Int)) : Except Err Bool :=
  match runner with
  | .cuda r => do
    checkKeywords "DecodeCudaGraphRunner.can_execute" ["input_ids", "dp_token_counts", "dp_is_decode"]
      ["dp_token_counts", "dp_is_decode"]
    r.canExecute rows dpTokenCounts dpIsDecode
  | .acl r => do
    -- `dp_is_decode` is passed as `None`, since this runner has no `graph_key`.
    checkKeywords "DecodeAclGraphRunner.can_execute" ["input_ids", "dp_token_counts"]
      ["dp_token_counts", "dp_is_decode"]
    r.canExecute rows dpTokenCounts

/-- `runner.warmup` -/
def warmupRunner : DecodeGraphRunner → Except Err DecodeGraphRunner
  | .cuda r => DecodeGraphRunner.cuda <$> r.warmup
  | .acl r => pure (.acl r.warmup)

/-- A decode batch. -/
structure Batch where
  rows : Nat
  dpTokenCounts : Option (List Int)
  dpIsDecode : Option (List Int)
deriving DecidableEq, Repr

/-- `execute`: the output, and the executor after it. -/
def execute {β : Type} (model : Nat → β) (e : ModelExecutor) (batch : Batch) :
    Except Err (β × ModelExecutor) :=
  if e.kvBound then
    match e.decodeGraphRunner with
    | none => pure (model batch.rows, e)
    | some runner => do
      if ← callCanExecute runner batch.rows batch.dpTokenCounts batch.dpIsDecode then
        -- `_run_graph`
        let runner ← warmupRunner runner
        pure (model batch.rows, { e with decodeGraphRunner := some runner })
      else pure (model batch.rows, e)
  else throw (.runtimeError "KV caches are not bound")

/-! ## The ACL graph backend -/

variable {β : Type} {config : ExecutorConfig} {maxSeqsPerBatch numDecodingTokens : Int}
  {limit : Option Int} {e : ModelExecutor}

/-- The configurations that are accepted with the ACL graph backend have an ACL graph runner. -/
theorem mk_acl (hbackend : resolveGraphBackend config = .ok "aclgraph")
    (h : mk? config maxSeqsPerBatch numDecodingTokens limit = .ok e) :
    ∃ r, e.decodeGraphRunner = some (.acl r) ∧
      aclRunner config maxSeqsPerBatch numDecodingTokens limit = .ok r := by
  obtain ⟨backend, hb, h⟩ := bind_eq_ok.mp h
  obtain rfl := Except.ok.inj (hbackend.symm.trans hb)
  obtain ⟨-, h⟩ := guardNot_bind_eq_ok.mp h
  rw [if_neg (by decide), if_neg (by decide), if_pos rfl] at h
  obtain ⟨r, hr, h⟩ := bind_eq_ok.mp h
  obtain rfl := pure_eq_ok.mp h
  exact ⟨r, rfl, hr⟩

/-- The keyword `dp_is_decode` is refused before anything else is done. -/
theorem callCanExecute_acl (r : DecodeAclGraphRunner) (rows : Nat)
    (dpTokenCounts dpIsDecode : Option (List Int)) :
    callCanExecute (.acl r) rows dpTokenCounts dpIsDecode = .error (.typeError
      "DecodeAclGraphRunner.can_execute() got an unexpected keyword argument 'dp_is_decode'") := by
  have hfind : (["dp_token_counts", "dp_is_decode"].find? fun k =>
      decide (k ∉ ["input_ids", "dp_token_counts"])) = some "dp_is_decode" := by decide
  have hcheck : checkKeywords "DecodeAclGraphRunner.can_execute" ["input_ids", "dp_token_counts"]
      ["dp_token_counts", "dp_is_decode"] = .error (.typeError
        ("DecodeAclGraphRunner.can_execute" ++ "() got an unexpected keyword argument '" ++
          "dp_is_decode" ++ "'")) := by
    rw [checkKeywords, hfind]
    rfl
  unfold callCanExecute
  dsimp only
  rw [hcheck]
  rfl

/-- What is expected of an executor with an ACL graph runner: `execute` returns, and a graph that
`warmup` has captured covers every batch that the runner admits. -/
def AclCovered (model : Nat → β) (e : ModelExecutor) (batch : Batch) : Prop :=
  (∃ result, e.bindKvCaches.execute model batch = .ok result) ∧
    ∀ r, e.decodeGraphRunner = some (.acl r) →
      r.warmup.canExecute batch.rows batch.dpTokenCounts = .ok true →
        ∃ p ∈ r.warmup.graphs, (batch.rows : Int) ≤ p

/-- **`execute` never returns with the ACL graph backend.** -/
theorem execute_acl (model : Nat → β) (batch : Batch)
    (hbackend : resolveGraphBackend config = .ok "aclgraph")
    (h : mk? config maxSeqsPerBatch numDecodingTokens limit = .ok e) :
    e.bindKvCaches.execute model batch = .error (.typeError
      "DecodeAclGraphRunner.can_execute() got an unexpected keyword argument 'dp_is_decode'") := by
  obtain ⟨r, hr, -⟩ := mk_acl hbackend h
  unfold execute bindKvCaches
  rw [if_pos rfl]
  dsimp only
  rw [hr]
  dsimp only
  rw [callCanExecute_acl]
  rfl

/-- The runner of the executor, when it is warmed: its graphs cover what it admits unless the capacity
of a rank, which counts tokens already, is zero or is no captured batch size. -/
theorem aclRunner_covers_iff {r : DecodeAclGraphRunner}
    (h : aclRunner config maxSeqsPerBatch numDecodingTokens limit = .ok r) :
    r.Covers ↔ r.maxBatch < 0 ∨ r.maxBatch ∈ [1, 2, 4, 8] ∨ ∃ k, 1 ≤ k ∧ r.maxBatch = 16 * k := by
  obtain ⟨hrank, -, h⟩ := bind_eq_ok.mp h
  obtain rfl := pure_eq_ok.mp h
  exact DecodeAclGraphRunner.captured_covers_iff rfl rfl (le_max_left 1 numDecodingTokens)

/-- **No batch is covered with the ACL graph backend.** -/
theorem acl_not_covered (model : Nat → β) (batch : Batch)
    (hbackend : resolveGraphBackend config = .ok "aclgraph")
    (h : mk? config maxSeqsPerBatch numDecodingTokens limit = .ok e) :
    ¬ AclCovered model e batch := by
  rintro ⟨⟨result, hrun⟩, -⟩
  rw [execute_acl model batch hbackend h] at hrun
  cases hrun

/-- An executor for one replica. -/
def aclConfig : ExecutorConfig := { pythonGraphBackend := "aclgraph" }

theorem aclConfig_backend : resolveGraphBackend aclConfig = .ok "aclgraph" := by
  have hlower : "aclgraph".toLower = "aclgraph" := by decide +kernel
  unfold resolveGraphBackend aclConfig
  dsimp only
  rw [hlower, if_neg (by decide)]
  rfl

theorem aclConfig_accepted : ∃ e, mk? aclConfig 32 1 none = .ok e := by
  have hrunner : ∃ r, aclRunner aclConfig 32 1 none = .ok r := ⟨_, rfl⟩
  obtain ⟨r, hr⟩ := hrunner
  refine ⟨⟨1, some (.acl r), false⟩, bind_eq_ok.mpr ⟨"aclgraph", aclConfig_backend,
    guardNot_bind_eq_ok.mpr ⟨by decide, ?_⟩⟩⟩
  rw [if_neg (by decide), if_neg (by decide), if_pos rfl, hr]
  rfl

theorem acl_not_covered_one :
    ∃ e, mk? aclConfig 32 1 none = .ok e ∧ ¬ AclCovered id e ⟨1, none, none⟩ := by
  obtain ⟨e, h⟩ := aclConfig_accepted
  exact ⟨e, h, acl_not_covered id ⟨1, none, none⟩ aclConfig_backend h⟩

/-- A batch of one row. -/
theorem execute_acl_raises : ∃ e, mk? aclConfig 32 1 none = .ok e ∧
    ∀ result, e.bindKvCaches.execute id ⟨1, none, none⟩ ≠ .ok result := by
  obtain ⟨e, h⟩ := aclConfig_accepted
  refine ⟨e, h, fun result hrun => ?_⟩
  rw [execute_acl id _ aclConfig_backend h] at hrun
  cases hrun

end ModelExecutor

end Bi100.Dp
