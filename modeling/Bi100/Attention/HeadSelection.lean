import Bi100.Lib.Except
import Bi100.Lib.Slices

/-!
# The heads of `Qwen3_5FullAttention` on a rank (`qwen3_5.py`)

The constructor, the loaders of the projections, and `forward` up to the attention, which is that of
the backends: a query head of a rank attends to the KV head of its number divided by
`num_queries_per_kv`. A linear layer has one output column for each row of its weight, so a column is
given here by the row that computes it. The norms and the rotary embedding act on each head alone, and
are left out.
-/

namespace Bi100.Attention.HeadSelection

open Py

inductive Error where
  | zeroDivision
  /-- `divide` -/
  | notDivisible (numerator denominator : Nat)
  /-- The assertion of the attention backends. -/
  | headsNotDivisible (numHeads numKvHeads : Nat)
  /-- `QG output size … is not divisible by TP …` -/
  | qgNotDivisible (qgDim tpSize : Nat)
  /-- `unexpected full-attention … output size: … != …` -/
  | unexpectedRows (source : String) (rows expectedRows : Nat)
  /-- A view, a split, a slice or a copy of PyTorch that does not fit. -/
  | shape
  | index
deriving DecidableEq, Repr

abbrev Call := Except Error

structure TextConfig where
  numAttentionHeads : Nat
  numKeyValueHeads : Nat
  headDim : Nat

/-! ## The constructor -/

/-- The layer of a rank. -/
structure FullAttention where
  localNumHeads : Nat
  headDim : Nat
  usePackedLocalQgkv : Bool
  projKvHeads : Nat
  localNumKvHeads : Nat
  qPerKvGlobal : Option Nat
deriving DecidableEq, Repr

/-- `divide` of `vllm.distributed` -/
def divide (numerator denominator : Nat) : Call Nat := do
  guardNot (numerator % denominator ≠ 0) (.notDivisible numerator denominator)
  pure (numerator / denominator)

/-- The constructor of an attention backend. -/
def checkBackend (numHeads numKvHeads : Nat) : Call Unit :=
  guardNot (numHeads % numKvHeads ≠ 0) (.headsNotDivisible numHeads numKvHeads)

/-- `__init__` -/
def FullAttention.new (cfg : TextConfig) (tpSize : Nat) : Call FullAttention := do
  let localNumHeads := cfg.numAttentionHeads / tpSize
  -- `head_dim ** -0.5`
  guardNot (cfg.headDim = 0) .zeroDivision
  if cfg.numKeyValueHeads < tpSize then do
    guardNot (cfg.numKeyValueHeads = 0) .zeroDivision
    let _ ← divide (cfg.numAttentionHeads * cfg.headDim) tpSize
    checkBackend localNumHeads 1
    pure
      { localNumHeads := localNumHeads
        headDim := cfg.headDim
        usePackedLocalQgkv := true
        projKvHeads := cfg.numKeyValueHeads
        localNumKvHeads := 1
        qPerKvGlobal := some (cfg.numAttentionHeads / cfg.numKeyValueHeads) }
  else do
    let localNumKvHeads := cfg.numKeyValueHeads / tpSize
    let _ ← divide (cfg.numKeyValueHeads * cfg.headDim) tpSize
    let _ ← divide (cfg.numAttentionHeads * cfg.headDim * 2) tpSize
    let _ ← divide (cfg.numAttentionHeads * cfg.headDim) tpSize
    checkBackend localNumHeads localNumKvHeads
    pure
      { localNumHeads := localNumHeads
        headDim := cfg.headDim
        usePackedLocalQgkv := false
        projKvHeads := localNumKvHeads
        localNumKvHeads := localNumKvHeads
        qPerKvGlobal := none }

/-! ## The loaders -/

variable {R : Type}

/-- The weights of the checkpoint. -/
structure Checkpoint (R : Type) (cfg : TextConfig) where
  qProj : List R
  kProj : List R
  vProj : List R
  length_qProj : qProj.length = cfg.numAttentionHeads * cfg.headDim * 2
  length_kProj : kProj.length = cfg.numKeyValueHeads * cfg.headDim
  length_vProj : vProj.length = cfg.numKeyValueHeads * cfg.headDim

/-- `torch.narrow` -/
def narrowRows (l : List R) (start length : Nat) : Call (List R) := do
  guardNot (l.length < start + length) .shape
  pure (slice l start (start + length))

/-- `default_weight_loader(param[offset:offset + rows], loaded_weight)` -/
def copyRows (param : List R) (offset : Nat) (loadedWeight : List R) : Call (List R) := do
  let stop := offset + loadedWeight.length
  guardNot ((slice param offset stop).length ≠ loadedWeight.length) .shape
  pure (param.take offset ++ loadedWeight ++ param.drop stop)

/-- `_load_full_attention_qgkv_weight` for one of the three projections. -/
def loadFullAttentionQgkvWeight (cfg : TextConfig) (tpSize tpRank : Nat) (source : String)
    (loadedWeight param : List R) : Call (List R) := do
  let qgDim := cfg.numAttentionHeads * cfg.headDim * 2
  guardNot (qgDim % tpSize ≠ 0) (.qgNotDivisible qgDim tpSize)
  let localQgDim := qgDim / tpSize
  let kvDim := cfg.numKeyValueHeads * cfg.headDim
  let expectedRows := if source = "q_proj" then qgDim else kvDim
  guardNot (loadedWeight.length ≠ expectedRows)
    (.unexpectedRows source loadedWeight.length expectedRows)
  if source = "q_proj" then do
    let loadedWeight ← narrowRows loadedWeight (tpRank * localQgDim) localQgDim
    copyRows param 0 loadedWeight
  else if source = "k_proj" then copyRows param localQgDim loadedWeight
  else copyRows param (localQgDim + kvDim) loadedWeight

/-- `ColumnParallelLinear.weight_loader` -/
def columnParallelWeight (outputSize tpSize tpRank : Nat) (loadedWeight : List R) :
    Call (List R) := do
  let shardSize ← divide outputSize tpSize
  narrowRows loadedWeight (tpRank * shardSize) shardSize

/-- The weights of a rank: `qgkv_proj`, or `q_proj`, `k_proj` and `v_proj`. -/
inductive Weights (R : Type) where
  | packed (qgkvProj : List R)
  | sharded (qProj kProj vProj : List R)

/-- The weights are loaded; `fresh` is what `torch.empty` finds in the memory. -/
def FullAttention.load (attn : FullAttention) (cfg : TextConfig) (tpSize tpRank : Nat)
    (ck : Checkpoint R cfg) (fresh : Nat → R) : Call (Weights R) :=
  if attn.usePackedLocalQgkv then do
    let localQgDim := attn.localNumHeads * attn.headDim * 2
    let replicatedKvDim := cfg.numKeyValueHeads * attn.headDim
    let param := (List.range (localQgDim + 2 * replicatedKvDim)).map fresh
    let param ← loadFullAttentionQgkvWeight cfg tpSize tpRank "q_proj" ck.qProj param
    let param ← loadFullAttentionQgkvWeight cfg tpSize tpRank "k_proj" ck.kProj param
    let param ← loadFullAttentionQgkvWeight cfg tpSize tpRank "v_proj" ck.vProj param
    pure (.packed param)
  else do
    let kvDim := cfg.numKeyValueHeads * cfg.headDim
    let kProj ← columnParallelWeight kvDim tpSize tpRank ck.kProj
    let vProj ← columnParallelWeight kvDim tpSize tpRank ck.vProj
    let qProj ← columnParallelWeight (cfg.numAttentionHeads * cfg.headDim * 2) tpSize tpRank ck.qProj
    pure (.sharded qProj kProj vProj)

/-! ## The forward pass -/

/-- Head `i` of `n` columns each. -/
def headAt (columns : List R) (n i : Nat) : List R := slice columns (i * n) (i * n + n)

/-- A head of a query, and the key and value heads that it attends to. -/
structure Attended (R : Type) where
  query : List R
  key : List R
  value : List R
deriving DecidableEq, Repr

/-- `qg`, `k` and `v` of a token. -/
def FullAttention.project (attn : FullAttention) : Weights R → Call (List R × List R × List R)
  | .packed projected => do
    let qgDim := attn.localNumHeads * attn.headDim * 2
    let kvDim := attn.projKvHeads * attn.headDim
    guardNot (projected.length ≠ qgDim + kvDim + kvDim) .shape
    pure (slice projected 0 qgDim, slice projected qgDim (qgDim + kvDim),
      slice projected (qgDim + kvDim) (qgDim + kvDim + kvDim))
  | .sharded qProj kProj vProj => pure (qProj, kProj, vProj)

/-- `kv_idx` -/
def FullAttention.kvIdx (attn : FullAttention) (tpRank qPerKvGlobal : Nat) : Call Nat := do
  guardNot (qPerKvGlobal = 0) .zeroDivision
  pure (tpRank * attn.localNumHeads / qPerKvGlobal)

/-- `x.view(total_tokens, proj_kv_heads, head_dim)[:, kv_idx, :]` -/
def FullAttention.selectHead (attn : FullAttention) (columns : List R) (kvIdx : Nat) :
    Call (List R) := do
  guardNot (columns.length ≠ attn.projKvHeads * attn.headDim) .shape
  guardNot (attn.projKvHeads ≤ kvIdx) .index
  pure (headAt columns attn.headDim kvIdx)

/-- `forward`: what each query head of the rank attends to. -/
def FullAttention.forward (attn : FullAttention) (tpRank : Nat) (weights : Weights R) :
    Call (List (Attended R)) := do
  let (qg, k, v) ← attn.project weights
  guardNot (qg.length ≠ attn.localNumHeads * (attn.headDim * 2)) .shape
  let (k, v) ← match attn.qPerKvGlobal with
    | some qPerKvGlobal => do
      let kvIdx ← attn.kvIdx tpRank qPerKvGlobal
      let k ← attn.selectHead k kvIdx
      let v ← attn.selectHead v kvIdx
      pure (k, v)
    | none => pure (k, v)
  guardNot (k.length ≠ attn.localNumKvHeads * attn.headDim) .shape
  guardNot (v.length ≠ attn.localNumKvHeads * attn.headDim) .shape
  let numQueriesPerKv := attn.localNumHeads / attn.localNumKvHeads
  pure ((List.range attn.localNumHeads).map fun i =>
    { query := (headAt qg (attn.headDim * 2) i).take attn.headDim
      key := headAt k attn.headDim (i / numQueriesPerKv)
      value := headAt v attn.headDim (i / numQueriesPerKv) })

/-- The layer of a rank is made, loaded and run. -/
def attend (cfg : TextConfig) (tpSize tpRank : Nat) (ck : Checkpoint R cfg) (fresh : Nat → R) :
    Call (List (Attended R)) := do
  let attn ← FullAttention.new cfg tpSize
  let weights ← attn.load cfg tpSize tpRank ck fresh
  attn.forward tpRank weights

end Bi100.Attention.HeadSelection
