import Bi100.Block.Allocator
import Bi100.Namespace.Stream

/-!
# Cache namespaces (`block_manager_v2.py`)

The namespace of a sequence is mixed into the hash of its first block. It is a digest over the
runtime configuration, the adapters of the request and the multimodal payload. The methods that
feed a digest are split: `…Input` is what the digest is updated with.

An attribute of an adapter is its `str`; a missing attribute is `""`. The bytes that `os.urandom`
returns are a parameter.
-/

namespace Bi100

open Py

/-- A label, the packed length of a text and the text. -/
def labelled (p : String × String) : Except Err Bytes := do
  let n ← packUnsigned 8 (encodeStr p.2).length
  pure (encodeStr p.1 ++ n ++ encodeStr p.2)

/-- What `os.getenv` returns. -/
structure RuntimeEnv where
  model : String
  dtype : String
  /-- `int(tp_raw)`, or `none` if it raises. -/
  tpSize : Option Int

/-- An adapter request: the texts of its attributes. -/
abbrev Adapter := String → String

/-- The adapters of a `SequenceGroup`. -/
structure GroupAdapters where
  lora : Option Adapter
  prompt : Option Adapter

def loraFields : List String := ["lora_name", "lora_int_id", "lora_path", "base_model_name"]

def promptFields : List String :=
  ["prompt_adapter_name", "prompt_adapter_id", "prompt_adapter_local_path",
    "prompt_adapter_num_virtual_tokens"]

def adapterIdentity (kind : String) (fields : List String) : Option Adapter → Except Err Bytes
  | none => pure (encodeStr kind ++ encodeStr "none|")
  | some adapter => do
    let parts ← concatParts ((fields.map fun field => (field, adapter field)).map labelled)
    pure (encodeStr kind ++ parts)

def adapterInput (group : GroupAdapters) : Except Err Bytes := do
  let lora ← adapterIdentity "lora" loraFields group.lora
  let prompt ← adapterIdentity "prompt" promptFields group.prompt
  pure (encodeStr "bi100-adapter-prefix-identity-v1|" ++ lora ++ prompt)

def runtimeInput (env : RuntimeEnv) (blockSize : Nat) : Except Err Bytes := do
  let message := "BI100_PREFIX_TP_SIZE must be a positive integer"
  let tpSize ←
    match env.tpSize with
    | some n => if n ≤ 0 then throw (Err.runtimeError message) else pure n
    | none => throw (Err.runtimeError message)
  let parts ← concatParts ([("model", env.model), ("dtype", env.dtype), ("tp", toString tpSize),
    ("block_size", toString blockSize)].map labelled)
  pure (encodeStr "bi100-runtime-prefix-identity-v1|" ++ parts)

section

variable (H : Type) [Sha256 H]

/-- `digest.digest()` of what the digest was updated with. -/
def digestBytes (input : Bytes) : Bytes := Sha256.bytes (Sha256.digest input : H)

/-- `_build_runtime_cache_namespace` -/
def buildRuntimeCacheNamespace (env : RuntimeEnv) (blockSize : Nat) : Except Err Bytes := do
  pure (digestBytes H (← runtimeInput env blockSize))

/-- `_adapter_cache_namespace` -/
def adapterCacheNamespace (group : GroupAdapters) : Except Err Bytes := do
  pure (digestBytes H (← adapterInput group))

/-- `_hash_multi_modal_namespace` -/
def hashMultiModalNamespace (repr : Obj → String) (mmData : Obj) : Except Err Bytes := do
  pure (digestBytes H (← hashMultiModalObj repr mmData))

end

/-- `_has_multi_modal_payload` -/
def hasMultiModalPayload : Obj → Bool
  | .none => false
  | .map entries => 0 < entries.length
  | _ => true

/-- The parts of a `BlockSpaceManagerV2` that namespaces depend on. -/
structure NamespaceState where
  runtimeCacheNamespace : Bytes
  requestLocalNamespace : Dict String Bytes
  warnedMmNamespaceRequests : Finset String
  /-- The results of the next calls of `os.urandom(32)`. -/
  urandom : Nat → Bytes

abbrev NamespaceM := EStateM Err NamespaceState

section

variable (H : Type) [Sha256 H]

/-- `_request_local_fallback_cache_namespace` -/
def requestLocalFallbackCacheNamespace (requestId : String) : NamespaceM Bytes := do
  let s ← get
  match s.requestLocalNamespace.get? requestId with
  | some ns => pure ns
  | none =>
    let ns := digestBytes H (encodeStr "multimodal-unsupported-request-local-v1|" ++
      s.runtimeCacheNamespace ++ s.urandom 0 ++ encodeStr requestId)
    set { s with
      requestLocalNamespace := s.requestLocalNamespace.set requestId ns
      urandom := fun n => s.urandom (n + 1) }
    pure ns

/-- The namespace of the multimodal payload, or one of the request's own if the payload cannot be
hashed. -/
def payloadNamespace (repr : Obj → String) (mmData : Obj) (requestId : String) :
    NamespaceM Bytes := do
  match hashMultiModalNamespace H repr mmData with
  | .ok ns => pure ns
  | .error _ => do
    modify fun s =>
      { s with warnedMmNamespaceRequests := insert requestId s.warnedMmNamespaceRequests }
    requestLocalFallbackCacheNamespace H requestId

/-- What the digest of the namespace is updated with. -/
def cacheNamespaceInput (repr : Obj → String) (mmData : Obj) (requestId : String)
    (group : GroupAdapters) : NamespaceM Bytes := do
  let s ← get
  let adapter ← lift (adapterCacheNamespace H group)
  let head := encodeStr "bi100-request-prefix-namespace-v1|" ++ (s.runtimeCacheNamespace ++ adapter)
  if hasMultiModalPayload mmData = true then
    let mm ← payloadNamespace H repr mmData requestId
    pure (head ++ (encodeStr "mm|" ++ mm))
  else pure (head ++ encodeStr "text|")

/-- `_get_cache_namespace` -/
def getCacheNamespace (repr : Obj → String) (mmData : Obj) (requestId : String)
    (group : GroupAdapters) : NamespaceM Bytes := do
  pure (digestBytes H (← cacheNamespaceInput H repr mmData requestId group))

/-- `release_request_cache_namespace` -/
def releaseRequestCacheNamespace (requestId : String) : NamespaceM Unit :=
  modify fun s =>
    { s with
      requestLocalNamespace := s.requestLocalNamespace.erase requestId
      warnedMmNamespaceRequests := s.warnedMmNamespaceRequests.erase requestId }

end

end Bi100
