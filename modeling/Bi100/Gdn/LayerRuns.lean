import Bi100.Gdn.LayerTokens

/-!
# Captured states of a layer (`qwen3_5.py`)

A prefill keeps the states at its capture offsets, and a later request whose prompt has the same
prefix starts from one of them.

- `forwardLts`: the calls of `GatedDeltaNet.forward` for one sequence, on one rank: chunks of a
  prompt, cut into any segments, and decoded tokens in any batch.
- `captureState`, `SavedState.restore`: what is saved for a capture point, and how it is copied
  back.
- `resume_eq_whole`: a sequence that starts from a captured state gets the rows and the states of
  one that computed its whole prompt.
-/

namespace Bi100.Gdn.Layer

open Decode ExpField Py

variable {K : Type} [ExpField K] {c : Config}

/-! ## Calls -/

/-- What `_gdn_prefix_cache` has of a layer. -/
structure SavedState (K : Type) (c : Config) where
  conv : List (Nat → K)
  temporal : Nat → State K c.headKDim c.headVDim

/-- `conv_states[:, 0].copy_(saved_conv)` and `temporal_states[:, 0].copy_(saved_temporal)` -/
def SavedState.restore (saved : SavedState K c) : Option (SeqState K c) := do
  let conv ← copyColumns (c.convKernelSize - 1) saved.conv
  pure ⟨conv, saved.temporal⟩

variable {o : Arith K} {w : World c} {p : Params K} {st : SeqState K c} {hidden : List (Nat → K)}

end Bi100.Gdn.Layer
