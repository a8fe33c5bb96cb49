import Bi100.Lib.ArgmaxTree
import Bi100.Lib.ExpField
import Bi100.Lib.Threads
import Mathlib.Data.List.ProdSigma
import Mathlib.Data.Fintype.Prod

/-!
# The packed decode kernel (`corex_gdn_packed_decode.cu`)

A block for each value head, a thread for each column of its state. The shared-memory phases of a block
end with barriers, so they are functions of what is there before them and meet no other block; the
order of the threads in each round of the reduction is a part of the launch. After the last barrier
the threads of all blocks work on the state, one access at a time, in any order.

The arithmetic is exact. The threshold of the kernel's softplus is in `softplus`, and `scale` is
`kQueryScale`, which rounds `128 ** -0.5`.
-/

namespace Bi100.Gdn

/-- The functions and constants that the decode paths share. -/
structure Arith (K : Type) where
  rsqrt : K → K
  softplus : K → K
  eps : K
  scale : K

namespace PackedDecode

open BlockReduce ExpField Threads

variable {K : Type} [ExpField K]

def kKeyHeads : Nat := 4

def kValueHeads : Nat := 8

def kHeadDim : Nat := 128

def kMixedDim : Nat := (2 * kKeyHeads + kValueHeads) * kHeadDim

/-- The buffers that the kernel only reads. -/
structure Args (K : Type) where
  mixedQkv : Nat → K
  betaInput : Nat → K
  decayInput : Nat → K
  aLog : Nat → K
  dtBias : Nat → K

def valueHead (batchHead : Nat) : Nat := batchHead % kValueHeads

def keyHead (batchHead : Nat) : Nat := valueHead batchHead / (kValueHeads / kKeyHeads)

def mixedOffset (batchHead : Nat) : Nat := batchHead / kValueHeads * kMixedDim

def queryOffset (batchHead : Nat) : Nat := mixedOffset batchHead + keyHead batchHead * kHeadDim

def keyOffset (batchHead : Nat) : Nat :=
  mixedOffset batchHead + kKeyHeads * kHeadDim + keyHead batchHead * kHeadDim

def valueOffset (batchHead : Nat) : Nat :=
  mixedOffset batchHead + 2 * kKeyHeads * kHeadDim + valueHead batchHead * kHeadDim

def stateOffset (batchHead : Nat) : Nat := batchHead * kHeadDim * kHeadDim

def vectorOffset (batchHead : Nat) : Nat := batchHead * kHeadDim

/-! ## Before the last barrier -/

/-- `normalized_query` and `normalized_key`. `norm_squares[column]` and
`norm_squares[kHeadDim + column]` are a pair; `order` has the threads of each round. -/
def normalized (o : Arith K) (args : Args K) (order : Nat → List Nat) (batchHead : Nat) :
    (Nat → K) × (Nat → K) :=
  let rawQuery := fun column => args.mixedQkv (queryOffset batchHead + column)
  let rawKey := fun column => args.mixedQkv (keyOffset batchHead + column)
  let normSquares : Nat → K × K := orderedRounds (· + ·) 7 order fun column =>
    (rawQuery column * rawQuery column, rawKey column * rawKey column)
  let queryInverse := o.rsqrt ((normSquares 0).1 + o.eps)
  let keyInverse := o.rsqrt ((normSquares 0).2 + o.eps)
  (fun column => rawQuery column * queryInverse * o.scale, fun column => rawKey column * keyInverse)

def coefficientOffset (batchHead : Nat) : Nat :=
  batchHead / kValueHeads * kValueHeads + valueHead batchHead

def beta (args : Args K) (batchHead : Nat) : K :=
  1 / (1 + exp (-args.betaInput (coefficientOffset batchHead)))

def decay (o : Arith K) (args : Args K) (batchHead : Nat) : K :=
  let decayX := args.decayInput (coefficientOffset batchHead) + args.dtBias (valueHead batchHead)
  exp (-exp (args.aLog (valueHead batchHead)) * o.softplus decayX)

/-! ## The loops over the rows -/

/-- The block and the column of a thread. -/
abbrev Thread := Fin kValueHeads × Fin kHeadDim

/-- The elements of the buffers that the kernel writes. -/
inductive Cell where
  | state (index : Nat)
  | output (index : Nat)
deriving DecidableEq

/-- Where a thread is: before an access of the first loop, before the read or the write of an
iteration of the second one, before it writes `result`, or at the end. -/
inductive Phase (K : Type) where
  | memory (row : Nat) (memory : K)
  | load (row : Nat) (delta result : K)
  | store (row : Nat) (delta result updated : K)
  | result (result : K)
  | done

/-- What the threads of a block have in registers and shared memory. -/
structure Block (K : Type) where
  normalizedQuery : Nat → K
  normalizedKey : Nat → K
  decay : K
  beta : K

def stateIndex (t : Thread) (row : Nat) : Nat := stateOffset t.1 + row * kHeadDim + t.2

/-- The next access of a thread. -/
def access (args : Args K) (block : Nat → Block K) (t : Thread) : Phase K → Access Cell K (Phase K)
  | .memory row memory =>
    if row < kHeadDim then
      .read (.state (stateIndex t row)) fun x =>
        let decayed := x * (block t.1).decay
        let memory := memory + (block t.1).normalizedKey row * decayed
        if row + 1 < kHeadDim then .memory (row + 1) memory
        else .load 0 ((args.mixedQkv (valueOffset t.1 + t.2) - memory) * (block t.1).beta) 0
    else .finished
  | .load row delta result =>
    if row < kHeadDim then
      .read (.state (stateIndex t row)) fun x =>
        let decayed := x * (block t.1).decay
        .store row delta result (decayed + (block t.1).normalizedKey row * delta)
    else .finished
  | .store row delta result updated =>
    if row < kHeadDim then
      let next := result + (block t.1).normalizedQuery row * updated
      .write (.state (stateIndex t row)) updated
        (if row + 1 < kHeadDim then .load (row + 1) delta next else .result next)
    else .finished
  | .result result => .write (.output (vectorOffset t.1 + t.2)) result .done
  | .done => .finished

/-- The accesses of a thread. -/
def kAccesses : Nat := kHeadDim + 2 * kHeadDim + 1

/-- A launch: the orders of the rounds of each block, a schedule of the accesses in which every
thread gets to its end, and the memory of `torch::empty`. -/
structure Launch (K : Type) where
  order : Nat → Nat → List Nat
  sched : List Thread
  uninit : Nat → K
  order_perm : ∀ batchHead round, (order batchHead round).Perm (List.range kHeadDim)
  complete : Enough kAccesses sched

/-- The threads one after the other. -/
def Launch.sequential : Launch K where
  order _ _ := List.range kHeadDim
  sched := ((List.finRange kValueHeads).product (List.finRange kHeadDim)).flatMap
    (List.replicate kAccesses)
  uninit := 0
  order_perm _ _ := .refl _
  complete := enough_flatMap (fun t => List.mem_product.mpr
    ⟨List.mem_finRange t.1, List.mem_finRange t.2⟩) _

def blocks (o : Arith K) (args : Args K) (order : Nat → Nat → List Nat) (batchHead : Nat) : Block K :=
  let norm := normalized o args (order batchHead) batchHead
  { normalizedQuery := norm.1
    normalizedKey := norm.2
    decay := decay o args batchHead
    beta := beta args batchHead }

/-- The memory and the threads at the last barrier. -/
def start (state uninit : Nat → K) : Config Thread Cell K (Phase K) where
  locals := fun _ => .memory 0 0
  mem := fun
    | .state i => state i
    | .output i => uninit i

/-- `packed_decode`: the output and the state. -/
def packedDecode (o : Arith K) (args : Args K) (state : Nat → K) (launch : Launch K) :
    (Nat → K) × (Nat → K) :=
  let c := run (access args (blocks o args launch.order)) launch.sched (start state launch.uninit)
  (fun i => c.mem (.output i), fun i => c.mem (.state i))

end PackedDecode

end Bi100.Gdn
