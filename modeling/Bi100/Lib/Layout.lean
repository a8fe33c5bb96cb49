import Mathlib.Algebra.BigOperators.Group.List.Basic
import Mathlib.Data.List.Forall2
import Mathlib.Data.List.Nodup
import Mathlib.Tactic.Ring

/-!
# Row-major layouts

- `ravel`, `unravel`: an index of a shape and its offset; they are inverse (`unravel_ravel`).
- `flatMap_range`: a loop over rows is a loop over their elements.
- `indices`: the indices of a shape; their offsets are the numbers below its size.
- `flatten`, `unflatten`: two axes as one.
- `NdArray`: a tensor by its elements. `select`, `permute`, `view` and `take` are the operations of
  PyTorch; a view reads the element with the same offset.
-/

namespace Bi100

/-- The offset of an element in row-major order. -/
def ravel (shape idx : List Nat) : Nat :=
  (shape.zip idx).foldl (fun offset (size, i) => offset * size + i) 0

/-- The index of an offset. -/
def unravel : List Nat → Nat → List Nat
  | [], _ => []
  | _ :: shape, offset => offset / shape.prod :: unravel shape (offset % shape.prod)

theorem foldl_ravel {shape idx : List Nat} (h : shape.length = idx.length) (start : Nat) :
    (shape.zip idx).foldl (fun offset (size, i) => offset * size + i) start =
      start * shape.prod + ravel shape idx := by
  induction shape generalizing idx start with
  | nil => simp [ravel]
  | cons size shape ih =>
    cases idx with
    | nil => simp at h
    | cons i idx =>
      have hlen : shape.length = idx.length := Nat.succ.inj h
      rw [ravel, List.zip_cons_cons, List.foldl_cons, List.foldl_cons, ih hlen, ih hlen,
        List.prod_cons]
      ring

theorem ravel_cons {shape idx : List Nat} (h : shape.length = idx.length) (size i : Nat) :
    ravel (size :: shape) (i :: idx) = i * shape.prod + ravel shape idx := by
  rw [ravel, List.zip_cons_cons, List.foldl_cons, foldl_ravel h]
  dsimp only
  rw [Nat.zero_mul, Nat.zero_add]

theorem ravel_lt {shape idx : List Nat} (h : List.Forall₂ (· < ·) idx shape) :
    ravel shape idx < shape.prod := by
  induction h with
  | nil => simp [ravel]
  | @cons i size idx shape hi h ih =>
    have hle := Nat.mul_le_mul_right shape.prod (Nat.succ_le_of_lt hi)
    rw [Nat.succ_mul] at hle
    rw [ravel_cons h.length_eq.symm, List.prod_cons]
    omega

theorem unravel_ravel {shape idx : List Nat} (h : List.Forall₂ (· < ·) idx shape) :
    unravel shape (ravel shape idx) = idx := by
  induction h with
  | nil => rfl
  | @cons i size idx shape hi h ih =>
    have hlt := ravel_lt h
    have hdiv : (i * shape.prod + ravel shape idx) / shape.prod = i := by
      rw [Nat.mul_comm, Nat.mul_add_div (Nat.zero_lt_of_lt hlt), Nat.div_eq_of_lt hlt, Nat.add_zero]
    rw [ravel_cons h.length_eq.symm, unravel, Nat.mul_add_mod_of_lt hlt, ih, hdiv]

/-- Rows, one after the other. -/
theorem flatMap_range {α : Type} (n size : Nat) (f : Nat → Nat → α) :
    ((List.range n).flatMap fun row => (List.range size).map (f row)) =
      (List.range (n * size)).map fun i => f (i / size) (i % size) := by
  induction n with
  | zero => rw [Nat.zero_mul]; rfl
  | succ n ih =>
    rw [List.range_succ, List.flatMap_append, ih, List.flatMap_singleton, Nat.succ_mul,
      List.range_add, List.map_append, List.map_map]
    congr 1
    refine List.map_congr_left fun i hi => ?_
    have hlt := List.mem_range.mp hi
    have hpos : 0 < size := by omega
    show f n i = f ((n * size + i) / size) ((n * size + i) % size)
    rw [Nat.mul_comm n size, Nat.mul_add_div hpos, Nat.div_eq_of_lt hlt, Nat.add_zero,
      Nat.mul_add_mod, Nat.mod_eq_of_lt hlt]

theorem row_offset_lt {rows size row i : Nat} (hrow : row < rows) (hi : i < size) :
    row * size + i < rows * size := by
  calc row * size + i < row * size + size := Nat.add_lt_add_left hi _
    _ = (row + 1) * size := (Nat.succ_mul row size).symm
    _ ≤ rows * size := Nat.mul_le_mul_right size hrow

theorem row_div {size row i : Nat} (hi : i < size) : (row * size + i) / size = row := by
  rw [Nat.mul_comm, Nat.mul_add_div (Nat.zero_lt_of_lt hi), Nat.div_eq_of_lt hi, Nat.add_zero]

theorem row_mod {size row i : Nat} (hi : i < size) : (row * size + i) % size = i := by
  rw [Nat.mul_comm, Nat.mul_add_mod, Nat.mod_eq_of_lt hi]

theorem mul_add_inj {n a b i j : Nat} (hi : i < n) (hj : j < n) (h : a * n + i = b * n + j) :
    a = b ∧ i = j := by
  have hdiv := congrArg (· / n) h
  have hmod := congrArg (· % n) h
  simp only [row_div hi, row_div hj, row_mod hi, row_mod hj] at hdiv hmod
  exact ⟨hdiv, hmod⟩

/-! ## All indices -/

/-- The indices of a shape, in row-major order. -/
def indices : List Nat → List (List Nat)
  | [] => [[]]
  | size :: shape => (List.range size).flatMap fun i => (indices shape).map (i :: ·)

theorem mem_indices {shape idx : List Nat} :
    idx ∈ indices shape ↔ List.Forall₂ (· < ·) idx shape := by
  induction shape generalizing idx with
  | nil => rw [indices, List.mem_singleton, List.forall₂_nil_right_iff]
  | cons size shape ih =>
    rw [indices, List.mem_flatMap]
    constructor
    · rintro ⟨i, hi, hidx⟩
      obtain ⟨rest, hrest, rfl⟩ := List.mem_map.mp hidx
      exact .cons (List.mem_range.mp hi) (ih.mp hrest)
    · rintro (_ | ⟨hi, hrest⟩)
      exact ⟨_, List.mem_range.mpr hi, List.mem_map_of_mem (ih.mpr hrest)⟩

/-- The offsets of the indices are the numbers below the size. -/
theorem map_ravel_indices (shape : List Nat) :
    (indices shape).map (ravel shape) = List.range shape.prod := by
  induction shape with
  | nil => rfl
  | cons size shape ih =>
    have hrow : ∀ i, ((indices shape).map (i :: ·)).map (ravel (size :: shape)) =
        (List.range shape.prod).map fun k => i * shape.prod + k := by
      intro i
      rw [← ih, List.map_map, List.map_map]
      refine List.map_congr_left fun idx hidx => ?_
      exact ravel_cons (mem_indices.mp hidx).length_eq.symm size i
    rw [indices, List.map_flatMap]
    simp only [hrow]
    rw [flatMap_range, List.prod_cons]
    refine (List.map_congr_left fun k _ => ?_).trans (List.map_id' _)
    rw [Nat.mul_comm]
    exact Nat.div_add_mod k shape.prod

theorem map_range_prod {α : Type} (shape : List Nat) (f : Nat → α) :
    (List.range shape.prod).map f = (indices shape).map fun idx => f (ravel shape idx) := by
  rw [← map_ravel_indices, List.map_map]
  rfl

theorem nodup_indices (shape : List Nat) : (indices shape).Nodup :=
  List.Nodup.of_map (ravel shape) (map_ravel_indices shape ▸ List.nodup_range)

/-! ## Two axes as one -/

section Axes

variable {α : Type} {width : Nat}

/-- Rows of `width` elements, one after the other. -/
def flatten (width : Nat) (t : Nat → Nat → α) : Nat → α := fun i => t (i / width) (i % width)

def unflatten (width : Nat) (x : Nat → α) : Nat → Nat → α := fun row i => x (row * width + i)

theorem flatten_apply (t : Nat → Nat → α) (row : Nat) {i : Nat} (hi : i < width) :
    flatten width t (row * width + i) = t row i := by
  unfold flatten
  rw [row_div hi, row_mod hi]

theorem flatten_first (t : Nat → Nat → α) {i : Nat} (hi : i < width) : flatten width t i = t 0 i := by
  have hrow := flatten_apply t 0 hi
  rwa [Nat.zero_mul, Nat.zero_add] at hrow

end Axes

/-! ## Tensors -/

/-- A tensor, by its elements. -/
structure NdArray (α : Type) where
  shape : List Nat
  elem : List Nat → α

namespace NdArray

variable {α : Type}

/-- `a[ids]` -/
def select (a : NdArray α) (ids : List Nat) : NdArray α where
  shape := ids.length :: a.shape.tail
  elem
    | [] => a.elem []
    | i :: rest => a.elem (ids.getD i 0 :: rest)

/-- `a.permute(dims)` -/
def permute (a : NdArray α) (dims : List Nat) : NdArray α where
  shape := dims.map fun j => a.shape.getD j 0
  elem idx := a.elem ((List.range dims.length).map fun j => idx.getD (dims.idxOf j) 0)

/-- `a.contiguous().view(shape)` -/
def view (a : NdArray α) (shape : List Nat) : NdArray α where
  shape := shape
  elem idx := a.elem (unravel a.shape (ravel shape idx))

/-- `a[:n]` -/
def take (a : NdArray α) (n : Nat) : NdArray α where
  shape := min n (a.shape.headD 0) :: a.shape.tail
  elem := a.elem

/-- `a.expand(n, ...)`, for a first axis of size 1. -/
def expand (a : NdArray α) (n : Nat) : NdArray α where
  shape := n :: a.shape.tail
  elem
    | [] => a.elem []
    | _ :: rest => a.elem (0 :: rest)

/-- `a.repeat(n, 1, ...)` -/
def tile (a : NdArray α) (n : Nat) : NdArray α where
  shape := n * a.shape.headD 0 :: a.shape.tail
  elem
    | [] => a.elem []
    | i :: rest => a.elem (i % a.shape.headD 0 :: rest)

/-- `torch.stack([a, b], dim=-1)` -/
def stack (a b : NdArray α) : NdArray α where
  shape := a.shape ++ [2]
  elem idx :=
    if idx.getD a.shape.length 0 = 0 then a.elem (idx.take a.shape.length)
    else b.elem (idx.take a.shape.length)

theorem permute_elem (a : NdArray α) {dims idx : List Nat} (idx' : List Nat)
    (h : ((List.range dims.length).map fun j => idx.getD (dims.idxOf j) 0) = idx') :
    (a.permute dims).elem idx = a.elem idx' := congrArg a.elem h

/-- A view has the elements at equal offsets. -/
theorem view_elem (a : NdArray α) {shape idx idx' : List Nat}
    (h : List.Forall₂ (· < ·) idx' a.shape) (hoffset : ravel shape idx = ravel a.shape idx') :
    (a.view shape).elem idx = a.elem idx' := by
  show a.elem (unravel a.shape (ravel shape idx)) = a.elem idx'
  rw [hoffset, unravel_ravel h]

/-- A flat view has each element at its offset. -/
theorem view_flat (a : NdArray α) {idx : List Nat} (n : Nat)
    (h : List.Forall₂ (· < ·) idx a.shape) :
    (a.view [n]).elem [ravel a.shape idx] = a.elem idx :=
  view_elem a h (by simp [ravel])

end NdArray

end Bi100
