import Mathlib.Data.List.Basic
import Mathlib.Data.List.Range
import Mathlib.Tactic.Ring

/-!
# Slices of lists

`slice l a b` is `l[a:b]`. A list is the concatenation of its tiles, and the rows of equal length of
a concatenation are found by division.
-/

namespace Bi100

variable {α β : Type}

/-- `l[a:b]` -/
def slice (l : List α) (a b : Nat) : List α := (l.take b).drop a

theorem getElem?_slice (l : List α) (a b i : Nat) :
    (slice l a b)[i]? = if a + i < b then l[a + i]? else none := by
  rw [slice, List.getElem?_drop, List.getElem?_take]

theorem length_slice {l : List α} {a b : Nat} (h : b ≤ l.length) : (slice l a b).length = b - a := by
  rw [slice, List.length_drop, List.length_take, Nat.min_eq_left h]

theorem slice_self (l : List α) : slice l 0 l.length = l := List.take_length

theorem slice_nil_of_le {l : List α} {a b : Nat} (h : b ≤ a) : slice l a b = [] :=
  List.drop_eq_nil_of_le ((List.length_take_le b l).trans h)

theorem map_slice (f : α → β) (l : List α) (a b : Nat) :
    (slice l a b).map f = slice (l.map f) a b := by
  rw [slice, slice, List.map_drop, List.map_take]

theorem slice_sublist (l : List α) (a b : Nat) : (slice l a b).Sublist l :=
  (List.drop_sublist _ _).trans (List.take_sublist _ _)

theorem slice_take (l : List α) (a : Nat) {b n : Nat} (h : b ≤ n) :
    slice (l.take n) a b = slice l a b := by
  rw [slice, List.take_take, Nat.min_eq_left h]
  rfl

theorem slice_slice (l : List α) {a b i j : Nat} (h : a + j ≤ b) :
    slice (slice l a b) i j = slice l (a + i) (a + j) := by
  refine List.ext_getElem? fun k => ?_
  rw [getElem?_slice, getElem?_slice, getElem?_slice]
  by_cases hk : i + k < j
  · rw [if_pos hk, if_pos (by omega), if_pos (by omega), Nat.add_assoc]
  · rw [if_neg hk, if_neg (by omega)]

/-- Two consecutive slices. -/
theorem slice_append_slice (l : List α) {a b c : Nat} (hab : a ≤ b) (hbc : b ≤ c)
    (hc : c ≤ l.length) : slice l a b ++ slice l b c = slice l a c := by
  refine List.ext_getElem? fun k => ?_
  rw [List.getElem?_append, length_slice (hbc.trans hc), getElem?_slice, getElem?_slice,
    getElem?_slice]
  by_cases hk : k < b - a
  · rw [if_pos hk, if_pos (by omega), if_pos (by omega)]
  · rw [if_neg hk]
    have hidx : b + (k - (b - a)) = a + k := by omega
    rw [hidx]

/-- A slice of a concatenation. -/
theorem slice_append (l₁ l₂ : List α) (a b : Nat) : slice (l₁ ++ l₂) a b =
    slice l₁ (min a l₁.length) (min b l₁.length) ++ slice l₂ (a - l₁.length) (b - l₁.length) := by
  refine List.ext_getElem? fun k => ?_
  rw [getElem?_slice, List.getElem?_append, List.getElem?_append, getElem?_slice, getElem?_slice,
    length_slice (Nat.min_le_right b _)]
  by_cases hfirst : k < min b l₁.length - min a l₁.length
  · have hidx : min a l₁.length + k = a + k := by omega
    rw [if_pos hfirst, if_pos (by omega), if_pos (by omega), if_pos (by omega), hidx]
  · rw [if_neg hfirst]
    by_cases hb : a + k < b
    · have hidx : a - l₁.length + (k - (min b l₁.length - min a l₁.length)) = a + k - l₁.length := by
        omega
      rw [if_pos hb, if_neg (by omega), if_pos (by omega), hidx]
    · rw [if_neg hb, if_neg (by omega)]

/-- The tiles of a list, one after the other. -/
theorem flatMap_tiles (l : List α) {size : Nat} (hsize : 0 < size) :
    ((List.range ((l.length + size - 1) / size)).flatMap fun i =>
      slice l (i * size) (min (i * size + size) l.length)) = l := by
  have htiles : ∀ m, ((List.range m).flatMap fun i =>
      slice l (i * size) (min (i * size + size) l.length)) =
      slice l 0 (min (m * size) l.length) := by
    intro m
    induction m with
    | zero => rw [Nat.zero_mul, Nat.zero_min]; rfl
    | succ m ih =>
      rw [List.range_succ, List.flatMap_append, ih, List.flatMap_singleton, Nat.succ_mul]
      by_cases hm : m * size ≤ l.length
      · rw [Nat.min_eq_left hm]
        exact slice_append_slice l (Nat.zero_le _) (by omega) (Nat.min_le_right _ _)
      · have hle := Nat.le_of_not_le hm
        rw [Nat.min_eq_right hle, Nat.min_eq_right (by omega), slice_nil_of_le hle, List.append_nil]
  have hcover : l.length ≤ (l.length + size - 1) / size * size := by
    have hdiv := Nat.div_add_mod (l.length + size - 1) size
    have hmod := Nat.mod_lt (l.length + size - 1) hsize
    rw [Nat.mul_comm] at hdiv
    omega
  rw [htiles, Nat.min_eq_right hcover, slice_self]

/-- An entry of a concatenation of rows of one length. -/
theorem getElem?_flatMap_rows {f : α → List β} {size : Nat} (hf : ∀ x, (f x).length = size)
    (hsize : 0 < size) (l : List α) (i : Nat) :
    (l.flatMap f)[i]? = l[i / size]?.bind fun x => (f x)[i % size]? := by
  induction l generalizing i with
  | nil => rfl
  | cons x l ih =>
    rw [List.flatMap_cons, List.getElem?_append, hf]
    by_cases hi : i < size
    · rw [if_pos hi, Nat.div_eq_of_lt hi, Nat.mod_eq_of_lt hi]
      rfl
    · have hle := Nat.le_of_not_lt hi
      have hdiv : i / size = (i - size) / size + 1 := by
        conv_lhs => rw [← Nat.sub_add_cancel hle]
        exact Nat.add_div_right _ hsize
      have hmod : i % size = (i - size) % size := by
        conv_lhs => rw [← Nat.sub_add_cancel hle]
        exact Nat.add_mod_right _ _
      rw [if_neg hi, ih, hdiv, hmod, List.getElem?_cons_succ]

theorem length_flatMap_rows {f : α → List β} {size : Nat} (hf : ∀ x, (f x).length = size)
    (l : List α) : (l.flatMap f).length = l.length * size := by
  induction l with
  | nil => exact (Nat.zero_mul size).symm
  | cons x l ih => rw [List.flatMap_cons, List.length_append, ih, hf, List.length_cons, Nat.succ_mul,
      Nat.add_comm]

/-- The rows of a slice. -/
theorem flatMap_slice {f : α → List β} {size : Nat} (hf : ∀ x, (f x).length = size)
    (hsize : 0 < size) (l : List α) (a b : Nat) :
    (slice l a b).flatMap f = slice (l.flatMap f) (a * size) (b * size) := by
  refine List.ext_getElem? fun i => ?_
  have hdiv : (a * size + i) / size = a + i / size := by
    rw [Nat.add_comm, Nat.add_mul_div_right _ _ hsize, Nat.add_comm]
  rw [getElem?_flatMap_rows hf hsize, getElem?_slice, getElem?_slice,
    getElem?_flatMap_rows hf hsize, hdiv, Nat.mul_add_mod_self_right]
  have hlt : a + i / size < b ↔ a * size + i < b * size := by
    rw [← hdiv, Nat.div_lt_iff_lt_mul hsize]
  by_cases h : a + i / size < b
  · rw [if_pos h, if_pos (hlt.mp h)]
  · rw [if_neg h, if_neg fun h' => h (hlt.mpr h')]
    rfl

end Bi100
