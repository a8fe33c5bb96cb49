import Mathlib.Data.List.Range
import Mathlib.Tactic.Common

/-!
# Rows of a batch

Every item of a batch has some of the rows, one after the other (`List.range'`), and gives a value
for each of them. The values of the batch are those of the items, one after the other.

- `getElem?_values`: a row of the batch has the value that its item gives for it.
- `exists_owner`: every row has an item.
-/

namespace Bi100.Ragged

variable {α β : Type} {items : List α} {rows : α → List Nat} {values : α → List β} {s n : Nat}

/-- The first item has the first rows, and the others have the rest. -/
theorem range'_cons {a : α} (h : (a :: items).flatMap rows = List.range' s n) :
    (rows a).length ≤ n ∧ rows a = List.range' s (rows a).length ∧
      items.flatMap rows = List.range' (s + (rows a).length) (n - (rows a).length) := by
  rw [List.flatMap_cons] at h
  obtain ⟨k, hk, hfirst, hrest⟩ := List.range'_eq_append_iff.mp h.symm
  have hlen : (rows a).length = k := by rw [hfirst, List.length_range']
  rw [hlen]
  refine ⟨hk, hfirst, ?_⟩
  rw [hrest, Nat.mul_one]

/-- A row of an item is one of the rows of the batch. -/
theorem mem_range' (h : items.flatMap rows = List.range' s n) {a : α} (ha : a ∈ items) {j : Nat}
    (hj : j ∈ rows a) : s ≤ j ∧ j < s + n := by
  have hmem : j ∈ items.flatMap rows := List.mem_flatMap.mpr ⟨a, ha, hj⟩
  rw [h, List.mem_range'_1] at hmem
  exact hmem

theorem length_values (h : items.flatMap rows = List.range' s n)
    (hlen : ∀ a ∈ items, (values a).length = (rows a).length) : (items.flatMap values).length = n := by
  have hrows : (items.flatMap rows).length = n := by rw [h, List.length_range']
  rw [← hrows, List.length_flatMap, List.length_flatMap]
  congr 1
  exact List.map_congr_left hlen

/-- The value of row `j` is the one that its item gives for it. -/
theorem getElem?_values (h : items.flatMap rows = List.range' s n)
    (hlen : ∀ a ∈ items, (values a).length = (rows a).length) {a : α} (ha : a ∈ items) {i j : Nat}
    (hj : (rows a)[i]? = some j) : (items.flatMap values)[j - s]? = (values a)[i]? := by
  induction items generalizing s n with
  | nil => cases ha
  | cons b rest ih =>
    obtain ⟨-, hfirst, hrest⟩ := range'_cons h
    have hb := hlen b List.mem_cons_self
    rw [List.flatMap_cons]
    rcases List.mem_cons.mp ha with rfl | ha
    · have hi : i < (rows a).length := (List.getElem?_eq_some_iff.mp hj).1
      rw [hfirst, List.getElem?_range' hi, Nat.one_mul] at hj
      obtain rfl := Option.some.inj hj
      rw [Nat.add_sub_cancel_left, List.getElem?_append_left (by omega)]
    · have hmem := mem_range' hrest ha (List.mem_of_getElem? hj)
      have hrec := ih hrest (fun c hc => hlen c (List.mem_cons_of_mem b hc)) ha
      rw [List.getElem?_append_right (by omega), ← hrec]
      congr 1
      omega

/-- Every row is a row of an item. -/
theorem exists_owner (h : items.flatMap rows = List.range' s n) {j : Nat} (hj : j < n) :
    ∃ a ∈ items, ∃ i : Nat, (rows a)[i]? = some (s + j) := by
  have hmem : s + j ∈ items.flatMap rows := by
    rw [h, List.mem_range'_1]
    omega
  obtain ⟨a, ha, hja⟩ := List.mem_flatMap.mp hmem
  exact ⟨a, ha, List.mem_iff_getElem?.mp hja⟩

end Bi100.Ragged
