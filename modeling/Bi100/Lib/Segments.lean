import Mathlib.Data.List.Range
import Mathlib.Data.List.Perm.Subperm
import Mathlib.Data.List.Sort
import Mathlib.Algebra.Order.Group.Nat

/-!
# Segments of equal keys

A list of keys is counted, and the keys `e` get the places from `below keys e` on. The segments are
in the order of the keys and together take the places of the list.

- `countAt`: how many of some indices have a key.
- `byKey`: the key of every place.
-/

namespace Bi100.Segments

variable {keys : List Nat} {e e' : Nat}

/-- How many keys are smaller. -/
def below (keys : List Nat) (e : Nat) : Nat := keys.countP (· < e)

theorem below_zero : below keys 0 = 0 := List.countP_eq_zero.mpr fun _ _ => by simp

theorem below_succ (keys : List Nat) (e : Nat) : below keys (e + 1) = below keys e + keys.count e := by
  unfold below
  induction keys with
  | nil => rfl
  | cons k keys ih =>
    rw [List.countP_cons, List.countP_cons, List.count_cons, ih]
    rcases Nat.lt_trichotomy k e with h | rfl | h
    · have hne : ¬ k = e := by omega
      simp [h, hne, Nat.lt_succ_of_lt h]
      omega
    · simp
      omega
    · have hne : ¬ k = e := by omega
      have hlt : ¬ k < e := by omega
      have hsucc : ¬ k < e + 1 := by omega
      simp [hne, hlt, hsucc]

theorem below_mono (h : e ≤ e') : below keys e ≤ below keys e' :=
  List.countP_mono_left fun k _ hk => by
    have hk := of_decide_eq_true hk
    exact decide_eq_true (Nat.lt_of_lt_of_le hk h)

theorem below_le (keys : List Nat) (e : Nat) : below keys e ≤ keys.length := List.countP_le_length

/-- The segments of different keys. -/
theorem segment_lt {i i' : Nat} (h : e < e') (hi : i < keys.count e) :
    below keys e + i < below keys e' + i' := by
  have hmono : below keys (e + 1) ≤ below keys e' := below_mono h
  have hsucc := below_succ keys e
  omega

/-- How many of the indices have a key. -/
def countAt (keys indices : List Nat) (e : Nat) : Nat :=
  indices.countP fun i => keys[i]? = some e

theorem range_map_getElem? {α : Type} (xs : List α) :
    ((List.range xs.length).map fun i => xs[i]?) = xs.map some :=
  List.ext_getElem (by simp) fun i _ _ => by simp

theorem countAt_range : countAt keys (List.range keys.length) e = keys.count e := by
  have hcount := congrArg (List.countP (· = some e)) (range_map_getElem? keys)
  rw [List.countP_map, List.countP_map] at hcount
  show (List.range keys.length).countP (fun i => decide (keys[i]? = some e)) = _
  refine hcount.trans (List.countP_congr fun k _ => ?_)
  simp

theorem countAt_le {indices : List Nat} (hnodup : indices.Nodup)
    (hlt : ∀ i ∈ indices, i < keys.length) (e : Nat) : countAt keys indices e ≤ keys.count e := by
  rw [← countAt_range]
  exact (List.subperm_of_subset hnodup fun i hi => List.mem_range.mpr (hlt i hi)).countP_le _

theorem countAt_append (keys l₁ l₂ : List Nat) (e : Nat) :
    countAt keys (l₁ ++ l₂) e = countAt keys l₁ e + countAt keys l₂ e := List.countP_append

theorem countAt_cons_self {i : Nat} (l : List Nat) (h : keys[i]? = some e) :
    countAt keys (i :: l) e = countAt keys l e + 1 := List.countP_cons_of_pos (decide_eq_true h)

theorem countAt_cons_other {i : Nat} (l : List Nat) (h : ¬ keys[i]? = some e) :
    countAt keys (i :: l) e = countAt keys l e :=
  List.countP_cons_of_neg fun hd => h (of_decide_eq_true hd)

/-! ## The key of a place -/

/-- The keys of the places, in the order of the keys. -/
def byKey (keys : List Nat) (n : Nat) : List Nat :=
  (List.range n).flatMap fun e => List.replicate (keys.count e) e

theorem count_byKey {n : Nat} : (byKey keys n).count e = if e < n then keys.count e else 0 := by
  unfold byKey
  induction n with
  | zero => rfl
  | succ n ih =>
    rw [List.range_succ, List.flatMap_append, List.count_append, ih, List.flatMap_singleton,
      List.count_replicate]
    rcases Nat.lt_trichotomy e n with h | rfl | h
    · have hne : ¬ n = e := by omega
      simp [h, hne, Nat.lt_succ_of_lt h]
    · simp
    · have hne : ¬ n = e := by omega
      have hlt : ¬ e < n := by omega
      have hsucc : ¬ e < n + 1 := by omega
      simp [hne, hlt, hsucc]

theorem byKey_perm {n : Nat} (h : ∀ k ∈ keys, k < n) : (byKey keys n).Perm keys := by
  refine List.perm_iff_count.mpr fun e => ?_
  rw [count_byKey]
  split
  · rfl
  · next hlt => exact (List.count_eq_zero.mpr fun he => hlt (h e he)).symm

theorem byKey_sorted {n : Nat} : (byKey keys n).Pairwise (· ≤ ·) := by
  refine List.pairwise_flatMap.mpr ⟨fun e _ => List.pairwise_replicate.mpr (.inr (Nat.le_refl e)), ?_⟩
  refine List.pairwise_lt_range.imp fun hlt x hx y hy => ?_
  rw [List.eq_of_mem_replicate hx, List.eq_of_mem_replicate hy]
  exact hlt.le

theorem byKey_of_sorted {n : Nat} (h : ∀ k ∈ keys, k < n) (hs : keys.Pairwise (· ≤ ·)) :
    byKey keys n = keys :=
  (byKey_perm h).eq_of_pairwise (fun _ _ _ _ => Nat.le_antisymm) byKey_sorted hs

/-- The place of a key in a list without repetition that is sorted. -/
theorem below_of_sorted {i : Nat} (hs : keys.Pairwise (· < ·)) (h : keys[i]? = some e) :
    below keys e = i := by
  obtain ⟨hi, rfl⟩ := List.getElem?_eq_some_iff.mp h
  have htake : ∀ k ∈ keys.take i, k < keys[i] := fun k hk => by
    obtain ⟨j, hj, rfl⟩ := List.mem_take_iff_getElem.mp hk
    exact List.pairwise_iff_getElem.mp hs j i _ hi (by omega)
  have hdrop : ∀ k ∈ keys.drop i, ¬ k < keys[i] := fun k hk => by
    obtain ⟨j, hj, rfl⟩ := List.mem_drop_iff_getElem.mp hk
    rcases Nat.eq_zero_or_pos j with rfl | hpos
    · exact Nat.lt_irrefl _
    · exact Nat.lt_asymm (List.pairwise_iff_getElem.mp hs i (i + j) hi _ (by omega))
  have hsplit : below keys keys[i] = (keys.take i).countP (· < keys[i]) +
      (keys.drop i).countP (· < keys[i]) := by
    rw [← List.countP_append, List.take_append_drop]
    rfl
  rw [hsplit, List.countP_eq_length.mpr (by simpa using htake),
    List.countP_eq_zero.mpr (by simpa using hdrop), List.length_take]
  omega

end Bi100.Segments
