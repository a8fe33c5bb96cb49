import Mathlib.Data.List.Infix

/-!
# Searching in strings

A string is the list of its characters. `find` is `str.find`, without the index -1; the lemmas
are about the first occurrence and what is before and after it.
-/

namespace Py

abbrev Text := List Char

namespace Text

/-- The index of the first occurrence of `sub`. -/
def find (sub : Text) : Text → Option Nat
  | [] => if sub.isEmpty then some 0 else none
  | c :: s => if sub.isPrefixOf (c :: s) then some 0 else (find sub s).map (· + 1)

/-- What is before the first occurrence, and after it. -/
def cut (sub s : Text) : Option (Text × Text) :=
  (find sub s).map fun i => (s.take i, s.drop (i + sub.length))

/-- `str.partition` -/
def partition (s sub : Text) : Text × Text × Text :=
  match cut sub s with
  | some (a, b) => (a, sub, b)
  | none => (s, [], [])

/-- `sub in s` -/
def contains (s sub : Text) : Bool := (find sub s).isSome

/-- `s or None` -/
def orNone (s : Text) : Option Text := if s = [] then none else some s

@[simp] theorem orNone_getD (s : Text) : (orNone s).getD [] = s := by
  unfold orNone
  split
  · next h => rw [h, Option.getD_none]
  · rw [Option.getD_some]

variable {sub s : Text}

theorem find_prefix {i : Nat} (h : find sub s = some i) : sub <+: s.drop i := by
  induction s generalizing i with
  | nil =>
    rw [find] at h
    split at h
    · next he =>
      rw [List.isEmpty_iff.mp he]
      exact List.nil_prefix
    · cases h
  | cons c s ih =>
    rw [find] at h
    split at h
    · next hp =>
      cases h
      exact List.isPrefixOf_iff_prefix.mp hp
    · obtain ⟨j, hj, rfl⟩ := Option.map_eq_some_iff.mp h
      exact ih hj

theorem find_eq_none_iff : find sub s = none ↔ ¬ sub <:+: s := by
  induction s with
  | nil =>
    rw [find, List.infix_nil]
    split
    · next he => simp [List.isEmpty_iff.mp he]
    · next he => simpa using he
  | cons c s ih =>
    rw [find, List.infix_cons_iff]
    split
    · next hp => simp [List.isPrefixOf_iff_prefix.mp hp]
    · next hp =>
      have hp : ¬ sub <+: c :: s := fun h => hp (List.isPrefixOf_iff_prefix.mpr h)
      simp [ih, hp]

/-- No occurrence begins before the one that is found. -/
theorem find_le {i j : Nat} (h : find sub s = some i) (hj : sub <+: s.drop j) : i ≤ j := by
  induction s generalizing i j with
  | nil =>
    rw [find] at h
    split at h
    · cases h
      exact Nat.zero_le j
    · cases h
  | cons c s ih =>
    rw [find] at h
    split at h
    · cases h
      exact Nat.zero_le j
    · next hp =>
      obtain ⟨i, hi, rfl⟩ := Option.map_eq_some_iff.mp h
      cases j with
      | zero => exact absurd (List.isPrefixOf_iff_prefix.mpr hj) hp
      | succ j => exact Nat.succ_le_succ (ih hi hj)

theorem cut_eq {a b : Text} (h : cut sub s = some (a, b)) : s = a ++ sub ++ b := by
  obtain ⟨i, hi, hab⟩ := Option.map_eq_some_iff.mp h
  obtain ⟨rfl, rfl⟩ := Prod.mk.inj hab
  obtain ⟨t, ht⟩ := find_prefix hi
  have hdrop : s.drop (i + sub.length) = t := by
    rw [← List.drop_drop, ← ht, List.drop_left]
  rw [hdrop, List.append_assoc, ht, List.take_append_drop]

theorem cut_le {a b a' b' : Text} (h : cut sub s = some (a, b)) (hs : s = a' ++ sub ++ b') :
    a.length ≤ a'.length := by
  obtain ⟨i, hi, hab⟩ := Option.map_eq_some_iff.mp h
  obtain ⟨rfl, rfl⟩ := Prod.mk.inj hab
  refine (List.length_take_le i s).trans (find_le hi ?_)
  rw [hs, List.append_assoc, List.drop_left]
  exact List.prefix_append sub b'

theorem cut_eq_none_iff : cut sub s = none ↔ ¬ sub <:+: s := by
  rw [cut, Option.map_eq_none_iff, find_eq_none_iff]

theorem exists_cut (h : sub <:+: s) : ∃ a b, cut sub s = some (a, b) := by
  cases hc : cut sub s with
  | none => exact absurd h (cut_eq_none_iff.mp hc)
  | some p => exact ⟨p.1, p.2, rfl⟩

theorem contains_eq : contains s sub = (cut sub s).isSome := by
  rw [contains, cut, Option.isSome_map]

end Text

end Py
