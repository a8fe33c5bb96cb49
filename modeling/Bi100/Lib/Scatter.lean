import Mathlib.Algebra.BigOperators.Group.List.Basic
import Mathlib.Data.List.Basic
import Mathlib.Logic.Function.Basic

/-!
# Scatter with accumulation

Amounts are added to places, one after the other. In a commutative monoid the order does not matter.

- `received`: what the pairs bring to a place.
- `perm_filter`: the groups of a list, one key after the other, are the list in another order.
-/

namespace Bi100.Scatter

variable {ι κ α M : Type} [DecidableEq ι] [DecidableEq κ] [AddCommMonoid M]
  {out : ι → M} {pairs : List (ι × M)} {i : ι}

/-- `out[i] += m` -/
def addAt (out : ι → M) (p : ι × M) : ι → M := Function.update out p.1 (out p.1 + p.2)

/-- The pairs, one after the other. -/
def scatter (out : ι → M) (pairs : List (ι × M)) : ι → M := pairs.foldl addAt out

/-- What the pairs bring to place `i`. -/
def received (pairs : List (ι × M)) (i : ι) : M :=
  (pairs.map fun p => if p.1 = i then p.2 else 0).sum

@[simp] theorem scatter_nil : scatter out [] = out := rfl

theorem scatter_append (pairs pairs' : List (ι × M)) :
    scatter out (pairs ++ pairs') = scatter (scatter out pairs) pairs' := List.foldl_append

theorem addAt_apply (p : ι × M) : addAt out p i = out i + if p.1 = i then p.2 else 0 := by
  rw [addAt, Function.update_apply]
  rcases eq_or_ne p.1 i with rfl | hne
  · rw [if_pos rfl, if_pos rfl]
  · rw [if_neg hne, if_neg hne.symm, add_zero]

theorem scatter_apply : scatter out pairs i = out i + received pairs i := by
  unfold scatter received
  induction pairs generalizing out with
  | nil => simp
  | cons p pairs ih =>
    rw [List.foldl_cons, ih, addAt_apply, List.map_cons, List.sum_cons, add_assoc]

theorem received_append (pairs pairs' : List (ι × M)) :
    received (pairs ++ pairs') i = received pairs i + received pairs' i := by
  simp [received]

theorem received_perm {pairs' : List (ι × M)} (h : pairs.Perm pairs') :
    received pairs i = received pairs' i := (h.map _).sum_eq

/-- The order does not matter. -/
theorem scatter_perm {pairs' : List (ι × M)} (h : pairs.Perm pairs') :
    scatter out pairs = scatter out pairs' := by
  funext i
  rw [scatter_apply, scatter_apply, received_perm h]

/-- Pairs for one place. -/
theorem received_same {i' : ι} (ms : List M) :
    received (ms.map fun m => (i', m)) i = if i' = i then ms.sum else 0 := by
  unfold received
  rw [List.map_map]
  by_cases h : i' = i
  · simp [h, Function.comp_def]
  · simp [h, Function.comp_def]

/-- The pairs of several places, each of them once. -/
theorem received_flatMap {places : List ι} (hnodup : places.Nodup) (hi : i ∈ places)
    (amounts : ι → List M) :
    received (places.flatMap fun j => (amounts j).map fun m => (j, m)) i = (amounts i).sum := by
  induction places with
  | nil => exact absurd hi List.not_mem_nil
  | cons j places ih =>
    rw [List.flatMap_cons, received_append, received_same]
    obtain ⟨hj, hnodup⟩ := List.nodup_cons.mp hnodup
    by_cases h : j = i
    · subst h
      have hrest : received (places.flatMap fun j => (amounts j).map fun m => (j, m)) j = 0 := by
        refine List.sum_eq_zero fun m hm => ?_
        obtain ⟨p, hp, rfl⟩ := List.mem_map.mp hm
        obtain ⟨j', hj', hp⟩ := List.mem_flatMap.mp hp
        obtain ⟨m, -, rfl⟩ := List.mem_map.mp hp
        exact if_neg fun (heq : j' = j) => hj (heq ▸ hj')
      rw [if_pos rfl, hrest, add_zero]
    · rw [if_neg h, zero_add]
      exact ih hnodup ((List.mem_cons.mp hi).resolve_left (Ne.symm h))

omit [DecidableEq ι] [AddCommMonoid M] in
/-- The entries of several keys, one key after the other. -/
theorem perm_filter (key : α → κ) (l : List α) {keys : List κ} (hnodup : keys.Nodup) :
    (keys.flatMap fun k => l.filter fun a => key a = k).Perm
      (l.filter fun a => key a ∈ keys) := by
  induction keys with
  | nil => simp
  | cons k keys ih =>
    obtain ⟨hk, hnodup⟩ := List.nodup_cons.mp hnodup
    have hfirst : l.filter (fun a => key a = k) =
        (l.filter fun a => key a ∈ k :: keys).filter fun a => key a = k := by
      rw [List.filter_filter]
      exact List.filter_congr fun a _ => by by_cases h : key a = k <;> simp [h]
    have hrest : l.filter (fun a => key a ∈ keys) =
        (l.filter fun a => key a ∈ k :: keys).filter fun a => !decide (key a = k) := by
      rw [List.filter_filter]
      refine List.filter_congr fun a _ => ?_
      by_cases h : key a = k
      · simp [h, hk]
      · simp [h]
    rw [List.flatMap_cons, hfirst]
    refine ((ih hnodup).append_left _).trans ?_
    rw [hrest]
    exact List.filter_append_perm _ _

end Bi100.Scatter
