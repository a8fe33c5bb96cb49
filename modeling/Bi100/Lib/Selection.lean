import Mathlib.Data.Finset.Card
import Mathlib.Order.Defs.LinearOrder

/-!
# Selection by repeated search

The first elements of a finite set in some order, found one after the other.

- `IsSelection.unique`: they are determined by their number.
- `IsSelection.mem_iff`: an element is among them when few enough precede it.
- `IsSelection.iff_of_order`: when the elements are also the first ones in another order.
- `IsSelection.forall_iff`: when all of them satisfy a predicate.
- `Ahead`: a larger value first, and among equal values a smaller rank.
-/

namespace Bi100.Selection

variable {ι : Type} {before before' : ι → ι → Prop} {s : Finset ι} {L L' : List ι} {x : ι}

/-- `L` is the first elements of `s`, in their order. -/
structure IsSelection (before : ι → ι → Prop) (s : Finset ι) (L : List ι) : Prop where
  nodup : L.Nodup
  mem : ∀ x ∈ L, x ∈ s
  sorted : L.Pairwise before
  rest : ∀ x ∈ L, ∀ y ∈ s, y ∉ L → before x y

namespace IsSelection

theorem nil (before : ι → ι → Prop) (s : Finset ι) : IsSelection before s [] :=
  ⟨List.nodup_nil, nofun, List.Pairwise.nil, nofun⟩

theorem imp (h : IsSelection before s L)
    (himp : ∀ x ∈ s, ∀ y ∈ s, before x y → before' x y) : IsSelection before' s L :=
  ⟨h.nodup, h.mem, h.sorted.imp_of_mem fun hx hy hxy => himp _ (h.mem _ hx) _ (h.mem _ hy) hxy,
    fun x hx y hy hnot => himp x (h.mem x hx) y hy (h.rest x hx y hy hnot)⟩

/-- One more element, the first of those that are left. -/
theorem concat (h : IsSelection before s L) (hx : x ∈ s) (hnew : x ∉ L)
    (hfirst : ∀ y ∈ s, y ∉ L → y ≠ x → before x y) : IsSelection before s (L ++ [x]) where
  nodup := List.nodup_append.mpr ⟨h.nodup, List.nodup_singleton x, fun y hy z hz hyz => by
    obtain rfl := List.mem_singleton.mp hz
    exact hnew (hyz ▸ hy)⟩
  mem y hy := by
    rcases List.mem_append.mp hy with hy | hy
    · exact h.mem y hy
    · exact List.mem_singleton.mp hy ▸ hx
  sorted := List.pairwise_append.mpr ⟨h.sorted, List.pairwise_singleton _ x, fun y hy z hz => by
    obtain rfl := List.mem_singleton.mp hz
    exact h.rest y hy z hx hnew⟩
  rest y hy z hz hnot := by
    obtain ⟨hz', hne⟩ := not_or.mp (mt List.mem_append.mpr hnot)
    rcases List.mem_append.mp hy with hy | hy
    · exact h.rest y hy z hz hz'
    · obtain rfl := List.mem_singleton.mp hy
      exact hfirst z hz hz' fun heq => hne (List.mem_singleton.mpr heq)

theorem of_concat (h : IsSelection before s (L ++ [x])) : IsSelection before s L where
  nodup := (List.nodup_append.mp h.nodup).1
  mem y hy := h.mem y (List.mem_append_left _ hy)
  sorted := (List.pairwise_append.mp h.sorted).1
  rest y hy z hz hnot := by
    by_cases hzx : z = x
    · exact hzx ▸ (List.pairwise_append.mp h.sorted).2.2 y hy x (List.mem_singleton_self x)
    · refine h.rest y (List.mem_append_left _ hy) z hz ?_
      rw [List.mem_append, List.mem_singleton]
      exact not_or.mpr ⟨hnot, hzx⟩

/-- **A selection is determined by its length.** -/
theorem unique (hasymm : ∀ x y, before x y → ¬ before y x) (h : IsSelection before s L)
    (h' : IsSelection before s L') (hlen : L.length = L'.length) : L = L' := by
  induction L using List.reverseRecOn generalizing L' with
  | nil => exact (List.length_eq_zero_iff.mp hlen.symm).symm
  | append_singleton L x ih =>
    rcases List.eq_nil_or_concat L' with rfl | ⟨L', x', rfl⟩
    · simp at hlen
    · rw [List.concat_eq_append] at h' hlen ⊢
      rw [List.length_append, List.length_append] at hlen
      obtain rfl := ih h.of_concat h'.of_concat (Nat.add_right_cancel hlen)
      have hnew : ∀ {z : ι}, IsSelection before s (L ++ [z]) → z ∉ L := fun hz hmem =>
        (List.nodup_append.mp hz.nodup).2.2 _ hmem _ (List.mem_singleton_self _) rfl
      by_contra hne
      have hxx' : x ≠ x' := fun heq => hne (heq ▸ rfl)
      have hlast : ∀ {y z : ι}, IsSelection before s (L ++ [y]) → z ∈ s → z ∉ L → z ≠ y →
          before y z := fun hy hz hz' hzy => by
        refine hy.rest _ (List.mem_append_right _ (List.mem_singleton_self _)) _ hz ?_
        rw [List.mem_append, List.mem_singleton]
        exact not_or.mpr ⟨hz', hzy⟩
      have hmem : ∀ {z : ι}, IsSelection before s (L ++ [z]) → z ∈ s := fun hz =>
        hz.mem _ (List.mem_append_right _ (List.mem_singleton_self _))
      exact hasymm x x' (hlast h (hmem h') (hnew h') hxx'.symm)
        (hlast h' (hmem h) (hnew h) hxx')

/-- An element is selected when fewer elements than are selected precede it. -/
theorem mem_iff [DecidableEq ι] [DecidablePred fun y => before y x] (hasymm : ∀ x y, before x y → ¬ before y x) (h : IsSelection before s L)
    (hx : x ∈ s) : x ∈ L ↔ (s.filter fun y => before y x).card < L.length := by
  rw [← List.toFinset_card_of_nodup h.nodup]
  constructor
  · intro hmem
    refine Finset.card_lt_card ((Finset.ssubset_iff_of_subset fun y hy => ?_).mpr
      ⟨x, List.mem_toFinset.mpr hmem, fun hself => ?_⟩)
    · obtain ⟨hy, hyx⟩ := Finset.mem_filter.mp hy
      by_contra hnot
      exact hasymm y x hyx (h.rest x hmem y hy (mt List.mem_toFinset.mpr hnot))
    · have hxx := (Finset.mem_filter.mp hself).2
      exact hasymm x x hxx hxx
  · intro hlt
    by_contra hnot
    refine absurd (Finset.card_le_card fun y hy => ?_) (Nat.not_le.mpr hlt)
    have hy := List.mem_toFinset.mp hy
    exact Finset.mem_filter.mpr ⟨h.mem y hy, h.rest y hy x hx hnot⟩

/-- The elements are also the first ones in another order when it agrees on them. -/
theorem iff_of_order (hasymm : ∀ x y, before x y → ¬ before y x) (h : IsSelection before s L) :
    IsSelection before' s L ↔ ∀ x ∈ L, ∀ y ∈ s, before x y → before' x y := by
  constructor
  · intro h' x hx y hy hxy
    by_cases hmem : y ∈ L
    · -- `x` stands before `y`.
      obtain ⟨pre, post, rfl⟩ := List.append_of_mem hx
      obtain ⟨-, hpost, hpre⟩ := List.pairwise_append.mp h.sorted
      obtain ⟨-, hpost', -⟩ := List.pairwise_append.mp h'.sorted
      rcases List.mem_append.mp hmem with hy | hy
      · exact absurd (hpre y hy x List.mem_cons_self) (hasymm x y hxy)
      · rcases List.mem_cons.mp hy with rfl | hy
        · exact absurd hxy (hasymm y y hxy)
        · exact (List.pairwise_cons.mp hpost').1 y hy
    · exact h'.rest x hx y hy hmem
  · intro hall
    refine ⟨h.nodup, h.mem, ?_, fun x hx y hy hnot => hall x hx y hy (h.rest x hx y hy hnot)⟩
    exact h.sorted.imp_of_mem fun hx hy hxy => hall _ hx _ (h.mem _ hy) hxy

/-- All elements satisfy a predicate when enough elements with it precede all others. -/
theorem forall_iff [DecidableEq ι] {p : ι → Prop}
    [DecidablePred fun x => p x ∧ ∀ y ∈ s, ¬ p y → before x y]
    (hasymm : ∀ x y, before x y → ¬ before y x) (h : IsSelection before s L) : (∀ x ∈ L, p x) ↔
      L.length ≤ (s.filter fun x => p x ∧ ∀ y ∈ s, ¬ p y → before x y).card := by
  rw [← List.toFinset_card_of_nodup h.nodup]
  constructor
  · intro hall
    refine Finset.card_le_card fun x hx => ?_
    have hx := List.mem_toFinset.mp hx
    exact Finset.mem_filter.mpr ⟨h.mem x hx, hall x hx, fun y hy hnot =>
      h.rest x hx y hy fun hmem => hnot (hall y hmem)⟩
  · intro hle
    by_contra hsome
    obtain ⟨x, hsome⟩ := not_forall.mp hsome
    obtain ⟨hx, hnot⟩ := Classical.not_imp.mp hsome
    refine absurd hle (Nat.not_le.mpr (Finset.card_lt_card
      ((Finset.ssubset_iff_of_subset fun y hy => ?_).mpr ⟨x, List.mem_toFinset.mpr hx, ?_⟩)))
    · obtain ⟨hy, hpy, hbefore⟩ := Finset.mem_filter.mp hy
      by_contra hmem
      exact hasymm y x (hbefore x (h.mem x hx) hnot)
        (h.rest x hx y hy (mt List.mem_toFinset.mpr hmem))
    · exact fun hself => hnot (Finset.mem_filter.mp hself).2.1

end IsSelection

/-! ## By value and rank -/

section Ahead

variable {K : Type} [LinearOrder K]

/-- A larger value, or an equal value with a smaller rank. -/
def Ahead (value : ι → K) (rank : ι → Nat) (x y : ι) : Prop :=
  value y < value x ∨ value x = value y ∧ rank x < rank y

theorem Ahead.asymm {value : ι → K} {rank : ι → Nat} (x y : ι) (h : Ahead value rank x y) :
    ¬ Ahead value rank y x := by
  rintro (hyx | ⟨heq, hyx⟩)
  · rcases h with hxy | ⟨heq, -⟩
    · exact lt_asymm hxy hyx
    · exact hyx.ne heq
  · rcases h with hxy | ⟨-, hxy⟩
    · exact hxy.ne heq
    · exact Nat.lt_asymm hxy hyx

theorem Ahead.value_le {value : ι → K} {rank : ι → Nat} {x y : ι} (h : Ahead value rank x y) :
    value y ≤ value x := h.elim le_of_lt fun h => h.1.ge

/-- Values that are ordered in the same way. -/
theorem Ahead.congr {K' : Type} [LinearOrder K'] (value : ι → K) (value' : ι → K')
    {rank : ι → Nat} {x y : ι} (hxy : value x < value y ↔ value' x < value' y)
    (hyx : value y < value x ↔ value' y < value' x) :
    Ahead value rank x y ↔ Ahead value' rank x y := by
  have heq : value x = value y ↔ value' x = value' y := by
    rw [le_antisymm_iff, le_antisymm_iff, ← not_lt, ← not_lt, ← not_lt, ← not_lt, hxy, hyx]
  unfold Ahead
  rw [hyx, heq]

end Ahead

end Bi100.Selection
