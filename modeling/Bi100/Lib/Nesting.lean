import Mathlib.Data.List.Basic
import Mathlib.Data.List.Infix

/-!
# Nesting

Symbols that open and close brackets, where a closing symbol without an open bracket does nothing.

- `depth`: the open brackets after some symbols.
- `le_depth_iff`: at least `k` are open if some last stretch has `k` more opening than closing
  symbols.
- `inside`: how many other symbols stand inside brackets; `inside_eq_zero_iff`: when there is none.
-/

namespace Bi100.Nesting

variable {α : Type} [DecidableEq α] (o c : α)

/-- The open brackets after one more symbol. -/
def step (d : Nat) (a : α) : Nat := if a = o then d + 1 else if a = c then d - 1 else d

/-- The open brackets after `l`, if `d` are open before. -/
def depth (d : Nat) (l : List α) : Nat := l.foldl (step o c) d

/-- The other symbols of `l` inside brackets, if `d` are open before. -/
def inside (d : Nat) : List α → Nat
  | [] => 0
  | a :: l => (if a ≠ o ∧ a ≠ c ∧ 0 < d then 1 else 0) + inside (step o c d a) l

/-- A last stretch of `l` has more opening than closing symbols. -/
def Open (l : List α) : Prop := ∃ q, q <:+ l ∧ q.count c < q.count o

variable {o c}

theorem depth_append (d : Nat) (l l' : List α) :
    depth o c d (l ++ l') = depth o c (depth o c d l) l' := List.foldl_append

theorem inside_append (d : Nat) (l l' : List α) :
    inside o c d (l ++ l') = inside o c d l + inside o c (depth o c d l) l' := by
  induction l generalizing d with
  | nil => exact (Nat.zero_add _).symm
  | cons a l ih =>
    rw [List.cons_append, inside, inside, ih, Nat.add_assoc]
    rfl

/-- Without a closing symbol no bracket is closed. -/
theorem depth_of_not_mem {d : Nat} (hd : 0 < d) {l : List α} (hl : c ∉ l) : 0 < depth o c d l := by
  induction l generalizing d with
  | nil => exact hd
  | cons a l ih =>
    rw [List.mem_cons, not_or] at hl
    refine ih ?_ hl.2
    unfold step
    rw [if_neg (Ne.symm hl.1)]
    split <;> omega

theorem inside_of_not_mem {d : Nat} (hd : 0 < d) {l : List α} (hl : c ∉ l) :
    inside o c d l = l.countP fun a => a ≠ o ∧ a ≠ c := by
  induction l generalizing d with
  | nil => rfl
  | cons a l ih =>
    rw [List.mem_cons, not_or] at hl
    have hstep : 0 < step o c d a := depth_of_not_mem (l := [a]) hd (by simpa using hl.1)
    rw [inside, ih hstep hl.2, List.countP_cons, Nat.add_comm]
    simp [hd]

/-- Without an opening symbol no bracket is open. -/
theorem depth_zero_of_not_mem {l : List α} (hl : o ∉ l) : depth o c 0 l = 0 := by
  induction l with
  | nil => rfl
  | cons a l ih =>
    rw [List.mem_cons, not_or] at hl
    have hstep : step o c 0 a = 0 := by
      unfold step
      rw [if_neg (Ne.symm hl.1)]
      split <;> rfl
    exact (congrArg (depth o c · l) hstep).trans (ih hl.2)

theorem inside_zero_of_not_mem {l : List α} (hl : o ∉ l) : inside o c 0 l = 0 := by
  induction l with
  | nil => rfl
  | cons a l ih =>
    rw [List.mem_cons, not_or] at hl
    have hstep : step o c 0 a = 0 := depth_zero_of_not_mem (l := [a]) (by simpa using hl.1)
    rw [inside, hstep, ih hl.2, if_neg (by omega)]

/-- **The depth is the largest excess of opening symbols in a last stretch.** -/
theorem le_depth_iff (hoc : o ≠ c) (l : List α) (k : Nat) :
    k ≤ depth o c 0 l ↔ ∃ q, q <:+ l ∧ q.count c + k ≤ q.count o := by
  induction l using List.reverseRecOn generalizing k with
  | nil =>
    show k ≤ 0 ↔ _
    constructor
    · intro hk
      exact ⟨[], List.suffix_rfl, by simpa using hk⟩
    · rintro ⟨q, hq, hk⟩
      rw [List.suffix_nil.mp hq] at hk
      simpa using hk
  | append_singleton l a ih =>
    rw [depth_append]
    show k ≤ step o c (depth o c 0 l) a ↔ _
    cases k with
    | zero => exact ⟨fun _ => ⟨[], List.nil_suffix, Nat.le_refl 0⟩, fun _ => Nat.zero_le _⟩
    | succ k =>
      -- A stretch with an excess is not empty, so it ends with `a`.
      have hlast : (∃ q, q <:+ l ++ [a] ∧ q.count c + (k + 1) ≤ q.count o) ↔
          ∃ q, q <:+ l ∧ (q ++ [a]).count c + (k + 1) ≤ (q ++ [a]).count o := by
        constructor
        · rintro ⟨q, hq, hk⟩
          rcases List.suffix_concat_iff.mp hq with rfl | ⟨q', rfl, hq'⟩
          · simp at hk
          · exact ⟨q', hq', hk⟩
        · rintro ⟨q, hq, hk⟩
          exact ⟨q ++ [a], (List.suffix_append_inj_of_length_eq rfl).mpr ⟨hq, rfl⟩, hk⟩
      rw [hlast]
      unfold step
      simp only [List.count_append, List.count_singleton, beq_iff_eq]
      by_cases ho : a = o
      · rw [if_pos ho, if_pos ho, if_neg fun hc => hoc (ho.symm.trans hc), Nat.add_le_add_iff_right,
          ih]
        exact exists_congr fun q => and_congr_right fun _ => by omega
      · by_cases hc : a = c
        · have hsub : k + 1 ≤ depth o c 0 l - 1 ↔ k + 2 ≤ depth o c 0 l := by omega
          rw [if_neg ho, if_neg ho, if_pos hc, if_pos hc, hsub, ih]
          exact exists_congr fun q => and_congr_right fun _ => by omega
        · rw [if_neg ho, if_neg ho, if_neg hc, if_neg hc, ih]
          exact Iff.rfl

theorem open_iff (hoc : o ≠ c) (l : List α) : Open o c l ↔ 0 < depth o c 0 l :=
  (le_depth_iff hoc l 1).symm

/-- **No symbol stands inside brackets** if every other symbol is after balanced stretches. -/
theorem inside_eq_zero_iff (hoc : o ≠ c) (l l' : List α) :
    inside o c (depth o c 0 l) l' = 0 ↔
      ∀ x a y, l' = x ++ a :: y → a ≠ o → a ≠ c → ¬ Open o c (l ++ x) := by
  induction l' generalizing l with
  | nil =>
    refine ⟨fun _ x a y h => ?_, fun _ => rfl⟩
    exact absurd (congrArg List.length h) (by simp)
  | cons a l' ih =>
    have hrest := ih (l ++ [a])
    rw [depth_append] at hrest
    rw [inside, Nat.add_eq_zero_iff]
    constructor
    · rintro ⟨hhead, htail⟩ x b y hsplit hbo hbc hopen
      cases x with
      | nil =>
        obtain ⟨rfl, rfl⟩ := List.cons.inj hsplit
        rw [List.append_nil, open_iff hoc] at hopen
        rw [if_pos ⟨hbo, hbc, hopen⟩] at hhead
        exact absurd hhead Nat.one_ne_zero
      | cons a' x =>
        obtain ⟨rfl, rfl⟩ := List.cons.inj hsplit
        refine hrest.mp htail x b y rfl hbo hbc ?_
        rwa [List.append_assoc]
    · intro h
      constructor
      · refine if_neg fun hin => h [] a l' rfl hin.1 hin.2.1 ?_
        rw [List.append_nil, open_iff hoc]
        exact hin.2.2
      · refine hrest.mpr fun x b y hsplit hbo hbc => ?_
        have hnot := h (a :: x) b y (congrArg (a :: ·) hsplit) hbo hbc
        rwa [List.append_assoc]

end Bi100.Nesting
