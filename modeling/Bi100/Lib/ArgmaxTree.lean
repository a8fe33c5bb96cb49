import Bi100.Lib.BlockReduce
import Bi100.Lib.Selection
import Mathlib.Data.Nat.Bitwise

/-!
# Argmax of a block

Two ways to find the largest of `2 ^ k` values.

- `treeRounds_pick`: a tree that keeps the lower position on a tie finds, among the largest values,
  the position with the smallest bit-reversed index.
- `butterfly_eq`: exchanges across a warp give every lane what the tree gives lane `0`, when the
  operation is commutative.
- `treeRounds_best`: a tree of an operation that keeps the better of two.
- `foldl_round`: the threads of a round in any order.
-/

namespace Bi100.BlockReduce

open Selection

variable {α K : Type} {op : α → α → α} {k i j : Nat}

/-! ## The threads of a round -/

/-- The threads of a round, in some order. -/
def orderedRound (op : α → α → α) (stride : Nat) (order : List Nat) (r : Nat → α) : Nat → α :=
  order.foldl (fun r t => if t < stride then Function.update r t (op (r t) (r (t + stride))) else r) r

/-- A thread reads what no other thread writes. -/
theorem foldl_round {stride : Nat} {order : List Nat} (hnodup : order.Nodup) (r : Nat → α) :
    orderedRound op stride order r =
      fun t => if t < stride ∧ t ∈ order then op (r t) (r (t + stride)) else r t := by
  unfold orderedRound
  induction order generalizing r with
  | nil => funext t; simp
  | cons u order ih =>
    obtain ⟨hu, hnodup⟩ := List.nodup_cons.mp hnodup
    rw [List.foldl_cons, ih hnodup]
    funext t
    by_cases hlt : u < stride
    · rw [if_pos hlt]
      have hpartner : t + stride ≠ u := by omega
      rw [Function.update_of_ne hpartner]
      by_cases htu : t = u
      · subst htu
        simp [hu, hlt]
      · rw [Function.update_of_ne htu]
        simp [htu]
    · rw [if_neg hlt]
      have hiff : t < stride ∧ t ∈ order ↔ t < stride ∧ t ∈ u :: order := by
        rw [List.mem_cons]
        constructor
        · exact fun ⟨ht, hmem⟩ => ⟨ht, .inr hmem⟩
        · rintro ⟨ht, rfl | hmem⟩
          · exact absurd ht hlt
          · exact ⟨ht, hmem⟩
      simp only [hiff]

theorem orderedRound_eq {stride n : Nat} {order : List Nat} (horder : order.Perm (List.range n))
    (hn : stride ≤ n) (r : Nat → α) : orderedRound op stride order r = treeRound op stride r := by
  rw [foldl_round (horder.nodup_iff.mpr List.nodup_range)]
  funext t
  have hmem : t < stride ∧ t ∈ order ↔ t < stride := by
    rw [horder.mem_iff, List.mem_range]
    exact and_iff_left_of_imp fun ht => ht.trans_le hn
  unfold treeRound
  simp only [hmem]

/-- The rounds with the strides `2 ^ (k - 1), …, 1`, each with an order of the threads. -/
def orderedRounds (op : α → α → α) : Nat → (Nat → List Nat) → (Nat → α) → Nat → α
  | 0, _, r => r
  | k + 1, order, r => orderedRounds op k order (orderedRound op (2 ^ k) (order k) r)

theorem orderedRounds_eq {n : Nat} {order : Nat → List Nat}
    (horder : ∀ k, (order k).Perm (List.range n)) (hn : 2 ^ k ≤ n) (r : Nat → α) :
    orderedRounds op k order r 0 = treeRounds op k r 0 := by
  induction k generalizing r with
  | zero => rfl
  | succ k ih =>
    have hn' : 2 ^ k ≤ n := (Nat.pow_le_pow_right (by decide) (Nat.le_succ k)).trans hn
    rw [orderedRounds, orderedRound_eq (horder k) hn', ih hn', treeRounds]

/-! ## The tree -/

theorem treeRounds_induction {p : α → Prop} (hop : ∀ a b, p a → p b → p (op a b)) (k : Nat)
    {r : Nat → α} (h : ∀ i < 2 ^ k, p (r i)) : p (treeRounds op k r 0) := by
  induction k generalizing r with
  | zero => exact h 0 Nat.one_pos
  | succ k ih =>
    have hpow : 2 ^ (k + 1) = 2 ^ k + 2 ^ k := by rw [Nat.pow_succ, Nat.mul_two]
    refine ih fun i hi => ?_
    rw [treeRound, if_pos hi]
    exact hop _ _ (h i (by omega)) (h (i + 2 ^ k) (by omega))

/-- The better of two, in a preorder. -/
structure Keeps (op : α → α → α) (le : α → α → Prop) : Prop where
  refl : ∀ a, le a a
  trans : ∀ a b c, le a b → le b c → le a c
  or : ∀ a b, op a b = a ∨ op a b = b
  left : ∀ a b, le a (op a b)
  right : ∀ a b, le b (op a b)

theorem treeRounds_best {le : α → α → Prop} (hop : Keeps op le) (k : Nat) (r : Nat → α) :
    ∃ i < 2 ^ k, treeRounds op k r 0 = r i ∧ ∀ j < 2 ^ k, le (r j) (r i) := by
  induction k generalizing r with
  | zero =>
    refine ⟨0, Nat.one_pos, rfl, fun j hj => ?_⟩
    obtain rfl : j = 0 := Nat.lt_one_iff.mp hj
    exact hop.refl _
  | succ k ih =>
    obtain ⟨i, hi, heq, hbest⟩ := ih (treeRound op (2 ^ k) r)
    have hround : ∀ j < 2 ^ k, treeRound op (2 ^ k) r j = op (r j) (r (j + 2 ^ k)) :=
      fun j hj => if_pos hj
    have hpow : 2 ^ (k + 1) = 2 ^ k + 2 ^ k := by rw [Nat.pow_succ, Nat.mul_two]
    have hall : ∀ j < 2 ^ (k + 1), le (r j) (treeRound op (2 ^ k) r i) := by
      intro j hj
      rcases Nat.lt_or_ge j (2 ^ k) with hlt | hge
      · have h := hbest j hlt
        rw [hround j hlt] at h
        exact hop.trans _ _ _ (hop.left _ _) h
      · have hlt : j - 2 ^ k < 2 ^ k := by omega
        have h := hbest _ hlt
        rw [hround _ hlt, Nat.sub_add_cancel hge] at h
        exact hop.trans _ _ _ (hop.right _ _) h
    rw [treeRounds, heq]
    rw [hround i hi] at hall ⊢
    rcases hop.or (r i) (r (i + 2 ^ k)) with hl | hr
    · rw [hl] at hall ⊢
      exact ⟨i, by omega, rfl, hall⟩
    · rw [hr] at hall ⊢
      exact ⟨i + 2 ^ k, by omega, rfl, hall⟩

/-! ## Ties of the tree -/

/-- The lowest `k` bits, in the other order. -/
def bitReverse : Nat → Nat → Nat
  | 0, _ => 0
  | k + 1, i => 2 * bitReverse k (i % 2 ^ k) + i / 2 ^ k

theorem bitReverse_low (h : i < 2 ^ k) : bitReverse (k + 1) i = 2 * bitReverse k i := by
  rw [bitReverse, Nat.mod_eq_of_lt h, Nat.div_eq_of_lt h, Nat.add_zero]

theorem bitReverse_high (h : i < 2 ^ k) :
    bitReverse (k + 1) (i + 2 ^ k) = 2 * bitReverse k i + 1 := by
  have hpos := Nat.two_pow_pos k
  rw [bitReverse, Nat.add_mod_right, Nat.mod_eq_of_lt h, Nat.add_div_right _ hpos,
    Nat.div_eq_of_lt h]

/-- The larger of two values; the first one on a tie. -/
def pick [LinearOrder K] {ι : Type} (x y : K × ι) : K × ι := if x.1 < y.1 then y else x

section Pick

variable [LinearOrder K] {ι : Type}

/-- **Ties go to the smallest bit-reversed position.** -/
theorem treeRounds_pick (k : Nat) (r : Nat → K × ι) :
    ∃ i < 2 ^ k, treeRounds pick k r 0 = r i ∧
      ∀ j < 2 ^ k, j ≠ i → Ahead (fun j => (r j).1) (bitReverse k) i j := by
  induction k generalizing r with
  | zero =>
    refine ⟨0, Nat.one_pos, rfl, fun j hj hne => ?_⟩
    exact absurd (Nat.lt_one_iff.mp hj) hne
  | succ k ih =>
    obtain ⟨i, hi, heq, hbest⟩ := ih (treeRound pick (2 ^ k) r)
    have hpow : 2 ^ (k + 1) = 2 ^ k + 2 ^ k := by rw [Nat.pow_succ, Nat.mul_two]
    have hround : ∀ j < 2 ^ k, treeRound pick (2 ^ k) r j = pick (r j) (r (j + 2 ^ k)) :=
      fun j hj => if_pos hj
    -- The value of a pair.
    have hpair : ∀ j < 2 ^ k, (r j).1 ≤ (treeRound pick (2 ^ k) r j).1 ∧
        (r (j + 2 ^ k)).1 ≤ (treeRound pick (2 ^ k) r j).1 := by
      intro j hj
      rw [hround j hj, pick]
      split
      · next hlt => exact ⟨hlt.le, le_refl _⟩
      · next hge => exact ⟨le_refl _, not_lt.mp hge⟩
    -- A position of another pair.
    have hother : ∀ p c j', j' < 2 ^ k → j' ≠ i → (r p).1 = (treeRound pick (2 ^ k) r i).1 →
        bitReverse (k + 1) p ≤ 2 * bitReverse k i + 1 →
        (r c).1 ≤ (treeRound pick (2 ^ k) r j').1 → 2 * bitReverse k j' ≤ bitReverse (k + 1) c →
        Ahead (fun j => (r j).1) (bitReverse (k + 1)) p c := by
      intro p c j' hj' hne hp hrank hc hrank'
      rcases hbest j' hj' hne with hlt | ⟨htie, hrev⟩
      · exact .inl (hc.trans_lt (hlt.trans_eq hp.symm))
      · rcases hc.lt_or_eq with hlt | hceq
        · exact .inl (hlt.trans_eq (htie.symm.trans hp.symm))
        · exact .inr ⟨hp.trans (htie.trans hceq.symm), by omega⟩
    rw [treeRounds, heq, hround i hi, pick]
    split
    · next hlt =>
      have hvalue : (r (i + 2 ^ k)).1 = (treeRound pick (2 ^ k) r i).1 := by
        rw [hround i hi, pick, if_pos hlt]
      refine ⟨i + 2 ^ k, by omega, rfl, fun j hj hne => ?_⟩
      rcases Nat.lt_or_ge j (2 ^ k) with hlow | hhigh
      · by_cases hji : j = i
        · exact .inl (hji ▸ hlt)
        · exact hother _ j j hlow hji hvalue (bitReverse_high hi).le (hpair j hlow).1
            (bitReverse_low hlow).ge
      · obtain ⟨j, rfl⟩ := Nat.exists_eq_add_of_le' hhigh
        have hlow : j < 2 ^ k := by omega
        exact hother _ _ j hlow (fun hji => hne (hji ▸ rfl)) hvalue (bitReverse_high hi).le
          (hpair j hlow).2 (by rw [bitReverse_high hlow]; omega)
    · next hge =>
      have hvalue : (r i).1 = (treeRound pick (2 ^ k) r i).1 := by
        rw [hround i hi, pick, if_neg hge]
      have hrank : bitReverse (k + 1) i ≤ 2 * bitReverse k i + 1 := by
        rw [bitReverse_low hi]
        omega
      refine ⟨i, by omega, rfl, fun j hj hne => ?_⟩
      rcases Nat.lt_or_ge j (2 ^ k) with hlow | hhigh
      · exact hother i j j hlow hne hvalue hrank (hpair j hlow).1 (bitReverse_low hlow).ge
      · obtain ⟨j, rfl⟩ := Nat.exists_eq_add_of_le' hhigh
        have hlow : j < 2 ^ k := by omega
        by_cases hji : j = i
        · subst hji
          rcases (not_lt.mp hge).lt_or_eq with hlt | htie
          · exact .inl hlt
          · refine .inr ⟨htie.symm, ?_⟩
            rw [bitReverse_low hi, bitReverse_high hi]
            omega
        · exact hother i _ j hlow hji hvalue hrank (hpair j hlow).2
            (by rw [bitReverse_high hlow]; omega)

end Pick

/-! ## The butterfly -/

/-- `op(x, __shfl_xor_sync(x, mask))` in every lane. -/
def shuffleRound (op : α → α → α) (mask : Nat) (r : Nat → α) : Nat → α := fun lane =>
  op (r lane) (r (lane ^^^ mask))

/-- The rounds with the masks `2 ^ (k - 1), …, 1`. -/
def butterfly (op : α → α → α) : Nat → (Nat → α) → Nat → α
  | 0, r => r
  | k + 1, r => butterfly op k (shuffleRound op (2 ^ k) r)

theorem xor_low (h : i < 2 ^ k) : i ^^^ 2 ^ k = i + 2 ^ k := by
  have hpos := Nat.two_pow_pos k
  have hdiv : (i ^^^ 2 ^ k) / 2 ^ k = 1 := by
    rw [Nat.xor_div_two_pow, Nat.div_eq_of_lt h, Nat.div_self hpos]
    rfl
  have hmod : (i ^^^ 2 ^ k) % 2 ^ k = i := by
    rw [Nat.xor_mod_two_pow, Nat.mod_eq_of_lt h, Nat.mod_self, Nat.xor_zero]
  have hsplit := Nat.div_add_mod (i ^^^ 2 ^ k) (2 ^ k)
  rw [hdiv, hmod] at hsplit
  omega

theorem xor_high (h : i < 2 ^ k) : (i + 2 ^ k) ^^^ 2 ^ k = i := by
  rw [← xor_low h, Nat.xor_assoc, Nat.xor_self, Nat.xor_zero]

theorem xor_shift (hi : i < 2 ^ k) (hj : j < 2 ^ k) : (i + 2 ^ k) ^^^ j = (i ^^^ j) + 2 ^ k := by
  rw [← xor_low hi, ← xor_low (Nat.xor_lt_two_pow hi hj), Nat.xor_assoc, Nat.xor_comm _ j,
    Nat.xor_assoc]

/-- The lanes below `2 ^ m` exchange with each other. -/
theorem butterfly_congr {m : Nat} (hm : k ≤ m) {r r' : Nat → α} (h : ∀ j < 2 ^ m, r j = r' j)
    (hi : i < 2 ^ m) : butterfly op k r i = butterfly op k r' i := by
  induction k generalizing r r' with
  | zero => exact h i hi
  | succ k ih =>
    refine ih (Nat.le_of_succ_le hm) fun j hj => ?_
    have hmask : 2 ^ k < 2 ^ m := Nat.pow_lt_pow_right Nat.one_lt_two hm
    unfold shuffleRound
    rw [h j hj, h _ (Nat.xor_lt_two_pow hj hmask)]

/-- So do the lanes above. -/
theorem butterfly_shift {m : Nat} (hm : k ≤ m) (r : Nat → α) (hi : i < 2 ^ m) :
    butterfly op k r (i + 2 ^ m) = butterfly op k (fun j => r (j + 2 ^ m)) i := by
  induction k generalizing r with
  | zero => rfl
  | succ k ih =>
    have hmask : 2 ^ k < 2 ^ m := Nat.pow_lt_pow_right Nat.one_lt_two hm
    refine (ih (Nat.le_of_succ_le hm) _).trans ?_
    refine butterfly_congr (Nat.le_of_succ_le hm) (fun j hj => ?_) hi
    unfold shuffleRound
    rw [xor_shift hj hmask]

/-- **Every lane gets the result of the tree.** -/
theorem butterfly_eq (hcomm : ∀ a b, op a b = op b a) (k : Nat) (r : Nat → α) (hi : i < 2 ^ k) :
    butterfly op k r i = treeRounds op k r 0 := by
  induction k generalizing r i with
  | zero =>
    obtain rfl : i = 0 := Nat.lt_one_iff.mp hi
    rfl
  | succ k ih =>
    rw [butterfly, treeRounds]
    rcases Nat.lt_or_ge i (2 ^ k) with hlow | hhigh
    · rw [← ih _ hlow]
      refine butterfly_congr (Nat.le_refl k) (fun j hj => ?_) hlow
      rw [shuffleRound, treeRound, if_pos hj, xor_low hj]
    · obtain ⟨i, rfl⟩ := Nat.exists_eq_add_of_le' hhigh
      have hlow : i < 2 ^ k := by
        rw [Nat.pow_succ, Nat.mul_two] at hi
        omega
      rw [butterfly_shift (Nat.le_refl k) _ hlow, ← ih _ hlow]
      refine butterfly_congr (Nat.le_refl k) (fun j hj => ?_) hlow
      rw [shuffleRound, treeRound, if_pos hj, xor_high hj, hcomm]

end Bi100.BlockReduce
