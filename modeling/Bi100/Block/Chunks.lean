import Bi100.Block.Table
import Mathlib.Tactic.Linarith

/-!
# Tokens in blocks

`chunk_list` and `_chunk_token_blocks_for_append` split tokens at the boundaries of blocks.

- `tokensIn`: how many of `n` tokens are in a block.
- `Aligned`: tokens that are appended after `n` others, block by block.
-/

namespace Bi100

variable {α : Type} {bs n i : Nat}

/-- How many of `n` tokens are in block `i`. -/
def tokensIn (blockSize n i : Nat) : Nat := min blockSize (n - i * blockSize)

/-! ## `cdiv` -/

theorem cdiv_le_iff (hpos : 0 < bs) {k : Nat} : cdiv n bs ≤ k ↔ n ≤ k * bs := by
  rw [cdiv, Nat.div_le_iff_le_mul_add_pred hpos, Nat.mul_comm bs k]
  omega

theorem cdiv_zero (hpos : 0 < bs) : cdiv 0 bs = 0 :=
  Nat.le_zero.mp ((cdiv_le_iff hpos).mpr (Nat.zero_le _))

theorem le_cdiv_mul (hpos : 0 < bs) : n ≤ cdiv n bs * bs := (cdiv_le_iff hpos).mp (Nat.le_refl _)

theorem cdiv_mono (hpos : 0 < bs) {m : Nat} (h : n ≤ m) : cdiv n bs ≤ cdiv m bs :=
  (cdiv_le_iff hpos).mpr (h.trans (le_cdiv_mul hpos))

theorem cdiv_add_mul (hpos : 0 < bs) (k : Nat) : cdiv (n + k * bs) bs = cdiv n bs + k := by
  rw [cdiv, cdiv, Nat.add_right_comm, Nat.sub_add_comm (by omega), Nat.add_mul_div_right _ _ hpos]

theorem cdiv_pos (hpos : 0 < bs) (h : 0 < n) : 0 < cdiv n bs := by
  rw [Nat.pos_iff_ne_zero]
  intro h0
  have := (cdiv_le_iff hpos).mp h0.le
  omega

theorem neg_ediv_eq (hpos : 0 < bs) : (-(n : Int)) / bs = -(cdiv n bs : Int) := by
  have hb : (0 : Int) < bs := Int.natCast_pos.mpr hpos
  refine Int.le_antisymm (Int.le_of_lt_add_one ?_) ?_
  · rw [Int.ediv_lt_iff_lt_mul hb]
    rcases Nat.eq_zero_or_pos (cdiv n bs) with h0 | h1
    · rw [h0]
      omega
    · have hlt : (cdiv n bs - 1) * bs < n := by
        by_contra hle
        have := (cdiv_le_iff hpos).mpr (Nat.le_of_not_lt hle)
        omega
      have hcast : ((cdiv n bs - 1 : Nat) : Int) * bs < n := by exact_mod_cast hlt
      rw [Int.ofNat_sub h1] at hcast
      push_cast at hcast
      linarith
  · rw [Int.le_ediv_iff_mul_le hb]
    have : (n : Int) ≤ cdiv n bs * bs := by exact_mod_cast le_cdiv_mul (n := n) hpos
    linarith

/-! ## `chunk_list` -/

theorem length_chunkList {l : List α} : (chunkList l bs).length = cdiv l.length bs := by
  rw [chunkList, List.length_map, List.length_range, cdiv]

theorem chunkList_nil (hpos : 0 < bs) : chunkList ([] : List α) bs = [] := by
  rw [← List.length_eq_zero_iff, length_chunkList, List.length_nil, cdiv_zero hpos]

theorem chunkList_cons (hpos : 0 < bs) {l : List α} (h : l ≠ []) :
    chunkList l bs = l.take bs :: chunkList (l.drop bs) bs := by
  have hlen : 0 < l.length := List.length_pos_iff.mpr h
  have hcount : cdiv l.length bs = cdiv (l.drop bs).length bs + 1 := by
    rw [List.length_drop]
    by_cases hle : l.length ≤ bs
    · rw [Nat.sub_eq_zero_of_le hle, cdiv_zero hpos]
      refine Nat.le_antisymm ((cdiv_le_iff hpos).mpr (by omega)) (cdiv_pos hpos hlen)
    · have := cdiv_add_mul (n := l.length - bs) hpos 1
      rw [← this]
      congr 1
      omega
  rw [cdiv, cdiv] at hcount
  rw [chunkList, hcount, List.range_succ_eq_map, List.map_cons, List.map_map, chunkList]
  congr 1
  · rw [Nat.zero_mul, List.drop_zero]
  · refine List.map_congr_left fun i _ => ?_
    rw [Function.comp_apply, List.drop_drop, Nat.succ_mul, Nat.add_comm]

theorem flatten_chunkList (hpos : 0 < bs) (l : List α) : (chunkList l bs).flatten = l := by
  induction hn : l.length using Nat.strong_induction_on generalizing l with
  | _ n ih =>
    by_cases h : l = []
    · rw [h, chunkList_nil hpos]
      rfl
    · have hlen : 0 < l.length := List.length_pos_iff.mpr h
      have hrest := ih (l.drop bs).length (by rw [List.length_drop]; omega) (l.drop bs) rfl
      rw [chunkList_cons hpos h, List.flatten_cons, hrest, List.take_append_drop]

/-- Every chunk but the last one is full. -/
theorem chunkList_split (hpos : 0 < bs) (l : List α) :
    (chunkList l bs).filter (·.length = bs) ++ (chunkList l bs).filter (·.length ≠ bs) =
      chunkList l bs ∧ ((chunkList l bs).filter (·.length ≠ bs)).length ≤ 1 := by
  induction hn : l.length using Nat.strong_induction_on generalizing l with
  | _ n ih =>
    by_cases h : l = []
    · rw [h, chunkList_nil hpos]
      simp
    · have hlen : 0 < l.length := List.length_pos_iff.mpr h
      rw [chunkList_cons hpos h]
      by_cases hle : bs ≤ l.length
      · obtain ⟨happ, hone⟩ := ih (l.drop bs).length (by rw [List.length_drop]; omega) (l.drop bs) rfl
        have hfull : (l.take bs).length = bs := by rw [List.length_take, Nat.min_eq_left hle]
        simp only [List.filter_cons, hfull, decide_true, if_true, ne_eq, not_true_eq_false,
          decide_false, Bool.false_eq_true, if_false, List.cons_append] at happ hone ⊢
        exact ⟨by rw [happ], hone⟩
      · have hdrop : l.drop bs = [] := List.drop_eq_nil_of_le (by omega)
        have hnot : (l.take bs).length ≠ bs := by
          rw [List.length_take]
          omega
        rw [hdrop, chunkList_nil hpos, List.filter_cons_of_neg (by simpa using hnot),
          List.filter_cons_of_pos (by simpa using hnot)]
        simp

theorem length_chunk {l c : List α} (h : (chunkList l bs)[i]? = some c) :
    c.length = tokensIn bs l.length i := by
  rw [chunkList, List.getElem?_map, Option.map_eq_some_iff] at h
  obtain ⟨j, hj, rfl⟩ := h
  obtain ⟨hlt, rfl⟩ := List.getElem?_eq_some_iff.mp hj
  rw [List.getElem_range, List.length_take, List.length_drop, tokensIn]

/-! ## Appending block by block -/

/-- Tokens that follow `n` others: each part is not empty and stays in its block, and each part but
the last one fills it. -/
def Aligned (blockSize : Nat) : Nat → List (List α) → Prop
  | _, [] => True
  | n, c :: rest => c ≠ [] ∧ n % blockSize + c.length ≤ blockSize ∧
      (rest ≠ [] → n % blockSize + c.length = blockSize) ∧ Aligned blockSize (n + c.length) rest

theorem aligned_chunkList (hpos : 0 < bs) (l : List α) (h : n % bs = 0) :
    Aligned bs n (chunkList l bs) := by
  induction hn : l.length using Nat.strong_induction_on generalizing l n with
  | _ k ih =>
    by_cases he : l = []
    · rw [he, chunkList_nil hpos]
      trivial
    · have hlen : 0 < l.length := List.length_pos_iff.mpr he
      rw [chunkList_cons hpos he]
      by_cases hle : bs ≤ l.length
      · have hfull : (l.take bs).length = bs := by rw [List.length_take, Nat.min_eq_left hle]
        refine ⟨?_, by rw [hfull, h]; omega, fun _ => by rw [hfull, h]; omega, ?_⟩
        · rw [ne_eq, ← List.length_eq_zero_iff, hfull]
          omega
        · rw [hfull]
          exact ih (l.drop bs).length (by rw [List.length_drop]; omega) (l.drop bs)
            (by rw [Nat.add_mod_right, h]) rfl
      · have hdrop : l.drop bs = [] := List.drop_eq_nil_of_le (by omega)
        rw [hdrop, chunkList_nil hpos, List.take_of_length_le (by omega)]
        exact ⟨he, by omega, fun hne => absurd rfl hne, trivial⟩

theorem aligned_chunkTokenBlocks {t : BlockTable} (hpos : 0 < t.blockSize) (tokens : List Nat) :
    Aligned t.blockSize t.numFullSlots (t.chunkTokenBlocksForAppend tokens) ∧
      (t.chunkTokenBlocksForAppend tokens).flatten = tokens := by
  have hmod := Nat.mod_lt t.numFullSlots hpos
  unfold BlockTable.chunkTokenBlocksForAppend
  split
  · next h =>
    rw [h]
    exact ⟨trivial, rfl⟩
  · next h =>
    have hlen : 0 < tokens.length := List.length_pos_iff.mpr h
    dsimp only
    refine ⟨⟨?_, ?_, fun hne => ?_, ?_⟩, ?_⟩
    · rw [ne_eq, ← List.length_eq_zero_iff, List.length_take]
      omega
    · rw [List.length_take]
      omega
    · rw [List.length_take]
      by_contra hlt
      refine hne ?_
      rw [List.drop_eq_nil_of_le (by omega), chunkList_nil hpos]
    · by_cases hle : t.blockSize - t.numFullSlots % t.blockSize ≤ tokens.length
      · refine aligned_chunkList hpos _ ?_
        rw [List.length_take, Nat.min_eq_left hle]
        have := Nat.div_add_mod t.numFullSlots t.blockSize
        have heq : t.numFullSlots + (t.blockSize - t.numFullSlots % t.blockSize) =
            t.blockSize * (t.numFullSlots / t.blockSize + 1) := by
          rw [Nat.mul_add, Nat.mul_one]
          omega
        rw [heq, Nat.mul_mod_right]
      · rw [List.drop_eq_nil_of_le (by omega), chunkList_nil hpos]
        trivial
    · rw [List.flatten_cons, flatten_chunkList hpos, List.take_append_drop]

/-- How many blocks the appended tokens are in. -/
theorem length_chunkTokenBlocks {t : BlockTable} (hpos : 0 < t.blockSize) {tokens : List Nat}
    (hne : tokens ≠ []) : (t.chunkTokenBlocksForAppend tokens).length =
      cdiv (t.numFullSlots % t.blockSize + tokens.length) t.blockSize := by
  have hmod := Nat.mod_lt t.numFullSlots hpos
  have hlen : 0 < tokens.length := List.length_pos_iff.mpr hne
  rw [BlockTable.chunkTokenBlocksForAppend, if_neg hne]
  dsimp only
  rw [List.length_cons, length_chunkList, List.length_drop]
  by_cases hle : t.blockSize - t.numFullSlots % t.blockSize ≤ tokens.length
  · rw [← cdiv_add_mul hpos 1]
    congr 1
    omega
  · rw [Nat.sub_eq_zero_of_le (by omega), cdiv_zero hpos, Nat.zero_add]
    have := cdiv_pos (n := t.numFullSlots % t.blockSize + tokens.length) hpos (by omega)
    have := cdiv_mono (n := t.numFullSlots % t.blockSize + tokens.length) (m := t.blockSize) hpos
      (by omega)
    have hself := cdiv_add_mul (n := 0) hpos 1
    rw [Nat.zero_add, Nat.one_mul, cdiv_zero hpos] at hself
    omega

theorem length_chunkTokenBlocks_le {t : BlockTable} (hpos : 0 < t.blockSize) (tokens : List Nat) :
    (t.chunkTokenBlocksForAppend tokens).length ≤
      cdiv (t.numFullSlots % t.blockSize + tokens.length) t.blockSize := by
  by_cases hne : tokens = []
  · rw [BlockTable.chunkTokenBlocksForAppend, if_pos hne]
    exact Nat.zero_le _
  · exact Nat.le_of_eq (length_chunkTokenBlocks hpos hne)

end Bi100
