import Bi100.Lib.BlockReduce
import Bi100.Lib.ExpField
import Bi100.Lib.Slices
import Mathlib.Algebra.BigOperators.Group.List.Basic
import Mathlib.Algebra.BigOperators.Ring.List
import Mathlib.Algebra.Order.Ring.Defs
import Mathlib.Order.WithBot

/-!
# Online softmax

The softmax-weighted average of values, computed tile by tile from a running maximum, a running sum
and a running output. A masked score is `⊥`.

- `Summarizes`: what the running values say about the entries that have been seen.
- `Summarizes.update`: a tile is added, unless everything up to it is masked.
- `Summarizes.average`: the quotient at the end, whatever the tiles were.
-/

namespace Bi100

/-- An ordered field with a positive exponential. -/
class OrderedExpField (K : Type) extends ExpField K, LinearOrder K where
  ordered : IsStrictOrderedRing K
  exp_pos : ∀ a : K, 0 < exp a

attribute [instance] OrderedExpField.ordered

noncomputable instance : OrderedExpField ℝ where
  ordered := inferInstance
  exp_pos := Real.exp_pos

namespace OnlineSoftmax

open ExpField

variable {K : Type} [OrderedExpField K] {ι : Type}

/-- A score and a value. -/
abbrev Entry (K ι : Type) := WithBot K × (ι → K)

/-- The exponential of a score minus a maximum. -/
def weight (M : K) : WithBot K → K
  | ⊥ => 0
  | (a : K) => exp (a - M)

/-- The sum of the weights. -/
def total (M : K) (entries : List (Entry K ι)) : K := (entries.map fun e => weight M e.1).sum

/-- The weighted sum of the values. -/
def totalOut (M : K) (entries : List (Entry K ι)) (c : ι) : K :=
  (entries.map fun e => weight M e.1 * e.2 c).sum

/-- The softmax-weighted average of the values. -/
def average (entries : List (Entry K ι)) (c : ι) : K := totalOut 0 entries c / total 0 entries

structure Running (K ι : Type) where
  max : WithBot K
  sum : K
  out : ι → K

def Running.init : Running K ι := ⟨⊥, 0, fun _ => 0⟩

def tileMax (entries : List (Entry K ι)) : WithBot K :=
  entries.foldr (fun e m => max e.1 m) ⊥

/-- The running values for a new maximum. -/
def Running.rescale (r : Running K ι) (M : K) (tile : List (Entry K ι)) : Running K ι where
  max := M
  sum := r.sum * weight M r.max + total M tile
  out := fun c => r.out c * weight M r.max + totalOut M tile c

/-- Add a tile; there is no result if everything is masked. -/
def update (r : Running K ι) (tile : List (Entry K ι)) : Option (Running K ι) :=
  match max r.max (tileMax tile) with
  | ⊥ => none
  | (M : K) => some (r.rescale M tile)

/-! ## Weights -/

theorem weight_shift (M M' : K) (s : WithBot K) : weight M' s = weight M s * exp (M - M') := by
  cases s with
  | bot => exact (zero_mul _).symm
  | coe a =>
    show exp (a - M') = exp (a - M) * exp (M - M')
    rw [← exp_add]
    congr 1
    ring

theorem total_shift (M M' : K) (entries : List (Entry K ι)) :
    total M' entries = total M entries * exp (M - M') := by
  unfold total
  rw [← List.sum_map_mul_right]
  exact congrArg List.sum (List.map_congr_left fun e _ => weight_shift M M' e.1)

theorem totalOut_shift (M M' : K) (entries : List (Entry K ι)) (c : ι) :
    totalOut M' entries c = totalOut M entries c * exp (M - M') := by
  unfold totalOut
  rw [← List.sum_map_mul_right]
  refine congrArg List.sum (List.map_congr_left fun e _ => ?_)
  rw [weight_shift M M']
  ring

theorem total_append (M : K) (l₁ l₂ : List (Entry K ι)) :
    total M (l₁ ++ l₂) = total M l₁ + total M l₂ := by
  rw [total, List.map_append, List.sum_append]
  rfl

theorem totalOut_append (M : K) (l₁ l₂ : List (Entry K ι)) (c : ι) :
    totalOut M (l₁ ++ l₂) c = totalOut M l₁ c + totalOut M l₂ c := by
  rw [totalOut, List.map_append, List.sum_append]
  rfl

theorem weight_nonneg (M : K) (s : WithBot K) : 0 ≤ weight M s := by
  cases s with
  | bot => exact le_refl 0
  | coe a => exact (OrderedExpField.exp_pos _).le

/-- Some score is not masked. -/
def Visible (entries : List (Entry K ι)) : Prop := ∃ e ∈ entries, e.1 ≠ ⊥

theorem total_pos {entries : List (Entry K ι)} (h : Visible entries) (M : K) :
    0 < total M entries := by
  obtain ⟨e, he, hs⟩ := h
  obtain ⟨l₁, l₂, rfl⟩ := List.append_of_mem he
  have hnonneg : ∀ l : List (Entry K ι), 0 ≤ total M l := fun l =>
    List.sum_nonneg fun x hx => by
      obtain ⟨e, -, rfl⟩ := List.mem_map.mp hx
      exact weight_nonneg M e.1
  have hpos : 0 < weight M e.1 := by
    obtain ⟨a, ha⟩ := WithBot.ne_bot_iff_exists.mp hs
    rw [← ha]
    exact OrderedExpField.exp_pos _
  rw [total_append]
  show 0 < total M l₁ + (weight M e.1 + total M l₂)
  have h₁ := hnonneg l₁
  have h₂ := hnonneg l₂
  linarith

theorem total_of_masked {entries : List (Entry K ι)} (h : ¬ Visible entries) (M : K) :
    total M entries = 0 := by
  refine List.sum_eq_zero fun x hx => ?_
  obtain ⟨e, he, rfl⟩ := List.mem_map.mp hx
  have hbot : e.1 = ⊥ := by
    by_contra hs
    exact h ⟨e, he, hs⟩
  rw [hbot]
  rfl

theorem totalOut_of_masked {entries : List (Entry K ι)} (h : ¬ Visible entries) (M : K) (c : ι) :
    totalOut M entries c = 0 := by
  refine List.sum_eq_zero fun x hx => ?_
  obtain ⟨e, he, rfl⟩ := List.mem_map.mp hx
  have hbot : e.1 = ⊥ := by
    by_contra hs
    exact h ⟨e, he, hs⟩
  rw [hbot]
  exact zero_mul _

theorem visible_append {l₁ l₂ : List (Entry K ι)} :
    Visible (l₁ ++ l₂) ↔ Visible l₁ ∨ Visible l₂ := by
  simp only [Visible, List.mem_append, or_and_right, exists_or]

theorem tileMax_eq_bot {entries : List (Entry K ι)} : tileMax entries = ⊥ ↔ ¬ Visible entries := by
  induction entries with
  | nil => simp [tileMax, Visible]
  | cons e rest ih =>
    show max e.1 (tileMax rest) = ⊥ ↔ _
    rw [max_eq_bot, ih]
    simp [Visible]

/-! ## Running values -/

/-- The running values of the entries that have been seen. The sum and the output are compared for
every maximum `M`, so they say nothing while everything is masked. -/
structure Summarizes (seen : List (Entry K ι)) (r : Running K ι) : Prop where
  visible : r.max ≠ ⊥ ↔ Visible seen
  sum : ∀ M, r.sum * weight M r.max = total M seen
  out : ∀ M c, r.out c * weight M r.max = totalOut M seen c

theorem Summarizes.init : Summarizes ([] : List (Entry K ι)) Running.init where
  visible := by simp [Running.init, Visible]
  sum M := zero_mul _
  out M c := zero_mul _

theorem Summarizes.rescale {seen tile : List (Entry K ι)} {r : Running K ι} {M : K}
    (h : Summarizes seen r) (hmax : max r.max (tileMax tile) = M) :
    Summarizes (seen ++ tile) (r.rescale M tile) where
  visible := by
    refine iff_of_true WithBot.coe_ne_bot ?_
    rw [visible_append, ← h.visible, ← not_not (a := Visible tile), ← tileMax_eq_bot]
    by_contra hnone
    rw [not_or, not_not, not_not] at hnone
    rw [hnone.1, hnone.2, max_self] at hmax
    exact WithBot.bot_ne_coe hmax
  sum M' := by
    show (r.sum * weight M r.max + total M tile) * exp (M - M') = _
    rw [h.sum, ← total_append, ← total_shift]
  out M' c := by
    show (r.out c * weight M r.max + totalOut M tile c) * exp (M - M') = _
    rw [h.out, ← totalOut_append, ← totalOut_shift]

/-- A tile is added, unless everything up to it is masked. -/
theorem Summarizes.update {seen tile : List (Entry K ι)} {r : Running K ι}
    (h : Summarizes seen r) (hv : Visible (seen ++ tile)) :
    ∃ r', update r tile = some r' ∧ Summarizes (seen ++ tile) r' := by
  cases hmax : max r.max (tileMax tile) with
  | bot =>
    obtain ⟨hr, ht⟩ := max_eq_bot.mp hmax
    rcases visible_append.mp hv with hs | hs
    · exact absurd hr (h.visible.mpr hs)
    · exact absurd hs (tileMax_eq_bot.mp ht)
  | coe M =>
    refine ⟨r.rescale M tile, ?_, h.rescale hmax⟩
    unfold OnlineSoftmax.update
    rw [hmax]

/-- All tiles, if the first one leaves something visible. -/
theorem Summarizes.foldl {seen : List (Entry K ι)} {r : Running K ι} {tiles : List (List (Entry K ι))}
    (h : Summarizes seen r) (hv : ∀ t ∈ tiles.head?, Visible (seen ++ t)) :
    ∃ r', tiles.foldl (fun running t => running.bind (OnlineSoftmax.update · t)) (some r) = some r' ∧
      Summarizes (seen ++ tiles.flatten) r' := by
  induction tiles generalizing seen r with
  | nil => exact ⟨r, rfl, (List.append_nil seen).symm ▸ h⟩
  | cons t rest ih =>
    have hvis := hv t rfl
    obtain ⟨r₁, hr₁, h₁⟩ := h.update hvis
    obtain ⟨r₂, hr₂, h₂⟩ := ih h₁ fun t' _ => visible_append.mpr (.inl hvis)
    refine ⟨r₂, ?_, ?_⟩
    · rw [List.foldl_cons, Option.bind_some, hr₁, hr₂]
    · rw [List.flatten_cons, ← List.append_assoc]
      exact h₂

/-- The tiles of a list, if nothing is hidden at its start. -/
theorem Summarizes.tiles {seen : List (Entry K ι)} {r : Running K ι} {size : Nat}
    (h : Summarizes seen r) (hsize : 0 < size) (entries : List (Entry K ι))
    (hv : Visible seen ∨ ∀ e ∈ entries.head?, e.1 ≠ ⊥) :
    ∃ r', ((List.range ((entries.length + size - 1) / size)).map fun i =>
        slice entries (i * size) (min (i * size + size) entries.length)).foldl
          (fun running t => running.bind (OnlineSoftmax.update · t)) (some r) = some r' ∧
      Summarizes (seen ++ entries) r' := by
  have hflat := flatMap_tiles entries hsize
  rw [List.flatMap_def] at hflat
  conv in seen ++ entries => rw [← hflat]
  refine h.foldl fun t ht => visible_append.mpr ?_
  rw [List.head?_map, Option.mem_def, Option.map_eq_some_iff] at ht
  obtain ⟨i, hi, rfl⟩ := ht
  refine hv.imp_right fun hhead => ?_
  cases entries with
  | nil =>
    rw [List.length_nil, Nat.zero_add, Nat.div_eq_of_lt (by omega)] at hi
    cases hi
  | cons e rest =>
    obtain rfl : i = 0 := by
      rw [List.head?_range] at hi
      split at hi
      · cases hi
      · exact (Option.some.inj hi).symm
    have hget : (slice (e :: rest) (0 * size) (min (0 * size + size) (rest.length + 1)))[0]? =
        some e := by
      rw [getElem?_slice, if_pos (by omega), Nat.zero_mul]
      rfl
    exact ⟨e, List.mem_of_getElem? hget, hhead e rfl⟩

/-- The sum at the end. -/
theorem Summarizes.sum_pos {seen : List (Entry K ι)} {r : Running K ι} (h : Summarizes seen r)
    (hv : Visible seen) : 0 < r.sum := by
  obtain ⟨M, hM⟩ := WithBot.ne_bot_iff_exists.mp (h.visible.mpr hv)
  have hsum := h.sum M
  rw [← hM] at hsum
  have hone : weight M (M : WithBot K) = 1 := (congrArg exp (sub_self M)).trans exp_zero
  rw [hone, mul_one] at hsum
  rw [hsum]
  exact total_pos hv M

/-- The quotient at the end. -/
theorem Summarizes.average {seen : List (Entry K ι)} {r : Running K ι} (h : Summarizes seen r)
    (hv : Visible seen) (c : ι) : r.out c / r.sum = average seen c := by
  obtain ⟨M, hM⟩ := WithBot.ne_bot_iff_exists.mp (h.visible.mpr hv)
  have hone : weight M (M : WithBot K) = 1 := (congrArg exp (sub_self M)).trans exp_zero
  have hsum := h.sum M
  have hout := h.out M c
  rw [← hM, hone, mul_one] at hsum hout
  rw [hsum, hout, OnlineSoftmax.average, total_shift M 0, totalOut_shift M 0,
    mul_div_mul_right _ _ (OrderedExpField.exp_pos _).ne']

/-- The entries after `row` are masked. -/
def maskAfter (row : Nat) (entries : List (Entry K ι)) : List (Entry K ι) :=
  entries.mapIdx fun j e => if row < j then (⊥, e.2) else e

theorem maskAfter_split (row : Nat) (entries : List (Entry K ι)) : ∃ masked,
    maskAfter row entries = entries.take (row + 1) ++ masked ∧ ¬ Visible masked := by
  refine ⟨(entries.drop (row + 1)).map fun e => (⊥, e.2), List.ext_getElem? fun j => ?_, ?_⟩
  · rw [maskAfter, List.getElem?_mapIdx, List.getElem?_append, List.length_take, List.getElem?_map,
      List.getElem?_drop]
    by_cases hj : j < entries.length
    · rw [List.getElem?_eq_getElem hj]
      by_cases hrow : row < j
      · have hidx : row + 1 + (j - min (row + 1) entries.length) = j := by omega
        rw [if_neg (by omega), hidx, List.getElem?_eq_getElem hj]
        exact congrArg some (if_pos hrow)
      · rw [if_pos (by omega), List.getElem?_take_of_lt (by omega), List.getElem?_eq_getElem hj]
        exact congrArg some (if_neg hrow)
    · rw [List.getElem?_eq_none (by omega), if_neg (by omega), List.getElem?_eq_none (by omega)]
      rfl
  · rintro ⟨e, he, hne⟩
    obtain ⟨e', -, rfl⟩ := List.mem_map.mp he
    exact hne rfl

/-- Masked entries do not matter. -/
theorem average_append_masked {entries masked : List (Entry K ι)} (h : ¬ Visible masked) (c : ι) :
    OnlineSoftmax.average (entries ++ masked) c = OnlineSoftmax.average entries c := by
  rw [OnlineSoftmax.average, total_append, totalOut_append, total_of_masked h,
    totalOut_of_masked h, add_zero, add_zero]
  rfl

/-! ## Tiles that may be masked -/

/-- The weight for a maximum that may be `⊥`. -/
def weightAt (M s : WithBot K) : K :=
  match M with
  | ⊥ => 0
  | (M : K) => weight M s

/-- The correction for a new maximum, `c` if everything is masked so far. -/
def correctionAt (c : K) (M old : WithBot K) : K :=
  match M with
  | ⊥ => c
  | (M : K) => weight M old

/-- Add a tile, which may be masked. -/
def advance (c : K) (r : Running K ι) (tile : List (Entry K ι)) : Running K ι :=
  let M := max r.max (tileMax tile)
  { max := M
    sum := r.sum * correctionAt c M r.max + (tile.map fun e => weightAt M e.1).sum
    out := fun i => r.out i * correctionAt c M r.max +
      (tile.map fun e => weightAt M e.1 * e.2 i).sum }

theorem tileMax_range (tile : Nat → Entry K ι) (w : Nat) :
    tileMax ((List.range w).map tile) = BlockReduce.fold max ⊥ (fun j => (tile j).1) w := by
  have happend : ∀ (l : List (Entry K ι)) (e : Entry K ι),
      tileMax (l ++ [e]) = max (tileMax l) e.1 := by
    intro l e
    induction l with
    | nil => exact max_comm _ _
    | cons x l ih =>
      show max x.1 (tileMax (l ++ [e])) = max (max x.1 (tileMax l)) e.1
      rw [ih, max_assoc]
  induction w with
  | zero => rfl
  | succ w ih => rw [List.range_succ, List.map_append, List.map_singleton, happend, ih, BlockReduce.fold]

/-- A tile that is given by index. -/
theorem advance_range (c : K) (r : Running K ι) (tile : Nat → Entry K ι) (w : Nat) {M : WithBot K}
    (hM : max r.max (BlockReduce.fold max ⊥ (fun j => (tile j).1) w) = M) :
    advance c r ((List.range w).map tile) = {
      max := M
      sum := r.sum * correctionAt c M r.max +
        BlockReduce.fold (· + ·) 0 (fun j => weightAt M (tile j).1) w
      out := fun i => r.out i * correctionAt c M r.max +
        BlockReduce.fold (· + ·) 0 (fun j => weightAt M (tile j).1 * (tile j).2 i) w } := by
  unfold advance
  rw [tileMax_range, hM]
  simp only [List.map_map, BlockReduce.sum_range_map]
  rfl

theorem Summarizes.advance {seen tile : List (Entry K ι)} {r : Running K ι} (h : Summarizes seen r)
    (c : K) : Summarizes (seen ++ tile) (OnlineSoftmax.advance c r tile) := by
  cases hmax : max r.max (tileMax tile) with
  | coe M =>
    have hadvance : OnlineSoftmax.advance c r tile = r.rescale M tile := by
      unfold OnlineSoftmax.advance
      rw [hmax]
      rfl
    rw [hadvance]
    exact h.rescale hmax
  | bot =>
    obtain ⟨hr, ht⟩ := max_eq_bot.mp hmax
    have hmasked : ¬ Visible (seen ++ tile) := by
      rw [visible_append, not_or]
      exact ⟨fun hv => h.visible.mpr hv hr, tileMax_eq_bot.mp ht⟩
    have hbot : (OnlineSoftmax.advance c r tile).max = ⊥ := hmax
    refine ⟨iff_of_false (not_not.mpr hbot) hmasked, fun M => ?_, fun M i => ?_⟩
    · rw [hbot, total_of_masked hmasked]
      exact mul_zero _
    · rw [hbot, totalOut_of_masked hmasked]
      exact mul_zero _

/-- Masked entries contribute nothing. -/
theorem Summarizes.of_append_masked {seen masked : List (Entry K ι)} {r : Running K ι}
    (h : Summarizes (seen ++ masked) r) (hm : ¬ Visible masked) : Summarizes seen r where
  visible := by rw [h.visible, visible_append, or_iff_left hm]
  sum M := by rw [h.sum, total_append, total_of_masked hm, add_zero]
  out M c := by rw [h.out, totalOut_append, totalOut_of_masked hm, add_zero]

/-- A tile of the entries from `a` on, where those from `b` or `n` on are masked. -/
theorem Summarizes.window {entry tile : Nat → Entry K ι} {r : Running K ι} {a b n w : Nat}
    (h : Summarizes ((List.range (min a n)).map entry) r) (hab : a ≤ b) (hbw : b ≤ a + w)
    (hshown : ∀ j, a + j < b → a + j < n → tile j = entry (a + j))
    (hmasked : ∀ j < w, ¬ (a + j < b ∧ a + j < n) → (tile j).1 = ⊥) (c : K) :
    Summarizes ((List.range (min b n)).map entry)
      (OnlineSoftmax.advance c r ((List.range w).map tile)) := by
  have hsplit : (List.range w).map tile =
      (List.range (min b n - min a n)).map (fun j => entry (min a n + j)) ++
        (List.range (w - (min b n - min a n))).map
          fun j => tile (min b n - min a n + j) := by
    have hw : w = (min b n - min a n) + (w - (min b n - min a n)) := by omega
    conv_lhs => rw [hw, List.range_add, List.map_append, List.map_map]
    refine congrArg (· ++ _) (List.map_congr_left fun j hj => ?_)
    rw [List.mem_range] at hj
    have ha : min a n = a := by omega
    rw [ha]
    exact hshown j (by omega) (by omega)
  have hnone : ¬ Visible ((List.range (w - (min b n - min a n))).map
      fun j => tile (min b n - min a n + j)) := by
    rintro ⟨e, he, hne⟩
    obtain ⟨j, hj, rfl⟩ := List.mem_map.mp he
    rw [List.mem_range] at hj
    exact hne (hmasked _ (by omega) (by omega))
  have hjoin : (List.range (min a n)).map entry ++
      (List.range (min b n - min a n)).map (fun j => entry (min a n + j)) =
      (List.range (min b n)).map entry := by
    have hb : min b n = min a n + (min b n - min a n) := by omega
    conv_rhs => rw [hb, List.range_add, List.map_append, List.map_map]
    rfl
  have hnext : Summarizes ((List.range (min a n)).map entry ++ (List.range w).map tile)
      (OnlineSoftmax.advance c r ((List.range w).map tile)) := h.advance c
  rw [← hjoin]
  refine Summarizes.of_append_masked ?_ hnone
  rw [List.append_assoc, ← hsplit]
  exact hnext

end OnlineSoftmax

end Bi100
