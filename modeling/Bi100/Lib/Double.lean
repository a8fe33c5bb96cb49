import Mathlib.Algebra.Order.Field.Power
import Mathlib.Data.Int.Log
import Mathlib.Data.Rat.Floor
import Mathlib.Tactic.Linarith

/-!
# Doubles

A double is the rational that it stands for. `Double.ofMagnitude` rounds to the nearest double, ties
to even.

* `le_roundHalfEven_iff`: what rounds to an even integer or above.
* `overflows_iff`: a magnitude rounds to infinity from the middle of the largest double and
  `2 ^ 1024` on.
-/

namespace Py

/-- A double. The zeros are one. -/
inductive Double where
  | nan
  | infinity (negative : Bool)
  | finite (value : ℚ)
deriving DecidableEq, Repr

/-! ## Rounding to an integer -/

/-- The nearest integer, ties to even. -/
def roundHalfEven (x : ℚ) : ℤ :=
  if x - ⌊x⌋ < 1 / 2 then ⌊x⌋
  else if 1 / 2 < x - ⌊x⌋ then ⌊x⌋ + 1
  else if Even ⌊x⌋ then ⌊x⌋
  else ⌊x⌋ + 1

theorem le_roundHalfEven_iff {m : ℤ} (hm : Even m) (x : ℚ) :
    m ≤ roundHalfEven x ↔ (m : ℚ) - 1 / 2 ≤ x := by
  have hlow := Int.floor_le x
  have hhigh := Int.lt_floor_add_one x
  unfold roundHalfEven
  generalize hn : ⌊x⌋ = n at hlow hhigh ⊢
  -- `x` is in `[n, n + 1)`, so only `m = n + 1` is in doubt
  have hfar : m ≤ n → (m : ℚ) - 1 / 2 ≤ x := fun h => by
    have : (m : ℚ) ≤ n := by exact_mod_cast h
    linarith
  have hnear : (m : ℚ) - 1 / 2 ≤ x → m ≤ n + 1 := fun h => by
    have : (m : ℚ) < (n + 2 : ℤ) := by
      push_cast
      linarith
    have := Int.cast_lt.mp this
    omega
  split
  · next hbelow =>
    refine ⟨hfar, fun h => ?_⟩
    have : (m : ℚ) < (n + 1 : ℤ) := by
      push_cast
      linarith
    exact Int.lt_add_one_iff.mp (Int.cast_lt.mp this)
  · next hbelow =>
    have hup : m ≤ n + 1 → (m : ℚ) - 1 / 2 ≤ x := fun h => by
      have : (m : ℚ) ≤ (n + 1 : ℤ) := by exact_mod_cast h
      push_cast at this
      linarith
    split
    · exact ⟨hup, hnear⟩
    · split
      · next heven =>
        refine ⟨hfar, fun h => ?_⟩
        have hne : m ≠ n + 1 := fun heq => by
          rw [heq] at hm
          exact Int.not_even_iff_odd.mpr heven.add_one hm
        have := hnear h
        omega
      · exact ⟨hup, hnear⟩

/-! ## Rounding to a double -/

/-- The exponent of the last bit of the doubles around `q`. -/
def ulpExponent (q : ℚ) : ℤ := max (Int.log 2 q - 52) (-1074)

/-- The nearest double, without a largest one. -/
def nearest (q : ℚ) : ℚ := roundHalfEven (q / 2 ^ ulpExponent q) * 2 ^ ulpExponent q

def Double.ofMagnitude (negative : Bool) (q : ℚ) : Double :=
  if 2 ^ 1024 ≤ nearest q then .infinity negative
  else .finite (if negative then -nearest q else nearest q)

theorem two_zpow_pos (e : ℤ) : (0 : ℚ) < 2 ^ e := zpow_pos (by decide) e

/-- An even multiple of the last bit, against the rounded value. -/
theorem mul_le_nearest_iff {m : ℤ} (hm : Even m) (q : ℚ) :
    m * 2 ^ ulpExponent q ≤ nearest q ↔ ((m : ℚ) - 1 / 2) * 2 ^ ulpExponent q ≤ q := by
  have hpos := two_zpow_pos (ulpExponent q)
  rw [nearest, mul_le_mul_iff_of_pos_right hpos, Int.cast_le, le_roundHalfEven_iff hm, le_div_iff₀ hpos]

theorem even_two_pow {k : ℕ} (hk : k ≠ 0) : Even ((2 : ℤ) ^ k) :=
  (even_two).pow_of_ne_zero hk

theorem two_pow_eq_mul (e : ℤ) (k : ℕ) : (2 : ℚ) ^ (e + k) = ((2 ^ k : ℤ) : ℚ) * 2 ^ e := by
  rw [zpow_add₀ (by decide), zpow_natCast, mul_comm]
  push_cast
  rfl

/-- What rounds to a power of two or above. -/
theorem two_zpow_le_nearest_iff {q : ℚ} {k : ℕ} (hk : k ≠ 0) :
    2 ^ (ulpExponent q + k) ≤ nearest q ↔
      (2 : ℚ) ^ (ulpExponent q + k) - 2 ^ (ulpExponent q - 1) ≤ q := by
  have hhalf : (2 : ℚ) ^ (ulpExponent q - 1) = 1 / 2 * 2 ^ ulpExponent q := by
    rw [zpow_sub_one₀ (by decide), mul_comm]
    norm_num
  rw [two_pow_eq_mul, mul_le_nearest_iff (even_two_pow hk), hhalf, sub_mul]

/-- The middle of the largest double and `2 ^ 1024`. -/
def overflowBound : ℚ := 2 ^ 1024 - 2 ^ 970

theorem two_zpow_lt (a b : ℤ) (h : a < b) : (2 : ℚ) ^ a < 2 ^ b :=
  zpow_lt_zpow_right₀ (by decide) h

theorem overflowBound_eq : overflowBound = 2 ^ (1024 : ℤ) - 2 ^ (970 : ℤ) := by
  rw [overflowBound, ← zpow_natCast, ← zpow_natCast]
  rfl

theorem overflows_iff {q : ℚ} (hq : 0 ≤ q) : 2 ^ 1024 ≤ nearest q ↔ overflowBound ≤ q := by
  have hbelow : q < 2 ^ (Int.log 2 q + 1) := Int.lt_zpow_succ_log_self (by decide) q
  have hulp : ulpExponent q = max (Int.log 2 q - 52) (-1074) := rfl
  rw [overflowBound_eq, ← zpow_natCast]
  show (2 : ℚ) ^ (1024 : ℤ) ≤ _ ↔ _
  rcases lt_trichotomy (Int.log 2 q) 1023 with hlog | hlog | hlog
  · -- both are above `2 ^ 1023`
    have hq : q < 2 ^ (1023 : ℤ) := hbelow.trans_le (zpow_le_zpow_right₀ (by decide) (by omega))
    have hdouble : (2 : ℚ) ^ (1024 : ℤ) = 2 ^ (1023 : ℤ) * 2 := zpow_add_one₀ (by decide) 1023
    have hgap := two_zpow_lt (ulpExponent q - 1) 1023 (by omega)
    have hgap' := two_zpow_lt 970 1023 (by decide)
    obtain ⟨k, hk⟩ : ∃ k : ℕ, ulpExponent q + k = 1024 := ⟨(1024 - ulpExponent q).toNat, by omega⟩
    have hround := two_zpow_le_nearest_iff (q := q) (k := k) (by omega)
    rw [hk] at hround
    rw [hround]
    generalize (2 : ℚ) ^ (1024 : ℤ) = top at hdouble ⊢
    generalize (2 : ℚ) ^ (1023 : ℤ) = middle at hq hdouble hgap hgap'
    generalize (2 : ℚ) ^ (970 : ℤ) = gap at hgap' ⊢
    constructor
    · intro h
      linarith
    · intro h
      linarith
  · have hround := two_zpow_le_nearest_iff (q := q) (k := 53) (by decide)
    rw [show ulpExponent q = 971 by omega] at hround
    exact hround
  · -- the power of two below `q` is reached
    have hpos : 0 < q := by
      refine hq.lt_of_ne fun h => ?_
      rw [← h, Int.log_zero_right] at hlog
      omega
    have hle : (2 : ℚ) ^ Int.log 2 q ≤ q := Int.zpow_log_le_self (by decide) hpos
    have hmore : (2 : ℚ) ^ (1024 : ℤ) ≤ 2 ^ Int.log 2 q := zpow_le_zpow_right₀ (by decide) (by omega)
    have hround := two_zpow_le_nearest_iff (q := q) (k := 52) (by decide)
    rw [show ulpExponent q + (52 : ℕ) = Int.log 2 q by omega] at hround
    have hgap := two_zpow_pos (ulpExponent q - 1)
    have hgap' := two_zpow_pos 970
    have hnearest := hround.mpr (by linarith)
    refine ⟨fun _ => ?_, fun _ => hmore.trans hnearest⟩
    generalize (2 : ℚ) ^ (1024 : ℤ) = top at hmore ⊢
    generalize (2 : ℚ) ^ (970 : ℤ) = gap at hgap' ⊢
    linarith

theorem Double.ofMagnitude_eq_infinity {q : ℚ} (hq : 0 ≤ q) (negative : Bool) :
    (∃ b, ofMagnitude negative q = .infinity b) ↔ overflowBound ≤ q := by
  rw [← overflows_iff hq, ofMagnitude]
  split
  · next h => exact ⟨fun _ => h, fun _ => ⟨negative, rfl⟩⟩
  · next h => exact ⟨fun ⟨_, hb⟩ => (nomatch hb), fun h' => absurd h' h⟩

theorem nearest_nonneg {q : ℚ} (hq : 0 ≤ q) : 0 ≤ nearest q := by
  have hpos := two_zpow_pos (ulpExponent q)
  have h := (mul_le_nearest_iff Even.zero q).mpr
  rw [Int.cast_zero, zero_mul] at h
  exact h (by linarith)

theorem Double.ofMagnitude_lt {negative : Bool} {q v : ℚ} (hq : 0 ≤ q)
    (h : ofMagnitude negative q = .finite v) : |v| < 2 ^ 1024 := by
  unfold ofMagnitude at h
  split at h
  · cases h
  · next hlt =>
    obtain rfl := Double.finite.inj h
    have habs : |if negative = true then -nearest q else nearest q| = nearest q := by
      split
      · rw [abs_neg, abs_of_nonneg (nearest_nonneg hq)]
      · rw [abs_of_nonneg (nearest_nonneg hq)]
    rw [habs]
    exact not_le.mp hlt

/-! ## From a double to an integer -/

/-- `int(v)` of a finite double: towards zero. -/
def truncate (q : ℚ) : ℤ := q.num.tdiv q.den

end Py
