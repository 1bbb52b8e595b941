import Mathlib.Algebra.Order.Floor.Ring
import Mathlib.Algebra.Order.Round
import Mathlib.Data.Int.Log
import Mathlib.Data.Rat.Floor
import Mathlib.Tactic.FieldSimp
import Mathlib.Tactic.Linarith
import Mathlib.Tactic.Positivity

/-!
# Decimal Arithmetic

The two ways in which decimal software loses digits. Floating decimal
arithmetic keeps a number of significant digits and rounds every result to
them, a tie to the even neighbour. A column of fixed scale keeps a number of
digits after the point and rounds what is stored in it, a tie away from zero.

Numbers are exact rationals throughout. A number that already fits a format is
left alone by it, and this is all that an exact computation needs to know about
either.

## Main definitions

* `halfEven`: The nearest integer, a tie to the even one.
* `toPrecision`: The nearest number of so many significant digits.
* `toScale`: The nearest number of so many digits after the point.

## Theorems

* `toPrecision_of_digits`: Few enough digits survive floating arithmetic.
* `toScale_eq_self_iff`: The numbers that a fixed scale keeps.
* `toScale_eq_zero_iff`: The numbers that a fixed scale loses.
-/

namespace Lib

/-- The nearest integer, a tie to the even one. -/
def halfEven (q : ℚ) : ℤ :=
  if 2 * Int.fract q < 1 then ⌊q⌋
  else if 1 < 2 * Int.fract q then ⌊q⌋ + 1
  else if ⌊q⌋ % 2 = 0 then ⌊q⌋ else ⌊q⌋ + 1

theorem halfEven_intCast (n : ℤ) : halfEven n = n := by
  have hf : 2 * Int.fract (n : ℚ) < 1 := by simp
  rw [halfEven, if_pos hf, Int.floor_intCast]

theorem floor_le_halfEven (q : ℚ) : ⌊q⌋ ≤ halfEven q := by
  unfold halfEven
  split_ifs <;> omega

/-- The nearest number of `prec` significant digits, a tie to the even one. -/
def toPrecision (prec : Nat) (q : ℚ) : ℚ :=
  let ulp : ℚ := 10 ^ (Int.log 10 |q| + 1 - prec)
  halfEven (q / ulp) * ulp

@[simp] theorem toPrecision_zero (prec : Nat) : toPrecision prec 0 = 0 := by
  have hz : halfEven 0 = 0 := halfEven_intCast 0
  simp [toPrecision, hz]

theorem toPrecision_nonneg (prec : Nat) (q : ℚ) (hq : 0 ≤ q) : 0 ≤ toPrecision prec q := by
  have hu : (0 : ℚ) < 10 ^ (Int.log 10 |q| + 1 - prec) := zpow_pos (by norm_num) _
  have hf : 0 ≤ ⌊q / (10 : ℚ) ^ (Int.log 10 |q| + 1 - prec)⌋ :=
    Int.floor_nonneg.mpr (div_nonneg hq hu.le)
  have hh := le_trans hf (floor_le_halfEven _)
  exact mul_nonneg (by exact_mod_cast hh) hu.le

/-- A number whose digits fit the precision is left alone. -/
theorem toPrecision_of_digits (prec s : Nat) (m : ℤ) (hm : |m| < 10 ^ prec) :
    toPrecision prec ((m : ℚ) / 10 ^ s) = (m : ℚ) / 10 ^ s := by
  by_cases hz : m = 0
  · rw [hz, Int.cast_zero, zero_div, toPrecision_zero]
  · -- The leading digit stands at most `prec` places above the last one.
    have habs : |(m : ℚ) / 10 ^ s| = (|m| : ℤ) / 10 ^ s := by
      rw [abs_div, Int.cast_abs, abs_of_pos (show (0 : ℚ) < 10 ^ s by positivity)]
    have hne : (m : ℚ) ≠ 0 := Int.cast_ne_zero.mpr hz
    have hpos : 0 < |(m : ℚ) / 10 ^ s| := abs_pos.mpr (div_ne_zero hne (by positivity))
    have hlt : |(m : ℚ) / 10 ^ s| < ((10 : ℕ) : ℚ) ^ ((prec : ℤ) - s) := by
      rw [habs, Nat.cast_ofNat, zpow_sub₀ (by norm_num), zpow_natCast, zpow_natCast]
      exact div_lt_div_of_pos_right (by exact_mod_cast hm) (by positivity)
    have hlog := (Int.lt_zpow_iff_log_lt (by norm_num) hpos).mp hlt
    -- So the unit in the last place divides the last digit's place.
    rcases Int.le.dest (show Int.log 10 |(m : ℚ) / 10 ^ s| + 1 - prec ≤ -(s : ℤ) by omega)
      with ⟨j, hj⟩
    have hulp : (10 : ℚ) ^ (Int.log 10 |(m : ℚ) / 10 ^ s| + 1 - prec) = 1 / (10 ^ s * 10 ^ j) := by
      have he : Int.log 10 |(m : ℚ) / 10 ^ s| + 1 - prec = -((s + j : ℕ) : ℤ) := by
        push_cast
        omega
      rw [he, zpow_neg, zpow_natCast, pow_add, one_div]
    have hquot : (m : ℚ) / 10 ^ s / (1 / (10 ^ s * 10 ^ j)) = ((m * 10 ^ j : ℤ) : ℚ) := by
      push_cast
      field_simp
    simp only [toPrecision]
    rw [hulp, hquot, halfEven_intCast]
    push_cast
    field_simp

/-- The nearest number of `scale` digits after the point, a tie upwards: away
    from zero, on the numbers from zero on. -/
def toScale (scale : Nat) (q : ℚ) : ℚ := round (q * 10 ^ scale) / 10 ^ scale

@[simp] theorem toScale_zero (scale : Nat) : toScale scale 0 = 0 := by
  simp [toScale]

theorem toScale_eq_self_iff (scale : Nat) (q : ℚ) :
    toScale scale q = q ↔ ∃ m : ℤ, q * 10 ^ scale = m := by
  have hp : (0 : ℚ) < 10 ^ scale := by positivity
  rw [toScale, div_eq_iff hp.ne']
  constructor
  · exact fun h => ⟨_, h.symm⟩
  · rintro ⟨m, hm⟩
    rw [hm, round_intCast]

theorem toScale_eq_zero_iff (scale : Nat) (q : ℚ) (hq : 0 ≤ q) :
    toScale scale q = 0 ↔ 2 * q * 10 ^ scale < 1 := by
  have hp : (0 : ℚ) < 10 ^ scale := by positivity
  rw [toScale, div_eq_zero_iff, or_iff_left hp.ne', Int.cast_eq_zero, round_eq_zero_iff,
    Set.mem_Ico]
  have hn : -(1 / 2 : ℚ) ≤ q * 10 ^ scale := le_trans (by norm_num) (mul_nonneg hq hp.le)
  constructor
  · rintro ⟨_, h⟩
    linarith
  · intro h
    exact ⟨hn, by linarith⟩

end Lib
