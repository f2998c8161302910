import Mathlib.Data.Int.Log
import Mathlib.Algebra.Order.Round
import Mathlib.Data.Rat.Floor
import Mathlib.Tactic.Linarith
import Mathlib.Tactic.FieldSimp

namespace Binary64

/-- The nearest integer, the even one of two. -/
def roundEven (x : ℚ) : ℤ :=
  if x - ⌊x⌋ < 1 / 2 then ⌊x⌋
  else if 1 / 2 < x - ⌊x⌋ then ⌊x⌋ + 1
  else if ⌊x⌋ % 2 = 0 then ⌊x⌋ else ⌊x⌋ + 1

/-- The unit in the last of the 53 binary places. -/
def ulp (x : ℚ) : ℚ := 2 ^ (Int.log 2 |x| - 52)

/-- The result of an operation whose exact value is `x`, between underflow and overflow. -/
def rounded (x : ℚ) : ℚ := roundEven (x / ulp x) * ulp x

/-- `f64::round` of a number that is not negative. -/
def roundHalfUp (x : ℚ) : ℤ := ⌊x + 1 / 2⌋

variable {x : ℚ}

theorem roundEven_near (x : ℚ) : |roundEven x - x| ≤ 1 / 2 := by
  have hfloor := Int.floor_le x
  have hlt := Int.lt_floor_add_one x
  unfold roundEven
  rw [abs_le]
  split
  next h => constructor <;> linarith
  next h =>
    split
    next h' => push_cast; constructor <;> linarith
    next h' =>
      split
      next => constructor <;> linarith
      next => push_cast; constructor <;> linarith

theorem ulp_pos (x : ℚ) : 0 < ulp x := zpow_pos (by norm_num) _

theorem ulp_le (h : x ≠ 0) : ulp x ≤ |x| / 2 ^ 52 := by
  have hlog := Int.zpow_log_le_self (b := 2) (by omega) (abs_pos.mpr h)
  have hsplit : ulp x = ((2 : ℕ) : ℚ) ^ Int.log 2 |x| / 2 ^ 52 := by
    unfold ulp
    rw [zpow_sub₀ (by norm_num)]
    norm_num
  rw [hsplit]
  gcongr

/-- Rounding changes a number by at most one part in two to the 53. -/
theorem rounded_near (x : ℚ) : |rounded x - x| ≤ |x| / 2 ^ 53 := by
  by_cases h : x = 0
  · simp [h, rounded, roundEven]
  · have hpos := ulp_pos x
    have hfactor : rounded x - x = (roundEven (x / ulp x) - x / ulp x) * ulp x := by
      unfold rounded
      field_simp
    calc |rounded x - x| = |roundEven (x / ulp x) - x / ulp x| * ulp x := by
          rw [hfactor, abs_mul, abs_of_pos hpos]
      _ ≤ 1 / 2 * (|x| / 2 ^ 52) := by
          gcongr
          · exact roundEven_near _
          · exact ulp_le h
      _ = |x| / 2 ^ 53 := by ring

theorem rounded_bounds (h : 0 ≤ x) :
    x * (1 - 1 / 2 ^ 53) ≤ rounded x ∧ rounded x ≤ x * (1 + 1 / 2 ^ 53) := by
  have hnear := rounded_near x
  rw [abs_of_nonneg h, abs_le] at hnear
  constructor <;> linarith

theorem roundHalfUp_le {n : ℤ} (h : x < n + 1 / 2) : roundHalfUp x ≤ n := by
  apply Int.lt_add_one_iff.mp
  rw [roundHalfUp, Int.floor_lt]
  push_cast
  linarith

theorem le_roundHalfUp {n : ℤ} (h : n - 1 / 2 ≤ x) : n ≤ roundHalfUp x := by
  rw [roundHalfUp, Int.le_floor]
  linarith

end Binary64
