import Mathlib.Data.Int.Log
import Mathlib.Data.Rat.Floor
import Mathlib.Tactic.Linarith

/-!
# Numbers of single precision

A positive number is rounded to 24 significant bits, a tie to the even one of its neighbours, so it
is off by at most one part in `2 ^ 24`.
-/

namespace TxService.SinglePrecision

/-- The nearest integer, and of two that are equally near the even one. -/
def nearestEven (q : ℚ) : ℤ :=
  if q - ⌊q⌋ < 1 / 2 then ⌊q⌋
  else if 1 / 2 < q - ⌊q⌋ then ⌊q⌋ + 1
  else if ⌊q⌋ % 2 = 0 then ⌊q⌋
  else ⌊q⌋ + 1

/-- The distance between neighbouring floats at a number. -/
def ulp (q : ℚ) : ℚ := 2 ^ (Int.log 2 q - 23)

def float (q : ℚ) : ℚ := nearestEven (q / ulp q) * ulp q

variable {q : ℚ}

theorem abs_nearestEven_sub_le (q : ℚ) : |(nearestEven q : ℚ) - q| ≤ 1 / 2 := by
  have below := Int.floor_le q
  have above := Int.lt_floor_add_one q
  rw [abs_le, nearestEven]
  split
  · constructor <;> linarith
  · split
    · push_cast
      constructor <;> linarith
    · split
      · constructor <;> linarith
      · push_cast
        constructor <;> linarith

theorem ulp_pos (q : ℚ) : 0 < ulp q := zpow_pos (by norm_num) _

theorem ulp_le (pos : 0 < q) : ulp q ≤ q / 2 ^ 23 := by
  rw [ulp, zpow_sub₀ (by norm_num)]
  exact div_le_div_of_nonneg_right (Int.zpow_log_le_self (by norm_num) pos) (by norm_num)

theorem abs_float_sub_le (pos : 0 < q) : |float q - q| ≤ q / 2 ^ 24 := by
  have unit := ulp_pos q
  have scaled : float q - q = (nearestEven (q / ulp q) - q / ulp q) * ulp q := by
    rw [float, sub_mul, div_mul_cancel₀ q unit.ne']
  rw [scaled, abs_mul, abs_of_pos unit]
  calc |(nearestEven (q / ulp q) : ℚ) - q / ulp q| * ulp q
      ≤ 1 / 2 * (q / 2 ^ 23) :=
        mul_le_mul (abs_nearestEven_sub_le _) (ulp_le pos) unit.le (by norm_num)
    _ = q / 2 ^ 24 := by ring

theorem float_le (pos : 0 < q) : float q ≤ q * (1 + 1 / 2 ^ 24) := by
  have near := (abs_le.mp (abs_float_sub_le pos)).2
  linarith

theorem le_float (pos : 0 < q) : q * (1 - 1 / 2 ^ 24) ≤ float q := by
  have near := (abs_le.mp (abs_float_sub_le pos)).1
  linarith

theorem float_pos (pos : 0 < q) : 0 < float q := by
  have least := le_float pos
  have half : (0 : ℚ) < 1 - 1 / 2 ^ 24 := by norm_num
  exact (mul_pos pos half).trans_le least

end TxService.SinglePrecision
