import Mathlib.Algebra.Order.Field.Rat
import Mathlib.Tactic.Linarith
import Mathlib.Tactic.Positivity

/-! Relative distance, kept along a chain of roundings. -/
namespace KnxDatapoint.Rounding

/-- The first number misses the second by a part of it at most. -/
def Close (part p q : ℚ) : Prop := |p - q| ≤ part * |q|

variable {part part' p q r : ℚ}

theorem Close.mono (close : Close part p q) (le : part ≤ part') : Close part' p q :=
  close.trans (mul_le_mul_of_nonneg_right le (abs_nonneg q))

theorem Close.mul (close : Close part p q) (c : ℚ) : Close part (p * c) (q * c) := by
  have scaled := mul_le_mul_of_nonneg_right close (abs_nonneg c)
  simpa only [Close, ← sub_mul, abs_mul, mul_assoc] using scaled

theorem Close.div (close : Close part p q) (c : ℚ) : Close part (p / c) (q / c) := by
  simpa only [div_eq_mul_inv] using close.mul c⁻¹

theorem Close.abs_le (close : Close part p q) : |p| ≤ (1 + part) * |q| := by
  have detour := abs_sub_abs_le_abs_sub p q
  have bound : |p - q| ≤ part * |q| := close
  linarith

theorem Close.le_abs (close : Close part p q) : (1 - part) * |q| ≤ |p| := by
  have detour := abs_sub_abs_le_abs_sub q p
  have bound : |p - q| ≤ part * |q| := close
  rw [abs_sub_comm] at detour
  linarith

theorem Close.trans (second : Close part' r p) (first : Close part p q) (nonneg : 0 ≤ part') :
    Close (part' * (1 + part) + part) r q := by
  have detour := abs_sub_le r p q
  have near : |p - q| ≤ part * |q| := first
  have far : |r - p| ≤ part' * |p| := second
  have wide := mul_le_mul_of_nonneg_left first.abs_le nonneg
  have bound : |r - q| ≤ (part' * (1 + part) + part) * |q| := by linarith
  exact bound

end KnxDatapoint.Rounding
