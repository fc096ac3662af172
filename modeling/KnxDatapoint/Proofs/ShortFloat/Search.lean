import KnxDatapoint.ShortFloat
import KnxDatapoint.Proofs.Single.Whole

/-! The search for the exponent of a two-byte float, read as a rule on exact hundredths.
A number fits at an exponent when its rounded mantissa does; once it fits it fits at every greater
exponent too, so the first fit is the least. The float found is a nearest one of the format. -/
namespace KnxDatapoint.ShortFloat
open Rounding

/-- The mantissa nearest to a number of hundredths is one of the format. -/
def FitsAt (q : ℚ) (exponent : ℕ) : Prop :=
  leastMantissa ≤ nearestWhole (q / 2 ^ exponent) ∧
    nearestWhole (q / 2 ^ exponent) ≤ greatestMantissa

instance (q : ℚ) (exponent : ℕ) : Decidable (FitsAt q exponent) :=
  inferInstanceAs (Decidable (_ ∧ _))

/-- The least exponent that fits, or the greatest of the format where none does. -/
def LeastExponent (q : ℚ) (exponent : ℕ) : Prop :=
  IsLeast {e | e ≤ greatestExponent ∧ FitsAt q e} exponent ∨
    (∀ e ≤ greatestExponent, ¬ FitsAt q e) ∧ exponent = greatestExponent

/-- The float that belongs to an exact number of hundredths. -/
structure Chosen (q : ℚ) (x : ShortFloat) : Prop where
  exponent : LeastExponent q x.exponent
  mantissa : x.mantissa =
    max leastMantissa (min greatestMantissa (nearestWhole (q / 2 ^ x.exponent)))

theorem mantissa_limits : leastMantissa = -2048 ∧ greatestMantissa = 2047 := ⟨rfl, rfl⟩

theorem hundredths_cast (x : ShortFloat) : (x.hundredths : ℚ) = x.mantissa * 2 ^ x.exponent := by
  simp [hundredths, Nat.shiftLeft_eq]

/-! ## Fitting -/

theorem power_pos (exponent : ℕ) : (0 : ℚ) < 2 ^ exponent := by positivity

theorem above_iff {q : ℚ} {exponent : ℕ} :
    greatestMantissa < nearestWhole (q / 2 ^ exponent) ↔ 4095 * 2 ^ exponent ≤ 2 * q := by
  have positive := power_pos exponent
  rw [greatestMantissa, lt_nearestWhole (by norm_num), le_div_iff₀ positive]
  push_cast
  constructor <;> intro <;> linarith

theorem below_iff {q : ℚ} {exponent : ℕ} :
    nearestWhole (q / 2 ^ exponent) < leastMantissa ↔ 2 * q ≤ -4097 * 2 ^ exponent := by
  have positive := power_pos exponent
  rw [leastMantissa, nearestWhole_lt (by norm_num), div_le_iff₀ positive]
  push_cast
  constructor <;> intro <;> linarith

theorem fitsAt_iff {q : ℚ} {exponent : ℕ} :
    FitsAt q exponent ↔ -4097 * 2 ^ exponent < 2 * q ∧ 2 * q < 4095 * 2 ^ exponent := by
  rw [FitsAt, ← not_lt, ← not_lt, above_iff, below_iff, not_le, not_le]

theorem fitsAt_mono {q : ℚ} {e e' : ℕ} (le : e ≤ e') (fits : FitsAt q e) : FitsAt q e' := by
  have power : (2 : ℚ) ^ e ≤ 2 ^ e' := pow_le_pow_right₀ (by norm_num) le
  rw [fitsAt_iff] at fits ⊢
  constructor <;> linarith

theorem Chosen.fits {q : ℚ} {x : ShortFloat} (chosen : Chosen q x) : x.Fits := by
  have bounds := mantissa_limits
  have mantissa := chosen.mantissa
  refine ⟨by omega, by omega, ?_⟩
  rcases chosen.exponent with ⟨⟨small, -⟩, -⟩ | ⟨-, last⟩
  · exact small
  · exact last.le

/-! ## Nearness -/

theorem grid_distance (q : ℚ) (exponent : ℕ) (n : ℤ) :
    |(n : ℚ) * 2 ^ exponent - q| = |n - q / 2 ^ exponent| * 2 ^ exponent := by
  have positive := power_pos exponent
  rw [← abs_of_pos positive, ← abs_mul, sub_mul, abs_of_pos positive,
    div_mul_cancel₀ _ positive.ne']

theorem grid_nearest (q : ℚ) (exponent : ℕ) (n : ℤ) :
    |nearestWhole (q / 2 ^ exponent) * 2 ^ exponent - q| ≤ |n * 2 ^ exponent - q| := by
  rw [grid_distance, grid_distance]
  exact mul_le_mul_of_nonneg_right (nearestWhole_nearest _ _) (power_pos exponent).le

theorem hundredths_bounds {y : ShortFloat} (fits : y.Fits) {exponent : ℕ}
    (le : y.exponent ≤ exponent) :
    -2048 * 2 ^ exponent ≤ (y.hundredths : ℚ) ∧ (y.hundredths : ℚ) ≤ 2047 * 2 ^ exponent := by
  obtain ⟨low, high, -⟩ := fits
  have low : (-2048 : ℚ) ≤ y.mantissa := by exact_mod_cast low
  have high : (y.mantissa : ℚ) ≤ 2047 := by exact_mod_cast high
  have positive := power_pos y.exponent
  have power : (2 : ℚ) ^ y.exponent ≤ 2 ^ exponent := pow_le_pow_right₀ (by norm_num) le
  rw [hundredths_cast]
  constructor <;> nlinarith

theorem hundredths_on_grid {y : ShortFloat} {exponent : ℕ} (le : exponent ≤ y.exponent) :
    ∃ n : ℤ, (y.hundredths : ℚ) = n * 2 ^ exponent := by
  refine ⟨y.mantissa * 2 ^ (y.exponent - exponent), ?_⟩
  rw [hundredths_cast, show y.exponent = y.exponent - exponent + exponent by omega, pow_add,
    Nat.add_sub_cancel]
  push_cast
  ring

/-- Where an exponent was passed over, no float with a lesser one is nearer than the grid above. -/
theorem passed_over {q : ℚ} {exponent : ℕ} {y : ShortFloat} (unfit : ¬ FitsAt q exponent)
    (fits : y.Fits) (le : y.exponent ≤ exponent) :
    |nearestWhole (q / 2 ^ (exponent + 1)) * 2 ^ (exponent + 1) - q| ≤ |y.hundredths - q| := by
  have positive := power_pos exponent
  obtain ⟨low, high⟩ := hundredths_bounds fits le
  have double : (2 : ℚ) ^ (exponent + 1) = 2 * 2 ^ exponent := by ring
  rw [fitsAt_iff, not_and_or, not_lt, not_lt] at unfit
  rcases unfit with below | above
  · refine (grid_nearest q (exponent + 1) (-1024)).trans ?_
    have outside : q ≤ y.hundredths := by linarith
    rw [abs_of_nonneg (by linarith : 0 ≤ (y.hundredths : ℚ) - q), double, abs_le]
    push_cast
    constructor <;> linarith
  · refine (grid_nearest q (exponent + 1) 1024).trans ?_
    have outside : y.hundredths ≤ q := by linarith
    rw [abs_of_nonpos (by linarith : (y.hundredths : ℚ) - q ≤ 0), double, abs_le]
    push_cast
    constructor <;> linarith

theorem saturated_nearest {q : ℚ} {x y : ShortFloat} (unfit : ¬ FitsAt q greatestExponent)
    (last : x.exponent = greatestExponent) (mantissa : x.mantissa =
      max leastMantissa (min greatestMantissa (nearestWhole (q / 2 ^ x.exponent))))
    (fits : y.Fits) : |x.hundredths - q| ≤ |y.hundredths - q| := by
  have bounds := mantissa_limits
  obtain ⟨low, high⟩ := hundredths_bounds fits fits.2.2
  have positive := power_pos greatestExponent
  have ends := unfit
  rw [fitsAt_iff, not_and_or, not_lt, not_lt] at ends
  rw [last] at mantissa
  rw [hundredths_cast x, last]
  rcases ends with below | above
  · have least : x.mantissa = -2048 := by
      have := below_iff.mpr below
      omega
    rw [least, abs_of_nonneg (by push_cast; linarith), abs_of_nonneg (by linarith)]
    push_cast
    linarith
  · have greatest : x.mantissa = 2047 := by
      have := above_iff.mpr above
      omega
    rw [greatest, abs_of_nonpos (by push_cast; linarith), abs_of_nonpos (by linarith)]
    push_cast
    linarith

theorem Chosen.mantissa_of_fits {q : ℚ} {x : ShortFloat} (chosen : Chosen q x)
    (held : FitsAt q x.exponent) : x.mantissa = nearestWhole (q / 2 ^ x.exponent) := by
  rw [chosen.mantissa, min_eq_right held.2, max_eq_right held.1]

theorem Chosen.unfit {q : ℚ} {x : ShortFloat} (chosen : Chosen q x) {exponent : ℕ}
    (lt : exponent < x.exponent) : ¬ FitsAt q exponent := by
  have small : x.exponent ≤ greatestExponent := chosen.fits.2.2
  rcases chosen.exponent with ⟨-, least⟩ | ⟨unfit, -⟩
  · intro fitting
    have := least ⟨by omega, fitting⟩
    omega
  · exact unfit exponent (by omega)

theorem Chosen.nearest {q : ℚ} {x y : ShortFloat} (chosen : Chosen q x) (fits : y.Fits) :
    |x.hundredths - q| ≤ |y.hundredths - q| := by
  rcases chosen.exponent with ⟨⟨-, held⟩, -⟩ | ⟨unfit, last⟩
  · rw [hundredths_cast x, chosen.mantissa_of_fits held]
    by_cases coarse : x.exponent ≤ y.exponent
    · obtain ⟨n, onGrid⟩ := hundredths_on_grid coarse
      rw [onGrid]
      exact grid_nearest q x.exponent n
    · obtain ⟨previous, next⟩ : ∃ previous, x.exponent = previous + 1 :=
        ⟨x.exponent - 1, by omega⟩
      rw [next]
      exact passed_over (chosen.unfit (by omega)) fits (by omega)
  · exact saturated_nearest (unfit _ le_rfl) last chosen.mantissa fits

end KnxDatapoint.ShortFloat
