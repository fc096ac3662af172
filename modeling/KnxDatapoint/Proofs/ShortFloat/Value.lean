import KnxDatapoint.Proofs.ShortFloat.Optimal
import Mathlib.RingTheory.Coprime.Lemmas

/-! Values of two-byte floats as singles: one rounding of the exact hundredths. -/
namespace KnxDatapoint.ShortFloat
open Rounding Single

variable {x y : ShortFloat}

theorem mantissa_short (fits : x.Fits) : |x.mantissa| ≤ 2048 := by
  obtain ⟨low, high, -⟩ := fits
  simp only [leastMantissa, greatestMantissa] at low high
  exact abs_le.mpr (by omega)

theorem abs_hundredths (fits : x.Fits) : |(x.hundredths : ℚ)| ≤ 2 ^ 26 := by
  obtain ⟨low, high⟩ := hundredths_bounds fits fits.2.2
  have power : (2 : ℚ) ^ greatestExponent = 2 ^ 15 := rfl
  rw [power] at low high
  rw [abs_le]
  constructor <;> linarith

theorem representable_hundredths (fits : x.Fits) : Representable x.hundredths := by
  have short := mantissa_short fits
  have small : x.exponent ≤ 15 := fits.2.2
  rw [hundredths_cast]
  exact representable_int x.exponent (by omega) (by omega)

theorem toRat_hundred : (100 : Single).toRat = 100 := toRat_ofNat (n := 100) (by norm_num)

theorem hundred_finite : (100 : Single).IsFinite := by decide

/-- The infinities are no exception: a hundred times one of them is that infinity again. -/
theorem toRat_hundredfold (v : Single) : (v * 100).toRat = rounded (v.toRat * 100) := by
  cases v with
  | nan => decide +kernel
  | infinite negative => cases negative <;> decide +kernel
  | finite negative rank =>
    have finite : (Single.finite negative rank).IsFinite := trivial
    rw [toRat_mul finite hundred_finite, toRat_hundred]

theorem hundredfold_mono {v w : Single} (le : v.toRat ≤ w.toRat) :
    (v * 100).toRat ≤ (w * 100).toRat := by
  rw [toRat_hundredfold, toRat_hundredfold]
  exact rounded_mono (by linarith)

/-- Mantissa times weight is exact, so only the division rounds. -/
theorem toValue_product (fits : x.Fits) : (Single.ofInt x.mantissa * weight x.exponent).IsFinite ∧
    (Single.ofInt x.mantissa * weight x.exponent).toRat = x.hundredths := by
  have short := mantissa_short fits
  obtain ⟨weightFinite, power⟩ := weight_power fits.2.2
  have mantissaFinite := ofInt_finite (short.trans (by norm_num))
  have mantissa := toRat_ofInt_short (short.trans (by norm_num))
  have product := toRat_mul mantissaFinite weightFinite
  rw [mantissa, power, ← hundredths_cast, rounded_representable (representable_hundredths fits)]
    at product
  refine ⟨mul_finite mantissaFinite weightFinite ?_, product⟩
  rw [mantissa, power, ← hundredths_cast]
  exact (abs_hundredths fits).trans (by norm_num)

theorem toRat_toValue (fits : x.Fits) : x.toValue.toRat = rounded (x.hundredths / 100) := by
  obtain ⟨finite, product⟩ := toValue_product fits
  rw [toValue, toRat_div finite hundred_finite (by rw [toRat_hundred]; norm_num), product,
    toRat_hundred]

theorem abs_hundredths_div (fits : x.Fits) : |(x.hundredths : ℚ) / 100| ≤ 2 ^ 20 := by
  have bound := abs_hundredths fits
  rw [abs_div, abs_of_pos (by norm_num : (0 : ℚ) < 100), div_le_iff₀ (by norm_num)]
  linarith

theorem toValue_finite (fits : x.Fits) : x.toValue.IsFinite := by
  obtain ⟨finite, product⟩ := toValue_product fits
  refine div_finite finite hundred_finite (by rw [toRat_hundred]; norm_num) ?_
  rw [product, toRat_hundred]
  exact (abs_hundredths_div fits).trans (by norm_num)

theorem toValue_mono (hx : x.Fits) (hy : y.Fits) (le : (x.hundredths : ℚ) ≤ y.hundredths) :
    x.toValue ≤ y.toValue := by
  rw [le_iff_toRat, toRat_toValue hx, toRat_toValue hy]
  exact ⟨finite_ne_nan (toValue_finite hx), finite_ne_nan (toValue_finite hy),
    rounded_mono (by linarith)⟩

theorem one_le_abs_hundredths (nonzero : x.hundredths ≠ 0) : (1 : ℚ) ≤ |(x.hundredths : ℚ)| := by
  exact_mod_cast Int.one_le_abs nonzero

theorem toValue_close (fits : x.Fits) (nonzero : x.hundredths ≠ 0) :
    Close (1 / 2 ^ 23) x.toValue.toRat (x.hundredths / 100) := by
  have least := one_le_abs_hundredths nonzero
  rw [toRat_toValue fits]
  refine rounded_close ?_ ((abs_hundredths_div fits).trans (by norm_num))
  rw [abs_div, abs_of_pos (by norm_num : (0 : ℚ) < 100)]
  linarith

theorem zero_values : ∀ exponent : Fin 16, toValue ⟨0, exponent⟩ = 0 := by decide +kernel

theorem toValue_of_zero (fits : x.Fits) (zero : x.hundredths = 0) : x.toValue = 0 := by
  rcases x with ⟨mantissa, exponent⟩
  have power : ((1 <<< exponent : ℕ) : ℤ) ≠ 0 := by simp [Nat.shiftLeft_eq]
  obtain rfl := (mul_eq_zero.mp zero).resolve_right power
  exact zero_values ⟨exponent, Nat.lt_succ_of_le fits.2.2⟩

theorem toValue_ne_zero (fits : x.Fits) (nonzero : x.hundredths ≠ 0) : x.toValue.toRat ≠ 0 := by
  have close := (toValue_close fits nonzero).le_abs
  have least := one_le_abs_hundredths nonzero
  rw [abs_div, abs_of_pos (by norm_num : (0 : ℚ) < 100)] at close
  intro none
  rw [none, abs_zero] at close
  linarith

/-- The value of a float depends on its exact hundredths alone, not on how they are written. -/
theorem toValue_eq_nearest (fits : x.Fits) : x.toValue = nearest (x.hundredths / 100) := by
  by_cases zero : x.hundredths = 0
  · rw [toValue_of_zero fits zero, zero]
    decide +kernel
  · exact eq_of_toRat (toValue_ne_zero fits zero) (toRat_toValue fits)

theorem toValue_congr (fits : x.Fits) (fits' : y.Fits) (same : x.hundredths = y.hundredths) :
    x.toValue = y.toValue := by
  rw [toValue_eq_nearest fits, toValue_eq_nearest fits', same]

/-- Half way between two singles there is no float but those that are singles themselves. -/
theorem representable_of_tie (fits : x.Fits) {v w : Single}
    (tie : v.toRat + w.toRat = 2 * (x.hundredths / 100)) : Representable (x.hundredths / 100) := by
  obtain ⟨a, value⟩ := toRat_units v
  obtain ⟨b, value'⟩ := toRat_units w
  have short := mantissa_short fits
  have small : x.exponent ≤ 15 := fits.2.2
  have whole : x.mantissa * 2 ^ (x.exponent + 149) = 25 * (2 * (a + b)) := by
    rw [value, value', hundredths_cast] at tie
    field_simp at tie
    rw [pow_add]
    exact_mod_cast (by linarith : (x.mantissa : ℚ) * (2 ^ x.exponent * 2 ^ 149) =
      25 * (2 * (a + b)))
  have coprime : IsCoprime (25 : ℤ) (2 ^ (x.exponent + 149)) := IsCoprime.pow_right ⟨1, -12, rfl⟩
  obtain ⟨n, multiple⟩ := coprime.dvd_of_dvd_mul_right ⟨_, whole⟩
  have fewer : |n| ≤ 2 ^ 24 := by
    rw [multiple, abs_mul] at short
    norm_num at short ⊢
    omega
  have exact : (x.hundredths : ℚ) / 100 = n * 2 ^ (x.exponent + 147) / 2 ^ 149 := by
    rw [hundredths_cast, multiple, pow_add]
    push_cast
    ring
  rw [exact]
  exact representable_scaled _ fewer (by omega)

/-- The single that a float is read as is the one nearest to its exact value, without a rival. -/
theorem toValue_isNearest (fits : x.Fits) : x.toValue.IsNearest (x.hundredths / 100) := by
  refine ⟨toValue_eq_nearest fits, toValue_finite fits, fun v other => ?_⟩
  have reach : |(x.hundredths : ℚ) / 100| ≤ 2 ^ 128 :=
    (abs_hundredths_div fits).trans (by norm_num)
  have nearest := rounded_nearest reach v
  rw [← toRat_toValue fits] at nearest
  refine lt_of_le_of_ne nearest fun same => ?_
  have tie := (abs_eq_abs.mp same).resolve_left fun equal => other (by linarith)
  have exact := rounded_representable (representable_of_tie fits (v := x.toValue) (w := v)
    (by linarith))
  rw [← toRat_toValue fits] at exact
  exact other (by linarith)

theorem hundredfold_close (fits : x.Fits) :
    Close (1 / 2 ^ 21) (x.toValue * 100).toRat x.hundredths := by
  have product := toRat_mul (toValue_finite fits) hundred_finite
  rw [toRat_hundred] at product
  rw [product]
  by_cases zero : x.hundredths = 0
  · simp [toRat_toValue fits, zero, Close]
  · have first := (toValue_close fits zero).mul 100
    rw [div_mul_cancel₀ _ (by norm_num)] at first
    have least := one_le_abs_hundredths zero
    have high := first.abs_le
    have low := first.le_abs
    have bound := abs_hundredths fits
    have second := rounded_close (q := x.toValue.toRat * 100) (by linarith) (by linarith)
    exact (second.trans first (by norm_num)).mono (by norm_num)

end KnxDatapoint.ShortFloat
