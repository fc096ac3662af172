import KnxDatapoint.Proofs.ShortFloat.Value

/-! Floats written with the least exponent, and what writing a value a second time does.
A value close to a float of the format is always found as the reduced form of that float. The search
itself stops at a reduced form with one exception: a number that is rejected at an exponent as just
beyond -2048 steps can round, one exponent higher, to the mantissa -1024 and so to -2048 steps. -/
namespace KnxDatapoint.ShortFloat
open Rounding Single

variable {q : ℚ} {x y : ShortFloat}

/-- Of all floats with its value a reduced one has the least exponent. -/
structure Reduced (x : ShortFloat) : Prop where
  fits : x.Fits
  least : ∀ y : ShortFloat, y.Fits → y.hundredths = x.hundredths → x.exponent ≤ y.exponent

/-- The form that a found float takes when its value is written again. -/
def settle (x : ShortFloat) : ShortFloat :=
  if x.mantissa = -1024 ∧ 1 ≤ x.exponent then ⟨-2048, x.exponent - 1⟩ else x

theorem ext_hundredths (exponents : x.exponent = y.exponent) (same : x.hundredths = y.hundredths) :
    x = y := by
  rcases x with ⟨m, e⟩
  rcases y with ⟨m', e'⟩
  obtain rfl : e = e' := exponents
  have power : ((1 <<< e : ℕ) : ℤ) ≠ 0 := by simp [Nat.shiftLeft_eq]
  obtain rfl : m = m' := mul_right_cancel₀ power same
  rfl

theorem reduced_unique (hx : Reduced x) (hy : Reduced y) (same : x.hundredths = y.hundredths) :
    x = y := by
  have up := hx.least y hy.fits same.symm
  have down := hy.least x hx.fits same
  exact ext_hundredths (by omega) same

theorem exists_reduced (fits : y.Fits) : ∃ x, Reduced x ∧ x.hundredths = y.hundredths := by
  induction size : y.exponent using Nat.strong_induction_on generalizing y with
  | _ exponent ih =>
    by_cases least :
        ∀ z : ShortFloat, z.Fits → z.hundredths = y.hundredths → y.exponent ≤ z.exponent
    · exact ⟨y, ⟨fits, least⟩, rfl⟩
    · push Not at least
      obtain ⟨z, fits', same, smaller⟩ := least
      obtain ⟨x, reduced, value⟩ := ih z.exponent (size ▸ smaller) fits' rfl
      exact ⟨x, reduced, value.trans same⟩

/-! ## Numbers close to a float -/

theorem hundredths_div {exponent : ℕ} (le : exponent ≤ x.exponent) :
    (x.hundredths : ℚ) / 2 ^ exponent = ((x.mantissa * 2 ^ (x.exponent - exponent) : ℤ) : ℚ) := by
  have split : x.exponent = x.exponent - exponent + exponent := by omega
  have power := power_pos exponent
  rw [hundredths_cast, div_eq_iff power.ne']
  push_cast
  rw [mul_assoc, ← pow_add, ← split]

theorem reduced_fitsAt (reduced : Reduced x) (close : Close (1 / 2 ^ 21) q x.hundredths) :
    nearestWhole (q / 2 ^ x.exponent) = x.mantissa := by
  have short : (|x.mantissa| : ℚ) ≤ 2048 := by exact_mod_cast mantissa_short reduced.fits
  have near := close.div (2 ^ x.exponent)
  rw [hundredths_div le_rfl, Nat.sub_self, pow_zero, mul_one] at near
  have bound : |q / 2 ^ x.exponent - x.mantissa| ≤ 1 / 2 ^ 21 * |(x.mantissa : ℚ)| := near
  exact nearestWhole_eq (by linarith)

theorem reduced_not_fitsAt (reduced : Reduced x) (close : Close (1 / 2 ^ 21) q x.hundredths)
    {exponent : ℕ} (lt : exponent < x.exponent) : ¬ FitsAt q exponent := by
  have near := close.div (2 ^ exponent)
  have whole := hundredths_div lt.le
  have small : exponent ≤ greatestExponent := lt.le.trans reduced.fits.2.2
  rw [whole] at near
  generalize x.mantissa * 2 ^ (x.exponent - exponent) = n at whole near
  -- written with the lesser exponent the value would need the mantissa n
  have outside : n < -2048 ∨ 2047 < n := by
    by_contra inside
    push Not at inside
    have same : (⟨n, exponent⟩ : ShortFloat).hundredths = x.hundredths := by
      have value : (((⟨n, exponent⟩ : ShortFloat).hundredths : ℤ) : ℚ) = x.hundredths := by
        rw [hundredths_cast, ← whole, div_mul_cancel₀ _ (power_pos exponent).ne']
      exact_mod_cast value
    have least := reduced.least ⟨n, exponent⟩ ⟨inside.1, inside.2, small⟩ same
    exact absurd lt (not_lt.mpr least)
  have bound : |q / 2 ^ exponent - n| ≤ 1 / 2 ^ 21 * |(n : ℚ)| := near
  obtain ⟨low, high⟩ := abs_le.mp bound
  have limits := mantissa_limits
  rintro ⟨above, below⟩
  rcases outside with left | right
  · have less : n ≤ -2049 := by omega
    have far : (n : ℚ) ≤ -2049 := by exact_mod_cast less
    rw [abs_of_neg (by linarith)] at high
    have under : nearestWhole (q / 2 ^ exponent) < -2048 := by
      rw [nearestWhole_lt (by norm_num)]
      push_cast
      linarith
    omega
  · have more : 2048 ≤ n := by omega
    have far : (2048 : ℚ) ≤ n := by exact_mod_cast more
    rw [abs_of_pos (by linarith)] at low
    have beyond : 2047 < nearestWhole (q / 2 ^ exponent) := by
      rw [lt_nearestWhole (by norm_num)]
      push_cast
      linarith
    omega

theorem chosen_of_close (reduced : Reduced x) (close : Close (1 / 2 ^ 21) q x.hundredths) :
    Chosen q x := by
  have mantissa := reduced_fitsAt reduced close
  obtain ⟨low, high, small⟩ := reduced.fits
  constructor
  · refine .inl ⟨⟨small, ?_⟩, ?_⟩
    · rw [FitsAt, mantissa]
      exact ⟨low, high⟩
    · rintro exponent ⟨-, fits⟩
      by_contra lt
      exact reduced_not_fitsAt reduced close (not_le.mp lt) fits
  · rw [mantissa, min_eq_right high, max_eq_right low]

theorem Chosen.unique (hx : Chosen q x) (hy : Chosen q y) : x = y := by
  have exponents : x.exponent = y.exponent := by
    rcases hx.exponent with fit | ⟨unfit, last⟩ <;> rcases hy.exponent with fit' | ⟨unfit', last'⟩
    · exact fit.unique fit'
    · exact absurd fit.1.2 (unfit' _ fit.1.1)
    · exact absurd fit'.1.2 (unfit _ fit'.1.1)
    · exact last.trans last'.symm
  have mantissas : x.mantissa = y.mantissa := by rw [hx.mantissa, hy.mantissa, exponents]
  cases x
  cases y
  simp_all

/-- A tie between two floats belongs to one of them, so a greater number has no lesser float. -/
theorem Chosen.mono {p : ℚ} (hx : Chosen p x) (hy : Chosen q y) (le : p ≤ q) :
    (x.hundredths : ℚ) ≤ y.hundredths := by
  by_contra above
  have lt := not_le.mp above
  have first := sq_le_sq.mpr (hx.nearest hy.fits)
  have second := sq_le_sq.mpr (hy.nearest hx.fits)
  have low : (x.hundredths : ℚ) + y.hundredths ≤ 2 * p := by nlinarith
  have high : 2 * q ≤ (x.hundredths : ℚ) + y.hundredths := by nlinarith
  have same : p = q := by linarith
  -- one number half way between both would have two floats
  subst same
  exact lt.ne (by rw [hx.unique hy])

theorem ofValue_toValue (fits : y.Fits) : Reduced (ofValue y.toValue).value ∧
    (ofValue y.toValue).value.hundredths = y.hundredths := by
  obtain ⟨z, reduced, same⟩ := exists_reduced fits
  have close := hundredfold_close fits
  rw [← same] at close
  have found := (ofValue_chosen y.toValue).unique (chosen_of_close reduced close)
  rw [found]
  exact ⟨reduced, same⟩

/-! ## Where the search stops -/

theorem reduced_of_large (fits : x.Fits)
    (large : x.exponent = 0 ∨ x.mantissa < -1024 ∨ 1024 ≤ x.mantissa) : Reduced x := by
  refine ⟨fits, fun y fits' same => ?_⟩
  by_contra smaller
  have limits := mantissa_limits
  have positive := power_pos y.exponent
  have value : y.mantissa = x.mantissa * 2 ^ (x.exponent - y.exponent) := by
    have quotient := hundredths_div (x := x) (not_le.mp smaller).le
    rw [← same, hundredths_cast, mul_div_assoc, div_self positive.ne', mul_one] at quotient
    exact_mod_cast quotient
  have twice : (2 : ℤ) ≤ 2 ^ (x.exponent - y.exponent) := by
    have grown := pow_le_pow_right₀ (show (1 : ℤ) ≤ 2 by norm_num)
      (show 1 ≤ x.exponent - y.exponent by omega)
    simpa using grown
  obtain ⟨low, high, -⟩ := fits'
  rcases large with none | below | above
  · omega
  · nlinarith
  · nlinarith

theorem Chosen.large (chosen : Chosen q x) :
    x.exponent = 0 ∨ x.mantissa ≤ -1024 ∨ 1024 ≤ x.mantissa := by
  by_cases first : x.exponent = 0
  · exact .inl first
  · obtain ⟨previous, next⟩ : ∃ previous, x.exponent = previous + 1 := ⟨x.exponent - 1, by omega⟩
    have unfit : ¬ FitsAt q previous := chosen.unfit (by omega)
    have limits := mantissa_limits
    have mantissa := chosen.mantissa
    have double : (2 : ℚ) ^ x.exponent = 2 * 2 ^ previous := by rw [next]; ring
    have positive := power_pos previous
    rw [fitsAt_iff, not_and_or, not_lt, not_lt] at unfit
    rcases unfit with below | above
    · have under : nearestWhole (q / 2 ^ x.exponent) < -1023 := by
        rw [nearestWhole_lt (by norm_num), double, div_le_iff₀ (by positivity)]
        push_cast
        linarith
      exact .inr (.inl (by omega))
    · have beyond : 1023 < nearestWhole (q / 2 ^ x.exponent) := by
        rw [lt_nearestWhole (by norm_num), double, le_div_iff₀ (by positivity)]
        push_cast
        linarith
      exact .inr (.inr (by omega))

theorem lowest_fits {exponent : ℕ} (small : exponent ≤ greatestExponent) :
    (⟨-2048, exponent⟩ : ShortFloat).Fits :=
  ⟨le_rfl, by norm_num [greatestMantissa], small⟩

theorem settle_hundredths (x : ShortFloat) : x.settle.hundredths = x.hundredths := by
  unfold settle
  split
  · rename_i raised
    obtain ⟨previous, next⟩ : ∃ previous, x.exponent = previous + 1 :=
      ⟨x.exponent - 1, by omega⟩
    simp only [hundredths, raised.1, next, Nat.add_sub_cancel, Nat.shiftLeft_eq, Nat.one_mul]
    push_cast
    ring
  · rfl

theorem Chosen.settle_reduced (chosen : Chosen q x) : Reduced x.settle := by
  have large := chosen.large
  obtain ⟨low, high, small⟩ := chosen.fits
  unfold settle
  split
  · rename_i raised
    have fits := lowest_fits ((Nat.sub_le x.exponent 1).trans small)
    exact reduced_of_large fits (.inr (.inl (by norm_num)))
  · refine reduced_of_large ⟨low, high, small⟩ ?_
    omega

/-- Written, read and written again, a number takes the settled form of its first float. -/
theorem written_again (fits : x.Fits) (settled : Reduced x.settle) :
    (ofValue x.toValue).value = x.settle := by
  obtain ⟨reduced, same⟩ := ofValue_toValue fits
  exact reduced_unique reduced settled (same.trans (settle_hundredths x).symm)

end KnxDatapoint.ShortFloat
