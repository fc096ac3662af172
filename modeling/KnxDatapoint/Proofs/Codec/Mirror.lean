import KnxDatapoint.Proofs.Codec.Float
import KnxDatapoint.Proofs.ShortFloat.Tolerance

/-! Opposite numbers, written and read as opposite values.
The mantissas reach one step farther below zero than above it. A number between 2047.5 and 2048.5
steps of an exponent therefore moves on to the next exponent while its opposite stays behind. Both
are rounded to 2048 of these steps, so the values agree where the words do not. -/
namespace KnxDatapoint.ShortFloat
open Rounding Single

variable {q : ℚ} {x y : ShortFloat} {exponent : ℕ}

/-- Two floats of opposite values: of one exponent and opposite mantissas, or the two forms of a
power of two, of which the negative one has the lesser exponent. -/
inductive Mirrored : ShortFloat → ShortFloat → Prop
  | alike (mantissa : ℤ) (exponent : ℕ) : Mirrored ⟨mantissa, exponent⟩ ⟨-mantissa, exponent⟩
  | ahead (exponent : ℕ) : Mirrored ⟨1024, exponent + 1⟩ ⟨-2048, exponent⟩
  | behind (exponent : ℕ) : Mirrored ⟨-2048, exponent⟩ ⟨1024, exponent + 1⟩

theorem Mirrored.symm (mirrored : Mirrored x y) : Mirrored y x := by
  cases mirrored with
  | alike mantissa exponent =>
    have back := Mirrored.alike (-mantissa) exponent
    rwa [InvolutiveNeg.neg_neg] at back
  | ahead exponent => exact .behind exponent
  | behind exponent => exact .ahead exponent

theorem Mirrored.hundredths (mirrored : Mirrored x y) :
    (y.hundredths : ℚ) = -x.hundredths := by
  rw [hundredths_cast, hundredths_cast]
  cases mirrored with
  | alike mantissa exponent =>
    push_cast
    ring
  | ahead exponent =>
    push_cast
    ring
  | behind exponent =>
    push_cast
    ring

theorem Mirrored.value (mirrored : Mirrored x y) (hx : x.Fits) (hy : y.Fits) :
    (y.toValue == -x.toValue) = true := by
  have opposite : y.toValue.toRat = (-x.toValue).toRat := by
    rw [toRat_neg, toRat_toValue hx, toRat_toValue hy, mirrored.hundredths, neg_div, rounded_neg]
  exact beq_iff_toRat.mpr ⟨finite_ne_nan (toValue_finite hy),
    finite_ne_nan (neg_finite (toValue_finite hx)), opposite⟩

/-! ## Exponents of opposite numbers -/

theorem fitsAt_neg_iff (nonneg : 0 ≤ q) :
    FitsAt (-q) exponent ↔ 2 * q < 4097 * 2 ^ exponent := by
  have positive := power_pos exponent
  rw [fitsAt_iff]
  constructor
  · rintro ⟨low, -⟩
    linarith
  · intro small
    constructor <;> linarith

theorem fitsAt_opposite (nonneg : 0 ≤ q) (fits : FitsAt q exponent) : FitsAt (-q) exponent := by
  have positive := power_pos exponent
  rw [fitsAt_iff] at fits
  rw [fitsAt_neg_iff nonneg]
  linarith

/-- The opposite number stays at an exponent that the number itself passes over. -/
theorem mirrored_band (fits : FitsAt (-q) exponent) (unfit : ¬ FitsAt q exponent) (nonneg : 0 ≤ q) :
    FitsAt q (exponent + 1) ∧ nearestWhole (q / 2 ^ (exponent + 1)) = 1024 ∧
      nearestWhole (-q / 2 ^ exponent) = -2048 := by
  have positive := power_pos exponent
  have double : (2 : ℚ) ^ (exponent + 1) = 2 * 2 ^ exponent := by ring
  have high := (fitsAt_neg_iff nonneg).mp fits
  have low : 4095 * 2 ^ exponent ≤ 2 * q := by
    rw [fitsAt_iff, not_and_or, not_lt, not_lt] at unfit
    rcases unfit with below | above
    · linarith
    · exact above
  refine ⟨?_, ?_, ?_⟩
  · rw [fitsAt_iff, double]
    constructor <;> linarith
  · apply nearestWhole_eq
    have below : q / 2 ^ (exponent + 1) < 2049 / 2 := by
      rw [double, div_lt_iff₀ (by linarith)]
      linarith
    have above : 2047 / 2 < q / 2 ^ (exponent + 1) := by
      rw [double, lt_div_iff₀ (by linarith)]
      linarith
    push_cast
    rw [abs_lt]
    constructor <;> linarith
  · -- a tie goes away from zero, so half a step is enough to reach the last mantissa
    have reached : nearestWhole (-q / 2 ^ exponent) < -2047 := by
      rw [nearestWhole_lt (by norm_num), div_le_iff₀ positive]
      push_cast
      linarith
    have least := fits.1
    have limits := mantissa_limits
    omega

theorem mirrored_of_nonneg (nonneg : 0 ≤ q) (inside : FitsAt q greatestExponent)
    (hx : Chosen q x) (hy : Chosen (-q) y) : Mirrored x y := by
  have first := hx.fitsAt inside
  have second := hy.fitsAt (fitsAt_opposite nonneg inside)
  have mantissa := hx.mantissa_of_fits first
  have mantissa' := hy.mantissa_of_fits second
  have order : y.exponent ≤ x.exponent := by
    by_contra behind
    exact hy.unfit (not_le.mp behind) (fitsAt_opposite nonneg first)
  rcases x with ⟨m, e⟩
  rcases y with ⟨m', e'⟩
  rcases order.lt_or_eq with coarse | same
  · obtain ⟨next, ahead, behind⟩ := mirrored_band second (hx.unfit coarse) nonneg
    obtain rfl : e = e' + 1 := by
      by_contra other
      exact hx.unfit (show e' + 1 < e by dsimp only at coarse; omega) next
    obtain rfl : m = 1024 := mantissa.trans ahead
    obtain rfl : m' = -2048 := mantissa'.trans behind
    exact .ahead e'
  · obtain rfl : e' = e := same
    obtain rfl : m' = -m := by
      rw [neg_div, nearestWhole_neg] at mantissa'
      dsimp only at mantissa mantissa'
      rw [mantissa', mantissa]
    exact .alike m e'

theorem mirrored_of_chosen (inside : FitsAt q greatestExponent)
    (inside' : FitsAt (-q) greatestExponent) (hx : Chosen q x) (hy : Chosen (-q) y) :
    Mirrored x y := by
  by_cases nonneg : 0 ≤ q
  · exact mirrored_of_nonneg nonneg inside hx hy
  · have back : - -q = q := InvolutiveNeg.neg_neg q
    exact (mirrored_of_nonneg (by linarith) inside' hy (by rwa [back])).symm

end KnxDatapoint.ShortFloat

namespace KnxDatapoint.Wire
open Single ShortFloat

/-- Short of the numbers that only the lower end of the format is close to, a number and its
opposite are written without a warning and read as opposite numbers. The words are those of one
exponent and opposite mantissas, or those of a power of two at two neighbouring exponents. -/
theorem packFloat_mirrored {v : Single} (low : -670924 ≤ v) (high : v ≤ 670924) :
    ∃ (word opposite : UInt16) (x y : Single),
      packFloat v = ⟨.ofWord word, []⟩ ∧ packFloat (-v) = ⟨.ofWord opposite, []⟩ ∧
      result (unpackFloat (packFloat v).value.toList) = .ok x ∧
      result (unpackFloat (packFloat (-v)).value.toList) = .ok y ∧
      (y == -x) = true ∧ Mirrored (ShortFloat.ofWord word) (ShortFloat.ofWord opposite) := by
  have bound : (670924 : Single).toRat = 670924 := toRat_ofNat (n := 670924) (by norm_num)
  obtain ⟨-, below, above⟩ := finite_between low high (by decide) (by decide)
  rw [toRat_neg, bound] at below
  rw [bound] at above
  have inside : FitsAt (v * 100).toRat greatestExponent := fitsAt_inside (by linarith) above
  have inside' : FitsAt (-v * 100).toRat greatestExponent := by
    apply fitsAt_inside <;> rw [toRat_neg] <;> linarith
  have reflected : (-v * 100).toRat = -(v * 100).toRat := by
    rw [toRat_hundredfold, toRat_hundredfold, toRat_neg, neg_mul, rounded_neg]
  have hx := ofValue_chosen v
  have hy := ofValue_chosen (-v)
  have mirrored : Mirrored (ofValue v).value (ofValue (-v)).value := by
    rw [reflected] at hy inside'
    exact mirrored_of_chosen inside inside' hx hy
  refine ⟨(ofValue v).value.toWord, (ofValue (-v)).value.toWord, _, _, ?_, ?_,
    unpackFloat_packFloat v, unpackFloat_packFloat (-v), mirrored.value hx.fits hy.fits, ?_⟩
  · rw [packFloat_eq, ofValue_records, if_pos inside]
  · rw [packFloat_eq, ofValue_records, if_pos inside']
  · rwa [ofWord_toWord hx.fits, ofWord_toWord hy.fits]

/-- The number 20.476 moves on to the next exponent, and its opposite does not. -/
theorem packFloat_mirrored_handover :
    -670924 ≤ Single.ofBits 0x41A3CED9 ∧ Single.ofBits 0x41A3CED9 ≤ 670924 ∧
    ShortFloat.ofWord 0x0C00 = ⟨1024, 1⟩ ∧ ShortFloat.ofWord 0x8000 = ⟨-2048, 0⟩ ∧
    ∃ (x y : Single), packFloat (Single.ofBits 0x41A3CED9) = ⟨.ofWord 0x0C00, []⟩ ∧
      packFloat (-Single.ofBits 0x41A3CED9) = ⟨.ofWord 0x8000, []⟩ ∧
      result (unpackFloat (packFloat (Single.ofBits 0x41A3CED9)).value.toList) = .ok x ∧
      result (unpackFloat (packFloat (-Single.ofBits 0x41A3CED9)).value.toList) = .ok y ∧
      (y == -x) = true := by
  have low : -670924 ≤ Single.ofBits 0x41A3CED9 := by decide
  have high : Single.ofBits 0x41A3CED9 ≤ 670924 := by decide
  obtain ⟨-, -, x, y, -, -, first, second, opposite, -⟩ := packFloat_mirrored low high
  exact ⟨low, high, by decide, by decide, x, y, by decide +kernel, by decide +kernel, first, second,
    opposite⟩

end KnxDatapoint.Wire
