import KnxDatapoint.Wire
import KnxDatapoint.Proofs.ShortFloat.Value
import KnxDatapoint.Proofs.ShortFloat.Word

/-! How far a number moves when it is written as a two-byte float and read again.
The mantissa is off by half a step of its exponent at most. The product before the search and the
quotient on the way back are rounded once each and add less than a thousandth of a step. Numbers up
to half a step beyond the ends of the format are found by the search like all others. -/
namespace KnxDatapoint.ShortFloat
open Rounding Single

variable {q : ℚ} {x : ShortFloat} {v : Single}

theorem Chosen.fitsAt (chosen : Chosen q x) (inside : FitsAt q greatestExponent) :
    FitsAt q x.exponent := by
  rcases chosen.exponent with ⟨⟨-, held⟩, -⟩ | ⟨unfit, -⟩
  · exact held
  · exact absurd inside (unfit _ le_rfl)

theorem Chosen.error (chosen : Chosen q x) (inside : FitsAt q greatestExponent) :
    |x.hundredths - q| ≤ 2 ^ x.exponent / 2 := by
  have held := chosen.fitsAt inside
  have positive := power_pos x.exponent
  have error := mul_le_mul_of_nonneg_right (nearestWhole_error (q / 2 ^ x.exponent)) positive.le
  rw [hundredths_cast, chosen.mantissa_of_fits held, grid_distance]
  linarith

theorem abs_hundredths_steps (fits : x.Fits) : |(x.hundredths : ℚ)| ≤ 2048 * 2 ^ x.exponent := by
  obtain ⟨low, high⟩ := hundredths_bounds fits le_rfl
  have positive := power_pos x.exponent
  rw [abs_le]
  constructor <;> linarith

theorem hundredfold_error (small : |v.toRat * 100| ≤ 2 ^ 128) :
    |(v * 100).toRat - v.toRat * 100| ≤ |v.toRat * 100| / 2 ^ 24 + 1 / 2 ^ 150 := by
  rw [toRat_hundredfold]
  exact rounded_error small

theorem toValue_error (fits : x.Fits) :
    |x.toValue.toRat - x.hundredths / 100| ≤ |(x.hundredths : ℚ) / 100| / 2 ^ 24 + 1 / 2 ^ 150 := by
  rw [toRat_toValue fits]
  exact rounded_error ((abs_hundredths_div fits).trans (by norm_num))

/-- Half a step and three small errors: the product, the quotient, and the tiniest numbers. -/
theorem tolerance_of_chosen (small : |v.toRat * 100| ≤ 2 ^ 128) (chosen : Chosen (v * 100).toRat x)
    (inside : FitsAt (v * 100).toRat greatestExponent) :
    |x.toValue.toRat - v.toRat| ≤ 501 / 100000 * 2 ^ x.exponent := by
  have fits := chosen.fits
  have unit : (1 : ℚ) ≤ 2 ^ x.exponent := one_le_pow₀ (by norm_num)
  have whole := abs_hundredths_steps fits
  have quotient := toValue_error fits
  have step := chosen.error inside
  have product := hundredfold_error small
  have reach : |v.toRat * 100| ≤ 2049 * 2 ^ x.exponent := by
    have detour := abs_sub_abs_le_abs_sub (v.toRat * 100) (v * 100).toRat
    have detour' := abs_sub_abs_le_abs_sub (v * 100).toRat x.hundredths
    rw [abs_sub_comm] at detour detour'
    linarith
  have part : |(x.hundredths : ℚ) / 100| = |(x.hundredths : ℚ)| / 100 := by
    rw [abs_div, abs_of_pos (by norm_num : (0 : ℚ) < 100)]
  rw [part] at quotient
  rw [abs_le] at quotient step product ⊢
  constructor <;> linarith

/-! ## The numbers that are found -/

theorem ends_representable : Representable 67092400 ∧ Representable (-67125200) := by
  have top := representable_int (k := 16773100) 2 (by norm_num) (by norm_num)
  have bottom := representable_int (k := -8390650) 3 (by norm_num) (by norm_num)
  norm_num at top bottom
  exact ⟨top, bottom⟩

theorem fitsAt_inside (low : -671252 ≤ v.toRat) (high : v.toRat ≤ 670924) :
    FitsAt (v * 100).toRat greatestExponent := by
  have above : v.toRat * 100 ≤ 67092400 := by linarith
  have below : -67125200 ≤ v.toRat * 100 := by linarith
  have top := rounded_mono above
  have bottom := rounded_mono below
  rw [rounded_representable ends_representable.1] at top
  rw [rounded_representable ends_representable.2] at bottom
  rw [toRat_hundredfold, fitsAt_iff, greatestExponent]
  constructor <;> linarith

theorem bounded_finite (low : -671252 ≤ v) (high : v ≤ 670924) :
    v.IsFinite ∧ -671252 ≤ v.toRat ∧ v.toRat ≤ 670924 := by
  have top : (670924 : Single).toRat = 670924 := toRat_ofNat (n := 670924) (by norm_num)
  have bottom : (671252 : Single).toRat = 671252 := toRat_ofNat (n := 671252) (by norm_num)
  have between := finite_between low high (by decide) (by decide)
  rwa [toRat_neg, top, bottom] at between

end KnxDatapoint.ShortFloat

namespace KnxDatapoint.Wire
open ShortFloat

theorem packFloat_eq (v : Single) :
    packFloat v = ⟨.ofWord (ofValue v).value.toWord, (ofValue v).records⟩ := by
  have bound : packFloat v = ⟨.ofWord (ofValue v).value.toWord, (ofValue v).records ++ []⟩ := rfl
  rw [bound, List.append_nil]

/-- A number that does not exceed the format by half a step of its greatest exponent is written
without a warning, and read again within half a step of the exponent it is written with; the rest of
the bound is for the roundings of the single. -/
theorem packFloat_tolerance {v : Single} (low : -671252 ≤ v) (high : v ≤ 670924) :
    ∃ (first second : UInt8) (x : Single), packFloat v = ⟨.two first second, []⟩ ∧
      (unpackFloat [first, second]).run = ⟨.ok x, []⟩ ∧ v.IsFinite ∧ x.IsFinite ∧
      |x.toRat - v.toRat| ≤
        501 / 100000 * 2 ^ (ShortFloat.ofWord (Payload.word first second)).exponent := by
  obtain ⟨finite, below, above⟩ := bounded_finite low high
  have inside := fitsAt_inside below above
  have chosen := ofValue_chosen v
  have small : |v.toRat * 100| ≤ 2 ^ 128 := abs_le.mpr ⟨by linarith, by linarith⟩
  obtain ⟨first, second, bytes, word⟩ := Payload.word_ofWord (ofValue v).value.toWord
  refine ⟨first, second, (ofValue v).value.toValue, ?_, ?_, finite, ?_, ?_⟩
  · rw [packFloat_eq, bytes, ofValue_records, if_pos inside]
  · have read : (unpackFloat [first, second]).run =
        ⟨.ok (ShortFloat.ofWord (Payload.word first second)).toValue, []⟩ := rfl
    rw [read, word, ofWord_toWord chosen.fits]
  · exact toValue_finite chosen.fits
  · rw [word, ofWord_toWord chosen.fits]
    exact tolerance_of_chosen small chosen inside

/-- The least such number is written as the lower end of the format, half a step away. -/
theorem packFloat_tolerance_lower_end :
    (-671252 : Single) ≤ -671252 ∧ (-671252 : Single) ≤ 670924 ∧
    packFloat (-671252) = ⟨.two 0xF8 0x00, []⟩ ∧
    ∃ (first second : UInt8) (x : Single), packFloat (-671252) = ⟨.two first second, []⟩ ∧
      (unpackFloat [first, second]).run = ⟨.ok x, []⟩ ∧ (-671252 : Single).IsFinite ∧ x.IsFinite ∧
      |x.toRat - (-671252 : Single).toRat| ≤
        501 / 100000 * 2 ^ (ShortFloat.ofWord (Payload.word first second)).exponent := by
  have low : (-671252 : Single) ≤ -671252 := by decide
  have high : (-671252 : Single) ≤ 670924 := by decide
  exact ⟨low, high, by decide +kernel, packFloat_tolerance low high⟩

end KnxDatapoint.Wire
