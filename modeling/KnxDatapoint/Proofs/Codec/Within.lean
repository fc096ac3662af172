import KnxDatapoint.Proofs.Codec.Float
import KnxDatapoint.Proofs.ShortFloat.Embedding
import KnxDatapoint.Proofs.ShortFloat.Tolerance

/-! Two-byte floats written between any two bounds around zero.
The float found for a number may lie beyond a bound that the number itself keeps. One step toward
zero then does not pass the number: a number on the near side of that step would have been rounded
to it. So the step always leads back between the bounds, and never beyond zero. -/
namespace KnxDatapoint.ShortFloat
open Rounding Single

variable {range : Range} {v : Single} {p q : ℚ} {x y : ShortFloat}

/-! ## Signs -/

theorem steps_pos (exponent : ℕ) : (0 : ℤ) < (1 <<< exponent : ℕ) := by
  simp [Nat.shiftLeft_eq]

theorem hundredths_pos_iff : 0 < x.hundredths ↔ 0 < x.mantissa :=
  mul_pos_iff_of_pos_right (steps_pos x.exponent)

theorem hundredths_neg_iff : x.hundredths < 0 ↔ x.mantissa < 0 := by
  have cancel := mul_lt_mul_iff_left₀ (b := x.mantissa) (c := 0) (steps_pos x.exponent)
  rwa [zero_mul] at cancel

theorem hundredths_nonneg (nonneg : 0 ≤ x.mantissa) : 0 ≤ x.hundredths :=
  not_lt.mp (mt hundredths_neg_iff.mp (not_lt.mpr nonneg))

theorem hundredths_nonpos (nonpos : x.mantissa ≤ 0) : x.hundredths ≤ 0 :=
  not_lt.mp (mt hundredths_pos_iff.mp (not_lt.mpr nonpos))

theorem toValue_nonneg (fits : x.Fits) (nonneg : 0 ≤ x.mantissa) : 0 ≤ x.toValue.toRat := by
  have whole : (0 : ℚ) ≤ x.hundredths := by exact_mod_cast hundredths_nonneg nonneg
  rw [toRat_toValue fits]
  exact rounded_nonneg (div_nonneg whole (by norm_num))

theorem toValue_nonpos (fits : x.Fits) (nonpos : x.mantissa ≤ 0) : x.toValue.toRat ≤ 0 := by
  have whole : (x.hundredths : ℚ) ≤ 0 := by exact_mod_cast hundredths_nonpos nonpos
  calc x.toValue.toRat = rounded (x.hundredths / 100) := toRat_toValue fits
    _ ≤ rounded 0 := rounded_mono (div_nonpos_of_nonpos_of_nonneg whole (by norm_num))
    _ = 0 := rounded_zero

theorem Chosen.mantissa_nonneg (chosen : Chosen q x) (nonneg : 0 ≤ q) : 0 ≤ x.mantissa := by
  have quotient := nearestWhole_mono (div_nonneg nonneg (power_pos x.exponent).le)
  have start : nearestWhole 0 = 0 := nearestWhole_intCast 0
  have mantissa := chosen.mantissa
  have limits := mantissa_limits
  omega

theorem Chosen.mantissa_nonpos (chosen : Chosen q x) (nonpos : q ≤ 0) : x.mantissa ≤ 0 := by
  have quotient := nearestWhole_mono (div_nonpos_of_nonpos_of_nonneg nonpos
    (power_pos x.exponent).le)
  have start : nearestWhole 0 = 0 := nearestWhole_intCast 0
  have mantissa := chosen.mantissa
  have limits := mantissa_limits
  omega

/-! ## One step toward zero -/

theorem towardZero_positive (positive : 0 < x.mantissa) :
    x.towardZero = ⟨x.mantissa - 1, x.exponent⟩ := by
  rw [towardZero, Int.sign_eq_one_of_pos positive]

theorem towardZero_negative (negative : x.mantissa < 0) :
    x.towardZero = ⟨x.mantissa + 1, x.exponent⟩ := by
  rw [towardZero, Int.sign_eq_neg_one_of_neg negative, sub_neg_eq_add]

theorem lowered_fits (fits : x.Fits) (positive : 0 < x.mantissa) :
    (⟨x.mantissa - 1, x.exponent⟩ : ShortFloat).Fits := by
  obtain ⟨low, high, small⟩ := fits
  have limits := mantissa_limits
  exact ⟨by dsimp only; omega, by dsimp only; omega, small⟩

theorem raised_fits (fits : x.Fits) (negative : x.mantissa < 0) :
    (⟨x.mantissa + 1, x.exponent⟩ : ShortFloat).Fits := by
  obtain ⟨low, high, small⟩ := fits
  have limits := mantissa_limits
  exact ⟨by dsimp only; omega, by dsimp only; omega, small⟩

theorem lowered_hundredths (x : ShortFloat) :
    ((⟨x.mantissa - 1, x.exponent⟩ : ShortFloat).hundredths : ℚ) =
      x.hundredths - 2 ^ x.exponent := by
  rw [hundredths_cast, hundredths_cast]
  push_cast
  ring

theorem raised_hundredths (x : ShortFloat) :
    ((⟨x.mantissa + 1, x.exponent⟩ : ShortFloat).hundredths : ℚ) =
      x.hundredths + 2 ^ x.exponent := by
  rw [hundredths_cast, hundredths_cast]
  push_cast
  ring

/-- A number below the step down from its float would have been rounded to that step. -/
theorem Chosen.lowered_le (chosen : Chosen (rounded p) x) (positive : 0 < x.mantissa) :
    ((⟨x.mantissa - 1, x.exponent⟩ : ShortFloat).hundredths : ℚ) ≤ p := by
  have grid := representable_hundredths (lowered_fits chosen.fits positive)
  by_contra above
  have moved := rounded_mono (not_le.mp above).le
  rw [rounded_representable grid, hundredths_cast] at moved
  have quotient := (div_le_iff₀ (power_pos x.exponent)).mpr moved
  have whole := nearestWhole_mono quotient
  simp only [nearestWhole_intCast] at whole
  have mantissa := chosen.mantissa
  have limits := mantissa_limits
  omega

theorem Chosen.le_raised (chosen : Chosen (rounded p) x) (negative : x.mantissa < 0) :
    p ≤ (⟨x.mantissa + 1, x.exponent⟩ : ShortFloat).hundredths := by
  have grid := representable_hundredths (raised_fits chosen.fits negative)
  by_contra below
  have moved := rounded_mono (not_le.mp below).le
  rw [rounded_representable grid, hundredths_cast] at moved
  have quotient := (le_div_iff₀ (power_pos x.exponent)).mpr moved
  have whole := nearestWhole_mono quotient
  simp only [nearestWhole_intCast] at whole
  have mantissa := chosen.mantissa
  have limits := mantissa_limits
  omega

/-! ## What is written -/

/-- A float gives way only where its value lies beyond a bound, to the next one toward zero. -/
inductive Stepped (range : Range) (found : ShortFloat) : ShortFloat → Prop where
  | kept (inside : found.toValue ∈ range) : Stepped range found found
  | lowered (above : range.greatest < found.toValue) (positive : 0 < found.mantissa) :
      Stepped range found ⟨found.mantissa - 1, found.exponent⟩
  | raised (below : found.toValue < range.least) (negative : found.mantissa < 0) :
      Stepped range found ⟨found.mantissa + 1, found.exponent⟩

theorem bounds_toRat (zero : 0 ∈ range) : range.least ≠ .nan ∧ range.greatest ≠ .nan ∧
    range.least.toRat ≤ 0 ∧ 0 ≤ range.greatest.toRat := by
  obtain ⟨least, -, low⟩ := le_iff_toRat.mp zero.1
  obtain ⟨-, greatest, high⟩ := le_iff_toRat.mp zero.2
  rw [toRat_zero] at low high
  exact ⟨least, greatest, low, high⟩

theorem within_stepped (zero : 0 ∈ range) (v : Single) :
    Stepped range (ofValue v).value (within range v).value := by
  obtain ⟨least, greatest, low, high⟩ := bounds_toRat zero
  have fits := (ofValue_chosen v).fits
  rw [FloatType.within_value]
  by_cases above : range.greatest < (ofValue v).value.toValue
  · have positive : 0 < (ofValue v).value.mantissa := by
      by_contra nonpos
      have beyond := (lt_iff_toRat.mp above).2.2
      linarith [toValue_nonpos fits (not_lt.mp nonpos)]
    rw [if_pos (.inl above), towardZero_positive positive]
    exact .lowered above positive
  · by_cases below : (ofValue v).value.toValue < range.least
    · have negative : (ofValue v).value.mantissa < 0 := by
        by_contra nonneg
        have beyond := (lt_iff_toRat.mp below).2.2
        linarith [toValue_nonneg fits (not_lt.mp nonneg)]
      rw [if_pos (.inr below), towardZero_negative negative]
      exact .raised below negative
    · have number := finite_ne_nan (toValue_finite fits)
      rw [if_neg (not_or.mpr ⟨above, below⟩)]
      exact .kept ⟨(not_lt_iff number least).mp below, (not_lt_iff greatest number).mp above⟩

theorem Stepped.fits (stepped : Stepped range x y) (fits : x.Fits) : y.Fits := by
  cases stepped with
  | kept => exact fits
  | lowered _ positive => exact lowered_fits fits positive
  | raised _ negative => exact raised_fits fits negative

theorem Stepped.exponent_eq (stepped : Stepped range x y) : y.exponent = x.exponent := by
  cases stepped <;> rfl

theorem Stepped.mantissa_nonneg (stepped : Stepped range x y) (nonneg : 0 ≤ x.mantissa) :
    0 ≤ y.mantissa := by
  cases stepped with
  | kept => exact nonneg
  | lowered _ positive => exact Int.le_sub_one_of_lt positive
  | raised _ negative => exact absurd nonneg (not_le.mpr negative)

theorem Stepped.mantissa_nonpos (stepped : Stepped range x y) (nonpos : x.mantissa ≤ 0) :
    y.mantissa ≤ 0 := by
  cases stepped with
  | kept => exact nonpos
  | lowered _ positive => exact absurd nonpos (not_le.mpr positive)
  | raised _ negative => exact Int.add_one_le_iff.mpr negative

/-! ## Readings of what is written -/

theorem toValue_le (fits : x.Fits) (le : (x.hundredths : ℚ) ≤ v.toRat * 100) :
    x.toValue.toRat ≤ v.toRat := by
  have below : (x.hundredths : ℚ) / 100 ≤ v.toRat := by linarith
  calc x.toValue.toRat = rounded (x.hundredths / 100) := toRat_toValue fits
    _ ≤ rounded v.toRat := rounded_mono below
    _ = v.toRat := rounded_representable (representable_toRat v)

theorem le_toValue (fits : x.Fits) (le : v.toRat * 100 ≤ x.hundredths) :
    v.toRat ≤ x.toValue.toRat := by
  have above : v.toRat ≤ (x.hundredths : ℚ) / 100 := by linarith
  calc v.toRat = rounded v.toRat := (rounded_representable (representable_toRat v)).symm
    _ ≤ rounded (x.hundredths / 100) := rounded_mono above
    _ = x.toValue.toRat := (toRat_toValue fits).symm

theorem ofValue_hundredfold (v : Single) : Chosen (rounded (v.toRat * 100)) (ofValue v).value := by
  rw [← toRat_hundredfold]
  exact ofValue_chosen v

/-- The reading of a float that gave way lies between zero and the number. -/
theorem Stepped.toRat_between (stepped : Stepped range (ofValue v).value y)
    (held : v ∈ range) : y = (ofValue v).value ∧ y.toValue ∈ range ∨
      0 ≤ y.toValue.toRat ∧ y.toValue.toRat ≤ v.toRat ∧
        v.toRat < (ofValue v).value.toValue.toRat ∨
      (ofValue v).value.toValue.toRat < v.toRat ∧ v.toRat ≤ y.toValue.toRat ∧
        y.toValue.toRat ≤ 0 := by
  have chosen := ofValue_hundredfold v
  have fits := stepped.fits chosen.fits
  have nonneg := stepped.mantissa_nonneg
  have nonpos := stepped.mantissa_nonpos
  cases stepped with
  | kept inside => exact .inl ⟨rfl, inside⟩
  | lowered above positive =>
    have beyond := (le_iff_toRat.mp held.2).2.2.trans_lt (lt_iff_toRat.mp above).2.2
    exact .inr (.inl ⟨toValue_nonneg fits (nonneg positive.le),
      toValue_le fits (chosen.lowered_le positive), beyond⟩)
  | raised below negative =>
    have beyond := (lt_iff_toRat.mp below).2.2.trans_le (le_iff_toRat.mp held.1).2.2
    exact .inr (.inr ⟨beyond, le_toValue fits (chosen.le_raised negative),
      toValue_nonpos fits (nonpos negative.le)⟩)

theorem within_range (zero : 0 ∈ range) (held : v ∈ range) :
    (within range v).value.toValue ∈ range := by
  have stepped := within_stepped zero v
  have number := finite_ne_nan (toValue_finite (stepped.fits (ofValue_chosen v).fits))
  obtain ⟨least, greatest, start, stop⟩ := bounds_toRat zero
  have low := (le_iff_toRat.mp held.1).2.2
  have high := (le_iff_toRat.mp held.2).2.2
  rw [mem_range, le_iff_toRat, le_iff_toRat]
  rcases stepped.toRat_between held with ⟨-, inside⟩ | ⟨nonneg, under, -⟩ | ⟨-, past, nonpos⟩
  · exact ⟨le_iff_toRat.mp inside.1, le_iff_toRat.mp inside.2⟩
  · exact ⟨⟨least, number, start.trans nonneg⟩, number, greatest, under.trans high⟩
  · exact ⟨⟨least, number, low.trans past⟩, number, greatest, nonpos.trans stop⟩

theorem within_nonneg (zero : 0 ∈ range) (nonneg : 0 ≤ v) :
    0 ≤ (within range v).value.toValue := by
  have stepped := within_stepped zero v
  have chosen := ofValue_hundredfold v
  have fits := stepped.fits chosen.fits
  obtain ⟨-, -, sign⟩ := le_iff_toRat.mp nonneg
  rw [toRat_zero] at sign
  have found := chosen.mantissa_nonneg (rounded_nonneg (by linarith))
  rw [le_iff_toRat, toRat_zero]
  exact ⟨by decide, finite_ne_nan (toValue_finite fits),
    toValue_nonneg fits (stepped.mantissa_nonneg found)⟩

theorem within_nonpos (zero : 0 ∈ range) (nonpos : v ≤ 0) :
    (within range v).value.toValue ≤ 0 := by
  have stepped := within_stepped zero v
  have chosen := ofValue_hundredfold v
  have fits := stepped.fits chosen.fits
  obtain ⟨-, -, sign⟩ := le_iff_toRat.mp nonpos
  rw [toRat_zero] at sign
  have product := rounded_mono (show v.toRat * 100 ≤ 0 by linarith)
  have found := chosen.mantissa_nonpos (product.trans rounded_zero.le)
  rw [le_iff_toRat, toRat_zero]
  exact ⟨finite_ne_nan (toValue_finite fits), by decide,
    toValue_nonpos fits (stepped.mantissa_nonpos found)⟩

/-! ## Distance -/

/-- Readings of neighbours are a step apart, up to the two roundings of the single. -/
theorem neighbours_close (hx : x.Fits) (hy : y.Fits) (exponents : y.exponent = x.exponent)
    (next : |(x.hundredths : ℚ) - y.hundredths| ≤ 2 ^ x.exponent) :
    |x.toValue.toRat - y.toValue.toRat| < 1001 / 100000 * 2 ^ x.exponent := by
  have unit : (1 : ℚ) ≤ 2 ^ x.exponent := one_le_pow₀ (by norm_num)
  have part (z : ShortFloat) : |(z.hundredths : ℚ) / 100| = |(z.hundredths : ℚ)| / 100 := by
    rw [abs_div, abs_of_pos (by norm_num : (0 : ℚ) < 100)]
  have first := toValue_error hx
  have second := toValue_error hy
  have whole := abs_hundredths_steps hx
  have whole' := abs_hundredths_steps hy
  rw [exponents] at whole'
  rw [part] at first second
  rw [abs_le] at first second next
  rw [abs_lt]
  constructor <;> linarith

theorem Stepped.neighbour (stepped : Stepped range x y) :
    |(x.hundredths : ℚ) - y.hundredths| ≤ 2 ^ x.exponent := by
  have positive := power_pos x.exponent
  cases stepped with
  | kept => simp [positive.le]
  | lowered => rw [lowered_hundredths, sub_sub_cancel, abs_of_pos positive]
  | raised => rw [raised_hundredths, sub_add_cancel_left, abs_neg, abs_of_pos positive]

theorem within_tolerance (zero : 0 ∈ range) (held : v ∈ range) (low : -671252 ≤ v.toRat)
    (high : v.toRat ≤ 670924) : |(within range v).value.toValue.toRat - v.toRat| <
      1001 / 100000 * 2 ^ (within range v).value.exponent := by
  have stepped := within_stepped zero v
  have chosen := ofValue_chosen v
  have near := neighbours_close chosen.fits (stepped.fits chosen.fits) stepped.exponent_eq
    stepped.neighbour
  have positive := power_pos (ofValue v).value.exponent
  rw [stepped.exponent_eq]
  rcases stepped.toRat_between held with ⟨same, -⟩ | ⟨-, under, past⟩ | ⟨under, past, -⟩
  · have small : |v.toRat * 100| ≤ 2 ^ 128 := abs_le.mpr ⟨by linarith, by linarith⟩
    have error := tolerance_of_chosen small chosen (fitsAt_inside low high)
    rw [same]
    linarith
  · rw [abs_lt] at near ⊢
    constructor <;> linarith
  · rw [abs_lt] at near ⊢
    constructor <;> linarith

end KnxDatapoint.ShortFloat

namespace KnxDatapoint.Wire
open Single ShortFloat

variable {range : Range} {v : Single}

theorem packFloatWithin_value (range : Range) (v : Single) :
    (packFloatWithin range v).value = .ofWord (within range v).value.toWord := rfl

theorem packFloatWithin_kept (inside : (ofValue v).value.toValue ∈ range) :
    (packFloatWithin range v).value = (packFloat v).value := by
  rw [packFloatWithin_value, FloatType.within_of_mem inside]
  rfl

theorem unpackFloat_within (zero : 0 ∈ range) (v : Single) :
    result (unpackFloat (packFloatWithin range v).value.toList) =
      .ok (within range v).value.toValue :=
  unpackFloat_word ((within_stepped zero v).fits (ofValue_chosen v).fits)

/-- A number between bounds around zero is read again between them and on its own side of zero. It
is written as it would be without bounds wherever that is read between them too. Where the format
does not saturate, the reading misses the number by no more than a step of the exponent written, but
for the two roundings of the single. -/
theorem packFloatWithin_bounded (zero : 0 ∈ range) (held : v ∈ range) :
    ∃ (first second : UInt8) (x : Single),
      (packFloatWithin range v).value = .two first second ∧
      (unpackFloat [first, second]).run = ⟨.ok x, []⟩ ∧ x ∈ range ∧
      (0 ≤ v → 0 ≤ x) ∧ (v ≤ 0 → x ≤ 0) ∧
      (∀ y, result (unpackFloat (packFloat v).value.toList) = .ok y → y ∈ range →
        (packFloatWithin range v).value = (packFloat v).value) ∧
      (-671252 ≤ v → v ≤ 670924 → v.IsFinite ∧ x.IsFinite ∧
        |x.toRat - v.toRat| <
          1001 / 100000 * 2 ^ (ShortFloat.ofWord (Payload.word first second)).exponent) := by
  have fits := (within_stepped zero v).fits (ofValue_chosen v).fits
  obtain ⟨first, second, bytes, word⟩ := Payload.word_ofWord (within range v).value.toWord
  have written : ShortFloat.ofWord (Payload.word first second) = (within range v).value := by
    rw [word, ofWord_toWord fits]
  refine ⟨first, second, _, bytes, rfl, ?_⟩
  rw [written]
  refine ⟨within_range zero held, within_nonneg zero, within_nonpos zero, ?_, ?_⟩
  · intro y read inside
    rw [unpackFloat_packFloat, Except.ok.injEq] at read
    exact packFloatWithin_kept (read ▸ inside)
  · intro low high
    obtain ⟨finite, below, above⟩ := bounded_finite low high
    exact ⟨finite, toValue_finite fits, within_tolerance zero held below above⟩

/-- The greatest number of its range, 20.476, is found as 20.48 and read as 20.46. -/
theorem packFloatWithin_bounded_handover :
    (0 : Single) ∈ (⟨-1, .ofBits 0x41A3CED9⟩ : Range) ∧
    Single.ofBits 0x41A3CED9 ∈ (⟨-1, .ofBits 0x41A3CED9⟩ : Range) ∧
    (packFloatWithin ⟨-1, .ofBits 0x41A3CED9⟩ (.ofBits 0x41A3CED9)).value = .two 0x0B 0xFF ∧
    ∃ (first second : UInt8) (x : Single),
      (packFloatWithin ⟨-1, .ofBits 0x41A3CED9⟩ (.ofBits 0x41A3CED9)).value = .two first second ∧
      (unpackFloat [first, second]).run = ⟨.ok x, []⟩ ∧
      x ∈ (⟨-1, .ofBits 0x41A3CED9⟩ : Range) ∧ 0 ≤ x ∧
      |x.toRat - (Single.ofBits 0x41A3CED9).toRat| <
        1001 / 100000 * 2 ^ (ShortFloat.ofWord (Payload.word first second)).exponent := by
  have zero : (0 : Single) ∈ (⟨-1, .ofBits 0x41A3CED9⟩ : Range) := by decide
  have held : Single.ofBits 0x41A3CED9 ∈ (⟨-1, .ofBits 0x41A3CED9⟩ : Range) := by decide
  obtain ⟨first, second, x, bytes, read, inside, nonneg, -, -, near⟩ :=
    packFloatWithin_bounded zero held
  obtain ⟨-, -, close⟩ := near (by decide) (by decide)
  exact ⟨zero, held, by decide +kernel, first, second, x, bytes, read, inside,
    nonneg (by decide), close⟩

end KnxDatapoint.Wire
