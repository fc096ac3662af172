import KnxDatapoint.Proofs.Codec.Result
import KnxDatapoint.Proofs.ShortFloat.Reduced
import KnxDatapoint.Proofs.ShortFloat.Word

/-! Two-byte floats held to a range: what is written lies in the range and is read back unchanged.
Only the greatest float of the format lies outside, and one step takes it inside again. -/
namespace KnxDatapoint.FloatType
open Rounding Single ShortFloat

variable {v x : Single} {f : ShortFloat}

theorem range_finite (kind : FloatType) :
    kind.range.least.IsFinite ∧ kind.range.greatest.IsFinite := by
  cases kind <;> decide

theorem toRat_greatest (kind : FloatType) : kind.range.greatest.toRat = 670760 := by
  cases kind <;> exact toRat_ofNat (n := 670760) (by norm_num)

theorem least_bounds (kind : FloatType) :
    -273 ≤ kind.range.least.toRat ∧ kind.range.least.toRat ≤ 0 := by
  have low : (-273 : Single).toRat = -273 := by
    have value : (273 : Single).toRat = 273 := toRat_ofNat (n := 273) (by norm_num)
    rw [toRat_neg, value]
  cases kind with
  | temperature => exact ⟨low.ge, low.le.trans (by norm_num)⟩
  | illumination => exact ⟨by simp only [range, toRat_zero]; norm_num, toRat_zero.le⟩

theorem finite_of_mem {kind : FloatType} (held : x ∈ kind.range) :
    x.IsFinite ∧ kind.range.least.toRat ≤ x.toRat ∧ x.toRat ≤ 670760 := by
  have between := finite_between held.1 held.2 kind.range_finite.1 kind.range_finite.2
  rwa [toRat_greatest] at between

/-- The float found for the least number of the range lies in the range, and greater numbers have
no lesser floats. -/
theorem least_le_nearest {kind : FloatType} (held : v ∈ kind.range) :
    kind.range.least ≤ (ofValue v).value.toValue := by
  have start : kind.range.least ≤ (ofValue kind.range.least).value.toValue := by
    cases kind <;> decide +kernel
  obtain ⟨-, low, -⟩ := finite_of_mem held
  have grown := (ofValue_chosen kind.range.least).mono (ofValue_chosen v) (hundredfold_mono low)
  have above := toValue_mono (ofValue_chosen _).fits (ofValue_chosen v).fits grown
  rw [le_iff_toRat] at start above ⊢
  exact ⟨start.1, above.2.1, start.2.2.trans above.2.2⟩

theorem greatest_of_beyond (fits : f.Fits) (beyond : 2046 * 2 ^ 15 < (f.hundredths : ℚ)) :
    f = ⟨2047, 15⟩ := by
  have last : f.exponent = 15 := by
    by_contra other
    have small : f.exponent ≤ 15 := fits.2.2
    have lower : f.exponent ≤ 14 := by omega
    have bound := (hundredths_bounds fits lower).2
    linarith
  have mantissa : 2046 < f.mantissa := by
    rw [hundredths_cast, last] at beyond
    have scaled : (2046 : ℚ) < f.mantissa := by linarith
    exact_mod_cast scaled
  have high : f.mantissa ≤ 2047 := fits.2.1
  rcases f with ⟨m, e⟩
  simp only [ShortFloat.mk.injEq] at last mantissa high ⊢
  omega

theorem last_hundredths : ((⟨2046, 15⟩ : ShortFloat).hundredths : ℚ) = 2046 * 2 ^ 15 ∧
    ((⟨2047, 15⟩ : ShortFloat).hundredths : ℚ) = 2047 * 2 ^ 15 := by
  norm_num [hundredths_cast]

/-- Of all floats of the format only the greatest exceeds the range. -/
theorem greatest_of_above {kind : FloatType} (fits : f.Fits)
    (above : kind.range.greatest < f.toValue) : f = ⟨2047, 15⟩ := by
  have whole : Representable 670760 := ⟨_, kind.toRat_greatest⟩
  obtain ⟨-, -, lt⟩ := lt_iff_toRat.mp above
  rw [toRat_greatest, toRat_toValue fits, ← rounded_representable whole] at lt
  apply greatest_of_beyond fits
  by_contra small
  exact lt.not_ge (rounded_mono (by linarith))

theorem greatest_not_mem (kind : FloatType) : (⟨2047, 15⟩ : ShortFloat).toValue ∉ kind.range := by
  cases kind <;> decide +kernel

theorem hundredths_le_of_mem {kind : FloatType} (fits : f.Fits) (held : f.toValue ∈ kind.range) :
    (f.hundredths : ℚ) ≤ 2046 * 2 ^ 15 := by
  by_contra beyond
  rw [greatest_of_beyond fits (not_le.mp beyond)] at held
  exact kind.greatest_not_mem held

theorem below_greatest (kind : FloatType) :
    (⟨2046, 15⟩ : ShortFloat).Fits ∧ (⟨2046, 15⟩ : ShortFloat).toValue ∈ kind.range := by
  cases kind <;> decide +kernel

theorem within_value (range : Range) (v : Single) : (within range v).value =
    if range.greatest < (ofValue v).value.toValue ∨ (ofValue v).value.toValue < range.least
    then (ofValue v).value.towardZero else (ofValue v).value := by
  simp only [within, Logged.value_bind]
  split <;> rfl

theorem within_of_mem {range : Range} (held : (ofValue v).value.toValue ∈ range) :
    (within range v).value = (ofValue v).value := by
  obtain ⟨low, high⟩ := not_outside held
  rw [within_value, if_neg (not_or.mpr ⟨high, low⟩)]

/-- What is written for a number of the range: its nearest float, or the last one of the range
where the nearest is the last one of the format. -/
theorem within_cases {kind : FloatType} (held : v ∈ kind.range) :
    (ofValue v).value.toValue ∈ kind.range ∧ (within kind.range v).value = (ofValue v).value ∨
      (ofValue v).value = ⟨2047, 15⟩ ∧ (within kind.range v).value = ⟨2046, 15⟩ := by
  have fits := (ofValue_chosen v).fits
  have low := least_le_nearest held
  have number := finite_ne_nan (toValue_finite fits)
  have greatest := finite_ne_nan kind.range_finite.2
  by_cases above : kind.range.greatest < (ofValue v).value.toValue
  · right
    have last := greatest_of_above fits above
    refine ⟨last, ?_⟩
    rw [within_value, if_pos (.inl above), last]
    rfl
  · left
    have inside : (ofValue v).value.toValue ∈ kind.range :=
      ⟨low, (not_lt_iff greatest number).mp above⟩
    exact ⟨inside, within_of_mem inside⟩

theorem within_mem {kind : FloatType} (held : v ∈ kind.range) :
    (within kind.range v).value.Fits ∧ (within kind.range v).value.toValue ∈ kind.range := by
  rcases within_cases held with ⟨inside, same⟩ | ⟨-, last⟩
  · rw [same]
    exact ⟨(ofValue_chosen v).fits, inside⟩
  · rw [last]
    exact kind.below_greatest

theorem within_toValue {kind : FloatType} (fits : f.Fits) (held : f.toValue ∈ kind.range) :
    (within kind.range f.toValue).value = (ofValue f.toValue).value ∧
      (ofValue f.toValue).value.toValue = f.toValue := by
  have same := toValue_congr (ofValue_chosen f.toValue).fits fits (ofValue_toValue fits).2
  exact ⟨within_of_mem (by rw [same]; exact held), same⟩

/-! ## Bytes and numbers -/

theorem decode_ok (kind : FloatType) {data : List UInt8} : result (kind.decode data) = .ok x ↔
    x ∈ kind.range ∧ ∃ high low, data = [high, low] ∧
      x = (ofWord (Payload.word high low)).toValue := by
  simp only [decode, result_bind, except_bind_ok, unpackFloat_ok, result_ite, result_pure,
    result_refuse]
  constructor
  · rintro ⟨value, read, kept⟩
    split at kept
    · cases kept
      exact ⟨‹_›, read⟩
    · cases kept
  · rintro ⟨held, read⟩
    exact ⟨x, read, if_pos held⟩

theorem encode_value (kind : FloatType) (v : Single) : (kind.encode v).value =
    .ofWord (within kind.range (kind.range.bounded v)).value.toWord := rfl

theorem decode_word (kind : FloatType) (fits : f.Fits) (held : f.toValue ∈ kind.range) :
    result (kind.decode (Payload.ofWord f.toWord).toList) = .ok f.toValue := by
  obtain ⟨high, low, bytes, word⟩ := Payload.word_ofWord f.toWord
  rw [decode_ok, bytes]
  exact ⟨held, high, low, rfl, by rw [word, ofWord_toWord fits]⟩

end KnxDatapoint.FloatType

namespace KnxDatapoint.Wire
open ShortFloat

theorem unpackFloat_word {f : ShortFloat} (fits : f.Fits) :
    result (unpackFloat (Payload.ofWord f.toWord).toList) = .ok f.toValue := by
  obtain ⟨high, low, bytes, word⟩ := Payload.word_ofWord f.toWord
  rw [unpackFloat_ok, bytes]
  exact ⟨high, low, rfl, by rw [word, ofWord_toWord fits]⟩

theorem unpackFloat_packFloat (v : Single) :
    result (unpackFloat (packFloat v).value.toList) = .ok (ofValue v).value.toValue :=
  unpackFloat_word (ofValue_chosen v).fits

end KnxDatapoint.Wire
