import KnxDatapoint.Proofs.Codec.Result
import KnxDatapoint.Proofs.Single.Whole

/-! Scaled bytes: every step stands for a number of the range and is found again for that number. -/
namespace KnxDatapoint.ScaledType
open Rounding Single

/-- The greatest number of the range, which the last step stands for. -/
def limit : ScaledType → ℕ
  | .scaling => 100
  | .angle => 360
  | .percentU8 => 255

theorem greatest_eq (kind : ScaledType) : kind.range.greatest = Single.ofInt kind.limit := by
  cases kind <;> rfl

theorem limit_bounds (kind : ScaledType) : 100 ≤ kind.limit ∧ kind.limit ≤ 360 := by
  cases kind <;> decide

theorem limit_cast (kind : ScaledType) : (100 : ℚ) ≤ kind.limit ∧ (kind.limit : ℚ) ≤ 360 := by
  exact_mod_cast kind.limit_bounds

theorem greatest_finite (kind : ScaledType) : kind.range.greatest.IsFinite := by
  cases kind <;> exact trivial

theorem toRat_greatest (kind : ScaledType) : kind.range.greatest.toRat = kind.limit := by
  obtain ⟨-, high⟩ := kind.limit_bounds
  rw [greatest_eq, toRat_ofInt_short (abs_le.mpr (by omega))]
  rfl

theorem toRat_byte (byte : UInt8) : (Single.ofInt byte.toNat).toRat = byte.toNat := by
  have small := byte.toNat_lt
  rw [toRat_ofInt_short (abs_le.mpr (by omega))]
  rfl

theorem byte_finite (byte : UInt8) : (Single.ofInt byte.toNat).IsFinite := by
  have small := byte.toNat_lt
  exact ofInt_finite (abs_le.mpr (by omega))

theorem toRat_255 : (255 : Single).toRat = 255 := toRat_ofNat (n := 255) (by norm_num)

theorem finite_255 : (255 : Single).IsFinite := trivial

theorem byte_le (byte : UInt8) : (byte.toNat : ℚ) ≤ 255 := by
  have small : byte.toNat ≤ 255 := Nat.le_of_lt_succ byte.toNat_lt
  exact_mod_cast small

/-- Multiplying first keeps the product exact, so that only the division rounds. -/
theorem step_product (kind : ScaledType) (byte : UInt8) :
    (Single.ofInt byte.toNat * kind.range.greatest).IsFinite ∧
    (Single.ofInt byte.toNat * kind.range.greatest).toRat = byte.toNat * kind.limit := by
  have small := byte.toNat_lt
  obtain ⟨-, high⟩ := kind.limit_bounds
  have area : byte.toNat * kind.limit ≤ 255 * 360 := Nat.mul_le_mul (by omega) high
  have value := representable_int (k := byte.toNat * kind.limit) 0
    (abs_le.mpr (by constructor <;> norm_cast <;> omega)) (by norm_num)
  have product := toRat_mul (byte_finite byte) kind.greatest_finite
  push_cast at value
  rw [pow_zero, mul_one] at value
  rw [toRat_byte, toRat_greatest, rounded_representable value] at product
  refine ⟨mul_finite (byte_finite byte) kind.greatest_finite ?_, product⟩
  rw [toRat_byte, toRat_greatest, abs_of_nonneg (by positivity)]
  have area : (byte.toNat : ℚ) * kind.limit ≤ 255 * 360 := by exact_mod_cast area
  linarith

theorem toRat_ofStep (kind : ScaledType) (byte : UInt8) :
    (kind.ofStep byte).toRat = rounded (byte.toNat * kind.limit / 255) := by
  have shared : (Single.ofInt byte.toNat * kind.range.greatest / 255).toRat =
      rounded (byte.toNat * kind.limit / 255) := by
    obtain ⟨finite, product⟩ := kind.step_product byte
    rw [toRat_div finite finite_255 (by rw [toRat_255]; norm_num), product, toRat_255]
  cases kind with
  | scaling => exact shared
  | angle => exact shared
  | percentU8 =>
    have whole : Representable (byte.toNat * limit .percentU8 / 255) := by
      refine ⟨Single.ofInt byte.toNat, ?_⟩
      rw [toRat_byte]
      simp [limit]
    rw [rounded_representable whole]
    simp [ofStep, toRat_byte, limit]

theorem ofStep_finite (kind : ScaledType) (byte : UInt8) : (kind.ofStep byte).IsFinite := by
  have shared : (Single.ofInt byte.toNat * kind.range.greatest / 255).IsFinite := by
    obtain ⟨finite, product⟩ := kind.step_product byte
    refine div_finite finite finite_255 (by rw [toRat_255]; norm_num) ?_
    obtain ⟨-, high⟩ := kind.limit_cast
    have small := byte_le byte
    rw [product, toRat_255, abs_of_nonneg (by positivity), div_le_iff₀ (by norm_num)]
    nlinarith
  cases kind with
  | scaling => exact shared
  | angle => exact shared
  | percentU8 => exact byte_finite byte

theorem ofStep_mem (kind : ScaledType) (byte : UInt8) : kind.ofStep byte ∈ kind.range := by
  have number := finite_ne_nan (kind.ofStep_finite byte)
  have small := byte_le byte
  have least : kind.range.least = 0 := by cases kind <;> rfl
  have whole : Representable kind.limit := ⟨_, kind.toRat_greatest⟩
  have positive : (0 : ℚ) ≤ kind.limit := Nat.cast_nonneg _
  constructor
  · rw [least, le_iff_toRat, toRat_ofStep, toRat_zero]
    exact ⟨by decide, number, rounded_nonneg (by positivity)⟩
  · rw [le_iff_toRat, toRat_ofStep, toRat_greatest, ← rounded_representable whole]
    refine ⟨number, finite_ne_nan kind.greatest_finite, rounded_mono ?_⟩
    rw [rounded_representable whole, div_le_iff₀ (by norm_num)]
    nlinarith

/-! ## The step of a number -/

theorem finite_of_mem {kind : ScaledType} {x : Single} (held : x ∈ kind.range) :
    x.IsFinite ∧ 0 ≤ x.toRat ∧ x.toRat ≤ kind.limit := by
  have least : kind.range.least = 0 := by cases kind <;> rfl
  have start : kind.range.least.IsFinite := by cases kind <;> exact trivial
  have between := finite_between held.1 held.2 start kind.greatest_finite
  rwa [toRat_greatest, least, toRat_zero] at between

theorem scaled_up {kind : ScaledType} {x : Single} (held : x ∈ kind.range) :
    (x * 255 / kind.range.greatest).IsFinite ∧
    (x * 255 / kind.range.greatest).toRat = rounded (rounded (x.toRat * 255) / kind.limit) := by
  obtain ⟨low, high⟩ := kind.limit_cast
  obtain ⟨finite, nonneg, bounded⟩ := finite_of_mem held
  have reach : |x.toRat * 255| ≤ 2 ^ 17 := by
    rw [abs_of_nonneg (by positivity)]
    linarith
  have product := toRat_mul finite finite_255
  have productFinite := mul_finite finite finite_255 (by rw [toRat_255]; linarith)
  have power : Representable (2 ^ 17) := by
    simpa using representable_int (k := 1) 17 (by norm_num) (by norm_num)
  have productReach := abs_rounded_le power reach
  have nonzero : kind.range.greatest.toRat ≠ 0 := by rw [toRat_greatest]; linarith
  rw [toRat_255] at product
  refine ⟨div_finite productFinite kind.greatest_finite nonzero ?_, ?_⟩
  · rw [product, toRat_greatest, abs_div, abs_of_pos (by linarith : (0 : ℚ) < kind.limit),
      div_le_iff₀ (by linarith)]
    linarith
  · rw [toRat_div productFinite kind.greatest_finite nonzero, product, toRat_greatest]

/-- The whole number that is written for a number of the range. -/
def level (kind : ScaledType) (q : ℚ) : ℤ :=
  match kind with
  | .percentU8 => wholePart q
  | _ => nearestWhole (rounded (rounded (q * 255) / kind.limit))

theorem level_mono (kind : ScaledType) {p q : ℚ} (le : p ≤ q) : kind.level p ≤ kind.level q := by
  have scaled : nearestWhole (rounded (rounded (p * 255) / kind.limit)) ≤
      nearestWhole (rounded (rounded (q * 255) / kind.limit)) := by
    have product : rounded (p * 255) ≤ rounded (q * 255) := rounded_mono (by linarith)
    exact nearestWhole_mono (rounded_mono (div_le_div_of_nonneg_right product (Nat.cast_nonneg _)))
  cases kind with
  | scaling => exact scaled
  | angle => exact scaled
  | percentU8 => exact wholePart_mono le

theorem level_ends (kind : ScaledType) : kind.level 0 = 0 ∧ kind.level kind.limit = 255 := by
  cases kind <;> decide +kernel

theorem toNat_ofInt {n : ℤ} (low : 0 ≤ n) (high : n ≤ 255) : ((UInt8.ofInt n).toNat : ℤ) = n := by
  simp only [UInt8.ofInt, UInt8.toNat_ofNat']
  omega

theorem level_bounds {kind : ScaledType} {x : Single} (held : x ∈ kind.range) :
    0 ≤ kind.level x.toRat ∧ kind.level x.toRat ≤ 255 := by
  obtain ⟨-, nonneg, bounded⟩ := finite_of_mem held
  obtain ⟨first, last⟩ := kind.level_ends
  exact ⟨first ▸ kind.level_mono nonneg, last ▸ kind.level_mono bounded⟩

theorem roundHalfAway_level {kind : ScaledType} {x : Single} (held : x ∈ kind.range)
    (nearest : kind.level x.toRat =
      nearestWhole (rounded (rounded (x.toRat * 255) / kind.limit))) :
    (x * 255 / kind.range.greatest).roundHalfAway = kind.level x.toRat := by
  obtain ⟨low, high⟩ := level_bounds held
  obtain ⟨quotientFinite, quotient⟩ := scaled_up held
  obtain ⟨least, greatest⟩ := int32_bounds
  rw [roundHalfAway_finite quotientFinite, quotient, ← nearest, least, greatest]
  omega

/-- The whole number is one of a byte, so that nothing wraps around. -/
theorem step_level {kind : ScaledType} {x : Single} (held : x ∈ kind.range) :
    ((kind.step x).toNat : ℤ) = kind.level x.toRat := by
  obtain ⟨low, high⟩ := level_bounds held
  have scaled := roundHalfAway_level held
  cases kind with
  | scaling => simp only [step, scaled rfl, toNat_ofInt low high]
  | angle => simp only [step, scaled rfl, toNat_ofInt low high]
  | percentU8 =>
    have whole : x.truncate 0 255 = level .percentU8 x.toRat := by
      rw [truncate_finite (finite_of_mem held).1]
      change max 0 (min 255 (level .percentU8 x.toRat)) = _
      rw [min_eq_right high, max_eq_right low]
    simp only [step, whole, toNat_ofInt low high]

theorem ofStep_mono (kind : ScaledType) {byte byte' : UInt8} (le : byte.toNat ≤ byte'.toNat) :
    kind.ofStep byte ≤ kind.ofStep byte' := by
  have le : (byte.toNat : ℚ) ≤ byte'.toNat := by exact_mod_cast le
  have number := finite_ne_nan (kind.ofStep_finite byte)
  have number' := finite_ne_nan (kind.ofStep_finite byte')
  rw [le_iff_toRat, toRat_ofStep, toRat_ofStep]
  refine ⟨number, number', rounded_mono ?_⟩
  have product := mul_le_mul_of_nonneg_right le (Nat.cast_nonneg kind.limit)
  exact div_le_div_of_nonneg_right product (by norm_num)

/-! ## The step of a number read from a byte -/

theorem scaled_up_close (kind : ScaledType) (byte : UInt8) :
    Close (1 / 2 ^ 21) (kind.ofStep byte * 255 / kind.range.greatest).toRat byte.toNat := by
  obtain ⟨low, high⟩ := kind.limit_cast
  have small := byte_le byte
  rw [(scaled_up (kind.ofStep_mem byte)).2, toRat_ofStep]
  by_cases zero : byte.toNat = 0
  · simp [zero, Close]
  · have one : (1 : ℚ) ≤ byte.toNat := by exact_mod_cast Nat.one_le_iff_ne_zero.mpr zero
    have number : |(byte.toNat : ℚ)| = byte.toNat := abs_of_nonneg (by positivity)
    have area : |(byte.toNat : ℚ) * kind.limit| = byte.toNat * kind.limit :=
      abs_of_nonneg (by positivity)
    have part : |(byte.toNat : ℚ) * kind.limit / 255| = byte.toNat * kind.limit / 255 :=
      abs_of_nonneg (by positivity)
    have areaLow : 100 ≤ (byte.toNat : ℚ) * kind.limit := by nlinarith
    have areaHigh : (byte.toNat : ℚ) * kind.limit ≤ 255 * 360 := by nlinarith
    have first := (rounded_close (by rw [part]; linarith) (by rw [part]; linarith)).mul 255
    rw [div_mul_cancel₀ _ (by norm_num : (255 : ℚ) ≠ 0)] at first
    have firstLow := first.le_abs
    have firstHigh := first.abs_le
    rw [area] at firstLow firstHigh
    have second := (rounded_close (by linarith) (by linarith)).trans first (by norm_num)
    have third := second.div kind.limit
    rw [mul_div_cancel_right₀ _ (by linarith : (kind.limit : ℚ) ≠ 0)] at third
    have thirdLow := third.le_abs
    have thirdHigh := third.abs_le
    rw [number] at thirdLow thirdHigh
    have fourth := (rounded_close (by linarith) (by linarith)).trans third (by norm_num)
    exact fourth.mono (by norm_num)

theorem level_ofStep (kind : ScaledType) (byte : UInt8) :
    kind.level (kind.ofStep byte).toRat = byte.toNat := by
  have scaled : nearestWhole (rounded (rounded ((kind.ofStep byte).toRat * 255) / kind.limit)) =
      byte.toNat := by
    have close := kind.scaled_up_close byte
    have small := byte_le byte
    rw [(scaled_up (kind.ofStep_mem byte)).2, Close,
      abs_of_nonneg (by positivity : (0 : ℚ) ≤ byte.toNat)] at close
    exact nearestWhole_eq (by push_cast; linarith)
  cases kind with
  | scaling => exact scaled
  | angle => exact scaled
  | percentU8 =>
    have value : (ofStep .percentU8 byte).toRat = (byte.toNat : ℤ) := toRat_byte byte
    rw [value]
    exact wholePart_intCast byte.toNat

theorem step_ofStep (kind : ScaledType) (byte : UInt8) : kind.step (kind.ofStep byte) = byte := by
  have whole := step_level (kind.ofStep_mem byte)
  rw [level_ofStep] at whole
  exact UInt8.toNat_inj.mp (by exact_mod_cast whole)

/-! ## Bytes and numbers -/

theorem decodeByte_eq (kind : ScaledType) (byte : UInt8) :
    kind.decodeByte byte = pure (kind.ofStep byte) := by
  obtain ⟨-, high⟩ := not_outside (kind.ofStep_mem byte)
  simp only [decodeByte, if_neg high]

theorem decode_ok (kind : ScaledType) {data : List UInt8} {x : Single} :
    result (kind.decode data) = .ok x ↔ ∃ byte, data = [byte] ∧ x = kind.ofStep byte := by
  simp only [decode, result_bind, except_bind_ok, unpackByte_ok, decodeByte_eq, result_pure,
    Except.ok.injEq, @eq_comm _ x]

theorem encode_value (kind : ScaledType) (v : Single) :
    (kind.encode v).value = .one (kind.step (kind.range.bounded v)) := rfl

theorem encode_ofStep (kind : ScaledType) (byte : UInt8) :
    (kind.encode (kind.ofStep byte)).value = .one byte := by
  rw [encode_value, Range.bounded_of_mem (kind.ofStep_mem byte), step_ofStep]

end KnxDatapoint.ScaledType
