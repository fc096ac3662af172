import KnxDatapoint.Proofs.Codec.Order

/-! How far a number moves when it is written as a scaled byte and read again.
The product with 255 and the quotient by the greatest number are rounded once each, the quotient is
rounded to a whole number, and the reading is rounded once more. Only the third of these is felt: it
costs half a step, and the others together less than a thousandth of one. -/
namespace KnxDatapoint.ScaledType
open Rounding Single

variable {kind : ScaledType} {c : Single} {p q limit : ℚ}

/-- The byte is the nearest whole number of steps, all of which fits it, and the byte and the
reading miss the number by half a step of the range at most, up to a thousandth. -/
def Near (greatest c : Single) (byte : UInt8) (x : Single) : Prop :=
  (byte.toNat : ℤ) = (c * 255 / greatest).roundHalfAway ∧
    |byte.toNat * greatest.toRat / 255 - c.toRat| ≤ 501 / 1000 * (greatest.toRat / 255) ∧
    |x.toRat - c.toRat| ≤ 501 / 1000 * (greatest.toRat / 255)

/-- The byte is the whole part of the number, and is read as itself. -/
def Cut (c : Single) (byte : UInt8) (x : Single) : Prop :=
  (byte.toNat : ℤ) = ⌊c.toRat⌋ ∧ x.toRat = byte.toNat ∧
    0 ≤ c.toRat - x.toRat ∧ c.toRat - x.toRat < 1

/-- What a type makes of a number in its range: the byte it writes and the number it reads. -/
def Stands (kind : ScaledType) (c : Single) (byte : UInt8) (x : Single) : Prop :=
  match kind with
  | .percentU8 => Cut c byte x
  | _ => Near kind.range.greatest c byte x

theorem encodeByte_value (kind : ScaledType) (v : Single) :
    (kind.encodeByte v).value = kind.step (kind.range.bounded v) := rfl

/-! ## Errors -/

theorem distance_scaled (positive : 0 < limit) :
    |p - q| * limit = |p * limit - q * limit| := by
  rw [← sub_mul, abs_mul, abs_of_pos positive]

theorem quotient_error (low : 100 ≤ limit) (high : limit ≤ 360) (nonneg : 0 ≤ q)
    (bounded : q ≤ limit) :
    |rounded (rounded (q * 255) / limit) * limit - q * 255| ≤ 1 / 5000 * limit := by
  have positive : 0 < limit := by linarith
  have size : |q * 255| = q * 255 := abs_of_nonneg (by linarith)
  have product := rounded_error (q := q * 255) (by rw [size]; linarith)
  rw [size] at product
  generalize rounded (q * 255) = r at product ⊢
  obtain ⟨lower, upper⟩ := abs_le.mp product
  have reach : |r / limit| ≤ 256 := by
    rw [abs_div, abs_of_pos positive, div_le_iff₀ positive, abs_le]
    constructor <;> linarith
  have quotient := rounded_error (q := r / limit) (reach.trans (by norm_num))
  have close : |rounded (r / limit) - r / limit| ≤ 1 / 10000 := by linarith
  have scaled := mul_le_mul_of_nonneg_right close positive.le
  rw [distance_scaled positive, div_mul_cancel₀ _ positive.ne'] at scaled
  rw [abs_le] at scaled ⊢
  constructor <;> linarith

theorem whole_error (low : 100 ≤ limit) (high : limit ≤ 360) (nonneg : 0 ≤ q)
    (bounded : q ≤ limit) :
    |nearestWhole (rounded (rounded (q * 255) / limit)) * limit - q * 255| ≤
      5005 / 10000 * limit := by
  have positive : 0 < limit := by linarith
  have quotient := quotient_error low high nonneg bounded
  generalize rounded (rounded (q * 255) / limit) = t at quotient ⊢
  have whole := mul_le_mul_of_nonneg_right (nearestWhole_error t) positive.le
  rw [distance_scaled positive] at whole
  rw [abs_le] at quotient whole ⊢
  constructor <;> linarith

theorem near_of_level (held : c ∈ kind.range) (nearest : kind.level c.toRat =
      nearestWhole (rounded (rounded (c.toRat * 255) / kind.limit))) :
    Near kind.range.greatest c (kind.step c) (kind.ofStep (kind.step c)) := by
  obtain ⟨-, nonneg, bounded⟩ := finite_of_mem held
  obtain ⟨low, high⟩ := kind.limit_cast
  have level := step_level held
  have whole := whole_error low high nonneg bounded
  rw [← nearest, ← level, Int.cast_natCast] at whole
  have written : |(kind.step c).toNat * (kind.limit : ℚ) / 255 - c.toRat| ≤
      5005 / 10000 * (kind.limit / 255) := by
    rw [abs_le] at whole ⊢
    constructor <;> linarith
  have small := byte_le (kind.step c)
  have area : ((kind.step c).toNat : ℚ) * kind.limit / 255 ≤ kind.limit := by
    rw [div_le_iff₀ (by norm_num)]
    nlinarith
  have size : |((kind.step c).toNat : ℚ) * kind.limit / 255| =
      (kind.step c).toNat * kind.limit / 255 := abs_of_nonneg (by positivity)
  have read := rounded_error (q := (kind.step c).toNat * kind.limit / 255)
    (by rw [size]; linarith)
  rw [← toRat_ofStep, size] at read
  rw [Near, toRat_greatest]
  refine ⟨level.trans (roundHalfAway_level held nearest).symm, ?_, ?_⟩
  · linarith
  · rw [abs_le] at written read ⊢
    constructor <;> linarith

theorem cut_of_level (held : c ∈ range .percentU8) :
    Cut c (step .percentU8 c) (ofStep .percentU8 (step .percentU8 c)) := by
  obtain ⟨-, nonneg, -⟩ := finite_of_mem held
  obtain ⟨-, low, high⟩ := wholePart_nonneg nonneg
  have level : ((step .percentU8 c).toNat : ℤ) = wholePart c.toRat := step_level held
  have value : (ofStep .percentU8 (step .percentU8 c)).toRat = wholePart c.toRat := by
    rw [← level, Int.cast_natCast]
    exact toRat_byte _
  refine ⟨?_, toRat_byte _, ?_, ?_⟩
  · rw [level, wholePart, if_pos nonneg]
  · rw [value]
    linarith
  · rw [value]
    linarith

/-- Whatever number is given, the byte stands for the number that the range makes of it: its whole
part for the type without a scale, and otherwise the nearest of the 255 steps. The byte is read
again without a fault. -/
theorem encodeByte_nearest (kind : ScaledType) (v : Single) :
    kind.range.Bounds v (kind.range.bounded v) ∧ kind.range.bounded v ∈ kind.range ∧
    (kind.range.bounded v).IsFinite ∧
    ∃ x, (kind.decodeByte (kind.encodeByte v).value).run = ⟨.ok x, []⟩ ∧ x.IsFinite ∧
      kind.Stands (kind.range.bounded v) (kind.encodeByte v).value x := by
  have held := Range.bounded_mem v kind.range_proper
  refine ⟨Range.bounded_bounds v kind.zero_mem, held, (finite_of_mem held).1,
    kind.ofStep (kind.step (kind.range.bounded v)), ?_, kind.ofStep_finite _, ?_⟩
  · rw [encodeByte_value, decodeByte_eq]
    rfl
  · rw [encodeByte_value]
    cases kind with
    | scaling => exact near_of_level held rfl
    | angle => exact near_of_level held rfl
    | percentU8 => exact cut_of_level held

end KnxDatapoint.ScaledType
