import KnxDatapoint.Proofs.Single.Whole

/-! Bit patterns read by their fields, and the rounding of every pattern to a whole number.
A pattern holds a sign, eight bits of exponent and twenty-three of fraction. Its value is written
here from these fields alone, so that what rounding gives can be judged without ranks. -/
namespace KnxDatapoint.Pattern

def negative (bits : UInt32) : Bool := decide (2 ^ 31 ≤ bits.toNat)

def exponent (bits : UInt32) : ℕ := bits.toNat / 2 ^ 23 % 2 ^ 8

def fraction (bits : UInt32) : ℕ := bits.toNat % 2 ^ 23

/-- The fraction behind its leading bit, which the numbers of least exponent lack. -/
def significand (bits : UInt32) : ℕ :=
  if exponent bits = 0 then fraction bits else 2 ^ 23 + fraction bits

/-- The value of a pattern whose exponent is not the greatest. -/
def value (bits : UInt32) : ℚ :=
  (if negative bits then -1 else 1) * significand bits * 2 ^ (max 1 (exponent bits) - 150 : ℤ)

variable {bits : UInt32}

theorem rank_fields (bits : UInt32) :
    bits.toNat % Single.signBit = exponent bits * 2 ^ 23 + fraction bits := by
  simp only [Single.signBit, exponent, fraction]
  omega

theorem fraction_lt (bits : UInt32) : fraction bits < 2 ^ 23 := Nat.mod_lt _ (by norm_num)

theorem units_fields (bits : UInt32) : Single.units (exponent bits * 2 ^ 23 + fraction bits) =
    significand bits * 2 ^ (max 1 (exponent bits) - 1) := by
  have short := fraction_lt bits
  unfold significand
  split
  · rename_i least
    rw [least, Nat.zero_mul, Nat.zero_add, max_eq_left (Nat.zero_le 1), Nat.sub_self, pow_zero,
      Nat.mul_one]
    exact Rounding.units_small (by norm_num [Nat.shiftLeft_eq]; omega)
  · rename_i greater
    have split : exponent bits * 2 ^ 23 + fraction bits =
        (exponent bits - 1) * 2 ^ 23 + (2 ^ 23 + fraction bits) := by omega
    rw [split, max_eq_right (by omega)]
    exact Rounding.units_scaled (by omega) (.inl (by omega))

theorem ofBits_finite (small : exponent bits < 255) :
    (Single.ofBits bits).IsFinite ∧ (Single.ofBits bits).toRat = value bits := by
  have short := fraction_lt bits
  have rank : bits.toNat % Single.signBit < 0x7F800000 := by
    rw [rank_fields]
    omega
  have shape : Single.ofBits bits =
      .finite (negative bits) ⟨bits.toNat % Single.signBit, rank⟩ := by
    simp only [Single.ofBits, dif_pos rank]
    rfl
  refine ⟨by rw [shape]; trivial, ?_⟩
  have scale : (2 : ℚ) ^ (max 1 (exponent bits) - 150 : ℤ) =
      2 ^ (max 1 (exponent bits) - 1) / 2 ^ 149 := by
    rw [← zpow_natCast, ← zpow_natCast, ← zpow_sub₀ two_ne_zero]
    congr 1
    omega
  rw [shape, Single.toRat_finite]
  dsimp only
  rw [rank_fields, units_fields, value, scale, Single.one_eq, Nat.cast_pow, Nat.cast_ofNat]
  cases negative bits
  · simp only [Single.signed, Bool.false_eq_true, if_false, Int.cast_natCast]
    push_cast
    ring
  · simp only [Single.signed, if_true, Int.cast_neg, Int.cast_natCast]
    push_cast
    ring

theorem ofBits_infinite (greatest : exponent bits = 255) (none : fraction bits = 0) :
    Single.ofBits bits = .infinite (negative bits) := by
  have rank : bits.toNat % Single.signBit = Single.infinityRank := by
    rw [rank_fields, greatest, none]
    rfl
  have large : ¬ bits.toNat % Single.signBit < 0x7F800000 := by
    rw [rank]
    decide
  simp only [Single.ofBits, dif_neg large, if_pos rank]
  rfl

theorem ofBits_nan (greatest : exponent bits = 255) (some : fraction bits ≠ 0) :
    Single.ofBits bits = .nan := by
  have rank := rank_fields bits
  have large : ¬ bits.toNat % Single.signBit < 0x7F800000 := by omega
  have beyond : bits.toNat % Single.signBit ≠ Single.infinityRank := by
    unfold Single.infinityRank
    omega
  simp only [Single.ofBits, dif_neg large, if_neg beyond]

end KnxDatapoint.Pattern

namespace KnxDatapoint.Single
open Rounding

/-- Every pattern is rounded to the one whole number nearest to its exact value, of two equally near
the one farther from zero, and held to 32 bits; an infinity gives the bound on its side and a NaN
zero. -/
theorem roundHalfAway_exact (bits : UInt32) :
    (Pattern.exponent bits < 255 → (∃! n : ℤ, NearestAway (Pattern.value bits) n) ∧
      ∀ n : ℤ, NearestAway (Pattern.value bits) n →
        (ofBits bits).roundHalfAway = max (-2 ^ 31) (min (2 ^ 31 - 1) n)) ∧
    (Pattern.exponent bits = 255 → Pattern.fraction bits = 0 →
      (ofBits bits).roundHalfAway = if Pattern.negative bits then -2 ^ 31 else 2 ^ 31 - 1) ∧
    (Pattern.exponent bits = 255 → Pattern.fraction bits ≠ 0 →
      (ofBits bits).roundHalfAway = 0) := by
  obtain ⟨least, greatest⟩ := int32_bounds
  refine ⟨?_, ?_, ?_⟩
  · intro small
    obtain ⟨finite, value⟩ := Pattern.ofBits_finite small
    simp only [nearestAway_iff, existsUnique_eq, true_and, forall_eq]
    rw [roundHalfAway_finite finite, value, least, greatest]
    norm_num
  · intro last none
    rw [Pattern.ofBits_infinite last none, roundHalfAway_infinite, least, greatest]
    norm_num
  · intro last some
    rw [Pattern.ofBits_nan last some, roundHalfAway_nan]

/-- The greatest number with anything behind the point lies half way and goes up; beside it the
negative infinity and a NaN. -/
theorem roundHalfAway_exact_last_tie :
    Pattern.exponent 0x4AFFFFFF < 255 ∧ NearestAway (Pattern.value 0x4AFFFFFF) 8388608 ∧
    (ofBits 0x4AFFFFFF).roundHalfAway = 8388608 ∧
    (ofBits 0xFF800000).roundHalfAway = -2 ^ 31 ∧ (ofBits 0x7FC00000).roundHalfAway = 0 := by
  have small : Pattern.exponent 0x4AFFFFFF < 255 := by decide
  have fields : Pattern.negative 0x4AFFFFFF = false ∧ Pattern.exponent 0x4AFFFFFF = 149 ∧
      Pattern.significand 0x4AFFFFFF = 16777215 := by decide
  have tie : Pattern.value 0x4AFFFFFF = 16777215 / 2 := by
    rw [Pattern.value, fields.1, fields.2.1, fields.2.2]
    norm_num
  have nearest : NearestAway (Pattern.value 0x4AFFFFFF) 8388608 := by
    rw [nearestAway_iff, tie]
    decide +kernel
  have finite := (roundHalfAway_exact 0x4AFFFFFF).1 small
  have infinite := (roundHalfAway_exact 0xFF800000).2.1 (by decide) (by decide)
  have nan := (roundHalfAway_exact 0x7FC00000).2.2 (by decide) (by decide)
  exact ⟨small, nearest, finite.2 _ nearest, infinite, nan⟩

end KnxDatapoint.Single
