import KnxDatapoint.Proofs.Single.Operations
import KnxDatapoint.Proofs.Rounding.Whole

/-! Whole numbers taken from singles.
Cutting and rounding are exact on every finite number: from 2^23 on a single has nothing behind the
point, and below that both its whole part and the rest of it are singles again. -/
namespace KnxDatapoint.Single
open Rounding

theorem signed_div_one (negative : Bool) (m : ℕ) :
    signed negative (m / one) = wholePart ((signed negative m : ℤ) / (one : ℕ)) := by
  have floor : ⌊(m : ℚ) / (one : ℕ)⌋ = ((m / one : ℕ) : ℤ) := Rat.floor_natCast_div_natCast m one
  have nonneg : (0 : ℚ) ≤ m / (one : ℕ) := div_nonneg (Nat.cast_nonneg m) one_pos.le
  cases negative with
  | false => simp only [signed, Bool.false_eq_true, if_false, Int.cast_natCast, wholePart,
      if_pos nonneg, floor]
  | true =>
    simp only [signed, if_true, Int.cast_neg, Int.cast_natCast, neg_div, wholePart]
    split
    · rename_i nonpos
      have zero : (m : ℚ) / (one : ℕ) = 0 := by linarith
      simp only [zero, Int.floor_zero, neg_zero, ← floor]
    · rw [Int.ceil_neg, floor]

theorem truncate_finite {x : Single} (hx : x.IsFinite) (least greatest : ℤ) :
    x.truncate least greatest = max least (min greatest (wholePart x.toRat)) := by
  obtain ⟨negative, rank, rfl⟩ := isFinite_cases hx
  rw [toRat_finite, ← signed_div_one]
  rfl

/-- A number that is too coarse to have anything behind the point. -/
theorem representable_whole_coarse {x : Single} {k : ℤ} {scale : ℕ} (coarse : 149 ≤ scale)
    (value : x.toRat = k * 2 ^ scale / 2 ^ 149) :
    Representable (wholePart x.toRat) ∧ Representable (x.toRat - wholePart x.toRat) := by
  have whole : x.toRat = ((k * 2 ^ (scale - 149) : ℤ) : ℚ) := by
    rw [value, show scale = scale - 149 + 149 by omega, pow_add, ← mul_assoc, mul_div_assoc,
      div_self (by positivity), mul_one, Nat.add_sub_cancel]
    push_cast
    rfl
  rw [whole, wholePart_intCast, sub_self, ← whole]
  exact ⟨representable_toRat x, representable_zero⟩

theorem representable_whole {x : Single} (hx : x.IsFinite) :
    Representable (wholePart x.toRat) ∧ Representable (x.toRat - wholePart x.toRat) := by
  obtain ⟨k, scale, value, short, normal, reach⟩ := toRat_scaled hx
  by_cases coarse : 149 ≤ scale
  · exact representable_whole_coarse coarse value
  have power : (2 : ℚ) ^ 149 = 2 ^ scale * 2 ^ (149 - scale) := by
    rw [← pow_add]
    congr 1
    omega
  have fraction : x.toRat = k / 2 ^ (149 - scale) := by
    rw [value, power]
    field_simp
  have wide : (1 : ℚ) ≤ 2 ^ (149 - scale) := one_le_pow₀ (by norm_num)
  have bound : (|k| : ℚ) < 2 ^ 24 := by exact_mod_cast short
  constructor
  · have small : |(wholePart x.toRat : ℚ)| ≤ |(k : ℚ)| := by
      refine (abs_wholePart_le _).trans ?_
      rw [fraction, abs_div, abs_of_pos (by positivity : (0 : ℚ) < 2 ^ (149 - scale))]
      exact div_le_self (abs_nonneg _) wide
    have short' : |wholePart x.toRat| ≤ 2 ^ 24 := by exact_mod_cast (small.trans_lt bound).le
    simpa using representable_int 0 short' (by omega)
  · -- the rest has the scale of the number itself, and no more of its bits
    have small := (abs_sub_wholePart x.toRat).1
    generalize wholePart x.toRat = w at small ⊢
    have rest : x.toRat - w = ((k - w * 2 ^ (149 - scale) : ℤ) : ℚ) * 2 ^ scale / 2 ^ 149 := by
      rw [value, power]
      push_cast
      field_simp
    have short' : |k - w * 2 ^ (149 - scale)| ≤ 2 ^ 24 := by
      rw [rest, value, abs_div, abs_div, abs_mul, abs_mul,
        div_le_div_iff_of_pos_right (abs_pos.mpr (by positivity)),
        mul_le_mul_iff_left₀ (abs_pos.mpr (by positivity))] at small
      exact_mod_cast (small.trans_lt bound).le
    rw [rest]
    exact representable_scaled scale short' reach

theorem half_le_iff {x : Single} (number : x ≠ .nan) : half ≤ x ↔ 1 / 2 ≤ x.toRat := by
  rw [le_iff_toRat, toRat_half]
  exact ⟨fun h => h.2.2, fun h => ⟨by decide, number, h⟩⟩

theorem le_neg_half_iff {x : Single} (number : x ≠ .nan) :
    x ≤ -half ↔ x.toRat ≤ -(1 / 2) := by
  rw [le_iff_toRat, toRat_neg, toRat_half]
  exact ⟨fun h => h.2.2, fun h => ⟨number, by decide, h⟩⟩

theorem int32_bounds : leastInt32 = -2147483648 ∧ greatestInt32 = 2147483647 := by decide

theorem int32_finite {w : ℤ} (low : leastInt32 ≤ w) (high : w ≤ greatestInt32) :
    (ofInt w).IsFinite := by
  have bounds := int32_bounds
  exact ofInt_finite (abs_le.mpr (by omega))

theorem roundHalfAway_inside {x : Single} (hx : x.IsFinite) (low : leastInt32 ≤ wholePart x.toRat)
    (high : wholePart x.toRat ≤ greatestInt32) :
    x.roundHalfAway = max leastInt32 (min greatestInt32 (nearestWhole x.toRat)) := by
  obtain ⟨whole, rest⟩ := representable_whole hx
  have part := nearestWhole_of_wholePart x.toRat
  have cut : x.truncate leastInt32 greatestInt32 = wholePart x.toRat := by
    rw [truncate_finite hx, min_eq_right high, max_eq_right low]
  have held := int32_finite low high
  have number := sub_ne_nan hx held
  have left : (x - ofInt (wholePart x.toRat)).toRat = x.toRat - wholePart x.toRat := by
    rw [toRat_sub hx held, toRat_ofInt, rounded_representable whole, rounded_representable rest]
  simp only [roundHalfAway, cut, half_le_iff number, le_neg_half_iff number, left, part]
  split
  · omega
  · split <;> omega

theorem roundHalfAway_above {x : Single} (hx : x.IsFinite)
    (above : greatestInt32 < wholePart x.toRat) : x.roundHalfAway = greatestInt32 := by
  have bounds := int32_bounds
  have cut : x.truncate leastInt32 greatestInt32 = greatestInt32 := by
    rw [truncate_finite hx, min_eq_left above.le, max_eq_right (by omega)]
  have held := int32_finite (by omega) (le_refl greatestInt32)
  have number := sub_ne_nan hx held
  have large : (2147483648 : ℚ) ≤ x.toRat := by
    have beyond : 2147483648 ≤ wholePart x.toRat := by omega
    have cast : (2147483648 : ℚ) ≤ wholePart x.toRat := by exact_mod_cast beyond
    exact cast.trans (wholePart_le (by omega))
  have top : (ofInt greatestInt32).toRat = 2147483648 := by decide +kernel
  have left : 0 ≤ (x - ofInt greatestInt32).toRat := by
    rw [toRat_sub hx held, top]
    exact rounded_nonneg (by linarith)
  have up : ¬ (x - ofInt greatestInt32).toRat ≤ -(1 / 2) := by linarith
  simp only [roundHalfAway, cut, le_neg_half_iff number, if_neg up]
  split <;> omega

theorem roundHalfAway_below {x : Single} (hx : x.IsFinite)
    (below : wholePart x.toRat < leastInt32) : x.roundHalfAway = leastInt32 := by
  have bounds := int32_bounds
  have cut : x.truncate leastInt32 greatestInt32 = leastInt32 := by
    rw [truncate_finite hx, max_eq_left (by omega)]
  have held := int32_finite (le_refl leastInt32) (by omega)
  have number := sub_ne_nan hx held
  have large : x.toRat ≤ -2147483648 := by
    have beyond : wholePart x.toRat ≤ -2147483648 := by omega
    have cast : (wholePart x.toRat : ℚ) ≤ -2147483648 := by exact_mod_cast beyond
    exact (le_wholePart (by omega)).trans cast
  have bottom : (ofInt leastInt32).toRat = -2147483648 := by decide +kernel
  have left : (x - ofInt leastInt32).toRat ≤ 0 := by
    rw [toRat_sub hx held, bottom]
    have negative : x.toRat - -2147483648 ≤ 0 := by linarith
    simpa using rounded_mono negative
  have down : ¬ 1 / 2 ≤ (x - ofInt leastInt32).toRat := by linarith
  simp only [roundHalfAway, cut, half_le_iff number, if_neg down]
  split <;> omega

/-- The whole number given for a finite single is the nearest one, held to 32 bits. -/
theorem roundHalfAway_finite {x : Single} (hx : x.IsFinite) :
    x.roundHalfAway = max leastInt32 (min greatestInt32 (nearestWhole x.toRat)) := by
  have bounds := int32_bounds
  by_cases above : greatestInt32 < wholePart x.toRat
  · have positive : 0 < wholePart x.toRat := by omega
    have up := wholePart_le_nearestWhole positive
    rw [roundHalfAway_above hx above]
    omega
  · by_cases below : wholePart x.toRat < leastInt32
    · have negative : wholePart x.toRat < 0 := by omega
      have down := nearestWhole_le_wholePart negative
      rw [roundHalfAway_below hx below]
      omega
    · exact roundHalfAway_inside hx (not_lt.mp below) (not_lt.mp above)

theorem roundHalfAway_infinite (negative : Bool) :
    (infinite negative).roundHalfAway = if negative then leastInt32 else greatestInt32 := by
  cases negative <;> decide +kernel

theorem roundHalfAway_nan : nan.roundHalfAway = 0 := by decide +kernel

end KnxDatapoint.Single
