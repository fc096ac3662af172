import KnxDatapoint.Proofs.Decimal.Digits
import KnxDatapoint.Proofs.Rounding.Ranks
import Mathlib.Algebra.Order.Field.Power
import Mathlib.Data.Rat.Cast.Order
import Mathlib.Tactic.FieldSimp
import Mathlib.Tactic.NormNum
import Mathlib.Tactic.Positivity

/-! The number that a numeral is read as.
A numeral stands for its exact value rounded once, however the value is spread over whole part,
fraction and exponent. Strings of digits that are judged by their length alone lie where rounding
gives zero or an infinity as well. -/
namespace KnxDatapoint

namespace Single

theorem ofUnits_of_rank {num den num' den' : ℕ} (negative : Bool)
    (same : Rounding.rank 23 num den = Rounding.rank 23 num' den') :
    ofUnits negative num den = ofUnits negative num' den' := by
  simp only [ofUnits, same]

theorem ofUnits_of_ratio {num den num' den' : ℕ} (negative : Bool) (positive : 0 < den)
    (positive' : 0 < den') (same : num * den' = num' * den) :
    ofUnits negative num den = ofUnits negative num' den' :=
  ofUnits_of_rank negative <|
    le_antisymm (Rounding.rank_mono 23 positive positive' same.le)
      (Rounding.rank_mono 23 positive' positive same.ge)

theorem ofUnits_finite {num den : ℕ} {rank : Fin 0x7F800000} (negative : Bool)
    (found : Rounding.rank 23 num den = rank) :
    ofUnits negative num den = .finite negative rank := by
  simp [ofUnits, found]

end Single

namespace Json.Numeral
open Single

/-- The exact value of a numeral but for its sign. -/
def magnitude (numeral : Numeral) : ℚ :=
  ofDigits (numeral.whole ++ numeral.fraction) * 10 ^ (numeral.power - numeral.fraction.length)

section
variable {numeral : Numeral} {digits : List ℕ} {place : ℤ} {num den : ℕ}

theorem magnitude_significant (numeral : Numeral) : numeral.magnitude =
    ofDigits numeral.significant * 10 ^ (numeral.power - numeral.trimmed.length) := by
  obtain ⟨after, fraction⟩ := exists_trailing 0 numeral.fraction
  obtain ⟨before, leading⟩ := exists_leading 0 (numeral.whole ++ numeral.trimmed)
  change numeral.fraction = numeral.trimmed ++ _ at fraction
  change _ = _ ++ numeral.significant at leading
  have digits : ofDigits (numeral.whole ++ numeral.fraction) =
      ofDigits numeral.significant * 10 ^ after := by
    rw [fraction, ← List.append_assoc, ofDigits_append, leading, ofDigits_append]
    simp
  have length : numeral.power - (numeral.fraction.length : ℤ) =
      numeral.power - numeral.trimmed.length - after := by
    have := congrArg List.length fraction
    simp only [List.length_append, List.length_replicate] at this
    omega
  rw [magnitude, digits, length, zpow_sub₀ (by norm_num), zpow_natCast]
  push_cast
  field_simp

theorem significant_lead (numeral : Numeral) : numeral.significant.head? ≠ some 0 := by
  intro zero
  have stop := List.head?_dropWhile_not (· == 0) (numeral.whole ++ numeral.trimmed)
  simp only [significant] at zero
  simp [zero] at stop

theorem mem_significant {d : ℕ} (listed : d ∈ numeral.significant) :
    d ∈ numeral.whole ++ numeral.fraction := by
  rcases List.mem_append.mp ((List.dropWhile_suffix _).subset listed) with whole | trimmed
  · exact List.mem_append_left _ whole
  · exact List.mem_append_right _ ((List.rdropWhile_prefix _ numeral.fraction).subset trimmed)

theorem zpow_place (place : ℤ) : (10 : ℚ) ^ place =
    (Decimal.placeValue place.toNat : ℕ) / (Decimal.placeValue (-place).toNat : ℕ) := by
  simp only [Decimal.placeValue, Nat.pow_eq, Nat.cast_pow, Nat.cast_ofNat]
  rcases place.eq_nat_or_neg with ⟨n, rfl | rfl⟩ <;> simp

/-! ## Rounding -/

theorem rank_zero (positive : 0 < den) (small : num * 10 ^ 46 ≤ den) :
    Rounding.rank 23 (num * one) den = 0 := by
  have least : Rounding.rank 23 (1 * one) (10 ^ 46) = 0 := by decide +kernel
  rw [← Nat.le_zero, ← least]
  apply Rounding.rank_mono 23 positive (by positivity)
  calc num * one * 10 ^ 46 = num * 10 ^ 46 * one := by ring
    _ ≤ den * one := Nat.mul_le_mul_right one small
    _ = 1 * one * den := by ring

theorem rank_infinite (positive : 0 < den) (large : 10 ^ 39 * den ≤ num) :
    infinityRank ≤ Rounding.rank 23 (num * one) den := by
  have beyond : infinityRank ≤ Rounding.rank 23 (10 ^ 39 * one) 1 := by decide +kernel
  refine beyond.trans (Rounding.rank_mono 23 Nat.one_pos positive ?_)
  calc 10 ^ 39 * one * den = 10 ^ 39 * den * one := by ring
    _ ≤ num * one := Nat.mul_le_mul_right one large
    _ = num * one * 1 := (Nat.mul_one _).symm

theorem quotient_tiny (decimal : ∀ d ∈ digits, d < 10) (positive : 0 < den)
    (value : (ofDigits digits : ℚ) * 10 ^ place = num / den)
    (tiny : digits = [] ∨ digits.length + place < -45) : num * 10 ^ 46 ≤ den := by
  have width : (0 : ℚ) < den := by exact_mod_cast positive
  rcases tiny with rfl | tiny
  · have zero : (num : ℚ) = 0 := by
      rw [eq_div_iff width.ne'] at value
      simpa [ofDigits] using value.symm
    rw [Nat.cast_eq_zero.mp zero]
    omega
  · have below : (ofDigits digits : ℚ) ≤ 10 ^ (digits.length : ℤ) := by
      exact_mod_cast (ofDigits_lt decimal).le
    have bound : (num : ℚ) / den ≤ 1 / 10 ^ 46 := by
      calc (num : ℚ) / den = ofDigits digits * 10 ^ place := value.symm
        _ ≤ 10 ^ (digits.length : ℤ) * 10 ^ place := by gcongr
        _ = 10 ^ (digits.length + place) := (zpow_add₀ (by norm_num) _ _).symm
        _ ≤ 10 ^ (-46 : ℤ) := zpow_le_zpow_right₀ (by norm_num) (by omega)
        _ = 1 / 10 ^ 46 := by norm_num
    rw [div_le_div_iff₀ width (by positivity), one_mul] at bound
    exact_mod_cast bound

theorem quotient_huge (given : digits ≠ []) (lead : digits.head? ≠ some 0) (positive : 0 < den)
    (value : (ofDigits digits : ℚ) * 10 ^ place = num / den)
    (huge : 39 < digits.length + place) : 10 ^ 39 * den ≤ num := by
  have width : (0 : ℚ) < den := by exact_mod_cast positive
  obtain ⟨first, rest, rfl⟩ := List.exists_cons_of_ne_nil given
  have nonzero : first ≠ 0 := by simpa using lead
  have above : (10 : ℚ) ^ (rest.length : ℤ) ≤ ofDigits (first :: rest) := by
    exact_mod_cast le_ofDigits rest nonzero
  have bound : (10 : ℚ) ^ 39 ≤ num / den := by
    calc (10 : ℚ) ^ 39 = 10 ^ (39 : ℤ) := by norm_num
      _ ≤ 10 ^ (rest.length + place) := by
        rw [List.length_cons] at huge
        exact zpow_le_zpow_right₀ (by norm_num) (by omega)
      _ = 10 ^ (rest.length : ℤ) * 10 ^ place := zpow_add₀ (by norm_num) _ _
      _ ≤ ofDigits (first :: rest) * 10 ^ place := by gcongr
      _ = num / den := value
  rw [le_div_iff₀ width] at bound
  exact_mod_cast bound

theorem quotient_same (positive : 0 < den)
    (value : (ofDigits digits : ℚ) * 10 ^ place = num / den) :
    ofDigits digits * Decimal.placeValue place.toNat * one * den =
      num * one * Decimal.placeValue (-place).toNat := by
  have width : (den : ℚ) ≠ 0 := by exact_mod_cast positive.ne'
  have power : (Decimal.placeValue (-place).toNat : ℚ) ≠ 0 := by
    exact_mod_cast (Nat.pow_pos (by decide : 0 < 10)).ne'
  rw [zpow_place, ← mul_div_assoc, div_eq_div_iff power width] at value
  have cross : ofDigits digits * Decimal.placeValue place.toNat * den =
      num * Decimal.placeValue (-place).toNat := by exact_mod_cast value
  linarith [congrArg (· * one) cross]

/-- What is judged by its length alone is what rounding says of it. -/
theorem nearest_eq (negative : Bool) (decimal : ∀ d ∈ digits, d < 10)
    (lead : digits.head? ≠ some 0) (positive : 0 < den)
    (value : (ofDigits digits : ℚ) * 10 ^ place = num / den) :
    nearest? negative digits place = finite? (ofUnits negative (num * one) den) := by
  unfold nearest?
  split
  next tiny =>
    have same : Rounding.rank 23 (num * one) den = Rounding.rank 23 0 1 :=
      (rank_zero positive (quotient_tiny decimal positive value tiny)).trans (by decide)
    rw [ofUnits_of_rank negative same]
    rfl
  next within =>
    split
    next huge =>
      have beyond : ¬ Rounding.rank 23 (num * one) den < 0x7F800000 := not_lt.mpr <|
        rank_infinite positive
          (quotient_huge (fun none => within (.inl none)) lead positive value huge)
      rw [ofUnits, dif_neg beyond]
      rfl
    next =>
      exact congrArg finite? (ofUnits_of_ratio negative (Nat.pow_pos (by decide)) positive
        (quotient_same positive value))

theorem toSingle_eq (decimal : ∀ d ∈ numeral.whole ++ numeral.fraction, d < 10)
    (plain : ¬ numeral.Overruns) (short : numeral.significant.length ≤ capacity)
    (positive : 0 < den) (value : numeral.magnitude = num / den) :
    numeral.toSingle? = finite? (ofUnits numeral.negative (num * one) den) := by
  have kept : abridged numeral.significant = numeral.significant := if_pos short
  have digits : ∀ d ∈ numeral.significant, d < 10 := fun d listed =>
    decimal d (mem_significant listed)
  rw [magnitude_significant] at value
  simp only [toSingle?, if_neg plain, kept, sub_self, add_zero]
  exact nearest_eq numeral.negative digits numeral.significant_lead positive value

end
end Json.Numeral
end KnxDatapoint
