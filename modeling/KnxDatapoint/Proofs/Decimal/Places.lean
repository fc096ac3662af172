import KnxDatapoint.Proofs.Decimal.Digits
import KnxDatapoint.Proofs.Single.Rational

/-! Numbers written with two places, and what such a text says of them.
The hundredths that are written miss the number by half of one at most, and the text gives them back
together with the sign, also that of a zero. Two numbers of one text therefore lie no farther apart
than one hundredth. -/
namespace KnxDatapoint.Decimal
open Single Json.Numeral

/-- Numbers that two places do not tell apart. -/
inductive Alike : Single → Single → Prop
  | nan : Alike .nan .nan
  | infinite (negative : Bool) : Alike (.infinite negative) (.infinite negative)
  | finite (negative : Bool) (rank rank' : Fin 0x7F800000)
      (near : |(finite negative rank).toRat - (finite negative rank').toRat| ≤ 1 / 100) :
      Alike (.finite negative rank) (.finite negative rank')

section
variable {negative negative' : Bool} {rank rank' : Fin 0x7F800000} {n n' : ℕ}

/-! ## Values -/

theorem hundredths_error (rank : ℕ) :
    |(hundredths rank : ℚ) - units rank / (one : ℕ) * 100| ≤ 1 / 2 := by
  have positive := one_pos
  have nearest : Rounding.NearestEven (units rank * 100) one (hundredths rank) :=
    Rounding.nearestEven_spec (by decide)
  have low : (2 * hundredths rank * one : ℚ) ≤ 2 * (units rank * 100) + one := by
    exact_mod_cast nearest.low
  have high : (2 * (units rank * 100) : ℚ) ≤ 2 * hundredths rank * one + one := by
    exact_mod_cast nearest.high
  have scaled : (hundredths rank : ℚ) - units rank / (one : ℕ) * 100 =
      (hundredths rank * one - units rank * 100) / (one : ℕ) := by
    field_simp
  rw [scaled, abs_div, abs_of_pos positive, div_le_iff₀ positive, abs_le]
  constructor <;> linarith

theorem near_of_hundredths (negative : Bool) (same : hundredths rank = hundredths rank') :
    |(finite negative rank).toRat - (finite negative rank').toRat| ≤ 1 / 100 := by
  have first := hundredths_error rank
  have second := hundredths_error rank'
  rw [same] at first
  have near : |(units rank : ℚ) / (one : ℕ) - units rank' / (one : ℕ)| ≤ 1 / 100 := by
    rw [abs_le] at first second ⊢
    constructor <;> linarith
  cases negative with
  | false => simpa [toRat_finite, signed] using near
  | true =>
    rw [abs_sub_comm] at near
    simpa [toRat_finite, signed, neg_div, add_comm, sub_eq_add_neg] using near

/-! ## Texts -/

theorem not_mem_of_digits {cs : List Char} {c : Char} (digits : ∀ d ∈ cs, d.isDigit)
    (other : c.isDigit = false) : c ∉ cs := fun listed => by
  simp [digits c listed] at other

theorem minus_mem_iff :
    '-' ∈ sign negative ++ digits n ++ '.' :: lastDigits 2 n' ↔ negative = true := by
  have front : '-' ∉ digits n := not_mem_of_digits (digits_isDigit n) rfl
  have rest : '-' ∉ lastDigits 2 n' := not_mem_of_digits (lastDigits_isDigit 2 n') rfl
  cases negative <;> simp [sign, front, rest]

/-- The places are two, so the point stands where the third character from the end does. -/
theorem signed_places_inj (same : sign negative ++ digits (n / 100) ++ '.' :: lastDigits 2 n =
    sign negative' ++ digits (n' / 100) ++ '.' :: lastDigits 2 n') :
    negative = negative' ∧ n = n' := by
  have signs : negative = negative' := by
    rw [Bool.eq_iff_iff, ← minus_mem_iff, same, minus_mem_iff]
  subst signs
  rw [List.append_assoc, List.append_assoc] at same
  have magnitudes := List.append_cancel_left same
  have tails : ('.' :: lastDigits 2 n).length = ('.' :: lastDigits 2 n').length := by
    simp only [List.length_cons, length_lastDigits]
  obtain ⟨front, rest⟩ := List.append_inj' magnitudes tails
  have whole : n / 100 = n' / 100 := by
    have read := congrArg written front
    rwa [written_digits, written_digits] at read
  have places : n % 10 ^ 2 = n' % 10 ^ 2 := by
    have read := congrArg written (List.cons.inj rest).2
    rwa [written_lastDigits, written_lastDigits] at read
  exact ⟨rfl, by omega⟩

theorem point_mem_iff {x : Single} : '.' ∈ twoPlaces x ↔ x.IsFinite := by
  cases x with
  | nan => simp [twoPlaces, IsFinite]
  | infinite negative => cases negative <;> simp [twoPlaces, sign, IsFinite]
  | finite negative rank => simp [twoPlaces, IsFinite]

end

theorem special_texts_apart (negative negative' : Bool) :
    twoPlaces .nan ≠ twoPlaces (.infinite negative) ∧
    (twoPlaces (.infinite negative) = twoPlaces (.infinite negative') → negative = negative') := by
  cases negative <;> cases negative' <;> decide

/-- Only a number with a point is finite, and the others have one text each. -/
theorem alike_of_twoPlaces {x y : Single} (same : twoPlaces x = twoPlaces y) : Alike x y := by
  have kinds : x.IsFinite ↔ y.IsFinite := by rw [← point_mem_iff, same, point_mem_iff]
  cases x with
  | nan =>
    cases y with
    | nan => exact .nan
    | infinite negative => exact absurd same (special_texts_apart negative negative).1
    | finite negative rank => exact absurd trivial (mt kinds.mpr id)
  | infinite negative =>
    cases y with
    | nan => exact absurd same.symm (special_texts_apart negative negative).1
    | infinite negative' =>
      obtain rfl := (special_texts_apart negative negative').2 same
      exact .infinite negative
    | finite negative' rank => exact absurd trivial (mt kinds.mpr id)
  | finite negative rank =>
    cases y with
    | nan => exact absurd trivial (mt kinds.mp id)
    | infinite negative' => exact absurd trivial (mt kinds.mp id)
    | finite negative' rank' =>
      obtain ⟨rfl, hundredths⟩ := signed_places_inj same
      exact .finite negative rank rank' (near_of_hundredths negative hundredths)

end KnxDatapoint.Decimal
