import KnxDatapoint.Single.Arithmetic
import KnxDatapoint.Proofs.Single.Rational
import KnxDatapoint.Proofs.Rounding.Close

/-! The operations on finite singles are the exact operations, rounded once. -/
namespace KnxDatapoint.Single

@[simp] theorem toRat_neg (x : Single) : (-x).toRat = -x.toRat := by
  change (Single.neg x).toRat = _
  cases x with
  | nan => simp [Single.neg]
  | infinite negative => cases negative <;> simp [Single.neg, toRat_infinite]
  | finite negative rank => cases negative <;> simp [Single.neg, toRat_finite, signed, neg_div]

/-- Between the ends of the normal range one rounding costs one part in 2^23 at most. -/
theorem rounded_close {q : ℚ} (normal : 1 / 2 ^ 126 ≤ |q|) (small : |q| ≤ 2 ^ 128) :
    Rounding.Close (1 / 2 ^ 23) (rounded q) q := by
  have error := rounded_error small
  have least : (1 : ℚ) / 2 ^ 150 ≤ |q| / 2 ^ 24 := by linarith
  have bound : |rounded q - q| ≤ 1 / 2 ^ 23 * |q| := by linarith
  exact bound

theorem neg_finite {x : Single} (hx : x.IsFinite) : (-x).IsFinite := by
  obtain ⟨negative, rank, rfl⟩ := isFinite_cases hx
  exact trivial

theorem abs_rounded_le {q bound : ℚ} (value : Representable bound) (le : |q| ≤ bound) :
    |rounded q| ≤ bound := by
  have low := rounded_mono (abs_le.mp le).1
  have high := rounded_mono (abs_le.mp le).2
  rw [rounded_neg, rounded_representable value] at low
  rw [rounded_representable value] at high
  exact abs_le.mpr ⟨low, high⟩

theorem isFinite_of_rounded {x : Single} {q : ℚ} (number : x ≠ .nan) (value : x.toRat = rounded q)
    (small : |q| ≤ 2 ^ 127) : x.IsFinite := by
  have top : Representable (2 ^ 127) := by
    have wide := representable_int (k := 2 ^ 24) 103 (by norm_num) (by norm_num)
    norm_num at wide ⊢
    exact wide
  refine isFinite_iff.mpr ⟨number, ?_⟩
  rw [value]
  exact (abs_rounded_le top small).trans_lt (by norm_num)

theorem nearest_finite {q : ℚ} (small : |q| ≤ 2 ^ 127) : (nearest q).IsFinite :=
  isFinite_of_rounded (nearest_ne_nan q) (toRat_nearest q) small

/-! ## Whole numbers -/

theorem ofInt_eq (n : ℤ) : ofInt n = nearest n := by
  simp [ofInt, nearest]

theorem toRat_ofInt (n : ℤ) : (ofInt n).toRat = rounded n := by rw [ofInt_eq, toRat_nearest]

theorem toRat_ofInt_short {n : ℤ} (short : |n| ≤ 2 ^ 24) : (ofInt n).toRat = n := by
  have value := representable_int 0 short (by omega)
  rw [pow_zero, mul_one] at value
  rw [toRat_ofInt, rounded_representable value]

theorem toRat_ofInt_scaled {k : ℤ} {scale : ℕ} (short : |k| ≤ 2 ^ 24) (reach : scale ≤ 104) :
    (ofInt (k * 2 ^ scale)).toRat = k * 2 ^ scale := by
  have value := rounded_representable (representable_int scale short reach)
  rw [toRat_ofInt, Int.cast_mul, Int.cast_pow, Int.cast_ofNat, value]

theorem ofInt_ne_nan (n : ℤ) : ofInt n ≠ .nan := ofUnits_ne_nan _ _ _

theorem ofInt_finite {n : ℤ} (small : |n| ≤ 2 ^ 127) : (ofInt n).IsFinite := by
  rw [ofInt_eq]
  exact nearest_finite (by exact_mod_cast small)

theorem ofNat_eq (n : ℕ) : (OfNat.ofNat n : Single) = ofInt n := rfl

theorem toRat_ofNat {n : ℕ} (short : n ≤ 2 ^ 24) : (OfNat.ofNat n : Single).toRat = n := by
  rw [ofNat_eq, toRat_ofInt_short (by rw [abs_of_nonneg (by omega)]; exact_mod_cast short)]
  rfl

theorem toRat_zero : (0 : Single).toRat = 0 := toRat_ofNat (n := 0) (by norm_num)

theorem toRat_half : half.toRat = 1 / 2 := by
  have value := rounded_units one Nat.two_pos
  have short := representable_scaled (k := 1) 148 (by norm_num) (by norm_num)
  have quotient : ((one : ℕ) : ℚ) / ((2 : ℕ) * (one : ℕ)) = 1 / 2 := by
    have := one_pos.ne'
    field_simp
    norm_num
  have half_eq : ((1 : ℤ) : ℚ) * 2 ^ 148 / 2 ^ 149 = 1 / 2 := by norm_num
  rw [half_eq] at short
  rw [quotient, rounded_representable short] at value
  rw [half, toRat_ofUnits, ← value]
  rfl

/-! ## Products, quotients and differences -/

section
variable {x y : Single}

theorem toRat_mul (hx : x.IsFinite) (hy : y.IsFinite) :
    (x * y).toRat = rounded (x.toRat * y.toRat) := by
  obtain ⟨s, a, rfl⟩ := isFinite_cases hx
  obtain ⟨t, b, rfl⟩ := isFinite_cases hy
  change (ofUnits (s != t) (units a * units b) one).toRat = _
  have magnitude := rounded_units (units a * units b) (show 0 < one by decide)
  have product : ((units a * units b : ℕ) : ℚ) / ((one : ℕ) * (one : ℕ)) =
      units a / (one : ℕ) * (units b / (one : ℕ)) := by
    push_cast
    rw [mul_div_mul_comm]
  rw [product] at magnitude
  rw [toRat_ofUnits, ← magnitude, toRat_finite, toRat_finite]
  cases s <;> cases t <;> simp [signed, neg_div, rounded_neg]

theorem mul_ne_nan (hx : x.IsFinite) (hy : y.IsFinite) : x * y ≠ .nan := by
  obtain ⟨s, a, rfl⟩ := isFinite_cases hx
  obtain ⟨t, b, rfl⟩ := isFinite_cases hy
  exact ofUnits_ne_nan _ _ _

theorem mul_finite (hx : x.IsFinite) (hy : y.IsFinite) (small : |x.toRat * y.toRat| ≤ 2 ^ 127) :
    (x * y).IsFinite :=
  isFinite_of_rounded (mul_ne_nan hx hy) (toRat_mul hx hy) small

theorem div_eq_ofUnits {s t : Bool} {a b : Fin 0x7F800000} (nonzero : (finite t b).toRat ≠ 0) :
    finite s a / finite t b = ofUnits (s != t) (units a * one) (units b) ∧ 0 < units b := by
  have positive : b.val ≠ 0 := by
    intro zero
    apply nonzero
    rw [toRat_finite, zero]
    simp [units, Rounding.units_small]
  refine ⟨?_, ?_⟩
  · change Single.div (finite s a) (finite t b) = _
    simp only [Single.div, if_neg positive]
  · have lt : units 0 < units b := units_lt_units.mpr (Nat.pos_of_ne_zero positive)
    omega

theorem toRat_div (hx : x.IsFinite) (hy : y.IsFinite) (nonzero : y.toRat ≠ 0) :
    (x / y).toRat = rounded (x.toRat / y.toRat) := by
  obtain ⟨s, a, rfl⟩ := isFinite_cases hx
  obtain ⟨t, b, rfl⟩ := isFinite_cases hy
  obtain ⟨shape, positive⟩ := div_eq_ofUnits (s := s) (a := a) nonzero
  have magnitude := rounded_units (units a * one) positive
  have quotient : ((units a * one : ℕ) : ℚ) / ((units b : ℕ) * (one : ℕ)) =
      units a / (one : ℕ) / (units b / (one : ℕ)) := by
    have := one_pos.ne'
    push_cast
    rw [div_div_div_cancel_right₀ this, mul_div_mul_right _ _ this]
  rw [quotient] at magnitude
  rw [shape, toRat_ofUnits, ← magnitude, toRat_finite, toRat_finite]
  cases s <;> cases t <;> simp [signed, neg_div, div_neg, rounded_neg]

theorem div_ne_nan (hx : x.IsFinite) (hy : y.IsFinite) (nonzero : y.toRat ≠ 0) : x / y ≠ .nan := by
  obtain ⟨s, a, rfl⟩ := isFinite_cases hx
  obtain ⟨t, b, rfl⟩ := isFinite_cases hy
  rw [(div_eq_ofUnits nonzero).1]
  exact ofUnits_ne_nan _ _ _

theorem div_finite (hx : x.IsFinite) (hy : y.IsFinite) (nonzero : y.toRat ≠ 0)
    (small : |x.toRat / y.toRat| ≤ 2 ^ 127) : (x / y).IsFinite :=
  isFinite_of_rounded (div_ne_nan hx hy nonzero) (toRat_div hx hy nonzero) small

theorem toRat_add (hx : x.IsFinite) (hy : y.IsFinite) :
    (x + y).toRat = rounded (x.toRat + y.toRat) := by
  obtain ⟨s, a, rfl⟩ := isFinite_cases hx
  obtain ⟨t, b, rfl⟩ := isFinite_cases hy
  change (Single.add (finite s a) (finite t b)).toRat = _
  have sum : (finite s a).toRat + (finite t b).toRat =
      ((signed s (units a) + signed t (units b) : ℤ) : ℚ) / (one : ℕ) := by
    rw [toRat_finite, toRat_finite, ← add_div]
    push_cast
    rfl
  rw [sum]
  simp only [Single.add]
  generalize signed s (units a) + signed t (units b) = total
  have magnitude := rounded_units total.natAbs Nat.one_pos
  have lifted : ((total.natAbs : ℕ) : ℚ) = |(total : ℚ)| := by rw [Nat.cast_natAbs, Int.cast_abs]
  rw [lifted, Nat.cast_one, one_mul] at magnitude
  by_cases zero : total = 0
  · subst zero
    rw [if_pos rfl, toRat_ofUnits]
    simp only [Int.natAbs_zero] at magnitude
    rw [← magnitude]
    simp
  · rw [if_neg zero, toRat_ofUnits, ← magnitude]
    by_cases below : total < 0
    · rw [decide_eq_true below, abs_of_neg (by exact_mod_cast below), neg_div, rounded_neg]
      simp
    · rw [decide_eq_false below, abs_of_nonneg (by exact_mod_cast not_lt.mp below)]
      simp

theorem toRat_sub (hx : x.IsFinite) (hy : y.IsFinite) :
    (x - y).toRat = rounded (x.toRat - y.toRat) := by
  change (x + -y).toRat = _
  rw [toRat_add hx (neg_finite hy), toRat_neg, sub_eq_add_neg]

theorem sub_ne_nan (hx : x.IsFinite) (hy : y.IsFinite) : x - y ≠ .nan := by
  obtain ⟨s, a, rfl⟩ := isFinite_cases hx
  obtain ⟨t, b, rfl⟩ := isFinite_cases hy
  change Single.add (finite s a) (finite (!t) b) ≠ .nan
  simp only [Single.add]
  split <;> exact ofUnits_ne_nan _ _ _

end
end KnxDatapoint.Single
