import KnxDatapoint.Proofs.ShortFloat.Search

/-! The float found for a single is a nearest one of the whole format.
The divisions of the search are exact wherever the mantissa is not zero, so the greedy search over
exponents agrees with the rule on exact hundredths for every number, the infinities included. -/
namespace KnxDatapoint.ShortFloat
open Rounding Single

instance (x : Single) : Decidable x.IsFinite :=
  match x with
  | .nan => isFalse id
  | .infinite _ => isFalse id
  | .finite _ _ => isTrue trivial

instance (x : ShortFloat) : Decidable x.Fits := inferInstanceAs (Decidable (_ ∧ _ ∧ _))

/-! ## The division of the search -/

theorem weight_power {exponent : ℕ} (small : exponent ≤ greatestExponent) :
    (weight exponent).IsFinite ∧ (weight exponent).toRat = 2 ^ exponent := by
  have power : ((1 <<< exponent : ℕ) : ℤ) = 2 ^ exponent := by simp [Nat.shiftLeft_eq]
  have bound : (2 : ℤ) ^ exponent ≤ 2 ^ greatestExponent := pow_le_pow_right₀ (by norm_num) small
  have positive : (0 : ℤ) < 2 ^ exponent := by positivity
  have short : |(2 : ℤ) ^ exponent| ≤ 2 ^ 15 := by
    rw [abs_of_pos positive]
    exact bound
  rw [weight, power]
  refine ⟨ofInt_finite (short.trans (by norm_num)), ?_⟩
  rw [toRat_ofInt_short (short.trans (by norm_num))]
  push_cast
  rfl

theorem representable_abs {q : ℚ} (value : Representable q) : Representable |q| := by
  rcases abs_choice q with same | opposite
  · rwa [same]
  · rw [opposite]
    exact representable_neg value

/-- Halving loses bits only where nothing but zero is left to round to. -/
theorem nearestWhole_quotient {h : Single} (finite : h.IsFinite) (exponent : ℕ) :
    nearestWhole (rounded (h.toRat / 2 ^ exponent)) = nearestWhole (h.toRat / 2 ^ exponent) := by
  obtain ⟨k, scale, value, short, -, reach⟩ := toRat_scaled finite
  by_cases divides : exponent ≤ scale
  · have exact : h.toRat / 2 ^ exponent = k * 2 ^ (scale - exponent) / 2 ^ 149 := by
      rw [value, show scale = scale - exponent + exponent by omega, pow_add, Nat.add_sub_cancel]
      field_simp
    rw [exact, rounded_representable (representable_scaled _ short.le (by omega))]
  · have tiny : |h.toRat / 2 ^ exponent| ≤ 1 / 4 := by
      have bits : (|k| : ℚ) ≤ 2 ^ 24 := by exact_mod_cast short.le
      have power : (2 : ℚ) ^ scale ≤ 2 ^ exponent := pow_le_pow_right₀ (by norm_num) (by omega)
      have positive := power_pos exponent
      have positive' := power_pos scale
      rw [value, abs_div, abs_div, abs_mul, abs_of_pos positive, abs_of_pos positive',
        abs_of_pos (power_pos 149), div_div, div_le_div_iff₀ (by positivity) (by norm_num)]
      calc |(k : ℚ)| * 2 ^ scale * 4 ≤ 2 ^ 24 * 2 ^ exponent * 4 := by gcongr
        _ ≤ 1 * (2 ^ 149 * 2 ^ exponent) := by linarith
    have quarter : Representable (1 / 4) := by
      have value := representable_scaled (k := 1) 147 (by norm_num) (by norm_num)
      norm_num at value ⊢
      exact value
    have still := abs_rounded_le quarter tiny
    rw [nearestWhole_eq (n := 0) (by push_cast; rw [sub_zero]; linarith),
      nearestWhole_eq (n := 0) (by push_cast; rw [sub_zero]; linarith)]

theorem infinite_div_weight :
    ∀ (negative : Bool) (exponent : Fin 16),
      Single.infinite negative / weight exponent = .infinite negative := by decide +kernel

theorem mantissaAt_infinite (negative : Bool) {exponent : ℕ} (small : exponent ≤ greatestExponent) :
    mantissaAt (.infinite negative) exponent =
      max leastInt32 (min greatestInt32
        (nearestWhole ((Single.infinite negative).toRat / 2 ^ exponent))) := by
  have positive := power_pos exponent
  have bounds := int32_bounds
  have limit : (2 : ℚ) ^ exponent ≤ 2 ^ greatestExponent := pow_le_pow_right₀ (by norm_num) small
  have limit : (2 : ℚ) ^ exponent ≤ 2 ^ 15 := limit
  have quotient := infinite_div_weight negative ⟨exponent, Nat.lt_succ_of_le small⟩
  rw [mantissaAt, quotient, roundHalfAway_infinite, toRat_infinite]
  cases negative with
  | true =>
    have low : nearestWhole (-2 ^ 128 / 2 ^ exponent) < leastInt32 := by
      rw [bounds.1, nearestWhole_lt (by norm_num), div_le_iff₀ positive]
      push_cast
      linarith
    simp only [if_true]
    omega
  | false =>
    have high : greatestInt32 < nearestWhole (2 ^ 128 / 2 ^ exponent) := by
      rw [bounds.2, lt_nearestWhole (by norm_num), le_div_iff₀ positive]
      push_cast
      linarith
    simp only [Bool.false_eq_true, if_false]
    omega

theorem mantissaAt_finite {x : Single} (finite : x.IsFinite) {exponent : ℕ}
    (small : exponent ≤ greatestExponent) : mantissaAt x exponent =
      max leastInt32 (min greatestInt32 (nearestWhole (x.toRat / 2 ^ exponent))) := by
  obtain ⟨weightFinite, power⟩ := weight_power small
  have positive := power_pos exponent
  have nonzero : (weight exponent).toRat ≠ 0 := by rw [power]; exact positive.ne'
  have value := toRat_div finite weightFinite nonzero
  have number := div_ne_nan finite weightFinite nonzero
  rw [power] at value
  have smaller : |x.toRat / 2 ^ exponent| ≤ |x.toRat| := by
    rw [abs_div, abs_of_pos positive]
    exact div_le_self (abs_nonneg _) (one_le_pow₀ (by norm_num))
  have held : (x / weight exponent).IsFinite := by
    refine isFinite_iff.mpr ⟨number, ?_⟩
    rw [value]
    exact (abs_rounded_le (representable_abs (representable_toRat x)) smaller).trans_lt
      (isFinite_iff.mp finite).2
  rw [mantissaAt, roundHalfAway_finite held, value, nearestWhole_quotient finite exponent]

theorem mantissaAt_eq (h : Single) {exponent : ℕ} (small : exponent ≤ greatestExponent) :
    mantissaAt h exponent =
      max leastInt32 (min greatestInt32 (nearestWhole (h.toRat / 2 ^ exponent))) := by
  cases h with
  | nan =>
    have zero : nearestWhole (Single.nan.toRat / 2 ^ exponent) = 0 := by
      apply nearestWhole_eq
      simp
    have cut : mantissaAt .nan exponent = 0 := roundHalfAway_nan
    rw [zero, cut]
    decide
  | infinite negative => exact mantissaAt_infinite negative small
  | finite negative rank =>
    have finite : (Single.finite negative rank).IsFinite := trivial
    exact mantissaAt_finite finite small

/-! ## The search -/

theorem findSome?_range {α : Type} (f : ℕ → Option α) : ∀ (n : ℕ) (a : α),
    (List.range n).findSome? f = some a → ∃ i < n, f i = some a ∧ ∀ j < i, f j = none := by
  intro n
  induction n with
  | zero => simp
  | succ n ih =>
    intro a found
    rw [List.range_succ, List.findSome?_append, Option.or_eq_some_iff] at found
    rcases found with early | ⟨missed, last⟩
    · obtain ⟨i, small, hit, before⟩ := ih a early
      exact ⟨i, by omega, hit, before⟩
    · simp only [List.findSome?_cons, List.findSome?_nil] at last
      refine ⟨n, by omega, ?_, ?_⟩
      · cases hit : f n <;> simp_all
      · simpa using missed

theorem mantissaAt_fits (h : Single) {exponent : ℕ} (small : exponent ≤ greatestExponent) :
    (leastMantissa ≤ mantissaAt h exponent ∧ mantissaAt h exponent ≤ greatestMantissa) ↔
      FitsAt h.toRat exponent := by
  have bounds := int32_bounds
  have limits := mantissa_limits
  rw [mantissaAt_eq h small, FitsAt]
  omega

theorem fit?_some {h : Single} {x : ShortFloat} (found : fit? h = some x) :
    Chosen h.toRat x ∧ FitsAt h.toRat greatestExponent := by
  obtain ⟨exponent, small, hit, before⟩ := findSome?_range _ _ _ found
  have small : exponent ≤ greatestExponent := Nat.lt_succ_iff.mp small
  simp only [Option.ite_none_right_eq_some, Option.some.injEq] at hit
  obtain ⟨held, rfl⟩ := hit
  have fits := (mantissaAt_fits h small).mp held
  have bounds := int32_bounds
  have limits := mantissa_limits
  refine ⟨⟨.inl ⟨⟨small, fits⟩, ?_⟩, ?_⟩, fitsAt_mono small fits⟩
  · rintro e ⟨reach, fitting⟩
    by_contra below
    have missed := before e (not_le.mp below)
    simp only [ite_eq_right_iff, reduceCtorEq, imp_false] at missed
    exact missed ((mantissaAt_fits h reach).mpr fitting)
  · simp only [mantissaAt_eq h small] at held ⊢
    omega

theorem fit?_none {h : Single} (missing : fit? h = none) :
    ∀ e ≤ greatestExponent, ¬ FitsAt h.toRat e := by
  intro e small fits
  have listed := List.mem_range.mpr (Nat.lt_succ_of_le small)
  have missed := List.findSome?_eq_none_iff.mp missing e listed
  simp only [ite_eq_right_iff, reduceCtorEq, imp_false] at missed
  exact missed ((mantissaAt_fits h small).mpr fits)

theorem saturate_chosen {h : Single} (missing : ∀ e ≤ greatestExponent, ¬ FitsAt h.toRat e) :
    Chosen h.toRat (saturate h) := by
  have bounds := int32_bounds
  have limits := mantissa_limits
  refine ⟨.inr ⟨missing, rfl⟩, ?_⟩
  simp only [saturate, mantissaAt_eq h le_rfl]
  omega

theorem ofValue_chosen (v : Single) : Chosen (v * 100).toRat (ofValue v).value := by
  cases found : fit? (v * 100) with
  | some x =>
    simp only [ofValue, found, Logged.value_pure]
    exact (fit?_some found).1
  | none =>
    simp only [ofValue, found]
    exact saturate_chosen (fit?_none found)

theorem ofValue_records (v : Single) : (ofValue v).records =
    if FitsAt (v * 100).toRat greatestExponent then [] else [.saturated v] := by
  cases found : fit? (v * 100) with
  | some x => simp only [ofValue, found, Logged.records_pure, if_pos (fit?_some found).2]
  | none => simp only [ofValue, found, if_neg (fit?_none found _ le_rfl)]

/-- Beyond half a step outside the ends of the format nothing fits. -/
theorem unfit_iff (h : Single) : ¬ FitsAt h.toRat greatestExponent ↔
    Single.ofInt (4095 * 2 ^ 14) ≤ h ∨ h ≤ Single.ofInt (-4097 * 2 ^ 14) := by
  have top : (Single.ofInt (4095 * 2 ^ 14)).toRat = 4095 * 2 ^ 14 :=
    toRat_ofInt_scaled (by norm_num) (by norm_num)
  have bottom : (Single.ofInt (-4097 * 2 ^ 14)).toRat = -4097 * 2 ^ 14 := by
    simpa using @toRat_ofInt_scaled (-4097) 14 (by norm_num) (by norm_num)
  have power : (2 : ℚ) ^ greatestExponent = 2 * 2 ^ 14 := by norm_num [greatestExponent]
  have first := ofInt_ne_nan (4095 * 2 ^ 14)
  have second := ofInt_ne_nan (-4097 * 2 ^ 14)
  rw [fitsAt_iff, le_iff_toRat, le_iff_toRat, top, bottom, not_and_or, not_lt, not_lt, power]
  by_cases number : h = .nan
  · simp [number]
  · simp only [ne_eq, first, second, number, not_false_eq_true, true_and]
    constructor
    · rintro (below | above)
      · exact .inr (by linarith)
      · exact .inl (by linarith)
    · rintro (above | below)
      · exact .inr (by linarith)
      · exact .inl (by linarith)

theorem infinite_ends : ∀ negative : Bool, fit? (.infinite negative) = none ∧
    saturate (.infinite negative) = if negative then ⟨-2048, 15⟩ else ⟨2047, 15⟩ := by
  decide +kernel

/-- The float found is the one of least fitting exponent and a nearest one of the format; a number
beyond its ends, an infinity too, gives the end on its side, and only that is written down. The
bounds are 2047.5 and -2048.5 steps of the greatest exponent. -/
theorem ofValue_optimal (v : Single) :
    ((v * 100).IsFinite →
      Chosen (v * 100).toRat (ofValue v).value ∧
      ∀ y : ShortFloat, y.Fits →
        |(ofValue v).value.hundredths - (v * 100).toRat| ≤ |y.hundredths - (v * 100).toRat|) ∧
    (v * 100 = .infinite false → (ofValue v).value = ⟨2047, 15⟩) ∧
    (v * 100 = .infinite true → (ofValue v).value = ⟨-2048, 15⟩) ∧
    (v = .nan → (ofValue v).value = ⟨0, 0⟩) ∧
    (ofValue v).records =
      if Single.ofInt (4095 * 2 ^ 14) ≤ v * 100 ∨ v * 100 ≤ Single.ofInt (-4097 * 2 ^ 14)
      then [.saturated v] else [] := by
  have chosen := ofValue_chosen v
  refine ⟨fun _ => ⟨chosen, fun y fits => chosen.nearest fits⟩, ?_, ?_, ?_, ?_⟩
  · intro above
    simp only [ofValue, above, infinite_ends, Bool.false_eq_true, if_false]
  · intro below
    simp only [ofValue, below, infinite_ends, if_true]
  · rintro rfl
    decide +kernel
  · rw [ofValue_records]
    simp only [← unfit_iff, ite_not]

/-- Just below a power of two the exponent goes up, and the end of the lesser one is no nearer. -/
theorem ofValue_optimal_below_power :
    (Single.ofBits 0xC1A3E560 * 100).IsFinite ∧ (⟨-2048, 0⟩ : ShortFloat).Fits ∧
    LeastExponent (Single.ofBits 0xC1A3E560 * 100).toRat
      (ofValue (Single.ofBits 0xC1A3E560)).value.exponent ∧
    |(ofValue (Single.ofBits 0xC1A3E560)).value.hundredths -
        (Single.ofBits 0xC1A3E560 * 100).toRat| ≤
      |(⟨-2048, 0⟩ : ShortFloat).hundredths - (Single.ofBits 0xC1A3E560 * 100).toRat| := by
  have finite : (Single.ofBits 0xC1A3E560 * 100).IsFinite := by decide +kernel
  have fits : (⟨-2048, 0⟩ : ShortFloat).Fits := by decide
  have optimal := (ofValue_optimal (Single.ofBits 0xC1A3E560)).1 finite
  exact ⟨finite, fits, optimal.1.exponent, optimal.2 _ fits⟩

end KnxDatapoint.ShortFloat
