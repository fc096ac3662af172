import KnxDatapoint.Single
import KnxDatapoint.Proofs.Rounding.Ranks
import Mathlib.Data.Rat.Floor
import Mathlib.Tactic.FieldSimp
import Mathlib.Tactic.Positivity

/-! Exact values of single-precision numbers, and the number nearest to a rational one.
All order questions become questions about rationals here. Rounding keeps the order and the sign,
moves no number that is itself a single, and errs by one part in 2^24 beside half a least unit. -/
namespace KnxDatapoint.Single

/-- The exact value. An infinity counts as the place one step above the largest finite number,
which is what comparisons take it for; a NaN counts as zero. -/
def toRat (x : Single) : ℚ := (x.position.getD 0 : ℤ) / (one : ℕ)

def IsFinite : Single → Prop
  | .finite _ _ => True
  | _ => False

/-- The number nearest to a rational one; zero is taken as positive. -/
def nearest (q : ℚ) : Single := ofUnits (decide (q < 0)) (q.num.natAbs * one) q.den

/-- The value that a rational number takes when it is rounded once. -/
def rounded (q : ℚ) : ℚ := (nearest q).toRat

/-- Values that rounding leaves alone. -/
def Representable (q : ℚ) : Prop := ∃ x : Single, x.toRat = q

theorem one_eq : one = 2 ^ 149 := by decide

theorem one_pos : (0 : ℚ) < (one : ℕ) := by
  rw [one_eq]
  positivity

theorem toRat_units (x : Single) : ∃ n : ℤ, x.toRat = n / 2 ^ 149 := by
  refine ⟨x.position.getD 0, ?_⟩
  rw [toRat, one_eq]
  norm_num

theorem units_infinity : units infinityRank = 2 ^ 128 * one := by decide

@[simp] theorem signed_zero (negative : Bool) : signed negative 0 = 0 := by
  cases negative <;> rfl

theorem natAbs_signed (negative : Bool) (m : ℕ) : (signed negative m).natAbs = m := by
  cases negative <;> simp [signed]

@[simp] theorem toRat_nan : nan.toRat = 0 := by simp [toRat, position]

theorem toRat_finite (negative : Bool) (rank : Fin 0x7F800000) :
    (finite negative rank).toRat = signed negative (units rank) / (one : ℕ) := rfl

theorem toRat_infinite (negative : Bool) :
    (infinite negative).toRat = if negative then -2 ^ 128 else 2 ^ 128 := by
  have value : (infinite negative).toRat =
      (signed negative (2 ^ 128 * one) : ℤ) / (one : ℕ) := by
    rw [← units_infinity]
    rfl
  have nonzero := one_pos.ne'
  rw [value]
  cases negative
  · simp only [signed, Bool.false_eq_true, if_false, Nat.cast_mul, Int.cast_mul, Int.cast_natCast]
    rw [mul_div_cancel_right₀ _ nonzero]
    norm_num
  · simp only [signed, if_true, Nat.cast_mul, Int.cast_neg, Int.cast_mul, Int.cast_natCast]
    rw [neg_div, mul_div_cancel_right₀ _ nonzero]
    norm_num

/-! ## Order -/

theorem units_lt_units {r r' : ℕ} : units r < units r' ↔ r < r' :=
  (Rounding.units_strictMono 23).lt_iff_lt

theorem units_le_units {r r' : ℕ} : units r ≤ units r' ↔ r ≤ r' :=
  (Rounding.units_strictMono 23).le_iff_le

theorem position_eq {x : Single} (number : x ≠ .nan) :
    ∃ p : ℤ, x.position = some p ∧ x.toRat = p / (one : ℕ) := by
  cases x with
  | nan => exact absurd rfl number
  | infinite negative => exact ⟨_, rfl, rfl⟩
  | finite negative rank => exact ⟨_, rfl, rfl⟩

theorem le_iff_toRat {x y : Single} : x ≤ y ↔ x ≠ .nan ∧ y ≠ .nan ∧ x.toRat ≤ y.toRat := by
  rw [le_iff]
  constructor
  · rintro ⟨a, b, ha, hb, le⟩
    refine ⟨fun nan => by simp [nan, position] at ha, fun nan => by simp [nan, position] at hb, ?_⟩
    simp only [toRat, ha, hb, Option.getD_some]
    exact (div_le_div_iff_of_pos_right one_pos).mpr (by exact_mod_cast le)
  · rintro ⟨hx, hy, le⟩
    obtain ⟨a, ha, va⟩ := position_eq hx
    obtain ⟨b, hb, vb⟩ := position_eq hy
    rw [va, vb, div_le_div_iff_of_pos_right one_pos] at le
    exact ⟨a, b, ha, hb, by exact_mod_cast le⟩

theorem lt_iff_toRat {x y : Single} : x < y ↔ x ≠ .nan ∧ y ≠ .nan ∧ x.toRat < y.toRat := by
  rw [lt_iff]
  constructor
  · rintro ⟨a, b, ha, hb, lt⟩
    refine ⟨fun nan => by simp [nan, position] at ha, fun nan => by simp [nan, position] at hb, ?_⟩
    simp only [toRat, ha, hb, Option.getD_some]
    exact (div_lt_div_iff_of_pos_right one_pos).mpr (by exact_mod_cast lt)
  · rintro ⟨hx, hy, lt⟩
    obtain ⟨a, ha, va⟩ := position_eq hx
    obtain ⟨b, hb, vb⟩ := position_eq hy
    rw [va, vb, div_lt_div_iff_of_pos_right one_pos] at lt
    exact ⟨a, b, ha, hb, by exact_mod_cast lt⟩

theorem beq_iff_toRat {x y : Single} :
    (x == y) = true ↔ x ≠ .nan ∧ y ≠ .nan ∧ x.toRat = y.toRat := by
  rw [beq_iff]
  constructor
  · rintro ⟨a, ha, hb⟩
    refine ⟨fun nan => by simp [nan, position] at ha, fun nan => by simp [nan, position] at hb, ?_⟩
    simp only [toRat, ha, hb]
  · rintro ⟨hx, hy, same⟩
    obtain ⟨a, ha, va⟩ := position_eq hx
    obtain ⟨b, hb, vb⟩ := position_eq hy
    rw [va, vb, div_left_inj' one_pos.ne'] at same
    obtain rfl : a = b := by exact_mod_cast same
    exact ⟨a, ha, hb⟩

theorem beq_self_iff {x : Single} : (x == x) = true ↔ x ≠ .nan := by
  simp [beq_iff_toRat]

instance : PartialEquivBEq Single where
  symm equal := by
    obtain ⟨hx, hy, same⟩ := beq_iff_toRat.mp equal
    exact beq_iff_toRat.mpr ⟨hy, hx, same.symm⟩
  trans first second := by
    obtain ⟨hx, -, same⟩ := beq_iff_toRat.mp first
    obtain ⟨-, hz, same'⟩ := beq_iff_toRat.mp second
    exact beq_iff_toRat.mpr ⟨hx, hz, same.trans same'⟩

theorem finite_ne_nan {x : Single} (hx : x.IsFinite) : x ≠ .nan := by
  rintro rfl
  exact hx

theorem isFinite_cases {x : Single} (hx : x.IsFinite) : ∃ s r, x = .finite s r := by
  cases x with
  | nan => exact hx.elim
  | infinite negative => exact hx.elim
  | finite negative rank => exact ⟨negative, rank, rfl⟩

theorem abs_toRat_finite (negative : Bool) (rank : Fin 0x7F800000) :
    |(finite negative rank).toRat| = units rank / (one : ℕ) := by
  rw [toRat_finite, abs_div, abs_of_pos one_pos, ← Int.cast_abs, Int.abs_eq_natAbs, natAbs_signed]
  rfl

theorem isFinite_iff {x : Single} : x.IsFinite ↔ x ≠ .nan ∧ |x.toRat| < 2 ^ 128 := by
  cases x with
  | nan => simp [IsFinite]
  | infinite negative => cases negative <;> simp [IsFinite, toRat_infinite]
  | finite negative rank =>
    have below : units rank < 2 ^ 128 * one := by
      rw [← units_infinity]
      exact units_lt_units.mpr rank.isLt
    simp only [IsFinite, ne_eq, reduceCtorEq, not_false_eq_true, true_and, true_iff]
    rw [abs_toRat_finite, div_lt_iff₀ one_pos]
    exact_mod_cast below

theorem finite_between {x least greatest : Single} (low : least ≤ x) (high : x ≤ greatest)
    (leastFinite : least.IsFinite) (greatestFinite : greatest.IsFinite) :
    x.IsFinite ∧ least.toRat ≤ x.toRat ∧ x.toRat ≤ greatest.toRat := by
  obtain ⟨-, number, low⟩ := le_iff_toRat.mp low
  obtain ⟨-, -, high⟩ := le_iff_toRat.mp high
  have bottom := neg_abs_le least.toRat
  have top := le_abs_self greatest.toRat
  have leastReach := (isFinite_iff.mp leastFinite).2
  have greatestReach := (isFinite_iff.mp greatestFinite).2
  refine ⟨isFinite_iff.mpr ⟨number, abs_lt.mpr ⟨?_, ?_⟩⟩, low, high⟩
  · linarith
  · linarith

/-- Only the two zeros share a value. -/
theorem eq_of_toRat {x y : Single} (nonzero : x.toRat ≠ 0) (same : x.toRat = y.toRat) : x = y := by
  have hx : x ≠ .nan := by rintro rfl; exact nonzero toRat_nan
  have hy : y ≠ .nan := by rintro rfl; exact nonzero (same.trans toRat_nan)
  by_cases fx : x.IsFinite
  · have fy : y.IsFinite := isFinite_iff.mpr ⟨hy, same ▸ (isFinite_iff.mp fx).2⟩
    obtain ⟨s, r, rfl⟩ := isFinite_cases fx
    obtain ⟨t, r', rfl⟩ := isFinite_cases fy
    have units_eq : signed s (units r) = signed t (units r') := by
      rw [toRat_finite, toRat_finite, div_left_inj' one_pos.ne'] at same
      exact_mod_cast same
    have ranks : r = r' := by
      have := congrArg Int.natAbs units_eq
      rw [natAbs_signed, natAbs_signed] at this
      exact Fin.ext ((Rounding.units_strictMono 23).injective this)
    subst ranks
    have positive : units r ≠ 0 := by
      intro zero
      exact nonzero (by simp [toRat_finite, zero])
    have signs : s = t := by
      cases s <;> cases t <;> simp [signed] at units_eq ⊢ <;> omega
    rw [signs]
  · have fy : ¬ y.IsFinite := fun fy =>
      fx (isFinite_iff.mpr ⟨hx, same ▸ (isFinite_iff.mp fy).2⟩)
    cases x with
    | finite => exact absurd trivial fx
    | nan => exact absurd rfl hx
    | infinite s =>
      cases y with
      | finite => exact absurd trivial fy
      | nan => exact absurd rfl hy
      | infinite t =>
        rw [toRat_infinite, toRat_infinite] at same
        cases s <;> cases t <;> first | rfl | norm_num at same

theorem zero_eq : (0 : Single) = .finite false ⟨0, by decide⟩ := by decide

theorem neg_zero_eq : (-0 : Single) = .finite true ⟨0, by decide⟩ := by decide

theorem zero_of_toRat {x : Single} (number : x ≠ .nan) (zero : x.toRat = 0) : x = 0 ∨ x = -0 := by
  have finite : x.IsFinite := isFinite_iff.mpr ⟨number, by rw [zero]; norm_num⟩
  obtain ⟨s, rank, rfl⟩ := isFinite_cases finite
  have magnitude : (units rank : ℚ) / (one : ℕ) = 0 := by
    rw [← abs_toRat_finite s, zero, abs_zero]
  have least : units rank = units 0 := by
    have none := (div_eq_zero_iff.mp magnitude).resolve_right one_pos.ne'
    exact_mod_cast none
  have rank_zero : rank = ⟨0, by decide⟩ :=
    Fin.ext ((Rounding.units_strictMono 23).injective least)
  rw [neg_zero_eq, zero_eq, rank_zero]
  cases s
  · exact .inl rfl
  · exact .inr rfl

/-- Equal numbers are the same or the two zeros. -/
theorem eq_or_zeros {x y : Single} (equal : (x == y) = true) :
    x = y ∨ (x = 0 ∧ y = -0) ∨ (x = -0 ∧ y = 0) := by
  obtain ⟨hx, hy, same⟩ := beq_iff_toRat.mp equal
  by_cases zero : x.toRat = 0
  · rcases zero_of_toRat hx zero with rfl | rfl <;>
      rcases zero_of_toRat hy (same.symm.trans zero) with rfl | rfl <;> simp
  · exact .inl (eq_of_toRat zero same)

/-! ## Rounding of magnitudes -/

/-- The value of the magnitude nearest to a quotient of units. -/
def magnitude (num den : ℕ) : ℚ := units (min (Rounding.rank 23 num den) infinityRank) / (one : ℕ)

section
variable {num den num' den' : ℕ}

theorem toRat_ofUnits (negative : Bool) (num den : ℕ) : (ofUnits negative num den).toRat =
    if negative then -magnitude num den else magnitude num den := by
  have value : ∀ m : ℕ, ((signed negative m : ℤ) : ℚ) / (one : ℕ) =
      if negative then -((m : ℚ) / (one : ℕ)) else (m : ℚ) / (one : ℕ) := by
    intro m
    cases negative <;> simp [signed, neg_div]
  unfold ofUnits magnitude
  by_cases small : Rounding.rank 23 num den < 0x7F800000
  · simp only [small, dite_true, toRat_finite, value]
    have held : Rounding.rank 23 num den ≤ infinityRank := small.le
    rw [min_eq_left held]
  · have beyond : infinityRank ≤ Rounding.rank 23 num den := Nat.le_of_not_lt small
    rw [min_eq_right beyond]
    simp only [small, dite_false]
    exact value _

theorem ofUnits_ne_nan (negative : Bool) (num den : ℕ) : ofUnits negative num den ≠ .nan := by
  simp only [ofUnits]
  split <;> simp

theorem magnitude_nonneg (num den : ℕ) : 0 ≤ magnitude num den :=
  div_nonneg (Nat.cast_nonneg _) one_pos.le

theorem magnitude_mono (positive : 0 < den) (positive' : 0 < den')
    (le : num * den' ≤ num' * den) : magnitude num den ≤ magnitude num' den' := by
  have ranks := Rounding.rank_mono 23 positive positive' le
  have magnitudes : units (min (Rounding.rank 23 num den) infinityRank) ≤
      units (min (Rounding.rank 23 num' den') infinityRank) :=
    units_le_units.mpr (min_le_min_right _ ranks)
  exact div_le_div_of_nonneg_right (by exact_mod_cast magnitudes) one_pos.le

theorem magnitude_units (rank : ℕ) (positive : 0 < den) (small : rank ≤ infinityRank) :
    magnitude (units rank * den) den = units rank / (one : ℕ) := by
  have own : Rounding.rank 23 (units rank * den) den = rank := Rounding.rank_units 23 rank positive
  rw [magnitude, own, min_eq_left small]

theorem magnitude_eq (positive : 0 < den) (small : num ≤ 2 ^ 128 * one * den) :
    magnitude num den = Rounding.nearestUnits 23 num den / (one : ℕ) := by
  have held : Rounding.rank 23 num den ≤ infinityRank := by
    have top := Rounding.rank_units 23 infinityRank positive
    change Rounding.rank 23 (units infinityRank * den) den = _ at top
    rw [← top, units_infinity]
    exact Rounding.rank_mono 23 positive positive (Nat.mul_le_mul_right den small)
  rw [magnitude, min_eq_left held]
  rfl

theorem units_sub_quotient (num found : ℕ) (positive : 0 < den) :
    (found : ℚ) / (one : ℕ) - num / (den * (one : ℕ)) =
      (found * den - num) / (den * (one : ℕ)) := by
  have width : (den : ℚ) ≠ 0 := by exact_mod_cast positive.ne'
  have := one_pos.ne'
  field_simp

theorem magnitude_nearest (positive : 0 < den) (small : num ≤ 2 ^ 128 * one * den) (r : ℕ) :
    |magnitude num den - num / (den * (one : ℕ))| ≤
      |(units r : ℚ) / (one : ℕ) - num / (den * (one : ℕ))| := by
  have width : (0 : ℚ) < den * (one : ℕ) := mul_pos (by exact_mod_cast positive) one_pos
  have nearest := Rounding.nearestUnits_nearest 23 num r positive
  rw [magnitude_eq positive small, units_sub_quotient _ _ positive, units_sub_quotient _ _ positive,
    abs_div, abs_div, abs_of_pos width]
  exact div_le_div_of_nonneg_right (by exact_mod_cast nearest) width.le

theorem magnitude_error (positive : 0 < den) (small : num ≤ 2 ^ 128 * one * den) :
    |magnitude num den - num / (den * (one : ℕ))| ≤
      num / (den * (one : ℕ)) / 2 ^ 24 + 1 / 2 ^ 150 := by
  obtain ⟨high, low⟩ := Rounding.nearestUnits_error 23 num positive
  have width : (0 : ℚ) < den := by exact_mod_cast positive
  rw [magnitude_eq positive small, units_sub_quotient _ _ positive]
  generalize Rounding.nearestUnits 23 num den = found at high low
  have high : (2 : ℚ) ^ 24 * (found * den) ≤ 2 ^ 24 * num + (num + 2 ^ 23 * den) := by
    exact_mod_cast high
  have low : (2 : ℚ) ^ 24 * num ≤ 2 ^ 24 * (found * den) + (num + 2 ^ 23 * den) := by
    exact_mod_cast low
  have bound : (num : ℚ) / (den * (one : ℕ)) / 2 ^ 24 + 1 / 2 ^ 150 =
      (num / 2 ^ 24 + den / 2) / (den * (one : ℕ)) := by
    rw [one_eq]
    push_cast
    field_simp
    ring
  rw [bound, abs_div, abs_of_pos (mul_pos width one_pos)]
  refine div_le_div_of_nonneg_right ?_ (mul_pos width one_pos).le
  rw [abs_le]
  constructor <;> linarith

end
/-! ## Rounding of rationals -/

theorem rounded_of_nonneg {q : ℚ} (nonneg : 0 ≤ q) :
    rounded q = magnitude (q.num.natAbs * one) q.den := by
  rw [rounded, nearest, toRat_ofUnits, decide_eq_false (not_lt.mpr nonneg)]
  rfl

theorem rounded_units (num : ℕ) {den : ℕ} (positive : 0 < den) :
    rounded (num / (den * (one : ℕ))) = magnitude num den := by
  have width : (0 : ℚ) < den := by exact_mod_cast positive
  generalize eq : (num / (den * (one : ℕ)) : ℚ) = q
  have nonneg : 0 ≤ q := eq ▸ div_nonneg (Nat.cast_nonneg _) (mul_pos width one_pos).le
  have lifted : ((q.num.natAbs : ℕ) : ℚ) = q.num := by
    rw [Nat.cast_natAbs, abs_of_nonneg (Rat.num_nonneg.mpr nonneg)]
  have cross : q.num.natAbs * one * den = num * q.den := by
    have denominator : (q.den : ℚ) ≠ 0 := by exact_mod_cast q.den_nz
    have fraction : (q.num : ℚ) / q.den = num / (den * (one : ℕ)) := by rw [Rat.num_div_den, eq]
    rw [div_eq_div_iff denominator (mul_pos width one_pos).ne'] at fraction
    have product : ((q.num.natAbs * one * den : ℕ) : ℚ) = ((num * q.den : ℕ) : ℚ) := by
      push_cast
      rw [lifted, ← fraction]
      ring
    exact_mod_cast product
  rw [rounded_of_nonneg nonneg]
  exact le_antisymm (magnitude_mono q.den_pos positive cross.le)
    (magnitude_mono positive q.den_pos cross.ge)

theorem rounded_nonneg {q : ℚ} (nonneg : 0 ≤ q) : 0 ≤ rounded q := by
  rw [rounded_of_nonneg nonneg]
  exact magnitude_nonneg _ _

@[simp] theorem rounded_zero : rounded 0 = 0 := by
  have zero := magnitude_units 0 Nat.one_pos (Nat.zero_le _)
  have least : units 0 = 0 := rfl
  rw [least] at zero
  rw [rounded_of_nonneg le_rfl]
  simpa using zero

theorem rounded_neg (q : ℚ) : rounded (-q) = -rounded q := by
  have positive : ∀ p : ℚ, 0 < p → rounded (-p) = -rounded p := by
    intro p pos
    rw [rounded, rounded, nearest, nearest, toRat_ofUnits, toRat_ofUnits,
      decide_eq_false (not_lt.mpr pos.le), decide_eq_true (by linarith : -p < 0),
      Rat.num_neg_eq_neg_num, Rat.den_neg_eq_den, Int.natAbs_neg]
    simp
  rcases lt_trichotomy q 0 with below | rfl | above
  · have reflected := positive (-q) (by linarith)
    rw [InvolutiveNeg.neg_neg] at reflected
    rw [reflected, InvolutiveNeg.neg_neg]
  · simp
  · exact positive q above

theorem rounded_mono {p q : ℚ} (le : p ≤ q) : rounded p ≤ rounded q := by
  have nonneg : ∀ {p q : ℚ}, 0 ≤ p → p ≤ q → rounded p ≤ rounded q := by
    intro p q hp le
    have hq := hp.trans le
    rw [rounded_of_nonneg hp, rounded_of_nonneg hq]
    apply magnitude_mono p.den_pos q.den_pos
    have cross := (Rat.le_iff p q).mp le
    have np := Int.natAbs_of_nonneg (Rat.num_nonneg.mpr hp)
    have nq := Int.natAbs_of_nonneg (Rat.num_nonneg.mpr hq)
    rw [← np, ← nq] at cross
    have cross : p.num.natAbs * q.den ≤ q.num.natAbs * p.den := by exact_mod_cast cross
    calc p.num.natAbs * one * q.den = p.num.natAbs * q.den * one := by ring
      _ ≤ q.num.natAbs * p.den * one := Nat.mul_le_mul_right one cross
      _ = q.num.natAbs * one * p.den := by ring
  by_cases hp : 0 ≤ p
  · exact nonneg hp le
  · by_cases hq : 0 ≤ q
    · have low := rounded_nonneg (q := -p) (by linarith)
      rw [rounded_neg] at low
      exact (by linarith : rounded p ≤ 0).trans (rounded_nonneg hq)
    · have reflected := nonneg (p := -q) (q := -p) (by linarith) (by linarith)
      rw [rounded_neg, rounded_neg] at reflected
      linarith

theorem nearest_ne_nan (q : ℚ) : nearest q ≠ .nan := ofUnits_ne_nan _ _ _

theorem toRat_nearest (q : ℚ) : (nearest q).toRat = rounded q := rfl

theorem rounded_representable {q : ℚ} (value : Representable q) : rounded q = q := by
  have nonneg : ∀ rank ≤ infinityRank,
      rounded (units rank / (one : ℕ)) = units rank / (one : ℕ) := by
    intro rank small
    have own := magnitude_units rank Nat.one_pos small
    rw [← rounded_units _ Nat.one_pos] at own
    simpa using own
  have either : ∀ (negative : Bool) (rank : ℕ), rank ≤ infinityRank →
      rounded ((signed negative (units rank) : ℤ) / (one : ℕ)) =
        (signed negative (units rank) : ℤ) / (one : ℕ) := by
    intro negative rank small
    cases negative with
    | false => simpa [signed] using nonneg rank small
    | true => simpa [signed, neg_div, rounded_neg] using nonneg rank small
  obtain ⟨x, rfl⟩ := value
  cases x with
  | nan => simp
  | infinite negative => exact either negative infinityRank le_rfl
  | finite negative rank => exact either negative rank rank.isLt.le

theorem representable_toRat (x : Single) : Representable x.toRat := ⟨x, rfl⟩

theorem representable_neg {q : ℚ} (value : Representable q) : Representable (-q) := by
  refine ⟨nearest (-q), ?_⟩
  rw [toRat_nearest, rounded_neg, rounded_representable value]

/-- A number in reach is a quotient of units, and rounding it is rounding that. -/
theorem exists_quotient {q : ℚ} (nonneg : 0 ≤ q) (small : q ≤ 2 ^ 128) : ∃ num den : ℕ,
    0 < den ∧ num ≤ 2 ^ 128 * one * den ∧ q = num / (den * (one : ℕ)) ∧
      rounded q = magnitude num den := by
  have lifted : ((q.num.natAbs : ℕ) : ℚ) = q.num := by
    rw [Nat.cast_natAbs, abs_of_nonneg (Rat.num_nonneg.mpr nonneg)]
  have value : ((q.num.natAbs * one : ℕ) : ℚ) / (q.den * (one : ℕ)) = q := by
    rw [Nat.cast_mul, lifted, mul_div_mul_right _ _ one_pos.ne', Rat.num_div_den]
  refine ⟨q.num.natAbs * one, q.den, q.den_pos, ?_, value.symm, rounded_of_nonneg nonneg⟩
  have width : (0 : ℚ) < q.den := by exact_mod_cast q.den_pos
  rw [← value, div_le_iff₀ (mul_pos width one_pos)] at small
  have small : q.num.natAbs * one ≤ 2 ^ 128 * (q.den * one) := by exact_mod_cast small
  calc q.num.natAbs * one ≤ 2 ^ 128 * (q.den * one) := small
    _ = 2 ^ 128 * one * q.den := by ring

theorem exists_abs_units (x : Single) : ∃ r : ℕ, |x.toRat| = units r / (one : ℕ) := by
  cases x with
  | nan => exact ⟨0, by simp [units, Rounding.units_small]⟩
  | infinite negative =>
    refine ⟨infinityRank, ?_⟩
    rw [units_infinity, Nat.cast_mul, mul_div_cancel_right₀ _ one_pos.ne', toRat_infinite]
    cases negative <;> norm_num
  | finite negative rank => exact ⟨rank, abs_toRat_finite negative rank⟩

/-- No single is nearer to a number than the one it is rounded to. -/
theorem rounded_nearest {q : ℚ} (small : |q| ≤ 2 ^ 128) (x : Single) :
    |rounded q - q| ≤ |x.toRat - q| := by
  obtain ⟨r, magnitude⟩ := exists_abs_units x
  have nonneg : ∀ {q : ℚ}, 0 ≤ q → q ≤ 2 ^ 128 → |rounded q - q| ≤ |(|x.toRat|) - q| := by
    intro q hq small
    obtain ⟨num, den, positive, bound, value, nearest⟩ := exists_quotient hq small
    rw [nearest, magnitude, value]
    exact magnitude_nearest positive bound r
  by_cases hq : 0 ≤ q
  · have nearest := nonneg hq ((le_abs_self q).trans small)
    have folded := abs_abs_sub_abs_le x.toRat q
    rw [abs_of_nonneg hq] at folded
    exact nearest.trans folded
  · have nearest := nonneg (q := -q) (by linarith) ((neg_le_abs q).trans small)
    have folded := abs_abs_sub_abs_le x.toRat q
    rw [abs_of_neg (not_le.mp hq)] at folded
    rw [rounded_neg, neg_sub_neg, abs_sub_comm] at nearest
    exact nearest.trans folded

/-- The single nearest to a number, no other being as near. -/
structure IsNearest (x : Single) (q : ℚ) : Prop where
  eq : x = nearest q
  finite : x.IsFinite
  others : ∀ y : Single, y.toRat ≠ x.toRat → |x.toRat - q| < |y.toRat - q|

theorem rounded_error {q : ℚ} (small : |q| ≤ 2 ^ 128) :
    |rounded q - q| ≤ |q| / 2 ^ 24 + 1 / 2 ^ 150 := by
  have nonneg : ∀ {q : ℚ}, 0 ≤ q → q ≤ 2 ^ 128 → |rounded q - q| ≤ q / 2 ^ 24 + 1 / 2 ^ 150 := by
    intro q hq small
    obtain ⟨num, den, positive, bound, value, nearest⟩ := exists_quotient hq small
    rw [nearest, value]
    exact magnitude_error positive bound
  by_cases hq : 0 ≤ q
  · rw [abs_of_nonneg hq] at small ⊢
    exact nonneg hq small
  · rw [abs_of_neg (not_le.mp hq)] at small ⊢
    have reflected := nonneg (q := -q) (by linarith) small
    rw [rounded_neg, neg_sub_neg, abs_sub_comm] at reflected
    exact reflected

theorem representable_zero : Representable 0 := ⟨.nan, toRat_nan⟩

theorem representable_scaled {k : ℤ} (scale : ℕ) (short : |k| ≤ 2 ^ 24) (reach : scale ≤ 253) :
    Representable (k * 2 ^ scale / 2 ^ 149) := by
  have nonneg : ∀ k : ℕ, k ≤ 2 ^ 24 → Representable (k * 2 ^ scale / 2 ^ 149) := by
    intro k short
    obtain ⟨rank, found⟩ := Rounding.exists_units 23 scale k short
    have small : rank ≤ infinityRank := by
      have below : units rank ≤ units infinityRank := by
        rw [units, found, units_infinity, one_eq]
        calc k * 2 ^ scale ≤ 2 ^ 24 * 2 ^ 253 :=
              Nat.mul_le_mul short (Nat.pow_le_pow_right (by omega) reach)
          _ = 2 ^ 128 * 2 ^ 149 := by norm_num
      exact units_le_units.mp below
    have value := magnitude_units rank Nat.one_pos small
    rw [← rounded_units _ Nat.one_pos] at value
    refine ⟨nearest (units rank * 1 / (1 * (one : ℕ))), ?_⟩
    rw [toRat_nearest]
    have shown : (units rank : ℚ) = k * 2 ^ scale := by exact_mod_cast found
    simpa only [shown, one_eq, Nat.cast_one, one_mul, mul_one, Nat.cast_pow, Nat.cast_ofNat]
      using value
  have lifted : ((k.natAbs : ℕ) : ℚ) = |(k : ℚ)| := by rw [Nat.cast_natAbs, Int.cast_abs]
  have magnitude := nonneg k.natAbs (by rw [Int.abs_eq_natAbs] at short; exact_mod_cast short)
  rw [lifted] at magnitude
  rcases abs_choice (k : ℚ) with same | opposite
  · rwa [same] at magnitude
  · rw [opposite] at magnitude
    have reflected := representable_neg magnitude
    rwa [neg_mul, neg_div, InvolutiveNeg.neg_neg] at reflected

theorem representable_int {k : ℤ} (scale : ℕ) (short : |k| ≤ 2 ^ 24) (reach : scale ≤ 104) :
    Representable (k * 2 ^ scale) := by
  have wide := representable_scaled (scale + 149) short (by omega)
  have value : (k : ℚ) * 2 ^ (scale + 149) / 2 ^ 149 = k * 2 ^ scale := by
    rw [pow_add, ← mul_assoc, mul_div_assoc, div_self (by positivity), mul_one]
  rwa [value] at wide

/-- A finite number is a whole number of 24 bits, scaled; all bits are used where the scale is not
the least one. -/
theorem toRat_scaled {x : Single} (hx : x.IsFinite) : ∃ (k : ℤ) (scale : ℕ),
    x.toRat = k * 2 ^ scale / 2 ^ 149 ∧ |k| < 2 ^ 24 ∧ (2 ^ 23 ≤ |k| ∨ scale = 0) ∧ scale ≤ 253 := by
  obtain ⟨negative, rank, rfl⟩ := isFinite_cases hx
  obtain ⟨scale, k, split, small, normal⟩ := Rounding.rank_split 23 rank
  have found : units rank = k * 2 ^ scale := by
    rw [units, split, Rounding.units_scaled small.le normal]
  have reach := rank.isLt
  refine ⟨signed negative k, scale, ?_, ?_, ?_, by omega⟩
  · rw [toRat_finite, found, one_eq]
    cases negative <;> simp [signed] <;> norm_num
  · rw [Int.abs_eq_natAbs, natAbs_signed]
    exact_mod_cast small
  · rw [Int.abs_eq_natAbs, natAbs_signed]
    exact normal.imp_left fun large => by exact_mod_cast large

end KnxDatapoint.Single
