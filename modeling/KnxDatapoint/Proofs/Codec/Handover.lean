import KnxDatapoint.Proofs.Codec.Order
import KnxDatapoint.Proofs.Codec.Within

/-! The order of numbers that are written between bounds around zero.
The step toward zero is taken at the exponent where the search stopped, and is twice as long there
as at the exponent before. From the first float of an exponent it leads past the last float of the
exponent before, and this is the only way in which a greater number is read as a lesser one. At the
lower bound it cannot happen: a number found as mantissa -1024 lies beyond its float, which is
therefore never stepped. -/
namespace KnxDatapoint.ShortFloat
open Rounding Single

variable {range : Range} {v w : Single} {p p' q : ℚ} {x y : ShortFloat} {exponent : ℕ}

/-- The lesser number is found as the last float of an exponent, in the range, and the greater one
as the first float of the next exponent, above the range. -/
structure Overtaken (range : Range) (v w : Single) (exponent : ℕ) : Prop where
  lesser : (ofValue v).value = ⟨2047, exponent⟩
  inside : toValue ⟨2047, exponent⟩ ≤ range.greatest
  greater : (ofValue w).value = ⟨1024, exponent + 1⟩
  beyond : range.greatest < toValue ⟨1024, exponent + 1⟩

/-! ## Two numbers at one bound -/

theorem Chosen.reduced (chosen : Chosen q x) (other : ¬ (x.mantissa = -1024 ∧ 1 ≤ x.exponent)) :
    Reduced x := by
  have large := chosen.large
  exact reduced_of_large chosen.fits (by omega)

/-- Only a number beyond the float is raised onto mantissa -1024. -/
theorem Chosen.not_raised (chosen : Chosen (rounded p) x) (above : (x.hundredths : ℚ) ≤ p) :
    ¬ (x.mantissa = -1024 ∧ 1 ≤ x.exponent) := by
  rintro ⟨mantissa, positive⟩
  obtain ⟨previous, next⟩ := Nat.exists_eq_add_one_of_ne_zero (Nat.one_le_iff_ne_zero.mp positive)
  have unit := power_pos previous
  have unfit : ¬ FitsAt (rounded p) previous := chosen.unfit (by omega)
  have held := rounded_mono above
  rw [rounded_representable (representable_hundredths chosen.fits), hundredths_cast, mantissa, next,
    pow_succ] at held
  push_cast at held
  rw [fitsAt_iff, not_and_or, not_lt, not_lt] at unfit
  rcases unfit with below | above
  · linarith
  · have nonneg := chosen.mantissa_nonneg (by linarith)
    omega

/-- No float lies between a number and a float beyond it that is found for a lesser number. -/
theorem same_above (hx : Chosen q x) (hy : Chosen (rounded p) y) (le : q ≤ rounded p)
    (positive : 0 < x.mantissa) (below : p ≤ x.hundredths) : x = y := by
  have order := hx.mono hy le
  have held := rounded_mono below
  rw [rounded_representable (representable_hundredths hx.fits)] at held
  have nearest := hy.nearest hx.fits
  rw [abs_of_nonneg (by linarith), abs_of_nonneg (by linarith)] at nearest
  have same : x.hundredths = y.hundredths := by
    have back : (y.hundredths : ℚ) ≤ x.hundredths := by linarith
    exact_mod_cast le_antisymm order back
  have positive' : 0 < y.mantissa := hundredths_pos_iff.mp (same ▸ hundredths_pos_iff.mpr positive)
  exact reduced_unique (hx.reduced (by omega)) (hy.reduced (by omega)) same

theorem same_below (hx : Chosen (rounded p) x) (hy : Chosen (rounded p') y) (le : p ≤ p')
    (above : (y.hundredths : ℚ) ≤ p) : x = y := by
  have order := hx.mono hy (rounded_mono le)
  have held := rounded_mono above
  rw [rounded_representable (representable_hundredths hy.fits)] at held
  have nearest := hx.nearest hy.fits
  rw [abs_of_nonpos (by linarith), abs_of_nonpos (by linarith)] at nearest
  have same : x.hundredths = y.hundredths := by
    have back : (y.hundredths : ℚ) ≤ x.hundredths := by linarith
    exact_mod_cast le_antisymm order back
  have first := hx.not_raised (by rwa [same])
  have second := hy.not_raised (above.trans le)
  exact reduced_unique (hx.reduced first) (hy.reduced second) same

/-! ## A float that gives way and one that does not -/

/-- Floats of an exponent and of greater ones lie on one grid. -/
theorem hundredths_gap (hx : exponent ≤ x.exponent) (hy : exponent ≤ y.exponent)
    (lt : x.hundredths < y.hundredths) : (x.hundredths : ℚ) + 2 ^ exponent ≤ y.hundredths := by
  obtain ⟨m, first⟩ := hundredths_on_grid hx
  obtain ⟨n, second⟩ := hundredths_on_grid hy
  have unit := power_pos exponent
  have lt : (x.hundredths : ℚ) < y.hundredths := by exact_mod_cast lt
  rw [first, second] at lt ⊢
  have less : m < n := by exact_mod_cast lt_of_mul_lt_mul_right lt unit.le
  have next : (m : ℚ) + 1 ≤ n := by exact_mod_cast Int.add_one_le_iff.mpr less
  calc (m : ℚ) * 2 ^ exponent + 2 ^ exponent = (m + 1) * 2 ^ exponent := by ring
    _ ≤ n * 2 ^ exponent := mul_le_mul_of_nonneg_right next unit.le

theorem below_last (fits : x.Fits) (le : x.exponent ≤ exponent) :
    x = ⟨2047, exponent⟩ ∨ (x.hundredths : ℚ) ≤ 2046 * 2 ^ exponent := by
  rcases le.lt_or_eq with lower | rfl
  · obtain ⟨previous, rfl⟩ := Nat.exists_eq_add_one_of_ne_zero (Nat.ne_zero_of_lt lower)
    have bound := (hundredths_bounds fits (Nat.le_of_lt_succ lower)).2
    have unit := power_pos previous
    rw [pow_succ]
    right
    linarith
  · have high : x.mantissa ≤ 2047 := fits.2.1
    by_cases same : x.mantissa = 2047
    · rw [← same]
      exact .inl rfl
    · have less : (x.mantissa : ℚ) ≤ 2046 := by exact_mod_cast (show x.mantissa ≤ 2046 by omega)
      rw [hundredths_cast]
      exact .inr (mul_le_mul_of_nonneg_right less (power_pos x.exponent).le)

/-- From a greater exponent the step down passes no float but the last one of the exponent before,
and that one only from mantissa 1024. -/
theorem handover (hx : x.Fits) (hy : Chosen q y) (positive : 0 < y.mantissa)
    (coarse : x.exponent < y.exponent) :
    (x.hundredths : ℚ) ≤ y.hundredths - 2 ^ y.exponent ∨
      ∃ exponent, x = ⟨2047, exponent⟩ ∧ y = ⟨1024, exponent + 1⟩ := by
  obtain ⟨previous, next⟩ := Nat.exists_eq_add_one_of_ne_zero (Nat.ne_zero_of_lt coarse)
  have large : 1024 ≤ y.mantissa := by
    have := hy.large
    omega
  have unit := power_pos previous
  rw [hundredths_cast y, next, pow_succ]
  rcases below_last hx (show x.exponent ≤ previous by omega) with last | less
  · by_cases first : y.mantissa = 1024
    · right
      refine ⟨previous, last, ?_⟩
      rw [← first, ← next]
    · have more : (1025 : ℚ) ≤ y.mantissa := by exact_mod_cast (show 1025 ≤ y.mantissa by omega)
      left
      rw [last, hundredths_cast]
      push_cast
      nlinarith
  · have more : (1024 : ℚ) ≤ y.mantissa := by exact_mod_cast large
    left
    nlinarith

theorem hundredths_le_lowered (hx : x.Fits) (hy : Chosen q y) (positive : 0 < y.mantissa)
    (lt : x.hundredths < y.hundredths) :
    (x.hundredths : ℚ) ≤ (⟨y.mantissa - 1, y.exponent⟩ : ShortFloat).hundredths ∨
      ∃ exponent, x = ⟨2047, exponent⟩ ∧ y = ⟨1024, exponent + 1⟩ := by
  rw [lowered_hundredths]
  by_cases fine : y.exponent ≤ x.exponent
  · exact .inl (le_sub_iff_add_le.mpr (hundredths_gap fine le_rfl lt))
  · exact handover hx hy positive (not_le.mp fine)

theorem raised_le_hundredths (hx : Chosen q x) (hy : y.Fits) (negative : x.mantissa < 0)
    (other : ¬ (x.mantissa = -1024 ∧ 1 ≤ x.exponent)) (lt : x.hundredths < y.hundredths) :
    ((⟨x.mantissa + 1, x.exponent⟩ : ShortFloat).hundredths : ℚ) ≤ y.hundredths := by
  rw [raised_hundredths]
  by_cases fine : x.exponent ≤ y.exponent
  · exact hundredths_gap le_rfl fine lt
  · have coarse := not_le.mp fine
    obtain ⟨previous, next⟩ := Nat.exists_eq_add_one_of_ne_zero (Nat.ne_zero_of_lt coarse)
    have small : x.mantissa ≤ -1025 := by
      have := hx.large
      omega
    have small : (x.mantissa : ℚ) ≤ -1025 := by exact_mod_cast small
    have bound := (hundredths_bounds hy (show y.exponent ≤ previous by omega)).1
    have unit := power_pos previous
    rw [hundredths_cast x, next, pow_succ]
    nlinarith

/-! ## What is written for two numbers -/

theorem within_congr (same : (ofValue v).value = (ofValue w).value) :
    (within range v).value = (within range w).value := by
  rw [FloatType.within_value, FloatType.within_value, same]

/-- If a bound is exceeded on the side of the other number, both numbers have the same float. -/
theorem same_beyond (hv : v ∈ range) (hw : w ∈ range) (le : v ≤ w) (zero : 0 ∈ range)
    (beyond : range.greatest < (ofValue v).value.toValue ∨
      (ofValue w).value.toValue < range.least) : (ofValue v).value = (ofValue w).value := by
  have hx := ofValue_hundredfold v
  have hy := ofValue_hundredfold w
  obtain ⟨-, -, order⟩ := le_iff_toRat.mp le
  rcases beyond with above | below
  · obtain ⟨-, -, above⟩ := lt_iff_toRat.mp above
    have high := (le_iff_toRat.mp hw.2).2.2
    have start := (bounds_toRat zero).2.2.2
    have positive : 0 < (ofValue v).value.mantissa := by
      by_contra nonpos
      linarith [toValue_nonpos hx.fits (not_lt.mp nonpos)]
    refine same_above hx hy (rounded_mono (by linarith)) positive ?_
    by_contra under
    linarith [toValue_le hx.fits (not_le.mp under).le]
  · obtain ⟨-, -, below⟩ := lt_iff_toRat.mp below
    have low := (le_iff_toRat.mp hv.1).2.2
    refine same_below hx hy (by linarith) ?_
    by_contra past
    linarith [le_toValue hy.fits (not_le.mp past).le]

theorem within_order (zero : 0 ∈ range) (hv : v ∈ range) (hw : w ∈ range) (le : v ≤ w) :
    (within range v).value.toValue ≤ (within range w).value.toValue ∨
      ∃ exponent, Overtaken range v w exponent := by
  have hx := ofValue_hundredfold v
  have hy := ofValue_hundredfold w
  have stepped := within_stepped zero v
  have stepped' := within_stepped zero w
  have fits := stepped.fits hx.fits
  have fits' := stepped'.fits hy.fits
  rw [toValue_le_iff fits fits']
  by_cases beyond : range.greatest < (ofValue v).value.toValue ∨
      (ofValue w).value.toValue < range.least
  · rw [within_congr (same_beyond hv hw le zero beyond)]
    exact .inl le_rfl
  obtain ⟨above, below⟩ := not_or.mp beyond
  have nonpos := stepped.mantissa_nonpos
  have nonneg := stepped'.mantissa_nonneg
  generalize (within range v).value = written at stepped nonpos fits ⊢
  generalize (within range w).value = written' at stepped' nonneg fits' ⊢
  -- what is left: the lesser number kept or raised, the greater one kept or lowered
  cases stepped with
  | lowered past => exact absurd past above
  | kept inside =>
    cases stepped' with
    | raised under => exact absurd under below
    | kept => exact .inl (by exact_mod_cast ofValue_mono le)
    | lowered past positive =>
      have lt := (toRat_toValue_lt hx.fits hy.fits).mp
        ((le_iff_toRat.mp inside.2).2.2.trans_lt (lt_iff_toRat.mp past).2.2)
      rcases hundredths_le_lowered hx.fits hy positive lt with order | ⟨exponent, last, first⟩
      · exact .inl (by exact_mod_cast order)
      · exact .inr ⟨exponent, last, last ▸ inside.2, first, first ▸ past⟩
  | raised under negative =>
    cases stepped' with
    | raised under' => exact absurd under' below
    | kept inside' =>
      have beneath := (lt_iff_toRat.mp under).2.2
      have lt := (toRat_toValue_lt hx.fits hy.fits).mp
        (beneath.trans_le (le_iff_toRat.mp inside'.1).2.2)
      have other := hx.not_raised <| by
        by_contra past
        have held := (le_iff_toRat.mp hv.1).2.2
        linarith [le_toValue hx.fits (not_le.mp past).le]
      exact .inl (by exact_mod_cast raised_le_hundredths hx hy.fits negative other lt)
    | lowered past positive =>
      have low := hundredths_nonpos (nonpos negative.le)
      have high := hundredths_nonneg (nonneg positive.le)
      exact .inl (low.trans high)

theorem Overtaken.written (zero : 0 ∈ range) (overtaken : Overtaken range v w exponent) :
    (within range v).value = ⟨2047, exponent⟩ ∧ (within range w).value = ⟨1023, exponent + 1⟩ := by
  obtain ⟨lesser, inside, greater, beyond⟩ := overtaken
  have chosen := ofValue_hundredfold v
  rw [lesser] at chosen
  constructor
  · have sign := toValue_nonneg chosen.fits (by norm_num)
    obtain ⟨least, -, start, -⟩ := bounds_toRat zero
    obtain ⟨number, -, -⟩ := le_iff_toRat.mp inside
    have held : (ofValue v).value.toValue ∈ range := by
      rw [lesser]
      exact ⟨le_iff_toRat.mpr ⟨least, number, start.trans sign⟩, inside⟩
    rw [FloatType.within_of_mem held, lesser]
  · have above : range.greatest < (ofValue w).value.toValue := by rwa [greater]
    rw [FloatType.within_value, if_pos (.inl above), greater]
    rfl

theorem Overtaken.lt (overtaken : Overtaken range v w exponent) :
    toValue ⟨1023, exponent + 1⟩ < toValue ⟨2047, exponent⟩ := by
  have fits := (ofValue_chosen v).fits
  have fits' := (ofValue_chosen w).fits
  rw [overtaken.lesser] at fits
  rw [overtaken.greater] at fits'
  have fits' : (⟨1023, exponent + 1⟩ : ShortFloat).Fits := lowered_fits fits' (by norm_num)
  have unit := power_pos exponent
  rw [toValue_lt_iff fits' fits, ← Int.cast_lt (R := ℚ), hundredths_cast, hundredths_cast, pow_succ]
  push_cast
  linarith

end KnxDatapoint.ShortFloat

namespace KnxDatapoint.Wire
open Single ShortFloat

variable {range : Range} {v w : Single}

/-- Two numbers between bounds around zero are read again in their order, but for one case. Where
the greater one is found as the first float of an exponent, above the range, and the lesser one as
the last float of the exponent before, within the range, the lesser one is written as it was found,
the greater one a unit below at its own exponent, and the greater one is read as the lesser. -/
theorem packFloatWithin_order (zero : 0 ∈ range) (hv : v ∈ range) (hw : w ∈ range) (le : v ≤ w) :
    (ReadInOrder (packFloatWithin range) unpackFloat v w ↔
      ¬ ∃ exponent, Overtaken range v w exponent) ∧
    ∀ exponent, Overtaken range v w exponent →
      (packFloatWithin range v).value = .ofWord (toWord ⟨2047, exponent⟩) ∧
      (packFloatWithin range w).value = .ofWord (toWord ⟨1023, exponent + 1⟩) ∧
      result (unpackFloat (packFloatWithin range v).value.toList) = .ok (toValue ⟨2047, exponent⟩) ∧
      result (unpackFloat (packFloatWithin range w).value.toList) =
        .ok (toValue ⟨1023, exponent + 1⟩) ∧
      toValue ⟨1023, exponent + 1⟩ < toValue ⟨2047, exponent⟩ := by
  have read := unpackFloat_within zero v
  have read' := unpackFloat_within zero w
  constructor
  · constructor
    · rintro ⟨x, y, first, second, order⟩ ⟨exponent, overtaken⟩
      obtain ⟨written, written'⟩ := overtaken.written zero
      rw [read, written, Except.ok.injEq] at first
      rw [read', written', Except.ok.injEq] at second
      subst first second
      exact absurd (lt_iff_toRat.mp overtaken.lt).2.2 (le_iff_toRat.mp order).2.2.not_gt
    · intro none
      exact ⟨_, _, read, read', (within_order zero hv hw le).resolve_right none⟩
  · intro exponent overtaken
    obtain ⟨written, written'⟩ := overtaken.written zero
    rw [read, read', packFloatWithin_value, packFloatWithin_value, written, written']
    exact ⟨rfl, rfl, rfl, rfl, overtaken.lt⟩

/-- With the same bound 20.476 is read as 20.46, as 20.46 itself is. -/
theorem packFloatWithin_order_alike :
    (0 : Single) ∈ (⟨-1, .ofBits 0x41A3CED9⟩ : Range) ∧
    Single.ofBits 0x41A3AE14 ∈ (⟨-1, .ofBits 0x41A3CED9⟩ : Range) ∧
    Single.ofBits 0x41A3CED9 ∈ (⟨-1, .ofBits 0x41A3CED9⟩ : Range) ∧
    Single.ofBits 0x41A3AE14 ≤ Single.ofBits 0x41A3CED9 ∧
    ReadInOrder (packFloatWithin ⟨-1, .ofBits 0x41A3CED9⟩) unpackFloat (.ofBits 0x41A3AE14)
      (.ofBits 0x41A3CED9) := by
  have zero : (0 : Single) ∈ (⟨-1, .ofBits 0x41A3CED9⟩ : Range) := by decide
  have hv : Single.ofBits 0x41A3AE14 ∈ (⟨-1, .ofBits 0x41A3CED9⟩ : Range) := by decide
  have hw : Single.ofBits 0x41A3CED9 ∈ (⟨-1, .ofBits 0x41A3CED9⟩ : Range) := by decide
  have le : Single.ofBits 0x41A3AE14 ≤ Single.ofBits 0x41A3CED9 := by decide
  refine ⟨zero, hv, hw, le, (packFloatWithin_order zero hv hw le).1.mpr ?_⟩
  rintro ⟨exponent, overtaken⟩
  have other : (ofValue (.ofBits 0x41A3AE14)).value.mantissa ≠ 2047 := by decide +kernel
  exact other (congrArg ShortFloat.mantissa overtaken.lesser)

/-- The number 20.47 is read as it is, and the bound 20.476 itself as 20.46. -/
theorem bound_read_below_lesser_number :
    (0 : Single) ∈ (⟨-1, .ofBits 0x41A3CED9⟩ : Range) ∧
    Single.ofBits 0x41A3C28F ∈ (⟨-1, .ofBits 0x41A3CED9⟩ : Range) ∧
    Single.ofBits 0x41A3CED9 ∈ (⟨-1, .ofBits 0x41A3CED9⟩ : Range) ∧
    Single.ofBits 0x41A3C28F ≤ Single.ofBits 0x41A3CED9 ∧
    result (unpackFloat (packFloatWithin ⟨-1, .ofBits 0x41A3CED9⟩
      (.ofBits 0x41A3C28F)).value.toList) = .ok (.ofBits 0x41A3C28F) ∧
    result (unpackFloat (packFloatWithin ⟨-1, .ofBits 0x41A3CED9⟩
      (.ofBits 0x41A3CED9)).value.toList) = .ok (.ofBits 0x41A3AE14) ∧
    ¬ Single.ofBits 0x41A3C28F ≤ Single.ofBits 0x41A3AE14 := by
  decide +kernel

end KnxDatapoint.Wire
