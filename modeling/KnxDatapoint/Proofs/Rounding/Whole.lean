import Mathlib.Data.Rat.Floor
import Mathlib.Tactic.Linarith

/-! Whole numbers taken from rationals: the whole part, and the nearest with ties away from zero. -/
namespace KnxDatapoint.Rounding

/-- The whole part; what lies behind the point is cut off. -/
def wholePart (q : ℚ) : ℤ := if 0 ≤ q then ⌊q⌋ else ⌈q⌉

/-- The nearest whole number, a tie going away from zero. -/
def nearestWhole (q : ℚ) : ℤ := if 0 ≤ q then ⌊q + 1 / 2⌋ else ⌈q - 1 / 2⌉

theorem wholePart_nonneg {q : ℚ} (nonneg : 0 ≤ q) :
    0 ≤ wholePart q ∧ (wholePart q : ℚ) ≤ q ∧ q < wholePart q + 1 := by
  simp only [wholePart, if_pos nonneg]
  exact ⟨Int.floor_nonneg.mpr nonneg, Int.floor_le q, Int.lt_floor_add_one q⟩

theorem wholePart_neg {q : ℚ} (neg : q < 0) :
    wholePart q ≤ 0 ∧ q ≤ wholePart q ∧ (wholePart q : ℚ) - 1 < q := by
  simp only [wholePart, if_neg (not_le.mpr neg)]
  refine ⟨Int.ceil_le.mpr (by exact_mod_cast neg.le), Int.le_ceil q, ?_⟩
  linarith [Int.ceil_lt_add_one q]

theorem wholePart_le {q : ℚ} (positive : 0 < wholePart q) : (wholePart q : ℚ) ≤ q := by
  by_cases nonneg : 0 ≤ q
  · exact (wholePart_nonneg nonneg).2.1
  · have := (wholePart_neg (not_le.mp nonneg)).1
    omega

theorem le_wholePart {q : ℚ} (negative : wholePart q < 0) : q ≤ wholePart q := by
  by_cases nonneg : 0 ≤ q
  · have := (wholePart_nonneg nonneg).1
    omega
  · exact (wholePart_neg (not_le.mp nonneg)).2.1

theorem abs_sub_wholePart (q : ℚ) : |q - wholePart q| ≤ |q| ∧ |q - wholePart q| < 1 := by
  by_cases nonneg : 0 ≤ q
  · obtain ⟨sign, low, high⟩ := wholePart_nonneg nonneg
    have sign : (0 : ℚ) ≤ wholePart q := by exact_mod_cast sign
    rw [abs_of_nonneg nonneg, abs_of_nonneg (by linarith)]
    constructor <;> linarith
  · obtain ⟨sign, high, low⟩ := wholePart_neg (not_le.mp nonneg)
    have sign : (wholePart q : ℚ) ≤ 0 := by exact_mod_cast sign
    rw [abs_of_neg (not_le.mp nonneg), abs_of_nonpos (by linarith)]
    constructor <;> linarith

theorem abs_wholePart_le (q : ℚ) : |(wholePart q : ℚ)| ≤ |q| := by
  by_cases nonneg : 0 ≤ q
  · obtain ⟨sign, low, high⟩ := wholePart_nonneg nonneg
    have sign : (0 : ℚ) ≤ wholePart q := by exact_mod_cast sign
    rwa [abs_of_nonneg nonneg, abs_of_nonneg sign]
  · obtain ⟨sign, high, low⟩ := wholePart_neg (not_le.mp nonneg)
    have sign : (wholePart q : ℚ) ≤ 0 := by exact_mod_cast sign
    rw [abs_of_neg (not_le.mp nonneg), abs_of_nonpos sign]
    linarith

theorem wholePart_intCast (n : ℤ) : wholePart n = n := by
  simp [wholePart]

theorem wholePart_mono {p q : ℚ} (le : p ≤ q) : wholePart p ≤ wholePart q := by
  by_cases nonneg : 0 ≤ p
  · simp only [wholePart, if_pos nonneg, if_pos (nonneg.trans le)]
    exact Int.floor_mono le
  · have start := (wholePart_neg (not_le.mp nonneg)).1
    by_cases crossed : 0 ≤ q
    · exact start.trans (wholePart_nonneg crossed).1
    · simp only [wholePart, if_neg nonneg, if_neg crossed]
      exact Int.ceil_mono le

theorem nearestWhole_bounds (q : ℚ) :
    (nearestWhole q : ℚ) - 1 / 2 ≤ q ∧ q ≤ nearestWhole q + 1 / 2 := by
  unfold nearestWhole
  split
  · have low := Int.floor_le (q + 1 / 2)
    have high := Int.lt_floor_add_one (q + 1 / 2)
    constructor <;> linarith
  · have low := Int.le_ceil (q - 1 / 2)
    have high := Int.ceil_lt_add_one (q - 1 / 2)
    constructor <;> linarith

theorem nearestWhole_error (q : ℚ) : |(nearestWhole q : ℚ) - q| ≤ 1 / 2 := by
  obtain ⟨low, high⟩ := nearestWhole_bounds q
  rw [abs_le]
  constructor <;> linarith

theorem nearestWhole_nearest (q : ℚ) (n : ℤ) : |(nearestWhole q : ℚ) - q| ≤ |n - q| := by
  have error := nearestWhole_error q
  by_cases same : n = nearestWhole q
  · rw [same]
  · have apart : 1 ≤ |n - nearestWhole q| := Int.one_le_abs (sub_ne_zero.mpr same)
    have apart : (1 : ℚ) ≤ |(n : ℚ) - nearestWhole q| := by exact_mod_cast apart
    have detour := abs_sub_le (n : ℚ) q (nearestWhole q)
    rw [abs_sub_comm q] at detour
    linarith

theorem lt_nearestWhole {q : ℚ} {n : ℤ} (nonneg : 0 ≤ n) :
    n < nearestWhole q ↔ (n : ℚ) + 1 / 2 ≤ q := by
  have sign : (0 : ℚ) ≤ n := by exact_mod_cast nonneg
  unfold nearestWhole
  split
  · rw [Int.lt_iff_add_one_le, Int.le_floor]
    push_cast
    constructor <;> intro <;> linarith
  · rename_i neg
    have low : ⌈q - 1 / 2⌉ ≤ 0 := Int.ceil_le.mpr (by push_cast; linarith)
    constructor
    · intro above
      omega
    · intro above
      linarith

theorem nearestWhole_lt {q : ℚ} {n : ℤ} (nonpos : n ≤ 0) :
    nearestWhole q < n ↔ q ≤ (n : ℚ) - 1 / 2 := by
  have sign : (n : ℚ) ≤ 0 := by exact_mod_cast nonpos
  unfold nearestWhole
  split
  · rename_i nonneg
    have high : 0 ≤ ⌊q + 1 / 2⌋ := Int.floor_nonneg.mpr (by linarith)
    constructor
    · intro below
      omega
    · intro below
      linarith
  · rw [← Int.le_sub_one_iff, Int.ceil_le]
    push_cast
    constructor <;> intro <;> linarith

theorem nearestWhole_eq {q : ℚ} {n : ℤ} (near : |q - n| < 1 / 2) : nearestWhole q = n := by
  obtain ⟨low, high⟩ := nearestWhole_bounds q
  obtain ⟨above, below⟩ := abs_lt.mp near
  have upper : (nearestWhole q : ℚ) < n + 1 := by linarith
  have lower : (n : ℚ) < nearestWhole q + 1 := by linarith
  have upper : nearestWhole q < n + 1 := by exact_mod_cast upper
  have lower : n < nearestWhole q + 1 := by exact_mod_cast lower
  omega

theorem nearestWhole_intCast (n : ℤ) : nearestWhole n = n := nearestWhole_eq (by simp)

theorem nearestWhole_mono {p q : ℚ} (le : p ≤ q) : nearestWhole p ≤ nearestWhole q := by
  by_cases nonneg : 0 ≤ p
  · simp only [nearestWhole, if_pos nonneg, if_pos (nonneg.trans le)]
    exact Int.floor_mono (by linarith)
  · have start : ¬ 0 < nearestWhole p := by
      have below := not_le.mp nonneg
      rw [lt_nearestWhole le_rfl, not_le]
      push_cast
      linarith
    by_cases crossed : 0 ≤ q
    · have rest : ¬ nearestWhole q < 0 := by
        rw [nearestWhole_lt le_rfl, not_le]
        push_cast
        linarith
      omega
    · simp only [nearestWhole, if_neg nonneg, if_neg crossed]
      exact Int.ceil_mono (by linarith)

theorem nearestWhole_neg (q : ℚ) : nearestWhole (-q) = -nearestWhole q := by
  have positive : ∀ p : ℚ, 0 < p → nearestWhole (-p) = -nearestWhole p := by
    intro p above
    have below : ¬ 0 ≤ -p := by linarith
    have mirrored : -p - 1 / 2 = -(p + 1 / 2) := by ring
    rw [nearestWhole, nearestWhole, if_neg below, if_pos above.le, mirrored, Int.ceil_neg]
  rcases lt_trichotomy q 0 with below | rfl | above
  · have reflected := positive (-q) (by linarith)
    rw [neg_neg] at reflected
    omega
  · have zero : nearestWhole 0 = 0 := nearestWhole_intCast 0
    rw [neg_zero, zero, neg_zero]
  · exact positive q above

theorem nearestWhole_of_wholePart (q : ℚ) : nearestWhole q =
    if 1 / 2 ≤ q - wholePart q then wholePart q + 1
    else if q - wholePart q ≤ -(1 / 2) then wholePart q - 1 else wholePart q := by
  by_cases nonneg : 0 ≤ q
  · obtain ⟨sign, low, high⟩ := wholePart_nonneg nonneg
    have down : ¬ q - wholePart q ≤ -(1 / 2) := by linarith
    have up : wholePart q < nearestWhole q ↔ 1 / 2 ≤ q - wholePart q := by
      rw [lt_nearestWhole sign]
      constructor <;> intro <;> linarith
    rw [if_neg down]
    obtain ⟨bound, bound'⟩ := nearestWhole_bounds q
    have upper : (nearestWhole q : ℚ) < wholePart q + 2 := by linarith
    have lower : (wholePart q : ℚ) - 1 < nearestWhole q := by linarith
    have upper : nearestWhole q < wholePart q + 2 := by exact_mod_cast upper
    have lower : wholePart q - 1 < nearestWhole q := by exact_mod_cast lower
    split
    · have := up.mpr ‹_›
      omega
    · have := mt up.mp ‹_›
      omega
  · obtain ⟨sign, high, low⟩ := wholePart_neg (not_le.mp nonneg)
    have up : ¬ 1 / 2 ≤ q - wholePart q := by linarith
    have down : nearestWhole q < wholePart q ↔ q - wholePart q ≤ -(1 / 2) := by
      rw [nearestWhole_lt sign]
      constructor <;> intro <;> linarith
    rw [if_neg up]
    obtain ⟨bound, bound'⟩ := nearestWhole_bounds q
    have upper : (nearestWhole q : ℚ) < wholePart q + 1 := by linarith
    have lower : (wholePart q : ℚ) - 2 < nearestWhole q := by linarith
    have upper : nearestWhole q < wholePart q + 1 := by exact_mod_cast upper
    have lower : wholePart q - 2 < nearestWhole q := by exact_mod_cast lower
    split
    · have := down.mpr ‹_›
      omega
    · have := mt down.mp ‹_›
      omega

theorem wholePart_le_nearestWhole {q : ℚ} (positive : 0 < wholePart q) :
    wholePart q ≤ nearestWhole q := by
  have low := wholePart_le positive
  have down : ¬ q - wholePart q ≤ -(1 / 2) := by linarith
  rw [nearestWhole_of_wholePart, if_neg down]
  split <;> omega

theorem nearestWhole_le_wholePart {q : ℚ} (negative : wholePart q < 0) :
    nearestWhole q ≤ wholePart q := by
  have high := le_wholePart negative
  have up : ¬ 1 / 2 ≤ q - wholePart q := by linarith
  rw [nearestWhole_of_wholePart, if_neg up]
  split <;> omega

/-! ## Nearness without a formula -/

/-- No whole number is nearer, and none that is as near lies farther from zero. -/
structure NearestAway (q : ℚ) (n : ℤ) : Prop where
  nearest : ∀ m : ℤ, |(n : ℚ) - q| ≤ |(m : ℚ) - q|
  away : ∀ m : ℤ, |(m : ℚ) - q| = |(n : ℚ) - q| → |m| ≤ |n|

/-- The other end of a tie, found on the far side of the number, is no greater in size. -/
theorem abs_mirrored_le {q : ℚ} {m : ℤ} (nonneg : 0 ≤ q)
    (mirrored : (m : ℚ) = 2 * q - nearestWhole q) : |m| ≤ |nearestWhole q| := by
  have start : 0 ≤ nearestWhole q := by
    rw [← nearestWhole_intCast 0]
    exact nearestWhole_mono (by exact_mod_cast nonneg)
  have below : q + 1 / 2 < nearestWhole q + 1 := by
    unfold nearestWhole
    rw [if_pos nonneg]
    exact Int.lt_floor_add_one _
  have upper : (m : ℚ) < nearestWhole q + 1 := by linarith
  have lower : (-nearestWhole q : ℚ) ≤ m := by linarith
  have upper : m < nearestWhole q + 1 := by exact_mod_cast upper
  have lower : -nearestWhole q ≤ m := by exact_mod_cast lower
  rw [abs_of_nonneg start, abs_le]
  omega

theorem nearestWhole_away (q : ℚ) : NearestAway q (nearestWhole q) := by
  refine ⟨nearestWhole_nearest q, ?_⟩
  intro m equal
  rcases abs_eq_abs.mp equal with same | opposite
  · have alike : (m : ℚ) = nearestWhole q := by linarith
    have alike : m = nearestWhole q := by exact_mod_cast alike
    rw [alike]
  · have mirrored : (m : ℚ) = 2 * q - nearestWhole q := by linarith
    by_cases nonneg : 0 ≤ q
    · exact abs_mirrored_le nonneg mirrored
    · have reflected := nearestWhole_neg q
      have bound : |-m| ≤ |nearestWhole (-q)| := by
        apply abs_mirrored_le (by linarith)
        rw [reflected]
        push_cast
        linarith
      rwa [reflected, abs_neg, abs_neg] at bound

theorem NearestAway.eq {q : ℚ} {n : ℤ} (found : NearestAway q n) : n = nearestWhole q := by
  have rule := nearestWhole_away q
  have equal : |(n : ℚ) - q| = |(nearestWhole q : ℚ) - q| :=
    le_antisymm (found.nearest _) (rule.nearest _)
  have sizes : |n| = |nearestWhole q| :=
    le_antisymm (rule.away n equal) (found.away _ equal.symm)
  rcases abs_eq_abs.mp sizes with same | opposite
  · exact same
  rcases abs_eq_abs.mp equal with alike | mirrored
  · have : (n : ℚ) = nearestWhole q := by linarith
    exact_mod_cast this
  -- mirror images at equal distances leave nothing but zero to be rounded
  have image : (n : ℚ) = -nearestWhole q := by exact_mod_cast opposite
  have zero : q = 0 := by linarith
  have none : nearestWhole 0 = 0 := nearestWhole_intCast 0
  rw [zero, none] at opposite ⊢
  omega

/-- The rule singles out one whole number. -/
theorem nearestAway_iff {q : ℚ} {n : ℤ} : NearestAway q n ↔ n = nearestWhole q := by
  constructor
  · exact NearestAway.eq
  · rintro rfl
    exact nearestWhole_away q

end KnxDatapoint.Rounding
