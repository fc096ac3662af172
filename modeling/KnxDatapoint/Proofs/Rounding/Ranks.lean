import KnxDatapoint.Rounding
import Mathlib.Data.Nat.Log
import Mathlib.Tactic.Linarith
import Mathlib.Tactic.Ring

/-! Laws of ranks and magnitudes, for fractions of any width.
A magnitude rises with its rank and a rank rises with the quotient it is found for, so a rank is
settled by where the quotient lies. The magnitude found misses it by half a step at most. -/
namespace KnxDatapoint.Rounding

/-- No natural number is nearer to the quotient, and of two equally near the even one is meant. -/
structure NearestEven (num den k : Nat) : Prop where
  low : 2 * k * den ≤ 2 * num + den
  high : 2 * num ≤ 2 * k * den + den
  even : 2 * k * den = 2 * num + den ∨ 2 * num = 2 * k * den + den → k % 2 = 0

theorem nearestEven_spec {num den : Nat} (positive : 0 < den) :
    NearestEven num den (nearestEven num den) := by
  have split := Nat.div_add_mod num den
  have left := Nat.mod_lt num positive
  have product : 2 * (num / den) * den = 2 * (den * (num / den)) := by ring
  have next : 2 * (num / den + 1) * den = 2 * (den * (num / den)) + 2 * den := by ring
  unfold nearestEven
  split
  · constructor <;> rw [next] <;> omega
  · constructor <;> rw [product] <;> omega

theorem nearest_le {n d k n' d' k' : Nat} (positive : 0 < d) (positive' : 0 < d')
    (nearest : NearestEven n d k) (nearest' : NearestEven n' d' k') (le : n * d' ≤ n' * d) :
    k ≤ k' := by
  by_contra above
  have low := Nat.mul_le_mul_right d' nearest.low
  have high := Nat.mul_le_mul_right d nearest'.high
  have area : 0 < d * d' := Nat.mul_pos positive positive'
  have close : k ≤ k' + 1 := by
    by_contra far
    have apart : (2 * k' + 4) * (d * d') ≤ 2 * k * (d * d') := Nat.mul_le_mul_right _ (by omega)
    nlinarith
  obtain rfl : k = k' + 1 := by omega
  -- both quotients are the tie between k' and its successor, which cannot both be even
  have tie : 2 * (k' + 1) * d = 2 * n + d :=
    Nat.le_antisymm nearest.low (by
      by_contra short
      have := Nat.mul_lt_mul_of_pos_right (Nat.lt_of_not_ge short) positive'
      nlinarith)
  have tie' : 2 * n' = 2 * k' * d' + d' :=
    Nat.le_antisymm nearest'.high (by
      by_contra short
      have := Nat.mul_lt_mul_of_pos_right (Nat.lt_of_not_ge short) positive
      nlinarith)
  have upper := nearest.even (.inl tie)
  have lower := nearest'.even (.inr tie')
  omega

theorem nearest_of_mul {k den : Nat} (positive : 0 < den) : NearestEven (k * den) den k where
  low := by linarith [Nat.mul_assoc 2 k den]
  high := by linarith [Nat.mul_assoc 2 k den]
  even tie := by
    have := Nat.mul_assoc 2 k den
    omega

theorem NearestEven.nearest {num den k : Nat} (nearest : NearestEven num den k) (n : Nat) :
    |((k * den : Nat) : Int) - num| ≤ |((n * den : Nat) : Int) - num| := by
  have low := nearest.low
  have high := nearest.high
  rw [Nat.mul_assoc] at low high
  rw [Int.abs_eq_natAbs, Int.abs_eq_natAbs]
  rcases Nat.lt_trichotomy n k with below | rfl | above
  · have apart := Nat.mul_le_mul_right den (Nat.succ_le_of_lt below)
    rw [Nat.succ_mul] at apart
    omega
  · exact le_rfl
  · have apart := Nat.mul_le_mul_right den (Nat.succ_le_of_lt above)
    rw [Nat.succ_mul] at apart
    omega

/-! ## Magnitudes -/

theorem units_scaled {width scale k : Nat} (small : k ≤ 2 ^ (width + 1))
    (normal : 2 ^ width ≤ k ∨ scale = 0) : units width (scale * 2 ^ width + k) = k * 2 ^ scale := by
  have positive := Nat.two_pow_pos width
  have double : 2 ^ (width + 1) = 2 * 2 ^ width := by ring
  have unfolded : units width (scale * 2 ^ width + k) =
      if scale * 2 ^ width + k < 2 ^ (width + 1) then scale * 2 ^ width + k
      else (2 ^ width + (scale * 2 ^ width + k) % 2 ^ width) *
        2 ^ ((scale * 2 ^ width + k) / 2 ^ width - 1) := by
    simp only [units, Nat.shiftLeft_eq, Nat.one_mul, Nat.shiftRight_eq_div_pow]
  rw [unfolded, Nat.mul_add_mod', Nat.add_comm (scale * _) k, Nat.add_mul_div_right _ _ positive]
  by_cases full : k = 2 ^ (width + 1)
  · have quotient : k / 2 ^ width = 2 := by
      rw [full, double, Nat.mul_div_left _ positive]
    have remainder : k % 2 ^ width = 0 := by rw [full, double, Nat.mul_mod_left]
    rw [if_neg (by omega), quotient, remainder, full, show 2 + scale - 1 = scale + 1 by omega]
    ring
  · by_cases normalized : 2 ^ width ≤ k
    · have quotient : k / 2 ^ width = 1 := Nat.div_eq_of_lt_le (by omega) (by omega)
      have remainder : k % 2 ^ width = k - 2 ^ width := by
        rw [Nat.mod_eq_sub_mod normalized, Nat.mod_eq_of_lt (by omega)]
      have whole : 2 ^ width + (k - 2 ^ width) = k := by omega
      rw [quotient, remainder, whole, Nat.add_sub_cancel_left]
      split
      · rename_i least
        have : scale = 0 := by
          by_contra large
          have := Nat.mul_le_mul_right (2 ^ width) (Nat.one_le_iff_ne_zero.mpr large)
          omega
        simp [this]
      · rfl
    · obtain rfl : scale = 0 := normal.resolve_left normalized
      rw [if_pos (by omega)]
      simp

/-- Every rank is a whole number of binades and a place in the last of them. -/
theorem rank_split (width rank : Nat) : ∃ scale k, rank = scale * 2 ^ width + k ∧
    k < 2 ^ (width + 1) ∧ (2 ^ width ≤ k ∨ scale = 0) := by
  have positive := Nat.two_pow_pos width
  have double : 2 ^ (width + 1) = 2 * 2 ^ width := by ring
  have split := Nat.div_add_mod' rank (2 ^ width)
  have left := Nat.mod_lt rank positive
  by_cases first : rank / 2 ^ width = 0
  · refine ⟨0, rank, by omega, ?_, .inr rfl⟩
    rw [first] at split
    omega
  · have previous :
        (rank / 2 ^ width - 1) * 2 ^ width + 2 ^ width = rank / 2 ^ width * 2 ^ width := by
      have positive := Nat.one_le_iff_ne_zero.mpr first
      rw [← Nat.succ_mul, Nat.succ_eq_add_one, Nat.sub_add_cancel positive]
    exact ⟨rank / 2 ^ width - 1, 2 ^ width + rank % 2 ^ width, by omega, by omega, .inl (by omega)⟩

theorem units_strictMono (width : Nat) : StrictMono (units width) := by
  intro r r' lt
  obtain ⟨s, k, rfl, small, normal⟩ := rank_split width r
  obtain ⟨s', k', rfl, small', normal'⟩ := rank_split width r'
  rw [units_scaled small.le normal, units_scaled small'.le normal']
  have double : 2 ^ (width + 1) = 2 * 2 ^ width := by ring
  rcases Nat.lt_trichotomy s s' with below | rfl | above
  · have large' : 2 ^ width ≤ k' := normal'.resolve_right (by omega)
    calc k * 2 ^ s < 2 ^ (width + 1) * 2 ^ s :=
          Nat.mul_lt_mul_of_pos_right small (Nat.two_pow_pos s)
      _ = 2 ^ width * 2 ^ (s + 1) := by ring
      _ ≤ k' * 2 ^ s' := Nat.mul_le_mul large' (Nat.pow_le_pow_right (by omega) below)
  · exact Nat.mul_lt_mul_of_pos_right (by omega) (Nat.two_pow_pos s)
  · have large : 2 ^ width ≤ k := normal.resolve_right (by omega)
    have wide := Nat.mul_le_mul_right (2 ^ width) (Nat.succ_le_of_lt above)
    have next := Nat.succ_mul s' (2 ^ width)
    omega

theorem exists_units (width : Nat) : ∀ scale k, k ≤ 2 ^ (width + 1) →
    ∃ rank, units width rank = k * 2 ^ scale := by
  intro scale
  induction scale with
  | zero =>
    intro k small
    exact ⟨0 * 2 ^ width + k, units_scaled small (.inr rfl)⟩
  | succ scale ih =>
    intro k small
    by_cases normalized : 2 ^ width ≤ k
    · exact ⟨_, units_scaled small (.inl normalized)⟩
    · obtain ⟨rank, found⟩ := ih (2 * k) (by rw [Nat.pow_succ]; omega)
      exact ⟨rank, by rw [found]; ring⟩

/-! ## Ranks of quotients -/

/-- The binade a quotient lies in and the nearest place there. -/
structure Placed (width num den scale k : Nat) : Prop where
  below : num < 2 ^ (width + scale + 1) * den
  above : 2 ^ (width + scale) * den ≤ num ∨ scale = 0
  nearest : NearestEven num (den * 2 ^ scale) k

section
variable {width num den scale k : Nat}

theorem rank_placed (width num : Nat) (positive : 0 < den) : ∃ scale k,
    rank width num den = scale * 2 ^ width + k ∧ Placed width num den scale k := by
  refine ⟨(num / den).log2 - width, nearestEven num (den * 2 ^ ((num / den).log2 - width)),
    ?_, ?_, ?_, ?_⟩
  · simp only [rank, Nat.shiftLeft_eq]
  · have bound : num / den < 2 ^ ((num / den).log2 + 1) := Nat.lt_log2_self
    have wider : 2 ^ ((num / den).log2 + 1) ≤ 2 ^ (width + ((num / den).log2 - width) + 1) :=
      Nat.pow_le_pow_right (by omega) (by omega)
    exact (Nat.div_lt_iff_lt_mul positive).mp (bound.trans_le wider)
  · by_cases short : (num / den).log2 ≤ width
    · exact .inr (by omega)
    · have nonzero : num / den ≠ 0 := by
        intro zero
        simp [zero] at short
      have bound := Nat.log2_self_le nonzero
      have joined : width + ((num / den).log2 - width) = (num / den).log2 := by omega
      rw [joined]
      exact .inl ((Nat.le_div_iff_mul_le positive).mp bound)
  · exact nearestEven_spec (Nat.mul_pos positive (Nat.two_pow_pos _))

theorem place_le (positive : 0 < den) (placed : Placed width num den scale k) :
    k ≤ 2 ^ (width + 1) := by
  have step : 0 < den * 2 ^ scale := Nat.mul_pos positive (Nat.two_pow_pos scale)
  refine nearest_le step step placed.nearest (nearest_of_mul step) ?_
  apply Nat.mul_le_mul_right
  calc num ≤ 2 ^ (width + scale + 1) * den := placed.below.le
    _ = 2 ^ (width + 1) * (den * 2 ^ scale) := by ring

theorem place_normal (positive : 0 < den) (placed : Placed width num den scale k) :
    2 ^ width ≤ k ∨ scale = 0 := by
  have step : 0 < den * 2 ^ scale := Nat.mul_pos positive (Nat.two_pow_pos scale)
  refine placed.above.imp_left fun above => ?_
  refine nearest_le step step (nearest_of_mul step) placed.nearest ?_
  apply Nat.mul_le_mul_right
  calc 2 ^ width * (den * 2 ^ scale) = 2 ^ (width + scale) * den := by ring
    _ ≤ num := above

theorem placed_le {num' den' scale' k' : Nat} (positive : 0 < den) (positive' : 0 < den')
    (placed : Placed width num den scale k) (placed' : Placed width num' den' scale' k')
    (le : num * den' ≤ num' * den) : scale * 2 ^ width + k ≤ scale' * 2 ^ width + k' := by
  have double : 2 ^ (width + 1) = 2 * 2 ^ width := by ring
  rcases Nat.lt_trichotomy scale scale' with below | rfl | above
  · have large := (place_normal positive' placed').resolve_right (by omega)
    have small := place_le positive placed
    have wide := Nat.mul_le_mul_right (2 ^ width) (Nat.succ_le_of_lt below)
    have next := Nat.succ_mul scale (2 ^ width)
    omega
  · have step : 0 < 2 ^ scale := Nat.two_pow_pos scale
    have := nearest_le (Nat.mul_pos positive step) (Nat.mul_pos positive' step) placed.nearest
      placed'.nearest (by nlinarith [Nat.mul_le_mul_right (2 ^ scale) le])
    omega
  · -- a quotient in a lower binade cannot be the greater one
    have large := placed.above.resolve_right (by omega)
    have wider : 2 ^ (width + scale' + 1) ≤ 2 ^ (width + scale) :=
      Nat.pow_le_pow_right (by omega) (by omega)
    have strict : num' * den < num * den' :=
      calc num' * den < 2 ^ (width + scale' + 1) * den' * den :=
            Nat.mul_lt_mul_of_pos_right placed'.below positive
        _ ≤ 2 ^ (width + scale) * den' * den := by gcongr
        _ = 2 ^ (width + scale) * den * den' := by ring
        _ ≤ num * den' := Nat.mul_le_mul_right _ large
    omega

theorem rank_mono {num' den' : Nat} (width : Nat) (positive : 0 < den) (positive' : 0 < den')
    (le : num * den' ≤ num' * den) : rank width num den ≤ rank width num' den' := by
  obtain ⟨scale, k, found, placed⟩ := rank_placed width num positive
  obtain ⟨scale', k', found', placed'⟩ := rank_placed width num' positive'
  rw [found, found']
  exact placed_le positive positive' placed placed' le

theorem rank_units (width r : Nat) (positive : 0 < den) :
    rank width (units width r * den) den = r := by
  obtain ⟨scale, k, rfl, small, normal⟩ := rank_split width r
  rw [units_scaled small.le normal]
  have placed : Placed width (k * 2 ^ scale * den) den scale k := by
    refine ⟨?_, ?_, ?_⟩
    · calc k * 2 ^ scale * den < 2 ^ (width + 1) * 2 ^ scale * den := by gcongr
        _ = 2 ^ (width + scale + 1) * den := by ring
    · refine normal.imp_left fun large => ?_
      calc 2 ^ (width + scale) * den = 2 ^ width * 2 ^ scale * den := by ring
        _ ≤ k * 2 ^ scale * den := by gcongr
    · have regrouped : k * 2 ^ scale * den = k * (den * 2 ^ scale) := by ring
      rw [regrouped]
      exact nearest_of_mul (Nat.mul_pos positive (Nat.two_pow_pos scale))
  obtain ⟨scale', k', found, placed'⟩ := rank_placed width (k * 2 ^ scale * den) positive
  rw [found]
  exact Nat.le_antisymm (placed_le positive positive placed' placed le_rfl)
    (placed_le positive positive placed placed' le_rfl)

theorem nearestUnits_placed (width num : Nat) (positive : 0 < den) : ∃ scale k,
    nearestUnits width num den = k * 2 ^ scale ∧ Placed width num den scale k := by
  obtain ⟨scale, k, found, placed⟩ := rank_placed width num positive
  refine ⟨scale, k, ?_, placed⟩
  rw [nearestUnits, found, units_scaled (place_le positive placed) (place_normal positive placed)]

/-- No magnitude is nearer to the quotient than the one found. -/
theorem nearestUnits_nearest (width num r : Nat) (positive : 0 < den) :
    |((nearestUnits width num den * den : Nat) : Int) - num| ≤
      |((units width r * den : Nat) : Int) - num| := by
  obtain ⟨scale, k, found, placed⟩ := nearestUnits_placed width num positive
  obtain ⟨scale', k', rfl, small, normal⟩ := rank_split width r
  have grid : nearestUnits width num den * den = k * (den * 2 ^ scale) := by rw [found]; ring
  rw [units_scaled small.le normal, grid]
  by_cases coarse : scale ≤ scale'
  · have split : 2 ^ scale' = 2 ^ (scale' - scale) * 2 ^ scale := by
      rw [← pow_add, Nat.sub_add_cancel coarse]
    have onGrid : k' * 2 ^ scale' * den = k' * 2 ^ (scale' - scale) * (den * 2 ^ scale) := by
      rw [split]; ring
    rw [onGrid]
    exact placed.nearest.nearest _
  · -- the start of the binade lies between the quotient and all magnitudes of lesser scale
    have start := placed.above.resolve_right (by omega)
    have wider : 2 ^ (scale' + 1) ≤ 2 ^ scale := Nat.pow_le_pow_right (by omega) (by omega)
    have below : k' * 2 ^ scale' * den ≤ 2 ^ width * (den * 2 ^ scale) :=
      calc k' * 2 ^ scale' * den ≤ 2 ^ (width + 1) * 2 ^ scale' * den := by gcongr
        _ = 2 ^ width * (den * 2 ^ (scale' + 1)) := by ring
        _ ≤ 2 ^ width * (den * 2 ^ scale) := by gcongr
    have reached : 2 ^ width * (den * 2 ^ scale) ≤ num :=
      calc 2 ^ width * (den * 2 ^ scale) = 2 ^ (width + scale) * den := by ring
        _ ≤ num := start
    have nearest := placed.nearest.nearest (2 ^ width)
    rw [Int.abs_eq_natAbs, Int.abs_eq_natAbs] at nearest ⊢
    omega

/-- The magnitude found misses the quotient by half a step of its binade at most. -/
theorem nearestUnits_error (width num : Nat) (positive : 0 < den) :
    2 ^ (width + 1) * (nearestUnits width num den * den) ≤
        2 ^ (width + 1) * num + (num + 2 ^ width * den) ∧
      2 ^ (width + 1) * num ≤
        2 ^ (width + 1) * (nearestUnits width num den * den) + (num + 2 ^ width * den) := by
  obtain ⟨scale, k, magnitude, placed⟩ := nearestUnits_placed width num positive
  have step : 2 ^ width * (den * 2 ^ scale) ≤ num + 2 ^ width * den := by
    rcases placed.above with above | rfl
    · calc 2 ^ width * (den * 2 ^ scale) = 2 ^ (width + scale) * den := by ring
        _ ≤ num + 2 ^ width * den := by omega
    · simp
  have low := Nat.mul_le_mul_left (2 ^ width) placed.nearest.low
  have high := Nat.mul_le_mul_left (2 ^ width) placed.nearest.high
  have double : 2 ^ (width + 1) = 2 * 2 ^ width := by ring
  rw [magnitude, double]
  constructor <;> nlinarith

end
end KnxDatapoint.Rounding
