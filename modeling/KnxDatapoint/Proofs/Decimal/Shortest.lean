import KnxDatapoint.Decimal.Shortest
import KnxDatapoint.Proofs.Decimal.Digits
import KnxDatapoint.Proofs.Rounding.Ranks

/-! The shortest decimal identifies its magnitude.
Magnitudes stand at least one part in 2^24 apart. On a grid of nine digits both neighbours lie
within one part in 10^8, which is less than half of that, so the search always ends with a hit. -/
namespace KnxDatapoint

namespace Rounding

/-- A magnitude stands apart from all that are less by one part in 2^(width + 1) of itself. -/
theorem units_gap {width r r' : Nat} (lt : r < r') :
    2 ^ (width + 1) * units width r + units width r' ≤ 2 ^ (width + 1) * units width r' := by
  obtain ⟨p, rfl⟩ : ∃ p, r' = p + 1 := ⟨r' - 1, by omega⟩
  have order : units width r ≤ units width p :=
    (units_strictMono width).monotone (Nat.le_of_lt_succ lt)
  have step : 2 ^ (width + 1) * units width p + units width (p + 1) ≤
      2 ^ (width + 1) * units width (p + 1) := by
    obtain ⟨scale, k, rfl, small, normal⟩ := rank_split width p
    rw [Nat.add_assoc, units_scaled small.le normal, units_scaled small (by omega)]
    calc 2 ^ (width + 1) * (k * 2 ^ scale) + (k + 1) * 2 ^ scale
        ≤ 2 ^ (width + 1) * (k * 2 ^ scale) + 2 ^ (width + 1) * 2 ^ scale := by gcongr; exact small
      _ = 2 ^ (width + 1) * ((k + 1) * 2 ^ scale) := by ring
  exact le_trans (by gcongr) step

/-- A quotient nearer to a magnitude than half of the least gap has the rank of the magnitude. -/
theorem rank_eq_of_near {width r num den away : Nat} (positive : 0 < den)
    (near : 2 ^ (width + 2) * away < units width r * den)
    (above : num ≤ units width r * den + away) (below : units width r * den ≤ num + away) :
    rank width num den = r := by
  have double : 2 ^ (width + 2) = 2 ^ (width + 1) * 2 := by ring
  have nearest := nearestUnits_nearest width num r positive
  rw [Int.abs_eq_natAbs, Int.abs_eq_natAbs, nearestUnits] at nearest
  have apart : ∀ {a b : Nat}, a < b → units width a * den < units width b * den ∧
      2 ^ (width + 1) * (units width a * den) + units width b * den ≤
        2 ^ (width + 1) * (units width b * den) := by
    intro a b lt
    refine ⟨Nat.mul_lt_mul_of_pos_right (units_strictMono width lt) positive, ?_⟩
    calc 2 ^ (width + 1) * (units width a * den) + units width b * den
        = (2 ^ (width + 1) * units width a + units width b) * den := by ring
      _ ≤ 2 ^ (width + 1) * units width b * den := Nat.mul_le_mul_right den (units_gap lt)
      _ = 2 ^ (width + 1) * (units width b * den) := Nat.mul_assoc _ _ _
  rw [double, Nat.mul_assoc] at near
  rcases Nat.lt_trichotomy (rank width num den) r with less | same | greater
  · obtain ⟨order, gap⟩ := apart less
    have middle := Nat.mul_le_mul_left (2 ^ (width + 1)) (show units width r * den ≤
      units width (rank width num den) * den + 2 * away by omega)
    linarith
  · exact same
  · obtain ⟨order, gap⟩ := apart greater
    have middle := Nat.mul_le_mul_left (2 ^ (width + 1)) (show
      units width (rank width num den) * den ≤ units width r * den + 2 * away by omega)
    linarith

end Rounding

namespace Decimal
open Single

theorem placeValue_eq (place : Nat) : placeValue place = 10 ^ place := rfl

theorem placeValue_pos (place : Nat) : 0 < placeValue place := Nat.pow_pos (by decide)

theorem one_positive : 0 < one := Nat.pos_of_ne_zero (by decide)

section
variable {tie : Tie} {rank step decimal : Nat}

theorem digits_many (nonzero : rank ≠ 0) :
    8 < (digits (units rank * placeValue places / one)).length := by
  rw [lt_length_digits (by norm_num)]
  have least : 1 ≤ units rank := (Nat.zero_le _).trans_lt (show units 0 < units rank from
    Rounding.units_strictMono 23 (Nat.pos_of_ne_zero nonzero))
  rw [Nat.le_div_iff_mul_le one_positive]
  calc 10 ^ 8 * one ≤ 1 * placeValue places := by decide
    _ ≤ units rank * placeValue places := Nat.mul_le_mul_right _ least

/-- The neighbours enclose the magnitude. -/
theorem mem_neighbours (positive : 0 < step) (listed : decimal ∈ neighbours tie rank step) :
    ∃ below, below * (one * step) ≤ units rank * placeValue places ∧
      units rank * placeValue places < (below + 1) * (one * step) ∧
      (decimal = below * step ∨ decimal = (below + 1) * step) := by
  refine ⟨units rank * placeValue places / (one * step), Nat.div_mul_le_self _ _,
    Nat.lt_mul_of_div_lt (Nat.lt_succ_self _) (Nat.mul_pos one_positive positive), ?_⟩
  simp only [neighbours] at listed
  split at listed <;> simp only [List.mem_cons, List.not_mem_nil, or_false] at listed
  · exact listed.symm
  · exact listed

/-- Both neighbours on a fine grid identify the magnitude. -/
theorem rankOf_neighbour (positive : 0 < step)
    (fine : 10 ^ 8 * (one * step) ≤ units rank * placeValue places)
    (listed : decimal ∈ neighbours tie rank step) : rankOf decimal = rank := by
  obtain ⟨below, low, high, either⟩ := mem_neighbours positive listed
  have next := Nat.add_one_mul below (one * step)
  have near : decimal * one ≤ units rank * placeValue places + one * step ∧
      units rank * placeValue places ≤ decimal * one + one * step := by
    rcases either with rfl | rfl
    · have product : below * step * one = below * (one * step) := by ring
      omega
    · have product : (below + 1) * step * one = (below + 1) * (one * step) := by ring
      omega
  have finer : 2 ^ (23 + 2) * (one * step) < 10 ^ 8 * (one * step) :=
    Nat.mul_lt_mul_of_pos_right (by norm_num) (Nat.mul_pos one_positive positive)
  exact Rounding.rank_eq_of_near (placeValue_pos places) (finer.trans_le fine) near.1 near.2

theorem rankOf_onGrid (hit : onGrid? tie rank step = some decimal) : rankOf decimal = rank := by
  simpa only [beq_iff_eq] using List.find?_some hit

theorem onGrid_fine (tie : Tie) (positive : 0 < step)
    (fine : 10 ^ 8 * (one * step) ≤ units rank * placeValue places) :
    (onGrid? tie rank step).isSome := by
  obtain ⟨decimal, listed⟩ : ∃ decimal, decimal ∈ neighbours tie rank step := by
    simp only [neighbours]
    split <;> exact ⟨_, List.mem_cons_self⟩
  rw [onGrid?, List.find?_isSome]
  exact ⟨decimal, listed, beq_iff_eq.mpr (rankOf_neighbour positive fine listed)⟩

end

theorem rankOf_shortest (tie : Tie) (rank : Nat) : rankOf (shortest tie rank) = rank := by
  by_cases zero : rank = 0
  · rw [zero, shortest, if_pos rfl]
    decide +kernel
  · obtain ⟨n, length⟩ := Nat.exists_eq_add_of_lt (digits_many zero)
    have reach : 10 ^ (8 + n) * one ≤ units rank * placeValue places := by
      rw [← Nat.le_div_iff_mul_le one_positive]
      exact (lt_length_digits (by omega)).mp (by omega)
    have last := onGrid_fine tie (placeValue_pos n) <|
      calc 10 ^ 8 * (one * placeValue n) = 10 ^ (8 + n) * one := by rw [placeValue_eq]; ring
        _ ≤ units rank * placeValue places := reach
    have some : ((List.range 9).findSome? fun shown =>
        onGrid? tie rank (placeValue (8 + n + 1 - (shown + 1)))).isSome := by
      refine List.findSome?_isSome_iff.mpr ⟨8, by decide, ?_⟩
      rwa [show 8 + n + 1 - (8 + 1) = n by omega]
    obtain ⟨decimal, found⟩ := Option.isSome_iff_exists.mp some
    obtain ⟨shown, -, hit⟩ := List.exists_of_findSome?_eq_some found
    simp only [shortest, if_neg zero, length, found, Option.getD_some]
    exact rankOf_onGrid hit

-- 21.6, found on the grid of three digits
example : shortest .even 0x41ACCCCD = 216 * placeValue 53 := by decide +kernel

end Decimal
end KnxDatapoint
