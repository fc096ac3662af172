import KnxDatapoint.Decimal.Shortest
import KnxDatapoint.Json.Numeral
import Mathlib.Data.List.DropRight
import Mathlib.Data.List.TakeWhile
import Mathlib.Data.Nat.Digits.Lemmas
import Mathlib.Tactic.Ring

/-! Strings of decimal digits and the numbers they write.
Digits are written as characters and read as a list of numbers below ten. The laws of the latter are
those of the base-ten representation, which counts from the last digit on. -/
namespace KnxDatapoint

section
variable {α : Type} [BEq α] [LawfulBEq α]

theorem exists_leading (a : α) (l : List α) :
    ∃ count, l = List.replicate count a ++ l.dropWhile (· == a) := by
  have same : ∀ b ∈ l.takeWhile (· == a), b = a := fun b listed => by
    simpa using List.mem_takeWhile_imp listed
  refine ⟨(l.takeWhile (· == a)).length, ?_⟩
  rw [← List.eq_replicate_of_mem same, List.takeWhile_append_dropWhile]

theorem exists_trailing (a : α) (l : List α) :
    ∃ count, l = l.rdropWhile (· == a) ++ List.replicate count a := by
  have same : ∀ b ∈ l.rtakeWhile (· == a), b = a := fun b listed => by
    simpa using List.mem_rtakeWhile_imp listed
  refine ⟨(l.rtakeWhile (· == a)).length, ?_⟩
  rw [← List.eq_replicate_of_mem same, List.rdropWhile_append_rtakeWhile]

end

namespace Json.Numeral

theorem ofDigits_reverse (digits : List ℕ) : ofDigits digits = Nat.ofDigits 10 digits.reverse := by
  induction digits using List.reverseRecOn with
  | nil => rfl
  | append_singleton digits last ih =>
    rw [List.reverse_append, List.reverse_singleton, List.singleton_append, Nat.ofDigits_cons, ← ih]
    simp only [ofDigits, List.foldl_append, List.foldl_cons, List.foldl_nil]
    simp [Nat.add_comm, Nat.mul_comm]

theorem ofDigits_append (digits rest : List ℕ) :
    ofDigits (digits ++ rest) = ofDigits digits * 10 ^ rest.length + ofDigits rest := by
  simp only [ofDigits_reverse, List.reverse_append, Nat.ofDigits_append, List.length_reverse]
  ring

@[simp] theorem ofDigits_zeros (count : ℕ) : ofDigits (List.replicate count 0) = 0 := by
  simp [ofDigits_reverse, Nat.ofDigits_replicate_zero]

theorem ofDigits_lt {digits : List ℕ} (decimal : ∀ d ∈ digits, d < 10) :
    ofDigits digits < 10 ^ digits.length := by
  rw [ofDigits_reverse, ← List.length_reverse]
  exact Nat.ofDigits_lt_base_pow_length (by norm_num) fun d listed =>
    decimal d (List.mem_reverse.mp listed)

theorem le_ofDigits {first : ℕ} (rest : List ℕ) (nonzero : first ≠ 0) :
    10 ^ rest.length ≤ ofDigits (first :: rest) := by
  have split := ofDigits_append [first] rest
  have one : ofDigits [first] = first := by simp [ofDigits]
  rw [List.singleton_append, one] at split
  rw [split]
  exact (Nat.le_mul_of_pos_left _ (Nat.pos_of_ne_zero nonzero)).trans (Nat.le_add_right _ _)

theorem digit_bounds {c : Char} (digit : c.isDigit) :
    '0'.toNat ≤ c.toNat ∧ c.toNat ≤ '9'.toNat := by
  simp only [Char.isDigit, ge_iff_le, UInt32.le_iff_toNat_le, Bool.and_eq_true,
    decide_eq_true_eq] at digit
  exact digit

theorem digitValue_lt {c : Char} (digit : c.isDigit) : digitValue c < 10 := by
  have bounds := digit_bounds digit
  have last : '9'.toNat = '0'.toNat + 9 := rfl
  rw [digitValue]
  omega

theorem digitValue_ne_zero {c : Char} (digit : c.isDigit) (other : c ≠ '0') : digitValue c ≠ 0 := by
  have bounds := digit_bounds digit
  intro zero
  rw [digitValue] at zero
  exact other (Char.toNat_inj.mp (by omega))

/-- The number that characters write. -/
def written (cs : List Char) : ℕ := ofDigits (cs.map digitValue)

theorem written_eq (cs : List Char) : written cs = Nat.ofDigitChars 10 cs 0 := by
  simp only [written, ofDigits, List.foldl_map, Nat.ofDigitChars_eq_foldl, digitValue, Nat.mul_comm]

theorem written_append (cs rest : List Char) :
    written (cs ++ rest) = written cs * 10 ^ rest.length + written rest := by
  simp only [written, List.map_append, ofDigits_append, List.length_map]

@[simp] theorem written_zeros (count : ℕ) : written (List.replicate count '0') = 0 := by
  rw [written, List.map_replicate]
  exact ofDigits_zeros count

end Json.Numeral

namespace Decimal
open Json.Numeral

theorem lastDigits_isDigit (count n : ℕ) : ∀ c ∈ lastDigits count n, c.isDigit := by
  induction count generalizing n with
  | zero => simp [lastDigits]
  | succ count ih =>
    intro c listed
    rcases List.mem_append.mp listed with before | last
    · exact ih _ c before
    · rw [List.mem_singleton.mp last]
      simp [Nat.mod_lt]

theorem digits_isDigit (n : ℕ) : ∀ c ∈ digits n, c.isDigit := fun _ listed =>
  Nat.isDigit_of_mem_toDigits (by norm_num) le_rfl listed

@[simp] theorem written_digits (n : ℕ) : written (digits n) = n := by
  rw [written_eq]
  exact Nat.ofDigitChars_ten_toDigits

theorem written_lastDigits (count n : ℕ) : written (lastDigits count n) = n % 10 ^ count := by
  induction count generalizing n with
  | zero => simp [lastDigits, written, ofDigits, Nat.mod_one]
  | succ count ih =>
    have last : written [(n % 10).digitChar] = n % 10 := by
      have below := Nat.toNat_digitChar_of_lt_ten (Nat.mod_lt n (by norm_num : 0 < 10))
      simp only [written, ofDigits, digitValue, List.map_cons, List.map_nil, List.foldl_cons,
        List.foldl_nil, below]
      simp
    rw [lastDigits, written_append, ih, last, Nat.pow_succ, Nat.mul_comm (10 ^ count),
      Nat.mod_mul]
    simp [Nat.mul_comm, Nat.add_comm]

theorem length_digits_le {n k : ℕ} (positive : 0 < k) : (digits n).length ≤ k ↔ n < 10 ^ k :=
  Nat.length_toDigits_le_iff (by norm_num) positive

theorem lt_length_digits {n k : ℕ} (positive : 0 < k) : k < (digits n).length ↔ 10 ^ k ≤ n := by
  rw [← not_le, length_digits_le positive, not_lt]

/-- Only zero is written with a zero in front. -/
theorem digits_head {n : ℕ} (nonzero : n ≠ 0) : ∃ c rest, digits n = c :: rest ∧ c ≠ '0' := by
  induction n using Nat.strong_induction_on with
  | _ n ih =>
    by_cases small : n < 10
    · refine ⟨n.digitChar, [], Nat.toDigits_of_lt_base small, ?_⟩
      simpa using nonzero
    · obtain ⟨c, rest, split, head⟩ := ih (n / 10) (by omega) (by omega)
      refine ⟨c, rest ++ [(n % 10).digitChar], ?_, head⟩
      rw [digits, Nat.toDigits_of_base_le (by norm_num) (by omega)]
      rw [digits] at split
      rw [split, List.cons_append]

theorem exists_zeros (cs : List Char) :
    ∃ count, cs = dropTrailingZeros cs ++ List.replicate count '0' :=
  exists_trailing '0' cs

end Decimal
end KnxDatapoint
