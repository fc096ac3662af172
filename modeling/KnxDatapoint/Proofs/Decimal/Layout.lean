import KnxDatapoint.Proofs.Decimal.Digits

/-! The two layouts of a decimal.
Only zeros are left out at the end, so the digits that are written and the number of zeros left out
give the decimal back. -/
namespace KnxDatapoint.Decimal
open Json.Numeral

/-- The exponent of a decimal whose point stands after so many of its digits. -/
def mark (point : ℤ) : List Char := 'e' :: (sign (decide (point < 1)) ++ digits (point - 1).natAbs)

/-- How a decimal may be written. -/
inductive Layout (decimal : ℕ) : List Char → Prop where
  | positional (shown : List Char) (zeros : ℕ) (given : shown ≠ [])
      (split : lastDigits places decimal = shown ++ List.replicate zeros '0') :
      Layout decimal (whole decimal ++ '.' :: shown)
  | scientific (c : Char) (rest : List Char) (zeros : ℕ)
      (split : digits decimal = c :: rest ++ List.replicate zeros '0') :
      Layout decimal ([c] ++ ((if rest = [] then [] else '.' :: rest) ++
        mark ((digits decimal).length - (places : ℤ))))

section
variable {decimal : ℕ}

/-- At least one place is shown, and none but zeros are left out. -/
theorem exists_shown (decimal : ℕ) : ∃ shown zeros, shown ≠ [] ∧
    lastDigits places decimal = shown ++ List.replicate zeros '0' ∧
    (if (fraction decimal).isEmpty then ['0'] else fraction decimal) = shown := by
  obtain ⟨zeros, split⟩ := exists_zeros (lastDigits places decimal)
  change _ = fraction decimal ++ _ at split
  by_cases none : fraction decimal = []
  · have length := congrArg List.length split
    simp only [none, length_lastDigits, List.length_append, List.length_nil, List.length_replicate,
      Nat.zero_add] at length
    refine ⟨['0'], 53, by simp, ?_, by simp [none]⟩
    rw [split, none, ← length]
    rfl
  · exact ⟨fraction decimal, zeros, none, split, by simp [none]⟩

theorem exists_significant (nonzero : decimal ≠ 0) : ∃ c rest zeros,
    dropTrailingZeros (digits decimal) = c :: rest ∧
      digits decimal = c :: rest ++ List.replicate zeros '0' := by
  obtain ⟨zeros, split⟩ := exists_zeros (digits decimal)
  obtain ⟨first, others, front, head⟩ := digits_head nonzero
  cases kept : dropTrailingZeros (digits decimal) with
  | nil =>
    rw [kept, List.nil_append, front] at split
    have zero := List.eq_of_mem_replicate (split ▸ List.mem_cons_self : first ∈ _)
    exact absurd zero head
  | cons c rest => exact ⟨c, rest, zeros, rfl, kept ▸ split⟩

theorem pointed_layout (decimal : ℕ) : Layout decimal (pointed decimal) := by
  simp only [pointed]
  split
  next =>
    obtain ⟨shown, zeros, given, split, text⟩ := exists_shown decimal
    rw [text]
    exact .positional shown zeros given split
  next far =>
    obtain ⟨c, rest, zeros, kept, split⟩ := exists_significant (not_or.mp far).1
    have scientific := Layout.scientific c rest zeros split
    simpa [kept, mark] using scientific

end
end KnxDatapoint.Decimal
