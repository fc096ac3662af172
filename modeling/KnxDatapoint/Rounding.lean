/-! Nearest binary magnitudes of exact quotients.
Magnitudes are counted upward from zero. The count, a rank, holds exponent and fraction together, so
a carry out of the fraction is an ordinary successor and subnormals need no case of their own.
No intermediate result is rounded: the quotient stays a pair of natural numbers. -/
namespace KnxDatapoint.Rounding

/-- The natural number nearest to the quotient; a tie goes to the even one. -/
def nearestEven (num den : Nat) : Nat :=
  if den < 2 * (num % den) ∨ (2 * (num % den) = den ∧ num / den % 2 = 1) then num / den + 1
  else num / den

/-- The magnitude at a rank, in units of the least positive one, for fractions of `width` bits. -/
def units (width rank : Nat) : Nat :=
  if rank < 1 <<< (width + 1) then rank
  else (1 <<< width + rank % (1 <<< width)) <<< (rank >>> width - 1)

/-- The rank of the magnitude nearest to the quotient, which is given in the same units. -/
def rank (width num den : Nat) : Nat :=
  let spare := (num / den).log2 - width
  spare <<< width + nearestEven num (den <<< spare)

/-- The nearest magnitude itself. -/
def nearestUnits (width num den : Nat) : Nat :=
  units width (rank width num den)

theorem units_small {width rank : Nat} (h : rank < 1 <<< (width + 1)) : units width rank = rank :=
  if_pos h

end KnxDatapoint.Rounding
