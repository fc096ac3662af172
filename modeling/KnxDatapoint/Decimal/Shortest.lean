import KnxDatapoint.Decimal.Places

/-! The shortest decimal that identifies a magnitude, and its two layouts.
A decimal identifies a magnitude when it rounds back to it. Grids of one to nine significant digits
are tried in turn; on each only the two neighbours of the exact value can be nearest. Decimals are
kept as whole numbers of a unit so small that every grid in question is made of whole numbers. -/
namespace KnxDatapoint.Decimal

/-- Decimal places of the unit in which decimals are counted. -/
def places : Nat := 54

/-- The rank of the magnitude nearest to a decimal. -/
def rankOf (decimal : Nat) : Nat := Rounding.rank 23 (decimal * Single.one) (placeValue places)

/-- Where a value exactly between two equally short decimals goes. -/
inductive Tie where
  | up
  | even
  deriving DecidableEq, Repr

/-- Whether the upper neighbour is preferred, `left` being twice the distance from the lower one. -/
def Tie.upward (tie : Tie) (below left step : Nat) : Bool :=
  match tie with
  | .up => decide (step ≤ left)
  | .even => decide (step < left ∨ (left = step ∧ below % 2 = 1))

/-- Both neighbours of a magnitude on a grid, the nearer one first. -/
def neighbours (tie : Tie) (rank step : Nat) : List Nat :=
  let num := Single.units rank * placeValue places
  let den := Single.one * step
  let below := num / den
  if tie.upward below (2 * (num % den)) den then [(below + 1) * step, below * step]
  else [below * step, (below + 1) * step]

/-- The nearest decimal of one grid that identifies the magnitude. -/
def onGrid? (tie : Tie) (rank step : Nat) : Option Nat :=
  (neighbours tie rank step).find? fun decimal => rankOf decimal == rank

/-- The shortest decimal that identifies a magnitude. -/
def shortest (tie : Tie) (rank : Nat) : Nat :=
  if rank = 0 then 0
  else
    let length := (digits (Single.units rank * placeValue places / Single.one)).length
    ((List.range 9).findSome? fun shown =>
      onGrid? tie rank (placeValue (length - (shown + 1)))).getD 0

def dropTrailingZeros (cs : List Char) : List Char :=
  (cs.reverse.dropWhile (· == '0')).reverse

/-- The places of a decimal after the point, without trailing zeros. -/
def fraction (decimal : Nat) : List Char := dropTrailingZeros (lastDigits places decimal)

def whole (decimal : Nat) : List Char := digits (decimal / placeValue places)

/-- Never an exponent, and no point unless places follow it. -/
def plain : Single → List Char
  | .nan => ['N', 'a', 'N']
  | .infinite negative => sign negative ++ ['i', 'n', 'f']
  | .finite negative rank =>
    let decimal := shortest .up rank
    let shown := fraction decimal
    sign negative ++ whole decimal ++ if shown.isEmpty then [] else '.' :: shown

/-- At least one place; an exponent where the point would stand far from the digits. -/
def pointed (decimal : Nat) : List Char :=
  let significant := dropTrailingZeros (digits decimal)
  let point : Int := (digits decimal).length - (places : Int)
  if decimal = 0 ∨ (-6 < point ∧ point ≤ 13) then
    let shown := fraction decimal
    whole decimal ++ '.' :: if shown.isEmpty then ['0'] else shown
  else
    significant.take 1 ++ (if significant.length = 1 then [] else '.' :: significant.drop 1)
      ++ 'e' :: (sign (decide (point < 1)) ++ digits (point - 1).natAbs)

/-- The written form of a number in a document; only finite numbers have one. -/
def document? : Single → Option (List Char)
  | .finite negative rank => some (sign negative ++ pointed (shortest .even rank))
  | _ => none

end KnxDatapoint.Decimal
