import KnxDatapoint.Single

/-! Decimal digits, and numbers written with exactly two places.
The exact value is rounded once, a tie going to the even digit. A negative sign is written whenever
the number carries one, zero included; a NaN carries none. -/
namespace KnxDatapoint.Decimal

def digits (n : Nat) : List Char := Nat.toDigits 10 n

/-- What a one counts for at a place, the places being numbered from zero. -/
def placeValue (place : Nat) : Nat := Nat.pow 10 place

/-- The last digits of a number, as many as asked for, with leading zeros. -/
def lastDigits : Nat → Nat → List Char
  | 0, _ => []
  | count + 1, n => lastDigits count (n / 10) ++ [(n % 10).digitChar]

def sign (negative : Bool) : List Char := if negative then ['-'] else []

/-- A magnitude in hundredths, the nearest whole number of them. -/
def hundredths (rank : Nat) : Nat := Rounding.nearestEven (Single.units rank * 100) Single.one

def twoPlaces : Single → List Char
  | .nan => ['N', 'a', 'N']
  | .infinite negative => sign negative ++ ['i', 'n', 'f']
  | .finite negative rank =>
    sign negative ++ digits (hundredths rank / 100) ++ '.' :: lastDigits 2 (hundredths rank)

theorem length_lastDigits (count n : Nat) : (lastDigits count n).length = count := by
  induction count generalizing n with
  | zero => rfl
  | succ count ih => simp [lastDigits, ih]

end KnxDatapoint.Decimal
