import KnxDatapoint.Decimal.Places

/-! Numbers as they are written in a document, and the number that each one stands for.
A numeral stands for the single-precision number nearest to its exact value, and for nothing where
that number is infinite. There are two exceptions. Digits beyond the 113th only tell that something
follows, and a negative whole number that overruns 64 bits by its sign is rounded twice. -/
namespace KnxDatapoint.Json

/-- The digits of a number before and after the point, and the sign and digits of its exponent. -/
structure Numeral where
  negative : Bool
  whole : List Nat
  fraction : List Nat
  exponent : Option (Bool × List Nat)
  deriving DecidableEq

namespace Numeral

def digitValue (c : Char) : Nat := c.toNat - '0'.toNat

/-- The leading digits of a text, and what follows them. -/
def run (cs : List Char) : List Nat × List Char :=
  ((cs.takeWhile Char.isDigit).map digitValue, cs.dropWhile Char.isDigit)

/-- Digits that may stand before the point: at least one, and no zero before another. -/
def leading? (digits : List Nat) : Option (List Nat) :=
  match digits with
  | [] => none
  | 0 :: _ :: _ => none
  | _ => some digits

/-- An exponent to the end of the text, or no exponent at its end. -/
def exponent? : List Char → Option (Option (Bool × List Nat))
  | [] => some none
  | mark :: cs =>
    let (negative, cs) := match cs with
      | '-' :: rest => (true, rest)
      | '+' :: rest => (false, rest)
      | _ => (false, cs)
    match run cs with
    | (first :: digits, []) =>
      if mark = 'e' ∨ mark = 'E' then some (some (negative, first :: digits)) else none
    | _ => none

/-- What follows the digits before the point. -/
def afterWhole? : List Char → Option (List Nat × Option (Bool × List Nat))
  | '.' :: cs =>
    match run cs with
    | ([], _) => none
    | (fraction, rest) => (exponent? rest).map (fraction, ·)
  | cs => (exponent? cs).map ([], ·)

def ofChars? (cs : List Char) : Option Numeral := do
  let (negative, cs) := match cs with
    | '-' :: rest => (true, rest)
    | _ => (false, cs)
  let whole ← leading? (run cs).1
  let (fraction, exponent) ← afterWhole? (run cs).2
  return ⟨negative, whole, fraction, exponent⟩

def ofDigits (digits : List Nat) : Nat := digits.foldl (fun n digit => n * 10 + digit) 0

/-- The fraction without trailing zeros. -/
def trimmed (numeral : Numeral) : List Nat :=
  (numeral.fraction.reverse.dropWhile (· == 0)).reverse

/-- The digits from the first one that is not zero. -/
def significant (numeral : Numeral) : List Nat :=
  (numeral.whole ++ numeral.trimmed).dropWhile (· == 0)

/-- The written power of ten. -/
def power (numeral : Numeral) : Int :=
  match numeral.exponent with
  | none => 0
  | some (negative, digits) => Single.signed negative (ofDigits digits)

/-- How many digits are read one by one. -/
def capacity : Nat := 113

/-- Digits beyond the capacity are replaced by a single one, even where all of them are zero. -/
def abridged (digits : List Nat) : List Nat :=
  if digits.length ≤ capacity then digits else digits.take capacity ++ [1]

def finite? : Single → Option Single
  | .finite negative rank => some (.finite negative rank)
  | _ => none

/-- The number nearest to a string of digits, the last of which counts for a power of ten.
Strings that lie far beyond the greatest number, or far below the least one, are told apart by their
length alone, so the powers that are computed stay small. -/
def nearest? (negative : Bool) (digits : List Nat) (place : Int) : Option Single :=
  if digits = [] ∨ digits.length + place < -45 then some (.ofUnits negative 0 1)
  else if 39 < digits.length + place then none
  else
    finite? (.ofUnits negative (ofDigits digits * Decimal.placeValue place.toNat * Single.one)
      (Decimal.placeValue (-place).toNat))

/-- The greatest whole number whose negation 64 bits hold. -/
def greatestNegated : Nat := 0x8000000000000000

/-- The greatest whole number that 64 bits hold. -/
def greatestUnsigned : Nat := 0xFFFFFFFFFFFFFFFF

/-- A negative whole number that 64 bits hold only without its sign. -/
def Overruns (numeral : Numeral) : Prop :=
  numeral.negative = true ∧ numeral.fraction = [] ∧ numeral.exponent = none ∧
    greatestNegated < ofDigits numeral.whole ∧ ofDigits numeral.whole ≤ greatestUnsigned

instance (numeral : Numeral) : Decidable numeral.Overruns :=
  inferInstanceAs (Decidable (_ ∧ _))

/-- The number that a numeral stands for; one that overruns is brought to 53 bits first. -/
def toSingle? (numeral : Numeral) : Option Single :=
  if numeral.Overruns then
    some (.ofUnits true (Rounding.nearestUnits 52 (ofDigits numeral.whole) 1 * Single.one) 1)
  else
    let digits := numeral.significant
    let kept := abridged digits
    nearest? numeral.negative kept
      (numeral.power - numeral.trimmed.length + (digits.length - kept.length))

end Numeral
end KnxDatapoint.Json
