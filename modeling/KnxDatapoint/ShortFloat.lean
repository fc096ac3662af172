import KnxDatapoint.Single.Arithmetic
import KnxDatapoint.Journal
import KnxDatapoint.Payload

/-! The two-byte float: a mantissa of twelve bits in two's complement and an exponent of four.
Its value is a hundredth of the mantissa, doubled as often as the exponent says. One value has up to
sixteen words; a number is written with the least exponent at which its rounded mantissa fits. -/
namespace KnxDatapoint

structure ShortFloat where
  mantissa : Int
  exponent : Nat
  deriving DecidableEq, Repr

namespace ShortFloat

def leastMantissa : Int := -2048
def greatestMantissa : Int := 2047
def greatestExponent : Nat := 15

/-- The bounds that every float read from a word or found for a number keeps. -/
def Fits (x : ShortFloat) : Prop :=
  leastMantissa ≤ x.mantissa ∧ x.mantissa ≤ greatestMantissa ∧ x.exponent ≤ greatestExponent

/-- The highest bit of a word is the sign of the mantissa and, with the eleven lowest, its bits. -/
def ofWord (word : UInt16) : ShortFloat where
  mantissa := (word.toNat % 0x800 : Nat) - (if 0x8000 ≤ word.toNat then 0x800 else 0)
  exponent := word.toNat / 0x800 % 16

def toWord (x : ShortFloat) : UInt16 :=
  .ofNat ((if x.mantissa < 0 then 0x8000 else 0) + x.exponent * 0x800 + (x.mantissa % 0x800).toNat)

/-- The value in hundredths, exactly. -/
def hundredths (x : ShortFloat) : Int := x.mantissa * (1 <<< x.exponent : Nat)

/-- Two to the exponent, the weight of one step of the mantissa. -/
def weight (exponent : Nat) : Single := Single.ofInt (1 <<< exponent : Nat)

def toValue (x : ShortFloat) : Single := Single.ofInt x.mantissa * weight x.exponent / 100

/-- The distance between neighbouring values at the exponent. -/
def resolution (x : ShortFloat) : Single := weight x.exponent / 100

/-- The mantissa nearest to a number of hundredths at an exponent, of whatever size. -/
def mantissaAt (hundredths : Single) (exponent : Nat) : Int :=
  (hundredths / weight exponent).roundHalfAway

/-- The float of least exponent whose rounded mantissa fits. -/
def fit? (hundredths : Single) : Option ShortFloat :=
  (List.range (greatestExponent + 1)).findSome? fun exponent =>
    let mantissa := mantissaAt hundredths exponent
    if leastMantissa ≤ mantissa ∧ mantissa ≤ greatestMantissa then some ⟨mantissa, exponent⟩
    else none

/-- The end of the format on the side of a number that fits at no exponent. -/
def saturate (hundredths : Single) : ShortFloat where
  mantissa := max leastMantissa (min greatestMantissa (mantissaAt hundredths greatestExponent))
  exponent := greatestExponent

def ofValue (value : Single) : Logged ShortFloat :=
  let hundredths := value * 100
  match fit? hundredths with
  | some x => pure x
  | none => ⟨saturate hundredths, [.saturated value]⟩

/-- One step of the mantissa toward zero, at the same exponent. -/
def towardZero (x : ShortFloat) : ShortFloat := { x with mantissa := x.mantissa - x.mantissa.sign }

/-- The nearest float, or the one before it when its value lies outside the range. -/
def within (range : Range) (value : Single) : Logged ShortFloat := do
  let nearest ← ofValue value
  if range.greatest < nearest.toValue ∨ nearest.toValue < range.least then
    return nearest.towardZero
  else
    return nearest

end ShortFloat
end KnxDatapoint
