/-! Encoded bytes: one or two of them. -/
namespace KnxDatapoint

inductive Payload where
  | one (byte : UInt8)
  | two (high low : UInt8)
  deriving DecidableEq, Repr

namespace Payload

/-- The most bytes that a payload holds. -/
def capacity : Nat := 2

def toList : Payload → List UInt8
  | .one byte => [byte]
  | .two high low => [high, low]

def toArray : Payload → Array UInt8
  | .one byte => #[byte]
  | .two high low => #[high, low]

def length (payload : Payload) : Nat := payload.toArray.size

def isEmpty (payload : Payload) : Bool := payload.toArray.isEmpty

def ofList? : List UInt8 → Option Payload
  | [byte] => some (.one byte)
  | [high, low] => some (.two high low)
  | _ => none

/-- The word of a two-byte payload, its higher byte first. -/
def ofWord (word : UInt16) : Payload :=
  .two (.ofNat (word.toNat / 256)) (.ofNat (word.toNat % 256))

def word (high low : UInt8) : UInt16 := .ofNat (high.toNat * 256 + low.toNat)

theorem toList_toArray (payload : Payload) : payload.toArray.toList = payload.toList := by
  cases payload <;> rfl

theorem ofList_toList (payload : Payload) : ofList? payload.toList = some payload := by
  cases payload <;> rfl

theorem length_le_capacity (payload : Payload) : payload.length ≤ capacity := by
  cases payload <;> simp [length, toArray, capacity]

end Payload
end KnxDatapoint
