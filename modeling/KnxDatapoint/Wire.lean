import KnxDatapoint.ShortFloat

/-! The three shapes of a payload: a bit, a byte and a two-byte float.
They know no datapoint type and no range; a buffer of another width is refused. -/
namespace KnxDatapoint.Wire

def packBit (state : Bool) : Payload := .one (if state then 1 else 0)

/-- Only the lowest bit counts. -/
def unpackBit : List UInt8 → Decoding Bool
  | [byte] => pure (decide (byte.toNat % 2 = 1))
  | data => refuse (.wrongLength 1 data.length)

def packByte (byte : UInt8) : Payload := .one byte

def unpackByte : List UInt8 → Decoding UInt8
  | [byte] => pure byte
  | data => refuse (.wrongLength 1 data.length)

def packFloat (value : Single) : Logged Payload := do
  let x ← ShortFloat.ofValue value
  return .ofWord x.toWord

def packFloatWithin (range : Range) (value : Single) : Logged Payload := do
  let x ← ShortFloat.within range value
  return .ofWord x.toWord

def unpackFloat : List UInt8 → Decoding Single
  | [high, low] => pure (ShortFloat.ofWord (Payload.word high low)).toValue
  | data => refuse (.wrongLength 2 data.length)

end KnxDatapoint.Wire
