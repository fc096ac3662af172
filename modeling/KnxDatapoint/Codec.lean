import KnxDatapoint.Wire

/-! Encoding and decoding by datapoint type.
Encoding never fails: a number is first held to the range of its type. Decoding refuses a buffer of
another width, and a value outside the range. -/
namespace KnxDatapoint

/-- The number that a range makes of a given one: a bound for a number beyond it. -/
def Range.bounded (range : Range) (value : Single) : Single :=
  value.orZero.clamp range.least range.greatest

/-- A number held to a range; a change of the number is written down. -/
def clip (type : DatapointType) (range : Range) (value : Single) : Logged Single :=
  let given := value.orZero
  let bound := range.bounded value
  ⟨bound, if bound == given then [] else [.clipped type given bound]⟩

namespace ScaledType

def datapoint (kind : ScaledType) : DatapointType := ⟨.scaled, kind⟩

/-- The step of a number in the range; the product comes first, so that halves stay exact. -/
def step (kind : ScaledType) (x : Single) : UInt8 :=
  match kind with
  | .percentU8 => .ofInt (x.truncate 0 255)
  | _ => .ofInt (x * 255 / kind.range.greatest).roundHalfAway

def encodeByte (kind : ScaledType) (value : Single) : Logged UInt8 := do
  let x ← clip kind.datapoint kind.range value
  return kind.step x

/-- The number that a step stands for. -/
def ofStep (kind : ScaledType) (byte : UInt8) : Single :=
  match kind with
  | .percentU8 => Single.ofInt byte.toNat
  | _ => Single.ofInt byte.toNat * kind.range.greatest / 255

def decodeByte (kind : ScaledType) (byte : UInt8) : Decoding Single :=
  let value := kind.ofStep byte
  if kind.range.greatest < value then refuse (.outOfRange kind.datapoint value kind.range)
  else pure value

def encode (kind : ScaledType) (value : Single) : Logged Payload := do
  let byte ← kind.encodeByte value
  return Wire.packByte byte

def decode (kind : ScaledType) (data : List UInt8) : Decoding Single := do
  let byte ← Wire.unpackByte data
  kind.decodeByte byte

end ScaledType

namespace FloatType

def datapoint (kind : FloatType) : DatapointType := ⟨.float, kind⟩

def encode (kind : FloatType) (value : Single) : Logged Payload := do
  let x ← clip kind.datapoint kind.range value
  Wire.packFloatWithin kind.range x

def decode (kind : FloatType) (data : List UInt8) : Decoding Single := do
  let value ← Wire.unpackFloat data
  if value ∈ kind.range then pure value
  else refuse (.outOfRange kind.datapoint value kind.range)

end FloatType

namespace Family

def encode : (family : Family) → family.Member → family.Scalar → Logged Payload
  | .boolean, _, state => pure (Wire.packBit state)
  | .scaled, kind, value => kind.encode value
  | .float, kind, value => kind.encode value

def decode : (family : Family) → family.Member → List UInt8 → Decoding family.Scalar
  | .boolean, _, data => Wire.unpackBit data
  | .scaled, kind, data => kind.decode data
  | .float, kind, data => kind.decode data

end Family
end KnxDatapoint
