import KnxDatapoint.Reading

/-! What every reading can do, whatever holds it, and what follows from that alone.
Text goes into a buffer of fixed capacity part by part: a part that does not fit as a whole is left
out together with all parts after it. -/
namespace KnxDatapoint

/-- The operations that all holders of a reading share. -/
class Datapoint (ρ : Type) where
  datapoint : ρ → DatapointType
  value : ρ → Value
  tagged : ρ → TaggedReading
  pack : ρ → Logged Payload
  /-- The reading that holds what the bytes say; the old one remains where the bytes are refused. -/
  unpack : ρ → List UInt8 → Decoding ρ
  /-- A reading made afresh from bytes, of the type of the given one. -/
  renew : ρ → List UInt8 → Decoding ρ
  pieces : ρ → List (List Char)

instance (family : Family) : Datapoint (Reading family) where
  datapoint := Reading.datapoint
  value := Reading.value
  tagged := family.tag
  pack := Reading.pack
  unpack := Reading.unpack
  renew reading := Reading.ofBytes family reading.member
  pieces := Reading.pieces

instance : Datapoint TaggedReading where
  datapoint := TaggedReading.datapoint
  value := TaggedReading.value
  tagged := id
  pack := TaggedReading.pack
  unpack := TaggedReading.unpack
  renew reading := TaggedReading.ofBytes reading.datapoint
  pieces := TaggedReading.pieces

/-- A reading of some family, held as it is and without a tag. -/
structure BareReading where
  family : Family
  reading : Reading family
  deriving DecidableEq

/-- Readings of one family are compared as such; readings of two families are not equal. -/
protected def BareReading.beq (a b : BareReading) : Bool :=
  if same : a.family = b.family then same ▸ a.reading == b.reading else false

instance : BEq BareReading := ⟨BareReading.beq⟩

instance : Datapoint BareReading where
  datapoint bare := bare.reading.datapoint
  value bare := bare.reading.value
  tagged bare := bare.family.tag bare.reading
  pack bare := bare.reading.pack
  unpack bare data := BareReading.mk bare.family <$> bare.reading.unpack data
  renew bare data :=
    BareReading.mk bare.family <$> Reading.ofBytes bare.family bare.reading.member data
  pieces bare := bare.reading.pieces

namespace TaggedReading

def bare : TaggedReading → BareReading
  | .boolean reading => ⟨.boolean, reading⟩
  | .scaled reading => ⟨.scaled, reading⟩
  | .float reading => ⟨.float, reading⟩

end TaggedReading

/-- The bytes that a buffer for shown text holds. -/
def renderCapacity : Nat := 64

/-- The bytes of a text in its encoded form. -/
def byteLength : List Char → Nat
  | [] => 0
  | c :: rest => c.utf8Size + byteLength rest

/-- The parts that fit into a room, and whether all did. -/
def fill : Nat → List (List Char) → List Char × Bool
  | _, [] => ([], true)
  | room, piece :: rest =>
    if byteLength piece ≤ room then
      let (text, whole) := fill (room - byteLength piece) rest
      (piece ++ text, whole)
    else ([], false)

section
variable {ρ : Type} [Datapoint ρ]
open Datapoint

/-- The whole text shown for a reading. -/
def display (reading : ρ) : List Char := (pieces reading).flatten

/-- The text as far as the buffer holds it. -/
def render (reading : ρ) : Logged (List Char) :=
  let (text, whole) := fill renderCapacity (pieces reading)
  ⟨text, if whole then [] else [.cut (datapoint reading)]⟩

/-- All that can be said of one reading. -/
structure Description where
  identifier : String
  unit : String
  value : Value
  payload : Payload
  rendered : List Char
  displayed : List Char
  state? : Option Bool
  number? : Option Single
  deriving DecidableEq

def describe (reading : ρ) : Logged Description := do
  let payload ← pack reading
  let rendered ← render reading
  return {
    identifier := (datapoint reading).identifier
    unit := (datapoint reading).unit
    value := value reading
    payload := payload
    rendered := rendered
    displayed := display reading
    state? := (tagged reading).state?
    number? := (tagged reading).number? }

end
end KnxDatapoint
