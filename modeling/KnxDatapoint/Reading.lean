import KnxDatapoint.Codec

/-! Readings: a scalar together with the datapoint type that gives it meaning.
A scalar is kept as given, in range or not, and held to the range only when it is packed. Unpacking
gives the reading that replaces the old one; a refused buffer gives none. -/
namespace KnxDatapoint

/-- A scalar whose kind is known only from the value itself. -/
inductive Value where
  | state (on : Bool)
  | number (x : Single)
  deriving DecidableEq

/-- Numeric equality: the zeros are equal and a NaN equals nothing. -/
protected def Value.beq : Value → Value → Bool
  | .state a, .state b => a == b
  | .number x, .number y => x == y
  | _, _ => false

instance : BEq Value := ⟨Value.beq⟩

/-- A reading of one family. -/
structure Reading (family : Family) where
  member : family.Member
  scalar : family.Scalar
  deriving DecidableEq

/-- A reading that carries its family as a tag. -/
inductive TaggedReading where
  | boolean (reading : Reading .boolean)
  | scaled (reading : Reading .scaled)
  | float (reading : Reading .float)
  deriving DecidableEq

namespace Family

def value : (family : Family) → family.Scalar → Value
  | .boolean, state => .state state
  | .scaled, x => .number x
  | .float, x => .number x

/-- Equality of scalars; of numbers it is numeric, so that the zeros are equal and a NaN equals
nothing. -/
def equal : (family : Family) → family.Scalar → family.Scalar → Bool
  | .boolean, a, b => a == b
  | .scaled, x, y => x == y
  | .float, x, y => x == y

/-- The parts of the text shown for a reading, in order. -/
def pieces : (family : Family) → family.Member → family.Scalar → List (List Char)
  | .boolean, kind, state => [(kind.label state).toList]
  | .scaled, kind, x => [Decimal.twoPlaces x, kind.separator.toList, kind.unit.toList]
  | .float, kind, x => [Decimal.twoPlaces x, [' '], kind.unit.toList]

def tag : (family : Family) → Reading family → TaggedReading
  | .boolean => .boolean
  | .scaled => .scaled
  | .float => .float

end Family

namespace Reading

variable {family : Family}

def datapoint (reading : Reading family) : DatapointType := ⟨family, reading.member⟩
def value (reading : Reading family) : Value := family.value reading.scalar

def pack (reading : Reading family) : Logged Payload :=
  family.encode reading.member reading.scalar

/-- A fresh reading of a type, decoded from bytes. -/
def ofBytes (family : Family) (member : family.Member) (data : List UInt8) :
    Decoding (Reading family) := do
  let scalar ← family.decode member data
  return ⟨member, scalar⟩

/-- The reading with its scalar replaced by the one that the bytes hold. -/
def unpack (reading : Reading family) (data : List UInt8) : Decoding (Reading family) := do
  let scalar ← family.decode reading.member data
  return { reading with scalar := scalar }

def pieces (reading : Reading family) : List (List Char) :=
  family.pieces reading.member reading.scalar

/-- Readings of one family are equal when they are of one type and have equal scalars. -/
protected def beq (a b : Reading family) : Bool :=
  decide (a.member = b.member) && family.equal a.scalar b.scalar

instance : BEq (Reading family) := ⟨Reading.beq⟩

end Reading

namespace TaggedReading

def datapoint : TaggedReading → DatapointType
  | .boolean reading => reading.datapoint
  | .scaled reading => reading.datapoint
  | .float reading => reading.datapoint

def value : TaggedReading → Value
  | .boolean reading => reading.value
  | .scaled reading => reading.value
  | .float reading => reading.value

def state? : TaggedReading → Option Bool
  | .boolean reading => some reading.scalar
  | _ => none

def number? : TaggedReading → Option Single
  | .scaled reading => some reading.scalar
  | .float reading => some reading.scalar
  | .boolean _ => none

def pack : TaggedReading → Logged Payload
  | .boolean reading => reading.pack
  | .scaled reading => reading.pack
  | .float reading => reading.pack

def ofBytes (type : DatapointType) (data : List UInt8) : Decoding TaggedReading :=
  match type with
  | ⟨.boolean, member⟩ => .boolean <$> Reading.ofBytes .boolean member data
  | ⟨.scaled, member⟩ => .scaled <$> Reading.ofBytes .scaled member data
  | ⟨.float, member⟩ => .float <$> Reading.ofBytes .float member data

def unpack (reading : TaggedReading) (data : List UInt8) : Decoding TaggedReading :=
  match reading with
  | .boolean reading => .boolean <$> reading.unpack data
  | .scaled reading => .scaled <$> reading.unpack data
  | .float reading => .float <$> reading.unpack data

def pieces : TaggedReading → List (List Char)
  | .boolean reading => reading.pieces
  | .scaled reading => reading.pieces
  | .float reading => reading.pieces

/-- Under one tag the readings themselves are compared; readings of two families are not equal. -/
protected def beq : TaggedReading → TaggedReading → Bool
  | .boolean a, .boolean b => a == b
  | .scaled a, .scaled b => a == b
  | .float a, .float b => a == b
  | _, _ => false

instance : BEq TaggedReading := ⟨TaggedReading.beq⟩

section
variable {family : Family} (reading : Reading family)

@[simp] theorem datapoint_tag : (family.tag reading).datapoint = reading.datapoint := by
  cases family <;> rfl

@[simp] theorem value_tag : (family.tag reading).value = reading.value := by
  cases family <;> rfl

@[simp] theorem pack_tag : (family.tag reading).pack = reading.pack := by
  cases family <;> rfl

@[simp] theorem pieces_tag : (family.tag reading).pieces = reading.pieces := by
  cases family <;> rfl

end

theorem exists_tag (reading : TaggedReading) : ∃ (family : Family) (bare : Reading family),
    reading = family.tag bare := by
  cases reading with
  | boolean bare => exact ⟨.boolean, bare, rfl⟩
  | scaled bare => exact ⟨.scaled, bare, rfl⟩
  | float bare => exact ⟨.float, bare, rfl⟩

end TaggedReading
end KnxDatapoint
