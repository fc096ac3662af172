import KnxDatapoint.Single

/-! The datapoint types: what each is called, its unit, its range and its labels.
A family fixes the kind of scalar and the wire width; the rest is table data of the single type. -/
namespace KnxDatapoint

inductive Family where
  | boolean
  | scaled
  | float
  deriving DecidableEq, Repr

inductive BooleanType where
  | switch
  | bool
  | enable
  | openClose
  | start
  deriving DecidableEq, Repr

inductive ScaledType where
  | scaling
  | angle
  | percentU8
  deriving DecidableEq, Repr

inductive FloatType where
  | temperature
  | illumination
  deriving DecidableEq, Repr

/-- The datapoint types of a family. -/
abbrev Family.Member : Family → Type
  | .boolean => BooleanType
  | .scaled => ScaledType
  | .float => FloatType

/-- What a reading of the family consists of besides its type. -/
abbrev Family.Scalar : Family → Type
  | .boolean => Bool
  | .scaled => Single
  | .float => Single

instance : (family : Family) → DecidableEq family.Member
  | .boolean => inferInstanceAs (DecidableEq BooleanType)
  | .scaled => inferInstanceAs (DecidableEq ScaledType)
  | .float => inferInstanceAs (DecidableEq FloatType)

instance : (family : Family) → DecidableEq family.Scalar
  | .boolean => inferInstanceAs (DecidableEq Bool)
  | .scaled => inferInstanceAs (DecidableEq Single)
  | .float => inferInstanceAs (DecidableEq Single)

/-- A datapoint type of any family. -/
structure DatapointType where
  family : Family
  member : family.Member
  deriving DecidableEq

/-- The bounds of a range; both belong to it. -/
structure Range where
  least : Single
  greatest : Single
  deriving DecidableEq, Repr

instance : Membership Single Range := ⟨fun range x => range.least ≤ x ∧ x ≤ range.greatest⟩

instance (range : Range) (x : Single) : Decidable (x ∈ range) :=
  inferInstanceAs (Decidable (range.least ≤ x ∧ x ≤ range.greatest))

namespace BooleanType

def all : List BooleanType := [.switch, .bool, .enable, .openClose, .start]

def identifier : BooleanType → String
  | .switch => "1.001"
  | .bool => "1.002"
  | .enable => "1.003"
  | .openClose => "1.009"
  | .start => "1.010"

def name : BooleanType → String
  | .switch => "Switch"
  | .bool => "Bool"
  | .enable => "Enable"
  | .openClose => "OpenClose"
  | .start => "Start"

/-- The word shown for each of the two states. -/
def label : BooleanType → Bool → String
  | .switch, false => "Off"
  | .switch, true => "On"
  | .bool, false => "False"
  | .bool, true => "True"
  | .enable, false => "Disable"
  | .enable, true => "Enable"
  | .openClose, false => "Open"
  | .openClose, true => "Close"
  | .start, false => "Stop"
  | .start, true => "Start"

end BooleanType

namespace ScaledType

def all : List ScaledType := [.scaling, .angle, .percentU8]

def identifier : ScaledType → String
  | .scaling => "5.001"
  | .angle => "5.003"
  | .percentU8 => "5.004"

def name : ScaledType → String
  | .scaling => "Scaling"
  | .angle => "Angle"
  | .percentU8 => "PercentU8"

def unit : ScaledType → String
  | .scaling => "%"
  | .angle => "°"
  | .percentU8 => "%"

/-- What stands between number and unit. -/
def separator : ScaledType → String
  | .scaling => ""
  | .angle => " "
  | .percentU8 => " "

def range : ScaledType → Range
  | .scaling => ⟨0, 100⟩
  | .angle => ⟨0, 360⟩
  | .percentU8 => ⟨0, 255⟩

end ScaledType

namespace FloatType

def all : List FloatType := [.temperature, .illumination]

def identifier : FloatType → String
  | .temperature => "9.001"
  | .illumination => "9.004"

def name : FloatType → String
  | .temperature => "Temperature"
  | .illumination => "Illumination"

def unit : FloatType → String
  | .temperature => "°C"
  | .illumination => "lux"

def range : FloatType → Range
  | .temperature => ⟨-273, 670760⟩
  | .illumination => ⟨0, 670760⟩

end FloatType

namespace Family

def all : List Family := [.boolean, .scaled, .float]

/-- Bytes of every telegram payload of the family. -/
def width : Family → Nat
  | .boolean => 1
  | .scaled => 1
  | .float => 2

def members : (family : Family) → List family.Member
  | .boolean => BooleanType.all
  | .scaled => ScaledType.all
  | .float => FloatType.all

def identifier : (family : Family) → family.Member → String
  | .boolean => BooleanType.identifier
  | .scaled => ScaledType.identifier
  | .float => FloatType.identifier

def name : (family : Family) → family.Member → String
  | .boolean => BooleanType.name
  | .scaled => ScaledType.name
  | .float => FloatType.name

/-- The unit of a type; a boolean type has none. -/
def unit : (family : Family) → family.Member → String
  | .boolean, _ => ""
  | .scaled, kind => kind.unit
  | .float, kind => kind.unit

/-- The range of a numeric type. -/
def range? : (family : Family) → family.Member → Option Range
  | .boolean, _ => none
  | .scaled, kind => some kind.range
  | .float, kind => some kind.range

end Family

namespace DatapointType

def all : List DatapointType :=
  Family.all.flatMap fun family => family.members.map fun member => ⟨family, member⟩

def identifier (type : DatapointType) : String := type.family.identifier type.member
def unit (type : DatapointType) : String := type.family.unit type.member
def width (type : DatapointType) : Nat := type.family.width
def range? (type : DatapointType) : Option Range := type.family.range? type.member

def ofIdentifier? (identifier : String) : Option DatapointType :=
  all.find? fun type => type.identifier == identifier

theorem mem_all (type : DatapointType) : type ∈ all := by
  rcases type with ⟨family, member⟩
  cases family <;> cases member <;> decide

theorem identifier_found (type : DatapointType) : ofIdentifier? type.identifier = some type := by
  rcases type with ⟨family, member⟩
  cases family <;> cases member <;> decide

end DatapointType
end KnxDatapoint
