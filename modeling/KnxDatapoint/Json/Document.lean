import KnxDatapoint.Json.Tree
import KnxDatapoint.Reading

/-! Descriptors and readings as documents, written in one form and read in all accepted ones.
A descriptor is the name of its type. A reading is an object of type and scalar, or an array of the
two in this order; a tagged reading is an object whose one key names the family. A number that is
not finite is written as null, which no reading accepts. -/
namespace KnxDatapoint
open Json

namespace Json

def quoted (name : String) : List Char := '"' :: name.toList ++ ['"']

/-- A member of an object. -/
def field (name : String) (content : List Char) : List Char := quoted name ++ ':' :: content

def object (fields : List (List Char)) : List Char :=
  '{' :: (fields.intersperse [',']).flatten ++ ['}']

def number (x : Single) : List Char := (Decimal.document? x).getD ['n', 'u', 'l', 'l']

def truth (state : Bool) : List Char :=
  if state then ['t', 'r', 'u', 'e'] else ['f', 'a', 'l', 's', 'e']

/-- The content of the one member of an object that has a name. -/
def field? (name : String) (members : List (Option String × Tree)) : Option Tree :=
  match members.filter fun entry => entry.1 == some name with
  | [entry] => some entry.2
  | _ => none

end Json

namespace Family

def tagName : Family → String
  | .boolean => "Boolean"
  | .scaled => "Scaled"
  | .float => "Float"

def writeDescriptor (family : Family) (member : family.Member) : List Char :=
  quoted (family.name member)

def writeScalar : (family : Family) → family.Scalar → List Char
  | .boolean, state => truth state
  | .scaled, x => number x
  | .float, x => number x

def ofName? (family : Family) (name : String) : Option family.Member :=
  family.members.find? fun member => family.name member == name

/-- A type by its name, or by an object that has the name as its one key and null under it. -/
def readDescriptor? (family : Family) : Tree → Option family.Member
  | .text (some name) => family.ofName? name
  | .object [(some name, .null)] => family.ofName? name
  | _ => none

def readScalar? : (family : Family) → Tree → Option family.Scalar
  | .boolean, .truth state => some state
  | .scaled, .number numeral => numeral.toSingle?
  | .float, .number numeral => numeral.toSingle?
  | _, _ => none

end Family

namespace Reading

variable {family : Family}

def write (reading : Reading family) : List Char :=
  object [field "dpt" (family.writeDescriptor reading.member),
    field "value" (family.writeScalar reading.scalar)]

def ofParts? (family : Family) (type scalar : Tree) : Option (Reading family) := do
  let member ← family.readDescriptor? type
  let scalar ← family.readScalar? scalar
  return ⟨member, scalar⟩

/-- Members of other names are passed over; the two that count must each be there once. -/
def read? (family : Family) : Tree → Option (Reading family)
  | .array [type, scalar] => ofParts? family type scalar
  | .object members =>
    if members.all fun entry => entry.1.isSome then do
      let type ← field? "dpt" members
      let scalar ← field? "value" members
      ofParts? family type scalar
    else none
  | _ => none

end Reading

namespace TaggedReading

def write : TaggedReading → List Char
  | .boolean reading => object [field Family.boolean.tagName reading.write]
  | .scaled reading => object [field Family.scaled.tagName reading.write]
  | .float reading => object [field Family.float.tagName reading.write]

def read? : Tree → Option TaggedReading
  | .object [(some tag, content)] =>
    if tag = Family.boolean.tagName then (Reading.read? .boolean content).map .boolean
    else if tag = Family.scaled.tagName then (Reading.read? .scaled content).map .scaled
    else if tag = Family.float.tagName then (Reading.read? .float content).map .float
    else none
  | _ => none

end TaggedReading

namespace Json

/-- A whole document read as one of the kinds above. -/
def read? {α : Type} (kind : Tree → Option α) (text : String) : Option α :=
  (Tree.ofString? text).bind kind

end Json
end KnxDatapoint
