import KnxDatapoint.Fault

/-! What packing and unpacking write down, and results that carry it.
A result keeps its records in the order in which they were made. -/
namespace KnxDatapoint

/-- One finding worth writing down. -/
inductive Record where
  | clipped (type : DatapointType) (given bound : Single)
  | saturated (given : Single)
  | refused (fault : Fault)
  | cut (type : DatapointType)
  deriving DecidableEq

inductive Level where
  | trace
  | debug
  | warn
  deriving DecidableEq, Repr

namespace Record

def level : Record → Level
  | .clipped .. => .trace
  | .saturated _ => .warn
  | .refused _ => .debug
  | .cut _ => .warn

def text : Record → String
  | .clipped type given bound =>
    s!"DPT {type.identifier}: clipping {shown given} to {shown bound}"
  | .saturated given => s!"float16 overflow, saturating {shown given}"
  | .refused (.outOfRange type value range) =>
    match type.family with
    | .float => s!"DPT {type.identifier}: decoded {shown value} out of range"
    | _ => s!"DPT {type.identifier}: decoded {shown value} above {shown range.greatest}"
  | .refused fault => fault.detail
  | .cut type => s!"DPT {type.identifier}: rendered text truncated"
where
  shown (x : Single) : String := String.ofList (Decimal.plain x)

end Record

/-- A result with the records made on the way to it. -/
structure Logged (α : Type) where
  value : α
  records : List Record := []
  deriving DecidableEq

namespace Logged

variable {α β : Type}

protected def bind (first : Logged α) (next : α → Logged β) : Logged β :=
  let second := next first.value
  ⟨second.value, first.records ++ second.records⟩

instance : Monad Logged where
  pure value := ⟨value, []⟩
  bind := Logged.bind

def note (record : Record) : Logged Unit := ⟨(), [record]⟩

@[simp] theorem value_pure (a : α) : (pure a : Logged α).value = a := rfl
@[simp] theorem records_pure (a : α) : (pure a : Logged α).records = [] := rfl

@[simp] theorem value_bind (first : Logged α) (next : α → Logged β) :
    (first >>= next).value = (next first.value).value := rfl

@[simp] theorem records_bind (first : Logged α) (next : α → Logged β) :
    (first >>= next).records = first.records ++ (next first.value).records := rfl

@[simp] theorem value_map (f : α → β) (first : Logged α) :
    (f <$> first).value = f first.value := rfl

@[simp] theorem records_map (f : α → β) (first : Logged α) :
    (f <$> first).records = first.records := List.append_nil _

instance : LawfulMonad Logged := .mk' Logged
  (by intro α x; cases x; simp [Functor.map, Logged.bind])
  (by intro α β a f; simp [pure, bind, Logged.bind])
  (by intro α β γ x f g; simp [bind, Logged.bind, List.append_assoc])

end Logged

/-- A reading of bytes: a value, or the fault for which they are refused. -/
abbrev Decoding (α : Type) := ExceptT Fault Logged α

/-- A refusal is written down where it is made. -/
def refuse {α : Type} (fault : Fault) : Decoding α := do
  Logged.note (.refused fault)
  throw fault

end KnxDatapoint
