import KnxDatapoint.Datapoint

/-! Runs of actions over a row of slots, each of which holds a reading.
The actions are the same for every way of holding readings. An action that is refused leaves every
slot as it was; the outcome of each action comes with the slots after it. -/
namespace KnxDatapoint

/-- A way of holding readings of all families in slots of one kind, with an equality of its own. -/
class Holder (σ : Type) extends Datapoint σ, BEq σ where
  hold : TaggedReading → σ

instance : Holder TaggedReading where
  hold := id

instance : Holder BareReading where
  hold := TaggedReading.bare

namespace Session

inductive Action (count : Nat) where
  | unpack (slot : Fin count) (data : List UInt8)
  | renew (slot : Fin count) (data : List UInt8)
  | put (slot : Fin count) (reading : TaggedReading)
  | send (source target : Fin count)
  | compare (left right : Fin count)
  | copy (source target : Fin count)
  | pack (slot : Fin count)
  | render (slot : Fin count)
  | describe (slot : Fin count)

/-- What an action reports; a fault is the reason for which bytes were refused. -/
inductive Outcome where
  | done
  | received (fault : Option Fault)
  | sent (payload : Payload) (fault : Option Fault)
  | compared (equal : Bool)
  | packed (payload : Payload)
  | rendered (text : List Char)
  | described (description : Description)
  deriving DecidableEq

variable {σ : Type} {count : Nat}

/-- A slot takes what an attempt yields, and stays as it is where the attempt fails. -/
def receive (slots : Vector σ count) (slot : Fin count) (attempt : Decoding σ) :
    Logged (Option Fault × Vector σ count) := do
  match ← attempt.run with
  | .ok fresh => return (none, slots.set slot fresh)
  | .error fault => return (some fault, slots)

variable [Holder σ]

def step (slots : Vector σ count) : Action count → Logged (Outcome × Vector σ count)
  | .unpack slot data => do
    let received ← receive slots slot (Datapoint.unpack slots[slot] data)
    return (.received received.1, received.2)
  | .renew slot data => do
    let received ← receive slots slot (Datapoint.renew slots[slot] data)
    return (.received received.1, received.2)
  | .put slot reading => return (.done, slots.set slot (Holder.hold reading))
  | .send source target => do
    let payload ← Datapoint.pack slots[source]
    let received ← receive slots target (Datapoint.unpack slots[target] payload.toList)
    return (.sent payload received.1, received.2)
  | .compare left right => return (.compared (slots[left] == slots[right]), slots)
  | .copy source target => return (.done, slots.set target slots[source])
  | .pack slot => do
    let payload ← Datapoint.pack slots[slot]
    return (.packed payload, slots)
  | .render slot => do
    let text ← render slots[slot]
    return (.rendered text, slots)
  | .describe slot => do
    let description ← describe slots[slot]
    return (.described description, slots)

/-- The outcome of every action in turn, each with the slots after it. -/
def run (slots : Vector σ count) : List (Action count) → Logged (List (Outcome × Vector σ count))
  | [] => return []
  | action :: rest => do
    let entry ← step slots action
    let later ← run entry.2 rest
    return entry :: later

end Session
end KnxDatapoint
