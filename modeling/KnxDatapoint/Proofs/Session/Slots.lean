import KnxDatapoint.Proofs.Session.Holders

/-! What runs do to their slots: bytes reach one slot and leave its type, or no slot at all. -/
namespace KnxDatapoint.Session
open Datapoint

section
variable {σ : Type} {count : ℕ}

/-- The slots other than one are kept. -/
def SameBut (slot : Fin count) (before after : Vector σ count) : Prop :=
  ∀ other : Fin count, other ≠ slot → after.get other = before.get other

theorem set_slot (slots : Vector σ count) (slot : Fin count) (fresh : σ) :
    (slots.set slot fresh slot.isLt).get slot = fresh ∧
      SameBut slot slots (slots.set slot fresh slot.isLt) := by
  refine ⟨Vector.getElem_set_self _, fun other different => ?_⟩
  exact Vector.getElem_set_ne _ _ (fun same => different (Fin.ext same.symm))

theorem receive_value (slots : Vector σ count) (slot : Fin count) (attempt : Decoding σ) :
    (receive slots slot attempt).value =
      match result attempt with
      | .ok fresh => (none, slots.set slot fresh slot.isLt)
      | .error fault => (some fault, slots) := by
  simp only [receive, Logged.value_bind, result]
  cases attempt.run.value <;> rfl

variable [Holder σ]

/-- The reading in a slot, whatever holds it. -/
def held (slots : Vector σ count) (slot : Fin count) : TaggedReading := tagged (slots.get slot)

/-- One slot holds what bytes stand for under its type; its type and the other slots are kept. -/
structure Refreshed (before : Vector σ count) (slot : Fin count) (data : List UInt8)
    (after : Vector σ count) : Prop where
  read : (held before slot).datapoint.read data = .ok (held after slot)
  type : (held after slot).datapoint = (held before slot).datapoint
  inRange : (held after slot).InRange
  others : SameBut slot before after

/-- Bytes are read under the type of the slot, or refused for the fault that the type finds. -/
def Received (before : Vector σ count) (slot : Fin count) (data : List UInt8)
    (after : Vector σ count) : Option Fault → Prop
  | none => Refreshed before slot data after
  | some fault => (held before slot).datapoint.read data = .error fault ∧ after = before

/-- What an action may do to the slots, by what it reports. -/
def Keeps (before after : Vector σ count) : Action count → Outcome → Prop
  | .unpack slot data, .received fault => Received before slot data after fault
  | .renew slot data, .received fault => Received before slot data after fault
  | .send source target, .sent payload fault =>
    payload = (held before source).pack.value ∧
      Received before target payload.toList after fault
  | .put slot reading, .done => held after slot = reading ∧ SameBut slot before after
  | .copy source target, .done =>
    after.get target = before.get source ∧ SameBut target before after
  | .compare _ _, .compared _ => after = before
  | .pack _, .packed _ => after = before
  | .render _, .rendered _ => after = before
  | .describe _, .described _ => after = before
  | _, _ => False

/-- Every action of a run in turn, each from the slots that the one before it left. -/
def Follows (slots : Vector σ count) :
    List (Action count) → List (Outcome × Vector σ count) → Prop
  | [], [] => True
  | action :: rest, entry :: later =>
    Keeps slots entry.2 action entry.1 ∧ Follows entry.2 rest later
  | _, _ => False

def InRange (slots : Vector σ count) : Prop := ∀ slot : Fin count, (held slots slot).InRange

/-- Readings put into a slot are the only ones that an action brings from outside. -/
def Action.InRange : Action count → Prop
  | .put _ reading => reading.InRange
  | _ => True

instance (slots : Vector σ count) : Decidable (InRange slots) :=
  inferInstanceAs (Decidable (∀ slot : Fin count, (held slots slot).InRange))

instance (action : Action count) : Decidable action.InRange :=
  match action with
  | .put _ reading => inferInstanceAs (Decidable reading.InRange)
  | .unpack .. | .renew .. | .send .. | .compare .. | .copy .. | .pack .. | .render .. |
    .describe .. => isTrue trivial

/-! ## One action -/

theorem receive_received {slots : Vector σ count} {slot : Fin count} {data : List UInt8}
    {attempt : Decoding σ}
    (lawful : tagged <$> result attempt = (held slots slot).datapoint.read data) :
    Received slots slot data (receive slots slot attempt).value.2
      (receive slots slot attempt).value.1 := by
  rw [receive_value]
  cases found : result attempt with
  | error fault =>
    rw [found] at lawful
    exact ⟨lawful.symm, rfl⟩
  | ok fresh =>
    rw [found] at lawful
    have read : (held slots slot).datapoint.read data = .ok (tagged fresh) := lawful.symm
    obtain ⟨type, inside⟩ := read_ok read
    obtain ⟨here, others⟩ := set_slot slots slot fresh
    rw [← here] at read type inside
    exact ⟨read, type, inside, others⟩

variable [LawfulHolder σ]

theorem step_keeps (slots : Vector σ count) (action : Action count) :
    Keeps slots (step slots action).value.2 action (step slots action).value.1 := by
  cases action with
  | unpack slot data => exact receive_received (LawfulHolder.unpack_tagged _ data)
  | renew slot data => exact receive_received (LawfulHolder.renew_tagged _ data)
  | put slot reading =>
    obtain ⟨here, others⟩ := set_slot slots slot (Holder.hold reading)
    refine ⟨?_, others⟩
    have fresh := LawfulHolder.tagged_hold (σ := σ) reading
    rw [← here] at fresh
    exact fresh
  | send source target =>
    have payload := congrArg Logged.value (LawfulHolder.pack_tagged (slots.get source))
    exact ⟨payload, receive_received (LawfulHolder.unpack_tagged _ _)⟩
  | copy source target => exact set_slot slots target (slots.get source)
  | compare left right => rfl
  | pack slot => rfl
  | render slot => rfl
  | describe slot => rfl

omit [LawfulHolder σ] in
theorem keeps_inRange {before after : Vector σ count} {action : Action count} {outcome : Outcome}
    (keeps : Keeps before after action outcome) (inside : InRange before)
    (given : action.InRange) : InRange after := by
  intro slot
  have fresh {target : Fin count} (others : SameBut target before after)
      (here : (held after target).InRange) : (held after slot).InRange := by
    by_cases same : slot = target
    · rw [same]
      exact here
    · rw [held, others slot same]
      exact inside slot
  have received {target : Fin count} {data : List UInt8} {fault : Option Fault}
      (report : Received before target data after fault) : (held after slot).InRange := by
    cases fault with
    | none => exact fresh report.others report.inRange
    | some fault =>
      rw [report.2]
      exact inside slot
  -- an outcome of another action is never reported
  cases action <;> cases outcome <;> try exact absurd keeps id
  case unpack.received => exact received keeps
  case renew.received => exact received keeps
  case send.sent => exact received keeps.2
  case put.done => exact fresh keeps.2 (by rw [keeps.1]; exact given)
  case copy.done source target => exact fresh keeps.2 (by rw [held, keeps.1]; exact inside source)
  all_goals
    have unchanged : after = before := keeps
    rw [unchanged]
    exact inside slot

/-! ## Whole runs -/

theorem run_follows (slots : Vector σ count) (actions : List (Action count)) :
    Follows slots actions (run slots actions).value := by
  induction actions generalizing slots with
  | nil => exact trivial
  | cons action rest ih => exact ⟨step_keeps slots action, ih _⟩

omit [LawfulHolder σ] in
theorem follows_inRange {slots : Vector σ count} {actions : List (Action count)}
    {entries : List (Outcome × Vector σ count)} (follows : Follows slots actions entries)
    (inside : InRange slots) (given : ∀ action ∈ actions, action.InRange) :
    ∀ entry ∈ entries, InRange entry.2 := by
  induction actions generalizing slots entries with
  | nil =>
    cases entries with
    | nil => exact fun entry none => nomatch none
    | cons entry later => exact absurd follows id
  | cons action rest ih =>
    cases entries with
    | nil => exact absurd follows id
    | cons entry later =>
      obtain ⟨keeps, follows⟩ := follows
      have held := keeps_inRange keeps inside (given action List.mem_cons_self)
      intro entry' member
      cases member with
      | head => exact held
      | tail _ member =>
        exact ih follows held (fun action listed => given action (List.mem_cons_of_mem _ listed))
          entry' member

end

/-- However readings are held, every action of every run keeps what it must, and the slots stay in
range where they start so and nothing out of range is put into them. -/
theorem run_keeps_slots :
    (∀ {count : ℕ} (slots : Vector TaggedReading count) (actions : List (Action count)),
      Follows slots actions (run slots actions).value ∧
      (InRange slots → (∀ action ∈ actions, action.InRange) →
        ∀ entry ∈ (run slots actions).value, InRange entry.2)) ∧
    (∀ {count : ℕ} (slots : Vector BareReading count) (actions : List (Action count)),
      Follows slots actions (run slots actions).value ∧
      (InRange slots → (∀ action ∈ actions, action.InRange) →
        ∀ entry ∈ (run slots actions).value, InRange entry.2)) :=
  ⟨fun slots actions => ⟨run_follows slots actions, follows_inRange (run_follows slots actions)⟩,
    fun slots actions => ⟨run_follows slots actions, follows_inRange (run_follows slots actions)⟩⟩

/-- A telegram of the wrong width is refused, a copy changes the type, and the copy refuses the one
word above its range. -/
theorem run_keeps_slots_two :
    InRange #v[TaggedReading.scaled ⟨.scaling, 50⟩, .float ⟨.temperature, -273⟩] ∧
    (∀ action ∈ [Action.send (0 : Fin 2) 1, .copy 1 0, .unpack 0 [0x7F, 0xFF]], action.InRange) ∧
    ∀ entry ∈ (run #v[TaggedReading.scaled ⟨.scaling, 50⟩, .float ⟨.temperature, -273⟩]
      [.send 0 1, .copy 1 0, .unpack 0 [0x7F, 0xFF]]).value, InRange entry.2 := by
  have start : InRange #v[TaggedReading.scaled ⟨.scaling, 50⟩, .float ⟨.temperature, -273⟩] := by
    decide +kernel
  have given : ∀ action ∈ [Action.send (0 : Fin 2) 1, .copy 1 0, .unpack 0 [0x7F, 0xFF]],
      action.InRange := by decide
  exact ⟨start, given, (run_keeps_slots.1 _ _).2 start given⟩

end KnxDatapoint.Session
