import KnxDatapoint.Proofs.Session.Alike
import KnxDatapoint.Proofs.Reading.Text
import KnxDatapoint.Proofs.ShortFloat.Tolerance

/-! What a run writes down.
A number beyond its range is recorded where it is packed, with the bound that takes its place, and a
refusal where it is reported. There are no other records: a number held to its range never exceeds
the two-byte format, and no text exceeds its buffer. -/
namespace KnxDatapoint
open Single ShortFloat

/-- The record of a number that a bound of its range replaces when it is packed. -/
def clippings (reading : TaggedReading) : List Record :=
  match reading.datapoint.range?, reading.number? with
  | some range, some x =>
    if x < range.least then [.clipped reading.datapoint x range.least]
    else if range.greatest < x then [.clipped reading.datapoint x range.greatest]
    else []
  | _, _ => []

/-- The record of a fault. -/
def refusals : Option Fault → List Record
  | none => []
  | some fault => [.refused fault]

theorem clippings_level (reading : TaggedReading) :
    (clippings reading).map Record.level ⊆ [.trace] := by
  unfold clippings
  split
  · split
    · exact List.Subset.refl _
    · split
      · exact List.Subset.refl _
      · exact List.nil_subset _
  · exact List.nil_subset _

theorem refusals_level (fault : Option Fault) :
    (refusals fault).map Record.level ⊆ [.debug] := by
  cases fault with
  | none => exact List.nil_subset _
  | some fault => exact List.Subset.refl _

/-! ## Numbers held to a range -/

section
variable {x y : Single}

theorem beq_false_of_lt (lt : x < y) : (x == y) = false ∧ (y == x) = false := by
  obtain ⟨a, b, hx, hy, lt⟩ := Single.lt_iff.mp lt
  constructor <;> rw [Bool.eq_false_iff, ne_eq, Single.beq_iff] <;> rintro ⟨c, first, second⟩
  · simp only [hx, hy, Option.some.injEq] at first second
    omega
  · simp only [hx, hy, Option.some.injEq] at first second
    omega

theorem clip_records (type : DatapointType) {range : Range} (v : Single) (zero : 0 ∈ range) :
    (clip type range v).records =
      if v < range.least then [.clipped type v range.least]
      else if range.greatest < v then [.clipped type v range.greatest]
      else [] := by
  have bounds := Range.bounded_bounds v zero
  simp only [clip]
  generalize range.bounded v = bound at bounds ⊢
  cases bounds with
  | nan =>
    -- a NaN counts as zero, which the range holds
    have least : ¬ Single.nan < range.least := fun lt => (lt_iff_toRat.mp lt).1 rfl
    have greatest : ¬ range.greatest < Single.nan := fun lt => (lt_iff_toRat.mp lt).2.1 rfl
    have same : ((0 : Single) == Single.nan.orZero) = true := beq_self_iff.mpr (by decide)
    rw [if_pos same, if_neg least, if_neg greatest]
  | below beyond =>
    have number := (lt_iff_toRat.mp beyond).1
    simp [orZero_number number, beyond, (beq_false_of_lt beyond).2]
  | above beyond =>
    have number := (lt_iff_toRat.mp beyond).2.1
    have kept : ¬ v < range.least := by
      obtain ⟨least, greatest, order⟩ := le_iff_toRat.mp (Range.proper_of_mem zero)
      rw [not_lt_iff number least, le_iff_toRat]
      exact ⟨least, number, order.trans (lt_iff_toRat.mp beyond).2.2.le⟩
    simp [orZero_number number, beyond, kept, (beq_false_of_lt beyond).1]
  | inside held =>
    have number := number_of_mem held
    obtain ⟨low, high⟩ := not_outside held
    simp [orZero_number number, low, high, beq_self_iff.mpr number]

end

theorem within_records (range : Range) (v : Single) :
    (within range v).records = (ofValue v).records := by
  simp only [within, Logged.records_bind]
  split <;> simp

namespace FloatType

/-- Of a number of the range the format can always tell. -/
theorem ofValue_silent {kind : FloatType} {v : Single} (held : v ∈ kind.range) :
    (ofValue v).records = [] := by
  obtain ⟨-, low, high⟩ := finite_of_mem held
  have least := kind.least_bounds.1
  rw [ofValue_records, if_pos (fitsAt_inside (by linarith) (by linarith))]

theorem encode_records (kind : FloatType) (v : Single) :
    (kind.encode v).records = (clip kind.datapoint kind.range v).records := by
  have held := Range.bounded_mem v kind.range_proper
  simp [encode, Wire.packFloatWithin, within_records, clip, ofValue_silent held]

end FloatType

namespace ScaledType

theorem encode_records (kind : ScaledType) (v : Single) :
    (kind.encode v).records = (clip kind.datapoint kind.range v).records := by
  simp [encode, encodeByte]

end ScaledType

theorem pack_records (reading : TaggedReading) : reading.pack.records = clippings reading := by
  cases reading with
  | boolean reading => rfl
  | scaled reading =>
    have clipped := clip_records reading.member.datapoint reading.scalar reading.member.zero_mem
    exact (ScaledType.encode_records reading.member reading.scalar).trans clipped
  | float reading =>
    have clipped := clip_records reading.member.datapoint reading.scalar reading.member.zero_mem
    exact (FloatType.encode_records reading.member reading.scalar).trans clipped

theorem describe_records (reading : TaggedReading) :
    (describe reading).records = clippings reading := by
  have packed : (Datapoint.pack reading).records = clippings reading := pack_records reading
  simp [describe, render_whole, packed]

theorem noted_map {α β : Type} {reading : Decoding α} {f : α → β} :
    Noted (f <$> reading) ↔ Noted reading := by
  have kept : (f <$> reading).run.records = reading.run.records := by
    rw [ExceptT.run_map, Logged.records_map]
  rw [Noted, Noted, kept, result_map]
  cases result reading <;> rfl

theorem TaggedReading.unpack_noted (reading : TaggedReading) (data : List UInt8) :
    Noted (reading.unpack data) := by
  cases reading <;> simp only [TaggedReading.unpack, noted_map, Reading.unpack_eq] <;>
    exact Family.decode_noted _ _ _

theorem TaggedReading.renew_noted (reading : TaggedReading) (data : List UInt8) :
    Noted (TaggedReading.ofBytes reading.datapoint data) := by
  cases reading <;>
    simp only [TaggedReading.ofBytes, TaggedReading.datapoint, Reading.datapoint, noted_map,
      Reading.ofBytes_eq] <;>
    exact Family.decode_noted _ _ _

namespace Session
open Datapoint

section
variable {σ : Type} {count : ℕ}

theorem receive_records (slots : Vector σ count) (slot : Fin count) {attempt : Decoding σ}
    (noted : Noted attempt) :
    (receive slots slot attempt).records = refusals (receive slots slot attempt).value.1 := by
  have made : (receive slots slot attempt).records = attempt.run.records := by
    simp only [receive, Logged.records_bind]
    cases attempt.run.value <;> simp
  rw [made, noted, receive_value]
  cases result attempt <;> rfl

variable [Holder σ]

theorem unpack_noted (faithful : Faithful (tagged : σ → TaggedReading)) (held : σ)
    (data : List UInt8) : Noted (unpack held data) := by
  rw [← noted_map, ← faithful.unpack]
  exact TaggedReading.unpack_noted (tagged held) data

theorem renew_noted (faithful : Faithful (tagged : σ → TaggedReading)) (held : σ)
    (data : List UInt8) : Noted (renew held data) := by
  rw [← noted_map, ← faithful.renew]
  exact TaggedReading.renew_noted (tagged held) data

theorem packing_records (faithful : Faithful (tagged : σ → TaggedReading)) (held : σ) :
    (pack held).records = clippings (tagged held) := by
  rw [← faithful.pack]
  exact pack_records (tagged held)

/-- What an action may write down, by what it reports: the number that a bound replaces where one is
packed, and the fault of refused bytes after it. -/
def Notes (slots : Vector σ count) (records : List Record) : Action count → Outcome → Prop
  | .pack slot, .packed _ => records = clippings (held slots slot)
  | .describe slot, .described _ => records = clippings (held slots slot)
  | .send source _, .sent _ fault => records = clippings (held slots source) ++ refusals fault
  | .unpack _ _, .received fault => records = refusals fault
  | .renew _ _, .received fault => records = refusals fault
  | .put _ _, .done => records = []
  | .copy _ _, .done => records = []
  | .compare _ _, .compared _ => records = []
  | .render _, .rendered _ => records = []
  | _, _ => False

/-- Every action of a run in turn, each with the records that it adds to those before it. -/
def Accounts (slots : Vector σ count) :
    List (Action count) → List (Outcome × Vector σ count) → List Record → Prop
  | [], [], records => records = []
  | action :: rest, entry :: later, records =>
    ∃ noted others, records = noted ++ others ∧ Notes slots noted action entry.1 ∧
      Accounts entry.2 rest later others
  | _, _, _ => False

/-- Every action of a run gets the verdict of the type concerned and writes down what it reports,
and nothing of it is a warning. -/
structure Accounted (slots : Vector σ count) (actions : List (Action count)) : Prop where
  follows : Follows slots actions (run slots actions).value
  accounts : Accounts slots actions (run slots actions).value (run slots actions).records
  silent : .warn ∉ (run slots actions).records.map Record.level

/-! ## One action -/

theorem step_notes (faithful : Faithful (tagged : σ → TaggedReading)) (slots : Vector σ count)
    (action : Action count) :
    Notes slots (step slots action).records action (step slots action).value.1 := by
  cases action with
  | unpack slot data =>
    simpa [step, Notes] using receive_records slots slot (unpack_noted faithful _ data)
  | renew slot data =>
    simpa [step, Notes] using receive_records slots slot (renew_noted faithful _ data)
  | put slot reading => rfl
  | send source target =>
    have reported := receive_records slots target (unpack_noted faithful slots[target]
      (pack slots[source]).value.toList)
    simp only [step, Notes, Logged.records_bind, Logged.value_bind, Logged.records_pure,
      Logged.value_pure, List.append_nil, reported]
    rw [packing_records faithful]
    rfl
  | compare left right => rfl
  | copy source target => rfl
  | pack slot =>
    simp only [step, Notes, Logged.records_bind, Logged.value_bind, Logged.records_pure,
      Logged.value_pure, List.append_nil]
    exact packing_records faithful slots[slot]
  | render slot =>
    simp only [step, Notes, Logged.records_bind, Logged.value_bind, Logged.records_pure,
      Logged.value_pure, List.append_nil, ← faithful.render, render_whole]
  | describe slot =>
    simp only [step, Notes, Logged.records_bind, Logged.value_bind, Logged.records_pure,
      Logged.value_pure, List.append_nil, ← faithful.describe]
    exact describe_records (tagged slots[slot])

theorem notes_silent {slots : Vector σ count} {records : List Record} {action : Action count}
    {outcome : Outcome} (notes : Notes slots records action outcome) :
    .warn ∉ records.map Record.level := by
  have clipped (slot : Fin count) : .warn ∉ (clippings (held slots slot)).map Record.level :=
    fun warned => nomatch clippings_level _ warned
  have refused (fault : Option Fault) : .warn ∉ (refusals fault).map Record.level :=
    fun warned => nomatch refusals_level _ warned
  -- an outcome of another action is never reported
  cases action <;> cases outcome <;> try exact absurd notes id
  case unpack.received =>
    cases notes
    exact refused _
  case renew.received =>
    cases notes
    exact refused _
  case send.sent =>
    cases notes
    rw [List.map_append, List.mem_append, not_or]
    exact ⟨clipped _, refused _⟩
  case pack.packed =>
    cases notes
    exact clipped _
  case describe.described =>
    cases notes
    exact clipped _
  all_goals
    cases notes
    exact List.not_mem_nil

/-! ## Whole runs -/

theorem run_accounts (faithful : Faithful (tagged : σ → TaggedReading)) (slots : Vector σ count)
    (actions : List (Action count)) :
    Accounts slots actions (run slots actions).value (run slots actions).records := by
  induction actions generalizing slots with
  | nil => rfl
  | cons action rest ih =>
    refine ⟨(step slots action).records, _, ?_, step_notes faithful slots action, ih _⟩
    simp [run]

theorem accounts_silent {slots : Vector σ count} {actions : List (Action count)}
    {entries : List (Outcome × Vector σ count)} {records : List Record}
    (accounts : Accounts slots actions entries records) : .warn ∉ records.map Record.level := by
  induction actions generalizing slots entries records with
  | nil =>
    cases entries with
    | nil =>
      cases accounts
      exact List.not_mem_nil
    | cons entry later => exact absurd accounts id
  | cons action rest ih =>
    cases entries with
    | nil => exact absurd accounts id
    | cons entry later =>
      obtain ⟨noted, others, rfl, notes, accounts⟩ := accounts
      rw [List.map_append, List.mem_append, not_or]
      exact ⟨notes_silent notes, ih accounts⟩

theorem run_accounted [LawfulHolder σ] (faithful : Faithful (tagged : σ → TaggedReading))
    (slots : Vector σ count) (actions : List (Action count)) : Accounted slots actions :=
  have accounts := run_accounts faithful slots actions
  ⟨run_follows slots actions, accounts, accounts_silent accounts⟩

end

/-- However readings are held, every action of every run writes down the number that is held to a
bound where one is packed, described or sent, the fault of refused bytes after it, and nothing else:
the one as a trace and the other for debugging, and never a warning. Neither a NaN nor a negative
zero counts as beyond a bound. -/
theorem records_of_runs :
    (∀ {count : ℕ} (slots : Vector TaggedReading count) (actions : List (Action count)),
      Accounted slots actions) ∧
    (∀ {count : ℕ} (slots : Vector BareReading count) (actions : List (Action count)),
      Accounted slots actions) ∧
    (∀ reading, (clippings reading).map Record.level ⊆ [.trace]) ∧
    (∀ fault, (refusals fault).map Record.level ⊆ [.debug]) ∧
    (∀ kind : ScaledType, clippings (.scaled ⟨kind, .nan⟩) = [] ∧
      clippings (.scaled ⟨kind, -0⟩) = []) ∧
    ∀ kind : FloatType, clippings (.float ⟨kind, .nan⟩) = [] ∧
      clippings (.float ⟨kind, -0⟩) = [] := by
  refine ⟨run_accounted untouched_faithful, run_accounted tagged_faithful, clippings_level,
    refusals_level, ?_, ?_⟩
  · intro kind
    cases kind <;> decide
  · intro kind
    cases kind <;> decide

-- Below the range of its type and of the target: held to the bound first, and refused then.
example : (run #v[TaggedReading.float ⟨.temperature, -300⟩, .float ⟨.illumination, 0⟩]
    [.render 0, .send 0 1, .compare 0 1]).records =
      [.clipped ⟨.float, .temperature⟩ (-300) (-273),
        .refused (.outOfRange ⟨.float, .illumination⟩ (.ofBits 0xC3887AE1) ⟨0, 670760⟩)] := by
  decide +kernel

end Session
end KnxDatapoint
