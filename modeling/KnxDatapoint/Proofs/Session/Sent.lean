import KnxDatapoint.Proofs.Session.Slots

/-! Telegrams sent from a slot of one type to a slot of another.
Types of one width take each other's telegrams, with one exception: lux has no numbers below zero,
which a temperature may have. A two-byte float means the same number to both of its types, and a
byte is sent on unchanged by every scaled type. -/
namespace KnxDatapoint
open Single ShortFloat

/-- The payload is a two-byte float with a negative mantissa. -/
def Payload.Negative : Payload → Prop
  | .one _ => False
  | .two high low => (ShortFloat.ofWord (word high low)).mantissa < 0

/-- The telegrams of one type that another one takes. -/
def Takes (source target : DatapointType) (payload : Payload) : Prop :=
  source.width = target.width ∧
    ¬ (source = FloatType.temperature.datapoint ∧ target = FloatType.illumination.datapoint ∧
      payload.Negative)

/-- What a type makes of a telegram that was packed under another one. -/
structure Sent (source target : DatapointType) (payload : Payload)
    (outcome : Except Fault TaggedReading) : Prop where
  taken : (∃ reading, outcome = .ok reading) ↔ Takes source target payload
  tooLong : source.width ≠ target.width →
    outcome = .error (.wrongLength target.width source.width)
  belowZero : source.width = target.width → ¬ Takes source target payload →
    ∃ x < 0, outcome = .error (.outOfRange target x FloatType.illumination.range)
  sameNumber : source.family = .float → target.family = .float →
    ∀ reading, outcome = .ok reading →
      ∃ own x, source.read payload.toList = .ok own ∧ own.number? = some x ∧
        reading.number? = some x
  sameByte : target.family = .scaled →
    ∀ reading, outcome = .ok reading → reading.pack.value = payload

section
variable {source target : DatapointType} {payload : Payload} {f : ShortFloat}

theorem payload_length (reading : TaggedReading) :
    reading.pack.value.toList.length = reading.datapoint.width := by
  cases reading <;> rfl

theorem payload_one {byte : UInt8} (bytes : payload.toList = [byte]) : payload = .one byte := by
  cases payload <;> simp_all [Payload.toList]

theorem read_refused (target : DatapointType) {data : List UInt8}
    (different : data.length ≠ target.width) :
    target.read data = .error (.wrongLength target.width data.length) := by
  rw [DatapointType.read, Family.decode_refused target.member different]
  rfl

theorem sent_elsewhere (length : payload.toList.length = source.width)
    (different : source.width ≠ target.width) :
    Sent source target payload (target.read payload.toList) := by
  rw [← length] at different
  rw [read_refused target different, length]
  rw [length] at different
  refine ⟨?_, fun _ => rfl, fun same => absurd same different, ?_, ?_⟩
  · simp [Takes, different]
  · rintro - - reading ⟨⟩
  · rintro - reading ⟨⟩

/-- Where no two-byte float is involved the bytes are always taken. -/
theorem sent_byte (reading : TaggedReading) (same : source.width = target.width)
    (other : target.family ≠ .float) (read : target.read payload.toList = .ok reading)
    (again : target.family = .scaled → reading.pack.value = payload) :
    Sent source target payload (target.read payload.toList) := by
  have takes : Takes source target payload := by
    refine ⟨same, ?_⟩
    rintro ⟨-, rfl, -⟩
    exact other rfl
  rw [read]
  refine ⟨iff_of_true ⟨_, rfl⟩ takes, fun different => absurd same different,
    fun _ refused => absurd takes refused, fun _ float => absurd float other, ?_⟩
  rintro scaled _ ⟨⟩
  exact again scaled

/-! ## Two-byte floats -/

theorem negative_word (fits : f.Fits) :
    (Payload.ofWord f.toWord).Negative ↔ f.mantissa < 0 := by
  obtain ⟨high, low, bytes, word⟩ := Payload.word_ofWord f.toWord
  rw [bytes, Payload.Negative, word, ofWord_toWord fits]

theorem read_word (kind : FloatType) (fits : f.Fits) :
    kind.datapoint.read (Payload.ofWord f.toWord).toList =
      if f.toValue ∈ kind.range then .ok (.float ⟨kind, f.toValue⟩)
      else .error (.outOfRange kind.datapoint f.toValue kind.range) := by
  obtain ⟨high, low, bytes, word⟩ := Payload.word_ofWord f.toWord
  have decoded : result (kind.decode [high, low]) =
      if f.toValue ∈ kind.range then .ok f.toValue
      else .error (.outOfRange kind.datapoint f.toValue kind.range) := by
    simp only [FloatType.decode, Wire.unpackFloat, word, ofWord_toWord fits, pure_bind,
      result_ite, result_pure, result_refuse]
  have read : kind.datapoint.read [high, low] =
      (fun x => .float ⟨kind, x⟩) <$> result (kind.decode [high, low]) := rfl
  rw [bytes]
  change kind.datapoint.read [high, low] = _
  rw [read, decoded]
  split <;> rfl

theorem mem_illumination_iff (fits : f.Fits) (held : f.toValue ∈ FloatType.temperature.range) :
    f.toValue ∈ FloatType.illumination.range ↔ ¬ f.mantissa < 0 := by
  have high := ((FloatType.toValue_mem_iff fits).mp held).2
  have least : FloatType.illumination.range.least.toRat = 0 := toRat_ofNat (n := 0) (by norm_num)
  have power := power_pos f.exponent
  rw [FloatType.toRat_greatest] at high
  rw [FloatType.toValue_mem_iff fits, least, FloatType.toRat_greatest, and_iff_left high,
    le_div_iff₀ (by norm_num), zero_mul, hundredths_cast, mul_nonneg_iff_of_pos_right power, not_lt]
  exact Int.cast_nonneg_iff

theorem mem_temperature (fits : f.Fits) (held : f.toValue ∈ FloatType.illumination.range) :
    f.toValue ∈ FloatType.temperature.range := by
  obtain ⟨low, high⟩ := (FloatType.toValue_mem_iff fits).mp held
  have least : FloatType.illumination.range.least.toRat = 0 := toRat_ofNat (n := 0) (by norm_num)
  have below := FloatType.temperature.least_bounds.2
  rw [FloatType.toRat_greatest] at high
  rw [least] at low
  rw [FloatType.toValue_mem_iff fits, FloatType.toRat_greatest]
  exact ⟨below.trans low, high⟩

theorem taken_iff (source target : FloatType) (fits : f.Fits) (held : f.toValue ∈ source.range) :
    f.toValue ∈ target.range ↔
      Takes source.datapoint target.datapoint (.ofWord f.toWord) := by
  have negative := negative_word fits
  cases source with
  | temperature =>
    cases target with
    | temperature => simp [Takes, held, FloatType.datapoint]
    | illumination =>
      rw [mem_illumination_iff fits held, Takes, negative]
      simp [DatapointType.width, FloatType.datapoint]
  | illumination =>
    cases target with
    | temperature =>
      have inside := mem_temperature fits held
      simp [Takes, inside, FloatType.datapoint, DatapointType.width]
    | illumination => simp [Takes, held, FloatType.datapoint]

/-- A float of one type that lies outside the range of the other is less than zero. -/
theorem below_zero {source target : FloatType} (fits : f.Fits) (held : f.toValue ∈ source.range)
    (outside : f.toValue ∉ target.range) :
    f.toValue < 0 ∧ target.range = FloatType.illumination.range := by
  cases target with
  | temperature =>
    cases source with
    | temperature => exact absurd held outside
    | illumination => exact absurd (mem_temperature fits held) outside
  | illumination =>
    have top : FloatType.illumination.range.greatest = source.range.greatest := by
      cases source <;> rfl
    have beyond := (not_outside held).2
    rw [← top] at beyond
    exact ⟨(FloatType.outside_of_not_mem fits outside).resolve_right beyond, rfl⟩

theorem sent_word (source target : FloatType) (fits : f.Fits) (held : f.toValue ∈ source.range) :
    Sent source.datapoint target.datapoint (.ofWord f.toWord)
      (target.datapoint.read (Payload.ofWord f.toWord).toList) := by
  have taken := taken_iff source target fits held
  have own := read_word source fits
  rw [if_pos held] at own
  rw [read_word target fits]
  by_cases inside : f.toValue ∈ target.range
  · rw [if_pos inside]
    refine ⟨iff_of_true ⟨_, rfl⟩ (taken.mp inside), fun different => absurd rfl different,
      fun _ refused => absurd (taken.mp inside) refused, ?_, nofun⟩
    rintro - - _ ⟨⟩
    exact ⟨_, _, own, rfl, rfl⟩
  · rw [if_neg inside]
    refine ⟨?_, fun different => absurd rfl different, fun _ refused => ?_, ?_,
      nofun⟩
    · rw [← taken]
      simp [inside]
    · obtain ⟨below, range⟩ := below_zero fits held inside
      exact ⟨f.toValue, below, by rw [range]⟩
    · rintro - - _ ⟨⟩

end

/-- Whatever is packed under one type, another one takes it, or refuses it for the right reason. -/
theorem read_sent (reading : TaggedReading) (target : DatapointType) :
    Sent reading.datapoint target reading.pack.value (target.read reading.pack.value.toList) := by
  by_cases same : reading.datapoint.width = target.width
  · have length := payload_length reading
    rcases target with ⟨family, member⟩
    cases family with
    | boolean =>
      obtain ⟨byte, one, read⟩ := Family.decode_judged member (length.trans same)
      refine sent_byte (.boolean ⟨member, byte.toNat.testBit 0⟩) same Family.noConfusion ?_
        Family.noConfusion
      rw [DatapointType.read, read]
      rfl
    | scaled =>
      obtain ⟨byte, x, one, read, value, inside⟩ := Family.decode_judged member (length.trans same)
      refine sent_byte (.scaled ⟨member, x⟩) same Family.noConfusion ?_ fun _ => ?_
      · rw [DatapointType.read, read]
        rfl
      · rw [payload_one one, value]
        exact ScaledType.encode_ofStep member byte
    | float =>
      cases reading with
      | boolean reading => cases same
      | scaled reading => cases same
      | float reading =>
        have held := Range.bounded_mem reading.scalar reading.member.range_proper
        obtain ⟨fits, inside⟩ := FloatType.within_mem held
        exact sent_word reading.member member fits inside
  · exact sent_elsewhere (payload_length reading) same

namespace Session

section
variable {σ : Type} {count : ℕ} [Holder σ]

/-- What an attempt left in a slot, or the fault for which it left nothing new there. -/
def received (fault : Option Fault) (reading : TaggedReading) : Except Fault TaggedReading :=
  match fault with
  | none => .ok reading
  | some fault => .error fault

/-- A slot packs the reading it holds, and the target takes it as its own type does. -/
def Delivers (slots : Vector σ count) (source target : Fin count) : Prop :=
  ∃ payload fault after, (step slots (.send source target)).value = (.sent payload fault, after) ∧
    payload = (held slots source).pack.value ∧
    Sent (held slots source).datapoint (held slots target).datapoint payload
      (received fault (held after target))

theorem received_read {before after : Vector σ count} {slot : Fin count} {data : List UInt8}
    {fault : Option Fault} (report : Received before slot data after fault) :
    received fault (held after slot) = (held before slot).datapoint.read data := by
  cases fault with
  | none => exact report.read.symm
  | some fault => exact report.1.symm

theorem step_delivers [LawfulHolder σ] (slots : Vector σ count) (source target : Fin count) :
    Delivers slots source target := by
  obtain ⟨packed, report⟩ := step_keeps slots (.send source target)
  have sent := read_sent (held slots source) (held slots target).datapoint
  rw [← packed, ← received_read report] at sent
  exact ⟨_, _, _, rfl, packed, sent⟩

end

/-- Between any two slots, however their readings are held, a telegram is taken where the widths
agree, but for temperatures below zero sent to lux. The fault is that of the length or, for those,
that of the range. Another two-byte type reads the number that the own type would read, and another
scaled type sends the same byte on. -/
theorem send_between_types :
    (∀ {count : ℕ} (slots : Vector TaggedReading count) (source target : Fin count),
      Delivers slots source target) ∧
    ∀ {count : ℕ} (slots : Vector BareReading count) (source target : Fin count),
      Delivers slots source target :=
  ⟨fun slots source target => step_delivers slots source target,
    fun slots source target => step_delivers slots source target⟩

end Session
end KnxDatapoint
