import KnxDatapoint.Proofs.Codec.Verdict
import KnxDatapoint.Proofs.Reading.Distinct

/-! Equal readings can stand for each other.
Equality is numeric: a NaN equals nothing, and readings that are equal but not the same differ in
the sign of a zero. Neither the codec nor anything else that is asked of a reading takes notice of
that sign, except the text. -/
namespace KnxDatapoint
open Single

/-! ## Scalars -/

/-- A zero and the zero of the other sign. -/
def Value.OppositeZeros (v w : Value) : Prop :=
  (v = .number 0 ∧ w = .number (-0)) ∨ (v = .number (-0) ∧ w = .number 0)

namespace Value

@[simp] theorem state_beq (a b : Bool) : (state a == state b) = (a == b) := rfl

@[simp] theorem number_beq (x y : Single) : (number x == number y) = (x == y) := rfl

theorem beq_self_iff {v : Value} : (v == v) = true ↔ v ≠ .number .nan := by
  cases v with
  | state on => exact iff_of_true (beq_self_eq_true on) Value.noConfusion
  | number x => rw [number_beq, Single.beq_self_iff, ne_eq, ne_eq, number.injEq]

instance : PartialEquivBEq Value where
  symm {v w} equal := by
    cases v <;> cases w <;> first
      | cases equal
      | rw [state_beq] at equal ⊢
        exact BEq.symm equal
      | rw [number_beq] at equal ⊢
        exact BEq.symm equal
  trans {u v w} first second := by
    cases v with
    | state b =>
      cases u with
      | number x => cases first
      | state a =>
        obtain rfl : a = b := eq_of_beq first
        exact second
    | number y =>
      cases u with
      | state a => cases first
      | number x =>
        cases w with
        | state c => cases second
        | number z =>
          rw [number_beq] at first second ⊢
          exact BEq.trans first second

theorem eq_or_zeros {v w : Value} (equal : (v == w) = true) : v = w ∨ v.OppositeZeros w := by
  cases v with
  | state on =>
    cases w with
    | state on' => exact .inl (congrArg state (eq_of_beq equal))
    | number y => cases equal
  | number x =>
    cases w with
    | state on' => cases equal
    | number y =>
      rcases Single.eq_or_zeros equal with rfl | ⟨rfl, rfl⟩ | ⟨rfl, rfl⟩
      · exact .inl rfl
      · exact .inr (.inl ⟨rfl, rfl⟩)
      · exact .inr (.inr ⟨rfl, rfl⟩)

/-- A text shows the sign of a zero. -/
theorem OppositeZeros.not_alike {v w : Value} (zeros : v.OppositeZeros w) : ¬ v.Alike w := by
  rcases zeros with ⟨rfl, rfl⟩ | ⟨rfl, rfl⟩ <;> rw [neg_zero_eq, zero_eq] <;> rintro (_ | ⟨⟨⟩⟩)

end Value

/-! ## What is sent and received -/

theorem ScaledType.encode_neg_zero (kind : ScaledType) : kind.encode (-0) = kind.encode 0 := by
  cases kind <;> decide +kernel

theorem FloatType.encode_neg_zero (kind : FloatType) : kind.encode (-0) = kind.encode 0 := by
  cases kind <;> decide +kernel

namespace Family

variable {family : Family} {member : family.Member} {x y : family.Scalar}

theorem value_inj (same : family.value x = family.value y) : x = y := by
  cases family <;> cases same <;> rfl

theorem equal_value (x y : family.Scalar) :
    family.equal x y = (family.value x == family.value y) := by
  cases family <;> rfl

theorem encode_of_zeros (zeros : (family.value x).OppositeZeros (family.value y)) :
    family.encode member x = family.encode member y := by
  cases family with
  | boolean =>
    -- a state is no zero
    rcases zeros with ⟨zero, -⟩ | ⟨zero, -⟩ <;> cases zero
  | scaled =>
    rcases zeros with ⟨zero, zero'⟩ | ⟨zero, zero'⟩ <;> cases zero <;> cases zero'
    · exact (ScaledType.encode_neg_zero member).symm
    · exact ScaledType.encode_neg_zero member
  | float =>
    rcases zeros with ⟨zero, zero'⟩ | ⟨zero, zero'⟩ <;> cases zero <;> cases zero'
    · exact (FloatType.encode_neg_zero member).symm
    · exact FloatType.encode_neg_zero member

theorem encode_congr (equal : (family.value x == family.value y) = true) :
    family.encode member x = family.encode member y := by
  rcases Value.eq_or_zeros equal with same | zeros
  · rw [value_inj same]
  · exact encode_of_zeros zeros

theorem Admits.number (admitted : family.Admits member x) : family.value x ≠ .number .nan := by
  cases family with
  | boolean => exact Value.noConfusion
  | scaled => exact mt Value.number.inj (number_of_mem admitted)
  | float => exact mt Value.number.inj (number_of_mem admitted)

end Family

/-! ## Readings -/

/-- Equal readings of one family are of one type and have equal scalars. -/
theorem Reading.beq_iff {family : Family} {a b : Reading family} : (a == b) = true ↔
    a.datapoint = b.datapoint ∧ (a.value == b.value) = true := by
  change Reading.beq a b = true ↔ _
  simp [Reading.beq, Family.equal_value, datapoint, value]

namespace TaggedReading

theorem unpack_tag {family : Family} (reading : Reading family) (data : List UInt8) :
    (family.tag reading).unpack data =
      (family.tag ⟨reading.member, ·⟩) <$> family.decode reading.member data := by
  rw [unpack_eq, Reading.unpack_eq, Functor.map_map]

variable {a b : TaggedReading}

/-- Equal readings are of one type and have equal scalars. -/
theorem beq_iff : (a == b) = true ↔
    a.datapoint = b.datapoint ∧ (a.value == b.value) = true := by
  cases a <;> cases b <;> first
    | exact Reading.beq_iff
    -- readings of two families differ in their types
    | exact iff_of_false Bool.noConfusion fun both => nomatch both.1

theorem beq_self_iff : (a == a) = true ↔ a.value ≠ .number .nan := by
  rw [beq_iff, Value.beq_self_iff]
  exact and_iff_right rfl

instance : PartialEquivBEq TaggedReading where
  symm equal := by
    obtain ⟨types, scalars⟩ := beq_iff.mp equal
    exact beq_iff.mpr ⟨types.symm, BEq.symm scalars⟩
  trans first second := by
    obtain ⟨types, scalars⟩ := beq_iff.mp first
    obtain ⟨types', scalars'⟩ := beq_iff.mp second
    exact beq_iff.mpr ⟨types.trans types', BEq.trans scalars scalars'⟩

theorem tags_of_datapoint (types : a.datapoint = b.datapoint) :
    ∃ (family : Family) (member : family.Member) (x y : family.Scalar),
      a = family.tag ⟨member, x⟩ ∧ b = family.tag ⟨member, y⟩ := by
  obtain ⟨family, ⟨member, x⟩, rfl⟩ := a.exists_tag
  obtain ⟨family', ⟨member', y⟩, rfl⟩ := b.exists_tag
  rw [datapoint_tag, datapoint_tag] at types
  -- the types of the scalars agree only once the families do
  cases types
  exact ⟨family, member, x, y, rfl, rfl⟩

theorem eq_of_value (types : a.datapoint = b.datapoint) (scalars : a.value = b.value) : a = b := by
  obtain ⟨family, member, x, y, rfl, rfl⟩ := tags_of_datapoint types
  rw [value_tag, value_tag] at scalars
  obtain rfl : x = y := Family.value_inj scalars
  rfl

theorem pack_congr (equal : (a == b) = true) : a.pack = b.pack := by
  obtain ⟨types, scalars⟩ := beq_iff.mp equal
  obtain ⟨family, member, x, y, rfl, rfl⟩ := tags_of_datapoint types
  rw [value_tag, value_tag] at scalars
  rw [pack_tag, pack_tag]
  exact Family.encode_congr scalars

/-- The scalar held so far has no part in what a buffer becomes. -/
theorem unpack_congr (types : a.datapoint = b.datapoint) (data : List UInt8) :
    a.unpack data = b.unpack data := by
  obtain ⟨family, member, x, y, rfl, rfl⟩ := tags_of_datapoint types
  rw [unpack_tag, unpack_tag]

theorem unpack_number {data : List UInt8} (read : result (a.unpack data) = .ok b) :
    b.value ≠ .number .nan := by
  obtain ⟨family, reading, rfl⟩ := a.exists_tag
  rw [unpack_tag, result_map, map_eq_pure_bind, except_bind_ok] at read
  obtain ⟨scalar, decoded, tagged⟩ := read
  cases tagged
  rw [value_tag]
  exact (Family.decode_admits decoded).number

theorem text_iff (equal : (a == b) = true) :
    (render a).value = (render b).value ↔ ¬ a.value.OppositeZeros b.value := by
  obtain ⟨types, scalars⟩ := beq_iff.mp equal
  rw [render_whole, render_whole]
  constructor
  · intro same zeros
    exact zeros.not_alike (alike_of_display same).2
  · intro signed
    have same := (Value.eq_or_zeros scalars).resolve_right signed
    rw [eq_of_value types same]

/-- What stays when one reading takes the place of another: all that is asked of it, but for the
text where a zero changes its sign. -/
structure Replaces (a b : TaggedReading) : Prop where
  identifier : a.datapoint.identifier = b.datapoint.identifier
  unit : a.datapoint.unit = b.datapoint.unit
  pack : a.pack = b.pack
  unpack (data : List UInt8) : a.unpack data = b.unpack data
  fresh {data : List UInt8} {x y : TaggedReading} (read : result (a.unpack data) = .ok x)
    (read' : result (b.unpack data) = .ok y) : (x == y) = true
  text : (render a).value = (render b).value ↔ ¬ a.value.OppositeZeros b.value

theorem replaces_of_beq (equal : (a == b) = true) : a.Replaces b := by
  have types := (beq_iff.mp equal).1
  have received := unpack_congr types
  refine ⟨by rw [types], by rw [types], pack_congr equal, received, fun {data x y} read read' => ?_,
    text_iff equal⟩
  rw [received data] at read
  obtain rfl : x = y := Except.ok.inj (read.symm.trans read')
  exact beq_self_iff.mpr (unpack_number read)

end TaggedReading

/-- Equality of readings is symmetric and transitive, every reading without a NaN is equal to
itself, and equal readings can replace each other. -/
theorem equal_readings_replaceable :
    (∀ a b : TaggedReading, (a == b) = true → (b == a) = true) ∧
    (∀ a b c : TaggedReading, (a == b) = true → (b == c) = true → (a == c) = true) ∧
    (∀ a : TaggedReading, (a == a) = true ↔ a.value ≠ .number .nan) ∧
    ∀ a b : TaggedReading, (a == b) = true → a.Replaces b :=
  ⟨fun _ _ => BEq.symm, fun _ _ _ => BEq.trans, fun _ => TaggedReading.beq_self_iff,
    fun _ _ => TaggedReading.replaces_of_beq⟩

/-- Both zeros are sent as one word, and a text tells them apart. -/
theorem equal_readings_replaceable_zeros :
    (TaggedReading.float ⟨.temperature, 0⟩ == .float ⟨.temperature, -0⟩) = true ∧
    (TaggedReading.float ⟨.temperature, 0⟩).Replaces (.float ⟨.temperature, -0⟩) ∧
    (TaggedReading.float ⟨.temperature, -0⟩).pack = ⟨.two 0x00 0x00, []⟩ ∧
    (render (TaggedReading.float ⟨.temperature, -0⟩)).value =
      ['-', '0', '.', '0', '0', ' ', '°', 'C'] := by
  have equal : (TaggedReading.float ⟨.temperature, 0⟩ == .float ⟨.temperature, -0⟩) = true := by
    decide +kernel
  have replaces := equal_readings_replaceable.2.2.2 _ _ equal
  refine ⟨equal, replaces, ?_, by decide +kernel⟩
  rw [← replaces.pack]
  decide +kernel

end KnxDatapoint
