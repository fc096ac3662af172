import KnxDatapoint.Session
import KnxDatapoint.Proofs.Codec.Verdict

/-! What the ways of holding a reading have in common: whatever holds it, a reading is packed and
replaced by the codec of its type. -/
namespace KnxDatapoint

/-- The reading that bytes stand for under a type. -/
def DatapointType.read (type : DatapointType) (data : List UInt8) : Except Fault TaggedReading :=
  (fun scalar => type.family.tag ⟨type.member, scalar⟩) <$>
    result (type.family.decode type.member data)

/-- A number lies within the range of its type; a state always does. -/
def TaggedReading.InRange : TaggedReading → Prop
  | .boolean _ => True
  | .scaled reading => reading.scalar ∈ reading.member.range
  | .float reading => reading.scalar ∈ reading.member.range

instance (reading : TaggedReading) : Decidable reading.InRange :=
  match reading with
  | .boolean _ => isTrue trivial
  | .scaled reading => inferInstanceAs (Decidable (reading.scalar ∈ reading.member.range))
  | .float reading => inferInstanceAs (Decidable (reading.scalar ∈ reading.member.range))

theorem read_ok {type : DatapointType} {data : List UInt8} {reading : TaggedReading}
    (read : type.read data = .ok reading) : reading.datapoint = type ∧ reading.InRange := by
  rcases type with ⟨family, member⟩
  rw [DatapointType.read, map_eq_pure_bind, except_bind_ok] at read
  obtain ⟨scalar, decoded, tagged⟩ := read
  have admitted := Family.decode_admits decoded
  cases tagged
  cases family with
  | boolean => exact ⟨rfl, trivial⟩
  | scaled => exact ⟨rfl, admitted⟩
  | float => exact ⟨rfl, admitted⟩

/-- What is held is a tagged reading in all but form. -/
class LawfulHolder (σ : Type) [Holder σ] : Prop where
  tagged_hold (reading : TaggedReading) : Datapoint.tagged (Holder.hold reading : σ) = reading
  pack_tagged (held : σ) : Datapoint.pack held = (Datapoint.tagged held).pack
  unpack_tagged (held : σ) (data : List UInt8) :
    Datapoint.tagged <$> result (Datapoint.unpack held data) =
      (Datapoint.tagged held).datapoint.read data
  renew_tagged (held : σ) (data : List UInt8) :
    Datapoint.tagged <$> result (Datapoint.renew held data) =
      (Datapoint.tagged held).datapoint.read data

section
variable {family : Family}

theorem result_unpack (reading : Reading family) (data : List UInt8) :
    result (reading.unpack data) =
      (fun scalar => ⟨reading.member, scalar⟩) <$> result (family.decode reading.member data) := by
  rw [Reading.unpack_eq, result_map]

theorem result_ofBytes (member : family.Member) (data : List UInt8) :
    result (Reading.ofBytes family member data) =
      (fun scalar => ⟨member, scalar⟩) <$> result (family.decode member data) := by
  rw [Reading.ofBytes_eq, result_map]

end

instance : LawfulHolder TaggedReading where
  tagged_hold _ := rfl
  pack_tagged _ := rfl
  unpack_tagged held data := by
    cases held <;>
      simp only [Datapoint.unpack, TaggedReading.unpack, result_map, result_unpack,
        Functor.map_map] <;>
      rfl
  renew_tagged held data := by
    cases held <;>
      simp only [Datapoint.renew, TaggedReading.ofBytes, TaggedReading.datapoint, Reading.datapoint,
        result_map, result_ofBytes, Functor.map_map] <;>
      rfl

instance : LawfulHolder BareReading where
  tagged_hold reading := by cases reading <;> rfl
  pack_tagged held := (TaggedReading.pack_tag held.reading).symm
  unpack_tagged held data := by
    rcases held with ⟨family, reading⟩
    simp only [Datapoint.unpack, result_map, result_unpack, Functor.map_map]
    cases family <;> rfl
  renew_tagged held data := by
    rcases held with ⟨family, reading⟩
    simp only [Datapoint.renew, result_map, result_ofBytes, Functor.map_map]
    cases family <;> rfl

end KnxDatapoint
