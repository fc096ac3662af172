import KnxDatapoint.Proofs.Codec.Float
import KnxDatapoint.Proofs.Codec.Scaled

/-! Telegrams passed on: the first hop brings a scalar into the range of its type, and no further
hop changes it. Every type has a number for each of its telegrams, so nothing that was read can
drift. -/
namespace KnxDatapoint

theorem unpackBit_packBit (state : Bool) :
    result (Wire.unpackBit (Wire.packBit state).toList) = .ok state := by
  cases state <;> rfl

theorem ScaledType.decode_encode (kind : ScaledType) (v : Single) :
    result (kind.decode (kind.encode v).value.toList) =
      .ok (kind.ofStep (kind.step (kind.range.bounded v))) :=
  kind.decode_ok.mpr ⟨_, rfl, rfl⟩

theorem FloatType.decode_encode (kind : FloatType) (v : Single) :
    result (kind.decode (kind.encode v).value.toList) =
      .ok (ShortFloat.within kind.range (kind.range.bounded v)).value.toValue := by
  obtain ⟨fits, inside⟩ := within_mem (Range.bounded_mem v kind.range_proper)
  exact kind.decode_word fits inside

namespace Family

/-- A state of any kind, or a number within the range of its type. -/
def Admits : (family : Family) → family.Member → family.Scalar → Prop
  | .boolean, _, _ => True
  | .scaled, kind, x => x ∈ kind.range
  | .float, kind, x => x ∈ kind.range

/-- What may arrive where a scalar was sent. -/
def Arrives : (family : Family) → family.Member → family.Scalar → family.Scalar → Prop
  | .boolean, _, sent, received => received = sent
  | .scaled, kind, _, received => received ∈ kind.range
  | .float, kind, _, received => received ∈ kind.range

/-- A scalar sent once and received. -/
def hop (family : Family) (member : family.Member) (v : family.Scalar) :
    Except Fault family.Scalar :=
  result (family.decode member (family.encode member v).value.toList)

/-- A scalar passed on by a number of hops. -/
def relay (family : Family) (member : family.Member) :
    ℕ → family.Scalar → Except Fault family.Scalar
  | 0, v => .ok v
  | hops + 1, v => family.hop member v >>= family.relay member hops

section
variable {family : Family} {member : family.Member}

theorem encode_length (member : family.Member) (v : family.Scalar) :
    (family.encode member v).value.length = family.width := by
  cases family <;> rfl

theorem hop_arrives (member : family.Member) (v : family.Scalar) :
    ∃ x, family.hop member v = .ok x ∧ family.Arrives member v x := by
  cases family with
  | boolean => exact ⟨v, unpackBit_packBit v, rfl⟩
  | scaled => exact ⟨_, ScaledType.decode_encode member v, ScaledType.ofStep_mem member _⟩
  | float =>
    have held := Range.bounded_mem v (FloatType.range_proper member)
    exact ⟨_, FloatType.decode_encode member v, (FloatType.within_mem held).2⟩

theorem decode_admits {data : List UInt8} {x : family.Scalar}
    (read : result (family.decode member data) = .ok x) : family.Admits member x := by
  cases family with
  | boolean => exact trivial
  | scaled =>
    obtain ⟨byte, -, rfl⟩ := (ScaledType.decode_ok member).mp read
    exact ScaledType.ofStep_mem member byte
  | float => exact ((FloatType.decode_ok member).mp read).1

/-- What was read once is received as it is, whichever of its words it was read from. -/
theorem hop_of_read {data : List UInt8} {x : family.Scalar}
    (read : result (family.decode member data) = .ok x) : family.hop member x = .ok x := by
  cases family with
  | boolean => exact unpackBit_packBit x
  | scaled =>
    obtain ⟨byte, -, rfl⟩ := (ScaledType.decode_ok member).mp read
    have sent := ScaledType.decode_encode member (ScaledType.ofStep member byte)
    simp only [Range.bounded_of_mem (ScaledType.ofStep_mem member byte),
      ScaledType.step_ofStep] at sent
    exact sent
  | float =>
    obtain ⟨held, high, low, -, rfl⟩ := (FloatType.decode_ok member).mp read
    obtain ⟨kept, same⟩ := FloatType.within_toValue (ShortFloat.ofWord_fits _) held
    have sent := FloatType.decode_encode member
      (ShortFloat.ofWord (Payload.word high low)).toValue
    simp only [Range.bounded_of_mem held, kept, same] at sent
    exact sent

theorem relay_of_hop {x : family.Scalar} (kept : family.hop member x = .ok x) (hops : ℕ) :
    family.relay member hops x = .ok x := by
  induction hops with
  | zero => rfl
  | succ hops ih =>
    simp only [relay, kept]
    exact ih

/-- Any scalar is sent in a telegram of its type and arrives, a number within the range; what was
read from any telegram stays the same however often it is passed on. -/
theorem relay_faithful (family : Family) (member : family.Member) :
    (∀ v, (family.encode member v).value.length = family.width ∧
      ∃ x, family.hop member v = .ok x ∧ family.Arrives member v x) ∧
    (∀ data x, result (family.decode member data) = .ok x →
      ∀ hops, family.relay member hops x = .ok x) ∧
    (∀ v hops, family.relay member (hops + 1) v = family.hop member v) := by
  refine ⟨fun v => ⟨encode_length member v, hop_arrives member v⟩, ?_, ?_⟩
  · intro data x read hops
    exact relay_of_hop (hop_of_read read) hops
  · intro v hops
    obtain ⟨x, first, -⟩ := hop_arrives member v
    simp only [relay, first]
    exact relay_of_hop (hop_of_read first) hops

/-- A word that no encoding gives is read, passed on in the usual form, and keeps its value. -/
theorem relay_faithful_unusual_word :
    result (Family.decode .float FloatType.temperature [0x08, 0x02]) =
      .ok (Single.ofBits 0x3D23D70A) ∧
    (Family.encode .float FloatType.temperature (Single.ofBits 0x3D23D70A)).value =
      .two 0x00 0x04 ∧
    Family.relay .float FloatType.temperature 3 (Single.ofBits 0x3D23D70A) =
      .ok (Single.ofBits 0x3D23D70A) := by
  have read : result (Family.decode .float FloatType.temperature [0x08, 0x02]) =
      .ok (Single.ofBits 0x3D23D70A) := by decide +kernel
  refine ⟨read, by decide +kernel, ?_⟩
  exact (relay_faithful .float FloatType.temperature).2.1 _ _ read 3

end
end Family
end KnxDatapoint
