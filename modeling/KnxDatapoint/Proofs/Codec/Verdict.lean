import KnxDatapoint.Reading
import KnxDatapoint.Proofs.Codec.Relay

/-! What a type makes of a buffer.
A buffer of another width is refused for its length, whatever it holds. Of the right width every bit
and every step is read, and a two-byte float is read where its exact value is within the bounds of
the type, although it is the single nearest to that value that is compared with them. A reading that
takes bytes decides nothing of its own, and every refusal is written down once. -/
namespace KnxDatapoint
open Rounding Single ShortFloat

/-! ## Records -/

section
variable {α β : Type} {reading : Decoding α}

/-- A refusal is written down with its fault, and a value leaves no record. -/
def Noted (reading : Decoding α) : Prop :=
  reading.run.records = match result reading with
    | .error fault => [.refused fault]
    | .ok _ => []

theorem noted_pure (a : α) : Noted (pure a) := rfl

theorem noted_refuse (fault : Fault) : Noted (refuse fault : Decoding α) := rfl

theorem noted_bind {next : α → Decoding β} (noted : Noted reading) (rest : ∀ a, Noted (next a)) :
    Noted (reading >>= next) := by
  simp only [Noted, result_bind, ExceptT.run_bind, Logged.records_bind] at noted ⊢
  rw [noted, result]
  cases reading.run.value with
  | error fault => rfl
  | ok a => exact rest a

theorem noted_ite {c : Prop} [Decidable c] {other : Decoding α} (noted : Noted reading)
    (noted' : Noted other) : Noted (if c then reading else other) := by
  split
  · exact noted
  · exact noted'

theorem Noted.level (noted : Noted reading) :
    ∀ record ∈ reading.run.records, record.level = .debug := by
  intro record listed
  rw [noted] at listed
  cases found : result reading with
  | ok a => simp [found] at listed
  | error fault =>
    rw [found] at listed
    rw [List.mem_singleton.mp listed]
    rfl

end

/-! ## Widths -/

namespace Wire

section
variable {α : Type} {width : ℕ} {unpack : List UInt8 → Decoding α}

/-- Every buffer of the width is read, and any other is refused for its length. -/
def Shaped (width : ℕ) (unpack : List UInt8 → Decoding α) : Prop :=
  ∀ data : List UInt8, (data.length = width ∧ ∃ a, unpack data = pure a) ∨
    (data.length ≠ width ∧ unpack data = refuse (.wrongLength width data.length))

theorem Shaped.noted (shaped : Shaped width unpack) (data : List UInt8) : Noted (unpack data) := by
  rcases shaped data with ⟨-, a, read⟩ | ⟨-, refused⟩
  · rw [read]
    exact noted_pure a
  · rw [refused]
    exact noted_refuse _

theorem Shaped.refused (shaped : Shaped width unpack) {data : List UInt8}
    (different : data.length ≠ width) :
    result (unpack data) = .error (.wrongLength width data.length) := by
  rcases shaped data with ⟨same, -⟩ | ⟨-, refused⟩
  · exact absurd same different
  · rw [refused]
    rfl

end

theorem unpackBit_shaped : Shaped 1 unpackBit := by
  intro data
  unfold unpackBit
  split
  · exact .inl ⟨rfl, _, rfl⟩
  · rename_i other
    refine .inr ⟨fun one => ?_, rfl⟩
    obtain ⟨byte, rfl⟩ := List.length_eq_one_iff.mp one
    exact other byte rfl

theorem unpackByte_shaped : Shaped 1 unpackByte := by
  intro data
  unfold unpackByte
  split
  · exact .inl ⟨rfl, _, rfl⟩
  · rename_i other
    refine .inr ⟨fun one => ?_, rfl⟩
    obtain ⟨byte, rfl⟩ := List.length_eq_one_iff.mp one
    exact other byte rfl

theorem unpackFloat_shaped : Shaped 2 unpackFloat := by
  intro data
  unfold unpackFloat
  split
  · exact .inl ⟨rfl, _, rfl⟩
  · rename_i other
    refine .inr ⟨fun two => ?_, rfl⟩
    obtain ⟨high, low, rfl⟩ := List.length_eq_two.mp two
    exact other high low rfl

end Wire

namespace Family

theorem decode_noted (family : Family) (member : family.Member) (data : List UInt8) :
    Noted (family.decode member data) := by
  cases family with
  | boolean => exact Wire.unpackBit_shaped.noted data
  | scaled =>
    refine noted_bind (Wire.unpackByte_shaped.noted data) fun byte => ?_
    exact noted_ite (noted_refuse _) (noted_pure _)
  | float =>
    refine noted_bind (Wire.unpackFloat_shaped.noted data) fun value => ?_
    exact noted_ite (noted_pure _) (noted_refuse _)

theorem decode_refused {family : Family} (member : family.Member) {data : List UInt8}
    (different : data.length ≠ family.width) :
    result (family.decode member data) = .error (.wrongLength family.width data.length) := by
  cases family with
  | boolean => exact Wire.unpackBit_shaped.refused different
  | scaled =>
    have refused := Wire.unpackByte_shaped.refused different
    simp only [decode, ScaledType.decode, result_bind, refused]
    rfl
  | float =>
    have refused := Wire.unpackFloat_shaped.refused different
    simp only [decode, FloatType.decode, result_bind, refused]
    rfl

end Family

/-! ## Bounds -/

namespace FloatType

variable {kind : FloatType} {x : ShortFloat}

theorem least_steps (kind : FloatType) : ∃ n : ℤ, kind.range.least.toRat = n / 100 ∧
    rounded ((n - 1 : ℤ) / 100) < kind.range.least.toRat := by
  cases kind with
  | temperature => exact ⟨-27300, by decide +kernel, by decide +kernel⟩
  | illumination => exact ⟨0, by decide +kernel, by decide +kernel⟩

/-- Comparing the nearest single with the bounds is comparing the exact value with them. -/
theorem toValue_mem_iff (fits : x.Fits) : x.toValue ∈ kind.range ↔
    kind.range.least.toRat ≤ x.hundredths / 100 ∧
      x.hundredths / 100 ≤ kind.range.greatest.toRat := by
  have number := finite_ne_nan (toValue_finite fits)
  have least := finite_ne_nan kind.range_finite.1
  have greatest := finite_ne_nan kind.range_finite.2
  constructor
  · intro inside
    constructor
    · -- one hundredth below the bound is rounded to less than the bound
      obtain ⟨n, bound, less⟩ := kind.least_steps
      obtain ⟨-, -, low⟩ := le_iff_toRat.mp inside.1
      rw [toRat_toValue fits] at low
      rw [bound, div_le_div_iff_of_pos_right (by norm_num)]
      by_contra below
      have below : x.hundredths < n := by exact_mod_cast not_le.mp below
      have under : (x.hundredths : ℚ) ≤ (n - 1 : ℤ) := by exact_mod_cast Int.le_sub_one_of_lt below
      have held := rounded_mono (div_le_div_of_nonneg_right under (by norm_num : (0 : ℚ) ≤ 100))
      linarith
    · have top := hundredths_le_of_mem fits inside
      rw [toRat_greatest]
      linarith
  · rintro ⟨low, high⟩
    rw [mem_range, le_iff_toRat, le_iff_toRat, toRat_toValue fits,
      ← rounded_representable (representable_toRat kind.range.least),
      ← rounded_representable (representable_toRat kind.range.greatest)]
    exact ⟨⟨least, number, rounded_mono low⟩, number, greatest, rounded_mono high⟩

theorem outside_of_not_mem (fits : x.Fits) (outside : x.toValue ∉ kind.range) :
    x.toValue < kind.range.least ∨ kind.range.greatest < x.toValue := by
  have number := finite_ne_nan (toValue_finite fits)
  by_contra inside
  rw [not_or, not_lt_iff number (finite_ne_nan kind.range_finite.1),
    not_lt_iff (finite_ne_nan kind.range_finite.2) number] at inside
  exact outside inside

/-- The exact value of a float decides whether the number nearest to it is read; otherwise that
number is out of range too, and the fault names it. -/
def Judged (kind : FloatType) (x : ShortFloat) (outcome : Except Fault Single) : Prop :=
  ∃ value : Single, value.IsNearest (x.hundredths / 100) ∧
    if kind.range.least.toRat ≤ x.hundredths / 100 ∧
        x.hundredths / 100 ≤ kind.range.greatest.toRat
    then outcome = .ok value
    else outcome = .error (.outOfRange kind.datapoint value kind.range) ∧
      (value < kind.range.least ∨ kind.range.greatest < value)

theorem decode_judged (kind : FloatType) (high low : UInt8) :
    kind.Judged (ofWord (Payload.word high low)) (result (kind.decode [high, low])) := by
  have fits := ofWord_fits (Payload.word high low)
  have read : result (kind.decode [high, low]) =
      if (ofWord (Payload.word high low)).toValue ∈ kind.range
      then .ok (ofWord (Payload.word high low)).toValue
      else .error (.outOfRange kind.datapoint (ofWord (Payload.word high low)).toValue
        kind.range) := by
    simp only [decode, Wire.unpackFloat, pure_bind, result_ite, result_pure, result_refuse]
  refine ⟨_, toValue_isNearest fits, ?_⟩
  rw [read]
  by_cases inside : (ofWord (Payload.word high low)).toValue ∈ kind.range
  · rw [if_pos ((toValue_mem_iff fits).mp inside), if_pos inside]
  · rw [if_neg (mt (toValue_mem_iff fits).mpr inside), if_neg inside]
    exact ⟨rfl, outside_of_not_mem fits inside⟩

end FloatType

/-- What becomes of a buffer of the right width: the lowest bit and every step are read, and the
higher byte of a float comes first. -/
def Family.Judged : (family : Family) → family.Member → List UInt8 →
    Except Fault family.Scalar → Prop
  | .boolean, _, data, outcome => ∃ byte, data = [byte] ∧ outcome = .ok (byte.toNat.testBit 0)
  | .scaled, kind, data, outcome =>
    ∃ byte x, data = [byte] ∧ outcome = .ok x ∧ x = kind.ofStep byte ∧ x ∈ kind.range
  | .float, kind, data, outcome =>
    ∃ high low, data = [high, low] ∧ kind.Judged (ofWord (Payload.word high low)) outcome

theorem Family.decode_judged {family : Family} (member : family.Member) {data : List UInt8}
    (width : data.length = family.width) :
    family.Judged member data (result (family.decode member data)) := by
  cases family with
  | boolean =>
    obtain ⟨byte, rfl⟩ := List.length_eq_one_iff.mp width
    exact ⟨byte, rfl, by rw [Nat.testBit_zero]; rfl⟩
  | scaled =>
    obtain ⟨byte, rfl⟩ := List.length_eq_one_iff.mp width
    have read := (ScaledType.decode_ok member).mpr ⟨byte, rfl, rfl⟩
    exact ⟨byte, _, rfl, read, rfl, ScaledType.ofStep_mem member byte⟩
  | float =>
    obtain ⟨high, low, rfl⟩ := List.length_eq_two.mp width
    exact ⟨high, low, rfl, FloatType.decode_judged member high low⟩

/-! ## Readings that take bytes -/

section
variable {family : Family}

theorem Reading.unpack_eq (reading : Reading family) (data : List UInt8) :
    reading.unpack data = Reading.mk reading.member <$> family.decode reading.member data := by
  simp only [Reading.unpack, bind_pure_comp]

theorem Reading.ofBytes_eq (member : family.Member) (data : List UInt8) :
    Reading.ofBytes family member data = Reading.mk member <$> family.decode member data := by
  simp only [Reading.ofBytes, bind_pure_comp]

theorem TaggedReading.unpack_eq (reading : Reading family) (data : List UInt8) :
    (family.tag reading).unpack data = family.tag <$> reading.unpack data := by
  cases family <;> rfl

theorem TaggedReading.ofBytes_eq (member : family.Member) (data : List UInt8) :
    TaggedReading.ofBytes ⟨family, member⟩ data =
      family.tag <$> Reading.ofBytes family member data := by
  cases family <;> rfl

end

/-- The verdict on a buffer is that of its length and, where the length is right, of the value it
stands for. Every way of taking the buffer into a reading gives this verdict with the same scalar or
fault and the same records, one at the debug level for a refusal and none otherwise. -/
theorem verdict_on_bytes (family : Family) (member : family.Member) (data : List UInt8) :
    (data.length ≠ family.width →
      result (family.decode member data) = .error (.wrongLength family.width data.length)) ∧
    (data.length = family.width →
      family.Judged member data (result (family.decode member data))) ∧
    Noted (family.decode member data) ∧
    (∀ record ∈ (family.decode member data).run.records, record.level = .debug) ∧
    Reading.ofBytes family member data = Reading.mk member <$> family.decode member data ∧
    TaggedReading.ofBytes ⟨family, member⟩ data =
      (fun x => family.tag ⟨member, x⟩) <$> family.decode member data ∧
    ∀ held : family.Scalar,
      Reading.unpack ⟨member, held⟩ data = Reading.mk member <$> family.decode member data ∧
      (family.tag ⟨member, held⟩).unpack data =
        (fun x => family.tag ⟨member, x⟩) <$> family.decode member data := by
  have noted := family.decode_noted member data
  have fresh := Reading.ofBytes_eq member data
  refine ⟨Family.decode_refused member, Family.decode_judged member, noted, noted.level, fresh, ?_,
    fun held => ⟨Reading.unpack_eq _ data, ?_⟩⟩
  · rw [TaggedReading.ofBytes_eq, fresh, Functor.map_map]
  · rw [TaggedReading.unpack_eq, Reading.unpack_eq, Functor.map_map]

/-- The last word of the format is just out of range, and a third byte makes its value irrelevant. -/
theorem verdict_on_last_word :
    [0x7F, 0xFF].length = Family.float.width ∧
    FloatType.temperature.Judged ⟨2047, 15⟩
      (result (FloatType.temperature.decode [0x7F, 0xFF])) ∧
    result (FloatType.temperature.decode [0x7F, 0xFF]) =
      .error (.outOfRange ⟨.float, .temperature⟩ (.ofBits 0x4923C28F) ⟨-273, 670760⟩) ∧
    [0x7F, 0xFF, 0x00].length ≠ Family.float.width ∧
    result (FloatType.temperature.decode [0x7F, 0xFF, 0x00]) = .error (.wrongLength 2 3) := by
  have judged := (verdict_on_bytes .float FloatType.temperature [0x7F, 0xFF]).2.1 rfl
  have refused := (verdict_on_bytes .float FloatType.temperature [0x7F, 0xFF, 0x00]).1 (by decide)
  obtain ⟨high, low, same, judged⟩ := judged
  cases same
  exact ⟨rfl, judged, by decide +kernel, by decide, refused⟩

end KnxDatapoint
