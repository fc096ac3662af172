import KnxDatapoint.Proofs.Codec.Relay

/-! Telegrams of a number that was read from one: the same again, but for one form.
A number a little below a negative power of two is rounded onto it at the exponent above, where the
mantissa is -1024. Read from there, the power itself fits one exponent lower, as mantissa -2048. -/
namespace KnxDatapoint
open ShortFloat

/-- Written, read and written again, every number gives the same telegram twice. -/
def Repeats (write : Single → Logged Payload) (read : List UInt8 → Decoding Single) : Prop :=
  ∀ v, ∃ x, result (read (write v).value.toList) = .ok x ∧ (write x).value = (write v).value

/-- The second telegram of a number holds the settled form of the float in the first, which it
repeats unless that float was raised onto -1024, and it is read as the same number. -/
def Settles (write : Single → Logged Payload) (read : List UInt8 → Decoding Single) : Prop :=
  ∀ v, ∃ (x : Single) (f : ShortFloat), result (read (write v).value.toList) = .ok x ∧
    f.Fits ∧ (write v).value = .ofWord f.toWord ∧ (write x).value = .ofWord f.settle.toWord ∧
    ((write x).value = (write v).value ↔ ¬ (f.mantissa = -1024 ∧ 1 ≤ f.exponent)) ∧
    result (read (write x).value.toList) = .ok x

namespace ShortFloat

variable {f : ShortFloat}

theorem settle_eq_iff : f.settle = f ↔ ¬ (f.mantissa = -1024 ∧ 1 ≤ f.exponent) := by
  unfold settle
  split
  · rename_i raised
    refine iff_of_false (fun same => ?_) (not_not.mpr raised)
    have mantissa := congrArg ShortFloat.mantissa same
    simp only [raised.1] at mantissa
    omega
  · exact iff_of_true rfl ‹_›

theorem settle_illumination (fits : f.Fits) (held : f.toValue ∈ FloatType.illumination.range) :
    f.settle = f := by
  rw [settle_eq_iff]
  rintro ⟨mantissa, -⟩
  have negative : ∀ exponent : Fin 16,
      toValue ⟨-1024, exponent⟩ ∉ FloatType.illumination.range := by decide +kernel
  have small : f.exponent < 16 := Nat.lt_succ_of_le fits.2.2
  apply negative ⟨f.exponent, small⟩
  rw [← mantissa]
  exact held

end ShortFloat

theorem settles_of_telegrams {write : Single → Logged Payload}
    {read : List UInt8 → Decoding Single}
    (telegrams : ∀ v, ∃ f : ShortFloat, f.Fits ∧ f.settle.Fits ∧
      (write v).value = .ofWord f.toWord ∧ (write f.toValue).value = .ofWord f.settle.toWord ∧
      result (read (write v).value.toList) = .ok f.toValue ∧
      result (read (write f.toValue).value.toList) = .ok f.toValue) :
    Settles write read := by
  intro v
  obtain ⟨f, fits, settled, first, second, received, again⟩ := telegrams v
  refine ⟨f.toValue, f, received, fits, first, second, ?_, again⟩
  rw [first, second, telegram_inj settled fits, settle_eq_iff]

namespace FloatType

theorem within_settled {kind : FloatType} {v : Single} (held : v ∈ kind.range) :
    Reduced (within kind.range v).value.settle := by
  rcases within_cases held with ⟨-, same⟩ | ⟨-, last⟩
  · rw [same]
    exact (ofValue_chosen v).settle_reduced
  · rw [last]
    exact reduced_of_large kind.below_greatest.1 (.inr (.inr (by decide)))

theorem encode_again (kind : FloatType) {f : ShortFloat} (fits : f.Fits)
    (held : f.toValue ∈ kind.range) (settled : Reduced f.settle) :
    (kind.encode f.toValue).value = .ofWord f.settle.toWord := by
  rw [encode_value, Range.bounded_of_mem held, (within_toValue fits held).1,
    written_again fits settled]

theorem encode_telegrams (kind : FloatType) (v : Single) : ∃ f : ShortFloat,
    f.Fits ∧ f.toValue ∈ kind.range ∧ Reduced f.settle ∧ (kind.encode v).value = .ofWord f.toWord ∧
    (kind.encode f.toValue).value = .ofWord f.settle.toWord ∧
    result (kind.decode (kind.encode v).value.toList) = .ok f.toValue := by
  have held := Range.bounded_mem v kind.range_proper
  obtain ⟨fits, inside⟩ := within_mem held
  have settled := within_settled held
  exact ⟨_, fits, inside, settled, rfl, kind.encode_again fits inside settled,
    kind.decode_encode v⟩

theorem encode_settles (kind : FloatType) : Settles kind.encode kind.decode := by
  apply settles_of_telegrams
  intro v
  obtain ⟨f, fits, -, settled, first, second, received⟩ := kind.encode_telegrams v
  exact ⟨f, fits, settled.fits, first, second, received,
    @Family.hop_of_read .float kind _ _ received⟩

theorem illumination_repeats : Repeats illumination.encode illumination.decode := by
  intro v
  obtain ⟨f, fits, held, -, first, second, received⟩ := illumination.encode_telegrams v
  refine ⟨f.toValue, received, ?_⟩
  rw [first, second, settle_illumination fits held]

end FloatType

theorem ScaledType.encode_repeats (kind : ScaledType) : Repeats kind.encode kind.decode := by
  intro v
  refine ⟨_, kind.decode_encode v, ?_⟩
  rw [encode_value, Range.bounded_of_mem (kind.ofStep_mem _), step_ofStep, encode_value]

namespace Wire

theorem packFloat_settles : Settles packFloat unpackFloat := by
  apply settles_of_telegrams
  intro v
  have chosen := ofValue_chosen v
  have settled := chosen.settle_reduced
  have again : (packFloat (ofValue v).value.toValue).value =
      .ofWord (ofValue v).value.settle.toWord := by
    rw [← written_again chosen.fits settled]
    rfl
  refine ⟨_, chosen.fits, settled.fits, rfl, again, unpackFloat_word chosen.fits, ?_⟩
  rw [again, unpackFloat_word settled.fits,
    toValue_congr settled.fits chosen.fits (settle_hundredths _)]

end Wire

/-- Scaled bytes and lux are written the same way again. A temperature, and a two-byte float
without a type, takes its settled form with the second telegram and keeps it from then on. -/
theorem telegrams_settle :
    (∀ kind : ScaledType, Repeats kind.encode kind.decode) ∧
    Repeats FloatType.illumination.encode FloatType.illumination.decode ∧
    Settles FloatType.temperature.encode FloatType.temperature.decode ∧
    Settles Wire.packFloat Wire.unpackFloat :=
  ⟨ScaledType.encode_repeats, FloatType.illumination_repeats, FloatType.encode_settles .temperature,
    Wire.packFloat_settles⟩

/-- The number -20.487 is written with mantissa -1024 and read as -20.48, which is written with
mantissa -2048. -/
theorem telegram_of_raised_number :
    ((FloatType.temperature.encode (.ofBits 0xC1A3E560)).value = .two 0x8C 0x00 ∧
      result (FloatType.temperature.decode [0x8C, 0x00]) = .ok (.ofBits 0xC1A3D70A) ∧
      (FloatType.temperature.encode (.ofBits 0xC1A3D70A)).value = .two 0x80 0x00) ∧
    ((Wire.packFloat (.ofBits 0xC1A3E560)).value = .two 0x8C 0x00 ∧
      result (Wire.unpackFloat [0x8C, 0x00]) = .ok (.ofBits 0xC1A3D70A) ∧
      (Wire.packFloat (.ofBits 0xC1A3D70A)).value = .two 0x80 0x00) := by
  constructor
  · decide +kernel
  · decide +kernel

end KnxDatapoint
