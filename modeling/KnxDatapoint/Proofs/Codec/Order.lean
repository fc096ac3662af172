import KnxDatapoint.Proofs.Codec.Relay

/-! The order of numbers, kept through writing and reading.
Two numbers may be written with different exponents, and one of them may be saturated, held to its
range or stepped back into it while the other is not. What is read for the greater one is no less
in all of these cases. -/
namespace KnxDatapoint
open Single ShortFloat

variable {v w : Single}

/-- Both numbers are read again after they are written, the first as no greater than the second. -/
def ReadInOrder (write : Single → Logged Payload) (read : List UInt8 → Decoding Single)
    (v w : Single) : Prop :=
  ∃ x y, result (read (write v).value.toList) = .ok x ∧
    result (read (write w).value.toList) = .ok y ∧ x ≤ y

theorem ShortFloat.ofValue_mono (le : v ≤ w) :
    ((ofValue v).value.hundredths : ℚ) ≤ (ofValue w).value.hundredths :=
  (ofValue_chosen v).mono (ofValue_chosen w) (hundredfold_mono (le_iff_toRat.mp le).2.2)

theorem Wire.readInOrder (le : v ≤ w) : ReadInOrder packFloat unpackFloat v w :=
  ⟨_, _, unpackFloat_packFloat v, unpackFloat_packFloat w,
    toValue_mono (ofValue_chosen v).fits (ofValue_chosen w).fits (ofValue_mono le)⟩

namespace FloatType

theorem within_mono {kind : FloatType} (hv : v ∈ kind.range) (hw : w ∈ kind.range) (le : v ≤ w) :
    (within kind.range v).value.toValue ≤ (within kind.range w).value.toValue := by
  have order := ofValue_mono le
  have first := (ofValue_chosen v).fits
  have second := (ofValue_chosen w).fits
  have stepFits := kind.below_greatest.1
  obtain ⟨step, last⟩ := last_hundredths
  rcases within_cases hv with ⟨inside, kept⟩ | ⟨found, stepped⟩
  · rcases within_cases hw with ⟨-, kept'⟩ | ⟨-, stepped'⟩
    · rw [kept, kept']
      exact toValue_mono first second order
    · rw [kept, stepped']
      exact toValue_mono first stepFits (step ▸ hundredths_le_of_mem first inside)
  · rcases within_cases hw with ⟨inside', -⟩ | ⟨-, stepped'⟩
    · -- the greater number would have a float of the range beyond the last of the format
      have top := hundredths_le_of_mem second inside'
      rw [found, last] at order
      linarith
    · rw [stepped, stepped']
      exact toValue_mono stepFits stepFits le_rfl

theorem readInOrder (kind : FloatType) (le : v ≤ w) : ReadInOrder kind.encode kind.decode v w := by
  have proper := kind.range_proper
  have hv := Range.bounded_mem v proper
  have hw := Range.bounded_mem w proper
  exact ⟨_, _, kind.decode_encode v, kind.decode_encode w,
    within_mono hv hw (Range.bounded_mono le proper)⟩

end FloatType

namespace ScaledType

theorem step_mono {kind : ScaledType} (hv : v ∈ kind.range) (hw : w ∈ kind.range) (le : v ≤ w) :
    (kind.step v).toNat ≤ (kind.step w).toNat := by
  have first := step_level hv
  have second := step_level hw
  have levels := kind.level_mono (le_iff_toRat.mp le).2.2
  omega

theorem readInOrder (kind : ScaledType) (le : v ≤ w) :
    ReadInOrder kind.encode kind.decode v w := by
  have proper := kind.range_proper
  have hv := Range.bounded_mem v proper
  have hw := Range.bounded_mem w proper
  have steps := step_mono hv hw (Range.bounded_mono le proper)
  exact ⟨_, _, kind.decode_encode v, kind.decode_encode w, kind.ofStep_mono steps⟩

end ScaledType

/-- Of two numbers, infinities among them, the greater is never read as the lesser: neither bare,
nor under a type with a range. -/
theorem readings_in_order (le : v ≤ w) :
    ReadInOrder Wire.packFloat Wire.unpackFloat v w ∧
    (∀ kind : ScaledType, ReadInOrder kind.encode kind.decode v w) ∧
    ∀ kind : FloatType, ReadInOrder kind.encode kind.decode v w :=
  ⟨Wire.readInOrder le, fun kind => kind.readInOrder le, fun kind => kind.readInOrder le⟩

/-- A number whose float is stepped back into the range, and one beyond all numbers. -/
theorem readings_in_order_above_range :
    (670600 : Single) ≤ .infinite false ∧
    (Wire.packFloat 670600).value = .two 0x7F 0xFF ∧
    (FloatType.temperature.encode 670600).value = .two 0x7F 0xFE ∧
    ReadInOrder Wire.packFloat Wire.unpackFloat 670600 (.infinite false) ∧
    (∀ kind : ScaledType, ReadInOrder kind.encode kind.decode 670600 (.infinite false)) ∧
    ∀ kind : FloatType, ReadInOrder kind.encode kind.decode 670600 (.infinite false) := by
  have le : (670600 : Single) ≤ .infinite false := by decide
  exact ⟨le, by decide +kernel, by decide +kernel, readings_in_order le⟩

end KnxDatapoint
