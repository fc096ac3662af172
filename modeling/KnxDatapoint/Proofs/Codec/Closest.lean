import KnxDatapoint.Proofs.Codec.Relay

/-! The word written for a number is a closest one of those that its type accepts.
The float found for a number of the range is a nearest one of the whole format. Where that is the
last float of the format, which no type accepts, all accepted ones lie on the other side of the
number, and the step toward zero leads to the greatest of them. -/
namespace KnxDatapoint.FloatType
open Rounding Single ShortFloat

variable {kind : FloatType} {c : Single} {x : ShortFloat} {word : UInt16}

/-- The word is read as some number of the type. -/
def Accepts (kind : FloatType) (word : UInt16) : Prop :=
  ∃ x, result (kind.decode (Payload.ofWord word).toList) = .ok x

theorem accepts_iff : kind.Accepts word ↔ (ofWord word).toValue ∈ kind.range := by
  obtain ⟨high, low, bytes, whole⟩ := Payload.word_ofWord word
  simp only [Accepts, decode_ok, bytes, Payload.toList, List.cons.injEq, and_true]
  constructor
  · rintro ⟨x, inside, _, _, ⟨rfl, rfl⟩, rfl⟩
    rwa [whole] at inside
  · intro inside
    exact ⟨_, inside, high, low, ⟨rfl, rfl⟩, by rw [whole]⟩

theorem last_telegram :
    (Wire.packFloat c).value = .ofWord 0x7FFF ↔ (ofValue c).value = ⟨2047, 15⟩ := by
  have word : (0x7FFF : UInt16) = (⟨2047, 15⟩ : ShortFloat).toWord := by decide
  have fits : (⟨2047, 15⟩ : ShortFloat).Fits := by decide
  rw [word]
  exact telegram_inj (ofValue_chosen c).fits fits

theorem hundredfold_finite (inside : c ∈ kind.range) : (c * 100).IsFinite := by
  obtain ⟨finite, low, high⟩ := finite_of_mem inside
  have least := kind.least_bounds.1
  refine mul_finite finite hundred_finite ?_
  rw [toRat_hundred, abs_le]
  constructor <;> linarith

/-- A number whose float is the last of the format lies above the one before it. -/
theorem above_of_last {q : ℚ} (chosen : Chosen q x) (last : x = ⟨2047, 15⟩) :
    2046 * 2 ^ 15 < q := by
  have mantissa := chosen.mantissa
  rw [last] at mantissa
  have limits := mantissa_limits
  have beyond : 2046 < nearestWhole (q / 2 ^ 15) := by
    simp only at mantissa
    omega
  rw [lt_nearestWhole (by norm_num), le_div_iff₀ (by norm_num)] at beyond
  push_cast at beyond
  linarith

theorem within_closest (inside : c ∈ kind.range) (accepted : kind.Accepts word) :
    |(within kind.range c).value.hundredths - (c * 100).toRat| ≤
      |(ofWord word).hundredths - (c * 100).toRat| := by
  have chosen := ofValue_chosen c
  have fits := ofWord_fits word
  rcases within_cases inside with ⟨-, kept⟩ | ⟨last, stepped⟩
  · rw [kept]
    exact chosen.nearest fits
  · have above := above_of_last chosen last
    have below := hundredths_le_of_mem fits (accepts_iff.mp accepted)
    rw [stepped, last_hundredths.1, abs_of_nonpos (by linarith), abs_of_nonpos (by linarith)]
    linarith

theorem encode_telegram (kind : FloatType) (v : Single) : (kind.encode v).value =
    if (Wire.packFloat (kind.range.bounded v)).value = .ofWord 0x7FFF then .ofWord 0x7FFE
    else (Wire.packFloat (kind.range.bounded v)).value := by
  rw [encode_value]
  rcases within_cases (Range.bounded_mem v kind.range_proper) with ⟨inside, kept⟩ | ⟨last, stepped⟩
  · have other : (ofValue (kind.range.bounded v)).value ≠ ⟨2047, 15⟩ := by
      intro last
      rw [last] at inside
      exact kind.greatest_not_mem inside
    rw [if_neg (mt last_telegram.mp other), kept]
    rfl
  · rw [if_pos (last_telegram.mpr last), stepped]
    rfl

/-- A number is written as it would be without a type, once the range holds it, and only the last
word of the format gives way to the one before it. No word that the type accepts is closer to the
number than the one written, which it accepts. -/
theorem encode_closest (kind : FloatType) (v : Single) :
    ((kind.encode v).value =
      if (Wire.packFloat (kind.range.bounded v)).value = .ofWord 0x7FFF then .ofWord 0x7FFE
      else (Wire.packFloat (kind.range.bounded v)).value) ∧
    kind.range.Bounds v (kind.range.bounded v) ∧ kind.range.bounded v ∈ kind.range ∧
    (kind.range.bounded v * 100).IsFinite ∧
    ∃ word, (kind.encode v).value = .ofWord word ∧ kind.Accepts word ∧
      ∀ other, kind.Accepts other →
        |(ofWord word).hundredths - (kind.range.bounded v * 100).toRat| ≤
          |(ofWord other).hundredths - (kind.range.bounded v * 100).toRat| := by
  have inside := Range.bounded_mem v kind.range_proper
  obtain ⟨fits, held⟩ := within_mem inside
  have written := ofWord_toWord fits
  refine ⟨kind.encode_telegram v, Range.bounded_bounds v kind.zero_mem, inside,
    hundredfold_finite inside, _, kind.encode_value v, ?_, ?_⟩
  · rwa [accepts_iff, written]
  · intro other accepted
    rw [written]
    exact within_closest inside accepted

/-- The number 670600 is written as 670433.28, and 670105.60, which is accepted too, is farther. -/
theorem encode_closest_below_last :
    FloatType.temperature.Accepts 0x7FFD ∧
    ∃ word, (FloatType.temperature.encode 670600).value = .ofWord word ∧
      |(ofWord word).hundredths - (temperature.range.bounded 670600 * 100).toRat| ≤
        |(ofWord 0x7FFD).hundredths - (temperature.range.bounded 670600 * 100).toRat| := by
  have accepted : FloatType.temperature.Accepts 0x7FFD := by
    rw [accepts_iff]
    decide +kernel
  obtain ⟨-, -, -, -, word, written, -, closest⟩ := encode_closest .temperature 670600
  exact ⟨accepted, word, written, closest 0x7FFD accepted⟩

end KnxDatapoint.FloatType
