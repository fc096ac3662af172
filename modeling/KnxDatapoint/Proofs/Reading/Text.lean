import KnxDatapoint.Datapoint
import KnxDatapoint.Proofs.Decimal.Digits
import KnxDatapoint.Proofs.Single.Rational

/-! The text shown for a reading fits the buffer, whatever its scalar.
A number has at most 39 digits before the point, so with its sign, two places and the unit it stays
far below the capacity. -/
namespace KnxDatapoint
open Single

/-! ## Filling the buffer -/

theorem byteLength_append (first second : List Char) :
    byteLength (first ++ second) = byteLength first + byteLength second := by
  induction first with
  | nil => simp [byteLength]
  | cons c rest ih => simp [byteLength, ih, Nat.add_assoc]

/-- Bytes are counted as an encoded text counts them. -/
theorem utf8ByteSize_ofList (text : List Char) :
    (String.ofList text).utf8ByteSize = byteLength text := by
  induction text with
  | nil => rfl
  | cons c rest ih =>
    rw [← List.singleton_append, String.ofList_append, String.utf8ByteSize_append, ih]
    simp [byteLength]

/-- Parts that fit together are all taken. -/
theorem fill_fitting {room : ℕ} {pieces : List (List Char)}
    (fits : byteLength pieces.flatten ≤ room) : fill room pieces = (pieces.flatten, true) := by
  induction pieces generalizing room with
  | nil => rfl
  | cons piece rest ih =>
    rw [List.flatten_cons, byteLength_append] at fits
    have first : byteLength piece ≤ room := by omega
    have later := @ih (room - byteLength piece) (by omega)
    simp [fill, first, later]

theorem digit_size {c : Char} (digit : c.isDigit) : c.utf8Size = 1 := by
  have last := (Json.Numeral.digit_bounds digit).2
  exact if_pos (UInt32.le_iff_toNat_le.mpr (last.trans (by decide)))

theorem byteLength_digits {digits : List Char} (all : ∀ c ∈ digits, c.isDigit) :
    byteLength digits = digits.length := by
  induction digits with
  | nil => rfl
  | cons c rest ih =>
    have one := digit_size (all c List.mem_cons_self)
    have later := ih fun d listed => all d (List.mem_cons_of_mem c listed)
    simp [byteLength, one, later, Nat.add_comm]

/-! ## Numbers with two places -/

namespace Decimal

theorem byteLength_sign (negative : Bool) : byteLength (sign negative) ≤ 1 := by
  cases negative <;> decide

theorem hundredths_bound (rank : Fin 0x7F800000) : hundredths rank / 100 < 10 ^ 39 := by
  have rounded : hundredths rank ≤ units rank * 100 / one + 1 := by
    unfold hundredths Rounding.nearestEven
    split <;> omega
  have below : units rank ≤ units infinityRank := units_le_units.mpr rank.isLt.le
  rw [units_infinity] at below
  have whole : units rank * 100 / one ≤ 2 ^ 128 * 100 := by
    apply Nat.div_le_of_le_mul
    rw [Nat.mul_comm one]
    calc units rank * 100 ≤ 2 ^ 128 * one * 100 := Nat.mul_le_mul_right 100 below
      _ = 2 ^ 128 * 100 * one := by ring
  omega

theorem byteLength_twoPlaces (x : Single) : byteLength (twoPlaces x) ≤ 43 := by
  cases x with
  | nan => decide
  | infinite negative => cases negative <;> decide
  | finite negative rank =>
    have front := byteLength_sign negative
    have whole : (digits (hundredths rank / 100)).length ≤ 39 :=
      (length_digits_le (by norm_num)).mpr (hundredths_bound rank)
    have point : '.'.utf8Size = 1 := rfl
    simp only [twoPlaces, byteLength_append, byteLength, byteLength_digits (digits_isDigit _),
      byteLength_digits (lastDigits_isDigit _ _), length_lastDigits, point]
    omega

end Decimal

/-! ## Readings -/

theorem pieces_fit (family : Family) (member : family.Member) (scalar : family.Scalar) :
    byteLength (family.pieces member scalar).flatten ≤ renderCapacity := by
  cases family with
  | boolean => cases member <;> cases scalar <;> decide
  | scaled =>
    have number := Decimal.byteLength_twoPlaces scalar
    have rest : byteLength (ScaledType.separator member).toList +
        byteLength (ScaledType.unit member).toList ≤ 10 := by
      cases member <;> decide
    simp only [Family.pieces, List.flatten_cons, List.flatten_nil, List.append_nil,
      byteLength_append, renderCapacity]
    omega
  | float =>
    have number := Decimal.byteLength_twoPlaces scalar
    have rest : byteLength (FloatType.unit member).toList ≤ 10 := by cases member <;> decide
    have blank : ' '.utf8Size = 1 := rfl
    simp only [Family.pieces, List.flatten_cons, List.flatten_nil, List.append_nil,
      byteLength_append, byteLength, blank, renderCapacity]
    omega

theorem TaggedReading.pieces_fit (reading : TaggedReading) :
    byteLength reading.pieces.flatten ≤ renderCapacity := by
  obtain ⟨family, bare, rfl⟩ := reading.exists_tag
  rw [pieces_tag]
  exact KnxDatapoint.pieces_fit family bare.member bare.scalar

/-- The text shown for what is held fits the buffer: it is rendered whole, and nothing is written
down about it. -/
def ShownWhole {ρ : Type} [Datapoint ρ] (held : ρ) : Prop :=
  (String.ofList (display held)).utf8ByteSize ≤ renderCapacity ∧ render held = ⟨display held, []⟩

theorem shownWhole_of_fit {ρ : Type} [Datapoint ρ] {held : ρ}
    (fits : byteLength (Datapoint.pieces held).flatten ≤ renderCapacity) : ShownWhole held := by
  refine ⟨?_, ?_⟩
  · rwa [utf8ByteSize_ofList, display]
  · simp only [render, display, fill_fitting fits, if_true]

theorem Reading.shownWhole {family : Family} (reading : Reading family) : ShownWhole reading :=
  shownWhole_of_fit (pieces_fit family reading.member reading.scalar)

theorem render_whole (reading : TaggedReading) : render reading = ⟨display reading, []⟩ :=
  (shownWhole_of_fit reading.pieces_fit).2

theorem display_tag {family : Family} (reading : Reading family) :
    display (family.tag reading) = display reading :=
  congrArg List.flatten (TaggedReading.pieces_tag reading)

/-- No text is ever cut, whatever the type, the scalar and the way of holding them: neither that of
an infinity or a NaN, nor that of the greatest number with all its digits, its sign and its unit. -/
theorem every_text_whole :
    (∀ (family : Family) (reading : Reading family), ShownWhole reading) ∧
    (∀ reading : TaggedReading, ShownWhole reading) ∧
    (∀ bare : BareReading, ShownWhole bare) ∧
    ∀ (family : Family) (reading : Reading family),
      display (family.tag reading) = display reading := by
  refine ⟨fun _ reading => reading.shownWhole, fun reading => ?_, fun bare => ?_,
    fun _ reading => display_tag reading⟩
  · exact shownWhole_of_fit reading.pieces_fit
  · exact shownWhole_of_fit (pieces_fit bare.family bare.reading.member bare.reading.scalar)

-- The longest text: a sign, 39 digits, the point and two places, a blank and the unit.
example : byteLength (display (TaggedReading.float ⟨.illumination, .ofBits 0xFF7FFFFF⟩)) = 47 := by
  decide +kernel

end KnxDatapoint
