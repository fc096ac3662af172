import KnxDatapoint.Proofs.ShortFloat.Reduced
import KnxDatapoint.Proofs.ShortFloat.Word

/-! The order of floats is that of the singles they are read as.
Rounding keeps different values apart: writing a value again finds the hundredths it was rounded
from, so two floats that are read alike have the same hundredths. Comparing readings is comparing
whole numbers, and of all words with one value the one of least exponent is written. -/
namespace KnxDatapoint.ShortFloat
open Single

variable {x y : ShortFloat}

theorem hundredths_of_toValue (hx : x.Fits) (hy : y.Fits) (same : x.toValue = y.toValue) :
    x.hundredths = y.hundredths := by
  calc x.hundredths = (ofValue x.toValue).value.hundredths := (ofValue_toValue hx).2.symm
    _ = (ofValue y.toValue).value.hundredths := by rw [same]
    _ = y.hundredths := (ofValue_toValue hy).2

theorem toRat_toValue_inj (hx : x.Fits) (hy : y.Fits) :
    x.toValue.toRat = y.toValue.toRat ↔ x.hundredths = y.hundredths := by
  refine ⟨fun same => ?_, fun same => by rw [toValue_congr hx hy same]⟩
  by_cases zero : x.hundredths = 0
  · by_contra other
    have nonzero : y.hundredths ≠ 0 := fun none => other (zero.trans none.symm)
    have start : x.toValue.toRat = 0 := by rw [toRat_toValue hx, zero]; simp
    exact toValue_ne_zero hy nonzero (same.symm.trans start)
  · have alike := eq_of_toRat (toValue_ne_zero hx zero) same
    exact hundredths_of_toValue hx hy alike

theorem toRat_toValue_le (hx : x.Fits) (hy : y.Fits) :
    x.toValue.toRat ≤ y.toValue.toRat ↔ x.hundredths ≤ y.hundredths := by
  have mono {x y : ShortFloat} (hx : x.Fits) (hy : y.Fits) (le : x.hundredths ≤ y.hundredths) :
      x.toValue.toRat ≤ y.toValue.toRat :=
    (le_iff_toRat.mp (toValue_mono hx hy (by exact_mod_cast le))).2.2
  refine ⟨fun le => ?_, mono hx hy⟩
  by_contra above
  have back := mono hy hx (not_le.mp above).le
  exact above ((toRat_toValue_inj hx hy).mp (le_antisymm le back)).le

theorem toRat_toValue_lt (hx : x.Fits) (hy : y.Fits) :
    x.toValue.toRat < y.toValue.toRat ↔ x.hundredths < y.hundredths :=
  lt_iff_lt_of_le_iff_le (toRat_toValue_le hy hx)

theorem toValue_le_iff (hx : x.Fits) (hy : y.Fits) :
    x.toValue ≤ y.toValue ↔ x.hundredths ≤ y.hundredths := by
  have number := finite_ne_nan (toValue_finite hx)
  have number' := finite_ne_nan (toValue_finite hy)
  simp [le_iff_toRat, number, number', toRat_toValue_le hx hy]

theorem toValue_lt_iff (hx : x.Fits) (hy : y.Fits) :
    x.toValue < y.toValue ↔ x.hundredths < y.hundredths := by
  have number := finite_ne_nan (toValue_finite hx)
  have number' := finite_ne_nan (toValue_finite hy)
  simp [lt_iff_toRat, number, number', toRat_toValue_lt hx hy]

theorem toValue_beq_iff (hx : x.Fits) (hy : y.Fits) :
    (x.toValue == y.toValue) = true ↔ x.hundredths = y.hundredths := by
  have number := finite_ne_nan (toValue_finite hx)
  have number' := finite_ne_nan (toValue_finite hy)
  simp [beq_iff_toRat, number, number', toRat_toValue_inj hx hy]

/-! ## Words of one value -/

/-- Every other word of the same value has a greater exponent. -/
def Normal (word : UInt16) : Prop :=
  ∀ other : UInt16, (ofWord other).hundredths = (ofWord word).hundredths → other ≠ word →
    (ofWord word).exponent < (ofWord other).exponent

theorem normal_of_reduced (reduced : Reduced x) : Normal x.toWord := by
  intro other same different
  rw [ofWord_toWord reduced.fits] at same ⊢
  refine lt_of_le_of_ne (reduced.least _ (ofWord_fits other) same) fun exponents => different ?_
  rw [ext_hundredths exponents same.symm, toWord_ofWord]

theorem written_normal (word : UInt16) : ∃ normal : UInt16,
    (ofValue (ofWord word).toValue).value = ofWord normal ∧
      (ofWord normal).hundredths = (ofWord word).hundredths ∧ Normal normal := by
  obtain ⟨reduced, same⟩ := ofValue_toValue (ofWord_fits word)
  have held := ofWord_toWord reduced.fits
  exact ⟨_, held.symm, held.symm ▸ same, normal_of_reduced reduced⟩

theorem written_alike (hx : x.Fits) (hy : y.Fits) :
    (ofValue x.toValue).value = (ofValue y.toValue).value ↔ x.hundredths = y.hundredths := by
  obtain ⟨reduced, value⟩ := ofValue_toValue hx
  obtain ⟨reduced', value'⟩ := ofValue_toValue hy
  constructor
  · intro same
    rw [← value, same, value']
  · intro same
    exact reduced_unique reduced reduced' (value.trans (same.trans value'.symm))

/-- Singles read from two words compare as the whole numbers of hundredths in the words do. Written
again, a reading takes the one word of its value with the least exponent, which it shares with the
readings of the same value and with no other. -/
theorem readings_embed_words (a b : UInt16) :
    ((ofWord a).toValue < (ofWord b).toValue ↔ (ofWord a).hundredths < (ofWord b).hundredths) ∧
    (((ofWord a).toValue == (ofWord b).toValue) = true ↔
      (ofWord a).hundredths = (ofWord b).hundredths) ∧
    (∃ normal : UInt16, (ofValue (ofWord a).toValue).value = ofWord normal ∧
      (ofWord normal).hundredths = (ofWord a).hundredths ∧ Normal normal) ∧
    ((ofValue (ofWord a).toValue).value = (ofValue (ofWord b).toValue).value ↔
      (ofWord a).hundredths = (ofWord b).hundredths) := by
  have first := ofWord_fits a
  have second := ofWord_fits b
  exact ⟨toValue_lt_iff first second, toValue_beq_iff first second, written_normal a,
    written_alike first second⟩

end KnxDatapoint.ShortFloat
