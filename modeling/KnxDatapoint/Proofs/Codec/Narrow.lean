import KnxDatapoint.Proofs.Codec.Within
import Mathlib.Data.Nat.Bitwise

/-! Two-byte floats held in fixed widths.
Sixteen bits for the mantissa and eight for the exponent are enough. Reading a word, writing one,
the search for a number and the step toward zero are done here with masks, shifts and conversions
that cut off what does not fit, and give what they give on whole numbers of any size. The bounds of
the format carry this, and every float that can be built keeps them. -/
namespace KnxDatapoint

structure NarrowFloat where
  mantissa : Int16
  exponent : UInt8
  deriving DecidableEq, Repr

namespace NarrowFloat
open Rounding Single
open ShortFloat (Chosen FitsAt mantissa_limits)

/-- The float that is held. -/
def widen (x : NarrowFloat) : ShortFloat := ⟨x.mantissa.toInt, x.exponent.toNat⟩

def ofWord (word : UInt16) : NarrowFloat where
  mantissa :=
    let low := (word &&& 0x07FF).toInt16
    if word &&& 0x8000 ≠ 0 then low - 2048 else low
  exponent := ((word >>> 11) &&& 0x0F).toUInt8

def toWord (x : NarrowFloat) : UInt16 :=
  let sign : UInt16 := if x.mantissa < 0 then 0x8000 else 0
  sign ||| (x.exponent.toUInt16 <<< 11) ||| (x.mantissa.toUInt16 &&& 0x07FF)

/-- The rounded mantissa in 32 bits; the weight of a step is one shifted by the exponent. -/
def mantissaAt (hundredths : Single) (exponent : UInt8) : Int32 :=
  .ofInt (hundredths / .ofInt ((1 : UInt32) <<< exponent.toUInt32).toNat).roundHalfAway

/-- The end of the format on the side of a mantissa that lies outside. -/
def clamped (mantissa : Int32) : Int32 :=
  if mantissa < -2048 then -2048 else if 2047 < mantissa then 2047 else mantissa

/-- The search from an exponent on: it counts up until the mantissa fits or the last is reached. -/
def search (hundredths : Single) (exponent : UInt8) : NarrowFloat :=
  let mantissa := mantissaAt hundredths exponent
  if -2048 ≤ mantissa ∧ mantissa ≤ 2047 then ⟨mantissa.toInt16, exponent⟩
  else if exponent = 15 then ⟨(clamped mantissa).toInt16, exponent⟩
  else search hundredths (exponent + 1)
termination_by (15 - exponent).toNat
decreasing_by
  have other : exponent.toNat ≠ 15 := fun last => ‹¬ exponent = 15› (UInt8.toNat_inj.mp last)
  have small := exponent.toNat_lt
  simp only [UInt8.toNat_sub, UInt8.toNat_add, UInt8.toNat_ofNat]
  omega

def ofValue (value : Single) : NarrowFloat := search (value * 100) 0

def towardZero (x : NarrowFloat) : NarrowFloat where
  mantissa :=
    if 0 < x.mantissa then x.mantissa - 1 else if x.mantissa < 0 then x.mantissa + 1 else 0
  exponent := x.exponent

def toValue (x : NarrowFloat) : Single :=
  .ofInt x.mantissa.toInt * .ofInt ((1 : UInt32) <<< x.exponent.toUInt32).toNat / 100

/-- The nearest float, or the one before it when its value lies outside the range. -/
def within (range : Range) (value : Single) : NarrowFloat :=
  let nearest := ofValue value
  if range.greatest < nearest.toValue ∨ nearest.toValue < range.least then nearest.towardZero
  else nearest

theorem widen_inj {x y : NarrowFloat} : x.widen = y.widen ↔ x = y := by
  cases x
  cases y
  simp [widen, Int16.toInt_inj, UInt8.toNat_inj]

/-! ## Words -/

theorem toUInt16_toNat (mantissa : Int16) :
    (mantissa.toUInt16.toNat : ℤ) = mantissa.toInt % 0x10000 := by
  have short := mantissa.toBitVec.isLt
  have value := BitVec.toInt_eq_toNat_cond mantissa.toBitVec
  rw [Int16.toInt_toBitVec, Int16.toNat_toBitVec] at value
  rw [Int16.toNat_toBitVec] at short
  split at value <;> omega

theorem toInt16_toInt {word : UInt16} (small : word.toNat < 0x8000) :
    word.toInt16.toInt = word.toNat := by
  have value := BitVec.toInt_eq_toNat_cond word.toBitVec
  rw [← UInt16.toBitVec_toInt16, Int16.toInt_toBitVec, UInt16.toBitVec_toInt16,
    UInt16.toNat_toBitVec] at value
  split at value <;> omega

theorem sign_mask (word : UInt16) : word &&& 0x8000 ≠ 0 ↔ 0x8000 ≤ word.toNat := by
  have small := word.toNat_lt
  have mask : (word &&& 0x8000).toNat = (word.toNat.testBit 15).toNat * 2 ^ 15 := by
    rw [UInt16.toNat_and]
    exact Nat.and_two_pow _ 15
  have bit : word.toNat.testBit 15 = decide (0x8000 ≤ word.toNat) := by
    rw [Nat.testBit_eq_decide_div_mod_eq]
    congr 1
    apply propext
    omega
  rw [ne_eq, ← UInt16.toNat_inj, mask, bit]
  by_cases high : 0x8000 ≤ word.toNat <;> simp [high]

theorem low_mask (word : UInt16) : (word &&& 0x07FF).toNat = word.toNat % 0x800 := by
  rw [UInt16.toNat_and]
  exact Nat.and_two_pow_sub_one_eq_mod _ 11

theorem widen_ofWord (word : UInt16) : (ofWord word).widen = ShortFloat.ofWord word := by
  have small := word.toNat_lt
  have low := low_mask word
  have part : (word &&& 0x07FF).toInt16.toInt = (word.toNat % 0x800 : ℕ) := by
    rw [toInt16_toInt (by omega), low]
  simp only [widen, ofWord, ShortFloat.ofWord, ShortFloat.mk.injEq]
  constructor
  · by_cases high : 0x8000 ≤ word.toNat
    · -- the low bits alone are not negative, so taking the sign off stays inside the width
      rw [if_pos ((sign_mask word).mpr high), if_pos high, Int16.toInt_sub, part]
      have constant : (2048 : Int16).toInt = 0x800 := by decide
      rw [constant]
      exact Int.bmod_eq_of_le (by omega) (by omega)
    · rw [if_neg (mt (sign_mask word).mp high), if_neg high, part, sub_zero]
  · have nibble : ((word >>> 11) &&& 0x0F).toNat = word.toNat / 0x800 % 16 := by
      rw [UInt16.toNat_and, UInt16.toNat_shiftRight, ← Nat.shiftRight_eq_div_pow _ 11]
      exact Nat.and_two_pow_sub_one_eq_mod _ 4
    rw [UInt16.toNat_toUInt8, nibble]
    omega

/-- The three fields of a word share no bit. -/
theorem or_fields (sign : ℕ) {exponent low : ℕ} (short : exponent < 16) (small : low < 0x800) :
    sign <<< 15 ||| exponent <<< 11 ||| low = sign * 0x8000 + exponent * 0x800 + low := by
  have lower : exponent <<< 11 + low < 2 ^ 15 := by
    rw [Nat.shiftLeft_eq]
    omega
  rw [Nat.or_assoc, ← Nat.shiftLeft_add_eq_or_of_lt (i := 11) small,
    ← Nat.shiftLeft_add_eq_or_of_lt lower, Nat.shiftLeft_eq, Nat.shiftLeft_eq]
  omega

theorem sign_field (mantissa : Int16) : (if mantissa < 0 then 0x8000 else 0 : UInt16).toNat =
    (if mantissa.toInt < 0 then 1 else 0) <<< 15 := by
  have sign : mantissa < 0 ↔ mantissa.toInt < 0 := Int16.lt_iff_toInt_lt
  by_cases negative : mantissa < 0
  · rw [if_pos negative, if_pos (sign.mp negative)]
    rfl
  · rw [if_neg negative, if_neg (mt sign.mpr negative)]
    rfl

theorem exponent_field {exponent : UInt8} (small : exponent.toNat ≤ 15) :
    (exponent.toUInt16 <<< 11).toNat = exponent.toNat <<< 11 := by
  rw [UInt16.toNat_shiftLeft, UInt8.toNat_toUInt16]
  apply Nat.mod_eq_of_lt
  change exponent.toNat <<< 11 < 2 ^ 16
  rw [Nat.shiftLeft_eq]
  omega

theorem toWord_eq {x : NarrowFloat} (fits : x.widen.Fits) : x.toWord = x.widen.toWord := by
  have sum := ShortFloat.toWord_toNat fits
  obtain ⟨-, -, small⟩ := fits
  have small : x.exponent.toNat ≤ 15 := small
  have pattern := toUInt16_toNat x.mantissa
  have low : (x.mantissa.toUInt16 &&& 0x07FF).toNat = (x.mantissa.toInt % 0x800).toNat := by
    rw [low_mask]
    omega
  apply UInt16.toNat_inj.mp
  rw [sum, toWord, UInt16.toNat_or, UInt16.toNat_or, low, exponent_field small, sign_field,
    or_fields _ (by omega) (by omega)]
  by_cases negative : x.mantissa.toInt < 0 <;> simp [widen, negative]

/-! ## The search -/

variable {exponent : UInt8}

theorem weight_shift (small : exponent.toNat ≤ 15) :
    ((1 : UInt32) <<< exponent.toUInt32).toNat = 1 <<< exponent.toNat := by
  have power : 2 ^ exponent.toNat ≤ 2 ^ 15 := Nat.pow_le_pow_right (by norm_num) small
  rw [UInt32.toNat_shiftLeft, UInt8.toNat_toUInt32, Nat.mod_eq_of_lt (by omega : _ < 32)]
  apply Nat.mod_eq_of_lt
  change 1 <<< exponent.toNat < 2 ^ 32
  rw [Nat.shiftLeft_eq]
  omega

theorem mantissaAt_toInt (h : Single) (small : exponent.toNat ≤ 15) :
    (mantissaAt h exponent).toInt = ShortFloat.mantissaAt h exponent.toNat := by
  have bounds := int32_bounds
  have held := ShortFloat.mantissaAt_eq h small
  have same : h / .ofInt ((1 : UInt32) <<< exponent.toUInt32).toNat =
      h / ShortFloat.weight exponent.toNat := by rw [weight_shift small, ShortFloat.weight]
  rw [mantissaAt, same]
  change (Int32.ofInt (ShortFloat.mantissaAt h exponent.toNat)).toInt = _
  exact Int32.toInt_ofInt_of_le (by omega) (by omega)

theorem toInt16_of_fits {mantissa : Int32} (least : -2048 ≤ mantissa.toInt)
    (greatest : mantissa.toInt ≤ 2047) : mantissa.toInt16.toInt = mantissa.toInt := by
  rw [Int32.toInt_toInt16]
  exact Int.bmod_eq_of_le (by omega) (by omega)

theorem limits_toInt : (-2048 : Int32).toInt = -2048 ∧ (2047 : Int32).toInt = 2047 := by decide

theorem clamped_toInt (mantissa : Int32) :
    (clamped mantissa).toInt = max (-2048) (min 2047 mantissa.toInt) := by
  obtain ⟨least, greatest⟩ := limits_toInt
  unfold clamped
  simp only [Int32.lt_iff_toInt_lt, least, greatest]
  split
  · omega
  · split <;> omega

theorem inside_iff (h : Single) (small : exponent.toNat ≤ 15) :
    (-2048 ≤ mantissaAt h exponent ∧ mantissaAt h exponent ≤ 2047) ↔
      FitsAt h.toRat exponent.toNat := by
  obtain ⟨least, greatest⟩ := limits_toInt
  rw [Int32.le_iff_toInt_le, Int32.le_iff_toInt_le, least, greatest, mantissaAt_toInt h small]
  exact ShortFloat.mantissaAt_fits h small

/-- A mantissa held to the format is the one that the rule on exact hundredths asks for. -/
theorem widen_found (h : Single) (small : exponent.toNat ≤ 15) {mantissa : Int32}
    (within : mantissa.toInt = max (-2048) (min 2047 (mantissaAt h exponent).toInt)) :
    (⟨mantissa.toInt16, exponent⟩ : NarrowFloat).widen =
      ⟨max ShortFloat.leastMantissa (min ShortFloat.greatestMantissa
        (nearestWhole (h.toRat / 2 ^ exponent.toNat))), exponent.toNat⟩ := by
  have bounds := int32_bounds
  obtain ⟨least, greatest⟩ := mantissa_limits
  have rounded := ShortFloat.mantissaAt_eq h small
  rw [mantissaAt_toInt h small, rounded] at within
  simp only [widen, ShortFloat.mk.injEq, and_true]
  rw [toInt16_of_fits (by omega) (by omega), least, greatest]
  omega

/-- Where nothing fits below an exponent, the search from there on ends at the float chosen. -/
theorem search_chosen (h : Single) (exponent : UInt8) (small : exponent.toNat ≤ 15)
    (unfit : ∀ e < exponent.toNat, ¬ FitsAt h.toRat e) :
    Chosen h.toRat (search h exponent).widen := by
  obtain ⟨least, greatest⟩ := mantissa_limits
  -- the exponent counts up; that nothing fits below it is what each turn hands to the next
  fun_induction search h exponent with
  | case1 exponent mantissa inside =>
    have fits := (inside_iff h small).mp inside
    have held : mantissa.toInt = max (-2048) (min 2047 (mantissaAt h exponent).toInt) := by
      have value := mantissaAt_toInt h small
      have within := (ShortFloat.mantissaAt_fits h small).mpr fits
      change (mantissaAt h exponent).toInt = _
      omega
    rw [widen_found h small held]
    refine ⟨.inl ⟨⟨small, fits⟩, ?_⟩, rfl⟩
    rintro e ⟨-, fitting⟩
    by_contra below
    exact unfit e (not_le.mp below) fitting
  | case2 mantissa outside =>
    have missed := mt (inside_iff h small).mpr outside
    rw [widen_found h small (clamped_toInt _)]
    refine ⟨.inr ⟨?_, rfl⟩, rfl⟩
    intro e reach fitting
    exact missed (ShortFloat.fitsAt_mono reach fitting)
  | case3 exponent mantissa outside other ih =>
    have missed := mt (inside_iff h small).mpr outside
    have before : exponent.toNat ≠ 15 := fun last => other (UInt8.toNat_inj.mp last)
    have next : (exponent + 1).toNat = exponent.toNat + 1 := by
      rw [UInt8.toNat_add]
      exact Nat.mod_eq_of_lt (by change exponent.toNat + 1 < 256; omega)
    apply ih
    · omega
    · intro e reach
      rcases Nat.lt_or_eq_of_le (Nat.lt_succ_iff.mp (next ▸ reach)) with earlier | rfl
      · exact unfit e earlier
      · exact missed

theorem widen_ofValue (v : Single) : (ofValue v).widen = (ShortFloat.ofValue v).value := by
  have chosen : Chosen (v * 100).toRat (ofValue v).widen := by
    apply search_chosen
    · decide
    · intro e none
      exact absurd none (Nat.not_lt_zero e)
  exact chosen.unique (ShortFloat.ofValue_chosen v)

/-! ## Floats that can be built -/

variable {n n' : NarrowFloat} {x x' : ShortFloat}

theorem towardZero_fits (fits : x.Fits) : x.towardZero.Fits := by
  rcases lt_trichotomy x.mantissa 0 with negative | zero | positive
  · rw [ShortFloat.towardZero_negative negative]
    exact ShortFloat.raised_fits fits negative
  · have still : x.towardZero = x := by
      cases x
      simp_all [ShortFloat.towardZero]
    rwa [still]
  · rw [ShortFloat.towardZero_positive positive]
    exact ShortFloat.lowered_fits fits positive

theorem stepped_toInt {mantissa : Int16} (low : -2048 ≤ mantissa.toInt)
    (high : mantissa.toInt ≤ 2047) :
    (if 0 < mantissa then mantissa - 1 else if mantissa < 0 then mantissa + 1 else 0).toInt =
      mantissa.toInt - mantissa.toInt.sign := by
  have zero : (0 : Int16).toInt = 0 := by decide
  have one : (1 : Int16).toInt = 1 := by decide
  simp only [Int16.lt_iff_toInt_lt, zero]
  split
  · rename_i positive
    rw [Int16.toInt_sub, one, Int.sign_eq_one_of_pos positive]
    exact Int.bmod_eq_of_le (by omega) (by omega)
  · split
    · rename_i negative
      rw [Int16.toInt_add, one, Int.sign_eq_neg_one_of_neg negative, sub_neg_eq_add]
      exact Int.bmod_eq_of_le (by omega) (by omega)
    · have none : mantissa.toInt = 0 := by omega
      rw [none, zero]
      rfl

theorem widen_towardZero (fits : n.widen.Fits) : n.towardZero.widen = n.widen.towardZero := by
  obtain ⟨low, high, -⟩ := fits
  simp only [widen, towardZero, ShortFloat.towardZero, ShortFloat.mk.injEq, and_true]
  exact stepped_toInt low high

theorem toValue_eq (fits : n.widen.Fits) : n.toValue = n.widen.toValue := by
  rw [toValue, weight_shift fits.2.2]
  rfl

/-- A float built in fixed widths, and the same built without any. -/
inductive Built : NarrowFloat → ShortFloat → Prop where
  | read (word : UInt16) : Built (.ofWord word) (.ofWord word)
  | found (value : Single) : Built (.ofValue value) (ShortFloat.ofValue value).value
  | stepped {n : NarrowFloat} {x : ShortFloat} (built : Built n x) :
      Built n.towardZero x.towardZero

/-- The widths hold the float whole, and so does its word. -/
structure Lossless (n : NarrowFloat) (x : ShortFloat) : Prop where
  fits : x.Fits
  widen : n.widen = x
  value : n.toValue = x.toValue
  word : n.toWord = x.toWord
  again : NarrowFloat.ofWord n.toWord = n
  read : ShortFloat.ofWord x.toWord = x

theorem lossless_of_fits (fits : n.widen.Fits) : Lossless n n.widen where
  fits := fits
  widen := rfl
  value := toValue_eq fits
  word := toWord_eq fits
  again := by rw [← widen_inj, widen_ofWord, toWord_eq fits, ShortFloat.ofWord_toWord fits]
  read := ShortFloat.ofWord_toWord fits

theorem Built.lossless (built : Built n x) : Lossless n x := by
  induction built with
  | read word =>
    rw [← widen_ofWord]
    apply lossless_of_fits
    rw [widen_ofWord]
    exact ShortFloat.ofWord_fits word
  | found value =>
    rw [← widen_ofValue]
    apply lossless_of_fits
    rw [widen_ofValue]
    exact (ShortFloat.ofValue_chosen value).fits
  | @stepped n x built ih =>
    obtain ⟨fits, rfl, -⟩ := ih
    rw [← widen_towardZero fits]
    apply lossless_of_fits
    rw [widen_towardZero fits]
    exact towardZero_fits fits

theorem toWord_ofWord (word : UInt16) : (ofWord word).toWord = word := by
  have held := (Built.read word).lossless
  rw [held.word, ShortFloat.toWord_ofWord]

theorem Built.eq_iff (built : Built n x) (built' : Built n' x') :
    (n = n' ↔ n.toWord = n'.toWord) ∧ (x = x' ↔ x.toWord = x'.toWord) := by
  have first := built.lossless
  have second := built'.lossless
  constructor
  · constructor
    · exact congrArg toWord
    · intro same
      rw [← first.again, same, second.again]
  · constructor
    · exact congrArg ShortFloat.toWord
    · intro same
      rw [← first.read, same, second.read]

/-- What is written between bounds is a float found for a number, or one step from it. -/
theorem within_built (range : Range) (v : Single) :
    Built (within range v) (ShortFloat.within range v).value := by
  have found := Built.found v
  rw [FloatType.within_value, ← found.lossless.value]
  unfold within
  dsimp only
  split
  · exact .stepped found
  · exact found

/-- Every float read from a word, found for a number or stepped toward zero from such a one keeps
the bounds of the format and loses nothing in its fixed widths, where it has the value and the word
it has without them. Words and floats stand for each other, so two floats are the same exactly when
their words are; what is written between bounds is one of these floats. -/
theorem built_lossless :
    (∀ n x, Built n x → Lossless n x) ∧
    (∀ word : UInt16, (ofWord word).toWord = word ∧ (ShortFloat.ofWord word).toWord = word) ∧
    (∀ n x n' x', Built n x → Built n' x' →
      (n = n' ↔ n.toWord = n'.toWord) ∧ (x = x' ↔ x.toWord = x'.toWord)) ∧
    ∀ (range : Range) (v : Single), Built (within range v) (ShortFloat.within range v).value := by
  refine ⟨?_, ?_, ?_, within_built⟩
  · intro n x built
    exact built.lossless
  · intro word
    exact ⟨toWord_ofWord word, ShortFloat.toWord_ofWord word⟩
  · intro n x n' x' built built'
    exact built.eq_iff built'

/-- One step from where the negative infinity ends is the float of the last word but one. -/
theorem built_lossless_last_step :
    Built (ofValue (.infinite true)).towardZero
      (ShortFloat.ofValue (.infinite true)).value.towardZero ∧
    Built (ofWord 0xF801) (ShortFloat.ofWord 0xF801) ∧
    Lossless (ofValue (.infinite true)).towardZero ⟨-2047, 15⟩ ∧
    (ofValue (.infinite true)).towardZero = ofWord 0xF801 := by
  obtain ⟨kept, words, alike, -⟩ := built_lossless
  have stepped := Built.stepped (.found (.infinite true))
  have read := Built.read 0xF801
  have last : (ShortFloat.ofValue (.infinite true)).value.towardZero = ⟨-2047, 15⟩ := by
    decide +kernel
  have lossless := kept _ _ stepped
  have same : (ofValue (.infinite true)).towardZero = ofWord 0xF801 := by
    rw [(alike _ _ _ _ stepped read).1, (words 0xF801).1, lossless.word, last]
    decide
  exact ⟨stepped, read, last ▸ lossless, same⟩

end NarrowFloat
end KnxDatapoint
