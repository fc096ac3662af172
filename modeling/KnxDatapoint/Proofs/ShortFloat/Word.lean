import KnxDatapoint.ShortFloat
import Mathlib.Tactic.Linarith

/-! Words and the floats they hold: a float of the format that is written is read again as it was. -/
namespace KnxDatapoint.ShortFloat

theorem ofWord_fits (word : UInt16) : (ofWord word).Fits := by
  have small := word.toNat_lt
  simp only [Fits, ofWord, leastMantissa, greatestMantissa, greatestExponent]
  refine ⟨?_, ?_, ?_⟩
  · split <;> omega
  · split <;> omega
  · omega

theorem toWord_toNat {x : ShortFloat} (fits : x.Fits) : x.toWord.toNat =
    (if x.mantissa < 0 then 0x8000 else 0) + x.exponent * 0x800 + (x.mantissa % 0x800).toNat := by
  obtain ⟨low, high, small⟩ := fits
  simp only [leastMantissa, greatestMantissa, greatestExponent] at low high small
  rw [toWord, UInt16.toNat_ofNat']
  apply Nat.mod_eq_of_lt
  split <;> omega

theorem ofWord_toWord {x : ShortFloat} (fits : x.Fits) : ofWord x.toWord = x := by
  have word := toWord_toNat fits
  rcases x with ⟨mantissa, exponent⟩
  simp only [Fits, leastMantissa, greatestMantissa, greatestExponent] at fits
  simp only [ofWord, word, mk.injEq]
  by_cases negative : mantissa < 0
  · simp only [negative, if_true] at word ⊢
    constructor
    · split <;> omega
    · omega
  · simp only [negative, if_false] at word ⊢
    constructor
    · split <;> omega
    · omega

theorem toWord_ofWord (word : UInt16) : (ofWord word).toWord = word := by
  apply UInt16.toNat_inj.mp
  have small := word.toNat_lt
  rw [toWord_toNat (ofWord_fits word)]
  simp only [ofWord]
  by_cases high : 0x8000 ≤ word.toNat
  · simp only [high, if_true]
    split <;> omega
  · simp only [high, if_false]
    split <;> omega

end KnxDatapoint.ShortFloat

namespace KnxDatapoint.Payload

theorem word_ofWord (word : UInt16) : ∃ high low, Payload.ofWord word = .two high low ∧
    Payload.word high low = word := by
  refine ⟨_, _, rfl, ?_⟩
  apply UInt16.toNat_inj.mp
  have small := word.toNat_lt
  simp only [Payload.word, UInt16.toNat_ofNat', UInt8.toNat_ofNat']
  omega

end KnxDatapoint.Payload

namespace KnxDatapoint.ShortFloat

theorem telegram_inj {f g : ShortFloat} (hf : f.Fits) (hg : g.Fits) :
    Payload.ofWord f.toWord = .ofWord g.toWord ↔ f = g := by
  refine ⟨fun same => ?_, fun same => by rw [same]⟩
  obtain ⟨high, low, bytes, word⟩ := Payload.word_ofWord f.toWord
  obtain ⟨high', low', bytes', word'⟩ := Payload.word_ofWord g.toWord
  rw [bytes, bytes', Payload.two.injEq] at same
  obtain ⟨rfl, rfl⟩ := same
  have words : f.toWord = g.toWord := word.symm.trans word'
  rw [← ofWord_toWord hf, ← ofWord_toWord hg, words]

end KnxDatapoint.ShortFloat
