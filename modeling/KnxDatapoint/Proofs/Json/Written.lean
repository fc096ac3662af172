import KnxDatapoint.Proofs.Decimal.Layout
import KnxDatapoint.Proofs.Decimal.Shortest
import KnxDatapoint.Proofs.Json.Numeral
import KnxDatapoint.Proofs.Json.Token

/-! Written numbers are read back.
Both layouts of a decimal are numerals whose exact value is the decimal, so what is read is the
number nearest to it. -/
namespace KnxDatapoint.Json.Numeral
open Decimal

/-! ## Parts of a numeral -/

section
variable {front rest : List Char} {negative : Bool} {fraction : List ℕ}
  {exponent : Option (Bool × List ℕ)}

/-- What a string of digits ends at. -/
def Stops (cs : List Char) : Prop := ∀ c ∈ cs.head?, c.isDigit = false

theorem stops_nil : Stops [] := nofun

theorem run_append (digits : ∀ c ∈ front, c.isDigit) (stops : Stops rest) :
    run (front ++ rest) = (front.map digitValue, rest) := by
  have taken : rest.takeWhile Char.isDigit = [] := by
    cases rest with
    | nil => rfl
    | cons c rest => simp [stops c rfl]
  have left : rest.dropWhile Char.isDigit = rest := by
    cases rest with
    | nil => rfl
    | cons c rest => simp [stops c rfl]
  rw [run, List.takeWhile_append_of_pos digits, List.dropWhile_append_of_pos digits, taken, left,
    List.append_nil]

theorem isDigit_ne {c d : Char} (digit : c.isDigit) (other : d.isDigit = false) : c ≠ d := by
  rintro rfl
  simp [digit] at other

theorem ofChars_parts (digits : ∀ c ∈ front, c.isDigit) (stops : Stops rest)
    (lead : leading? (front.map digitValue) = some (front.map digitValue))
    (after : afterWhole? rest = some (fraction, exponent)) :
    ofChars? (sign negative ++ (front ++ rest)) =
      some ⟨negative, front.map digitValue, fraction, exponent⟩ := by
  cases negative with
  | true => simp [ofChars?, sign, run_append digits stops, lead, after]
  | false =>
    obtain ⟨c, cs, rfl⟩ : ∃ c cs, front = c :: cs := by
      cases front with
      | nil => cases lead
      | cons c cs => exact ⟨c, cs, rfl⟩
    have unsigned : c ≠ '-' := isDigit_ne (digits c List.mem_cons_self) rfl
    have split := run_append digits stops
    simp only [List.cons_append, List.map_cons] at split lead ⊢
    simp [ofChars?, sign, unsigned, split, lead, after]

theorem afterWhole_point (digits : ∀ c ∈ front, c.isDigit) (given : front ≠ [])
    (stops : Stops rest) (after : exponent? rest = some exponent) :
    afterWhole? ('.' :: (front ++ rest)) = some (front.map digitValue, exponent) := by
  obtain ⟨c, cs, rfl⟩ := List.exists_cons_of_ne_nil given
  have split := run_append digits stops
  simp only [List.cons_append, List.map_cons] at split ⊢
  simp [afterWhole?, split, after]

theorem exponent_written (negative : Bool) (n : ℕ) :
    exponent? ('e' :: (sign negative ++ digits n)) =
      some (some (negative, (digits n).map digitValue)) := by
  have split := run_append (digits_isDigit n) stops_nil
  obtain ⟨c, cs, eq⟩ := List.exists_cons_of_ne_nil (show digits n ≠ [] from Nat.toDigits_ne_nil)
  have digit := digits_isDigit n c (eq ▸ List.mem_cons_self)
  have unsigned : c ≠ '-' := isDigit_ne digit rfl
  have plus : c ≠ '+' := isDigit_ne digit rfl
  rw [List.append_nil, eq] at split
  rw [eq]
  simp only [List.map_cons] at split ⊢
  cases negative <;> simp [exponent?, sign, unsigned, plus, split]

end

theorem leading_digits (n : ℕ) :
    leading? ((digits n).map digitValue) = some ((digits n).map digitValue) := by
  by_cases zero : n = 0
  · subst zero
    rfl
  · obtain ⟨c, rest, split, head⟩ := digits_head zero
    have digit := digits_isDigit n c (split ▸ List.mem_cons_self)
    have nonzero := digitValue_ne_zero digit head
    rw [split, List.map_cons]
    cases rest <;> simp [leading?, nonzero]

/-! ## The two layouts -/

section
variable {decimal : ℕ}

theorem value_at {n zeros : ℕ} (split : n * 10 ^ zeros = decimal) :
    (n : ℚ) * 10 ^ ((zeros : ℤ) - places) = decimal / (placeValue places : ℕ) := by
  rw [← split, placeValue_eq, zpow_sub₀ (by norm_num), zpow_natCast, zpow_natCast]
  push_cast
  ring

/-- The exact value of a numeral is a decimal, and all of its digits are read. -/
structure Denotes (decimal : ℕ) (numeral : Numeral) : Prop where
  digits : ∀ d ∈ numeral.whole ++ numeral.fraction, d < 10
  plain : ¬ numeral.Overruns
  short : numeral.significant.length ≤ capacity
  value : numeral.magnitude = decimal / (placeValue places : ℕ)

theorem length_significant (numeral : Numeral) :
    numeral.significant.length ≤ numeral.whole.length + numeral.fraction.length := by
  have trimmed : numeral.trimmed.length ≤ numeral.fraction.length :=
    (List.rdropWhile_prefix (· == 0) numeral.fraction).length_le
  have dropped : numeral.significant.length ≤ (numeral.whole ++ numeral.trimmed).length :=
    (List.dropWhile_suffix _).length_le
  rw [List.length_append] at dropped
  omega

theorem digits_below {front rest : List Char} (all : ∀ c ∈ front ++ rest, c.isDigit) :
    ∀ d ∈ front.map digitValue ++ rest.map digitValue, d < 10 := by
  intro d listed
  rw [← List.map_append] at listed
  obtain ⟨c, inside, rfl⟩ := List.mem_map.mp listed
  exact digitValue_lt (all c inside)

theorem positional_read (negative : Bool) (small : decimal < 10 ^ capacity) {shown : List Char}
    {zeros : ℕ} (given : shown ≠ [])
    (split : lastDigits places decimal = shown ++ List.replicate zeros '0') :
    ∃ numeral, ofChars? (sign negative ++ (Decimal.whole decimal ++ '.' :: shown)) = some numeral ∧
      numeral.negative = negative ∧ Denotes decimal numeral := by
  have all : ∀ c ∈ Decimal.whole decimal ++ shown, c.isDigit := by
    intro c listed
    rcases List.mem_append.mp listed with whole | place
    · exact digits_isDigit _ c whole
    · exact lastDigits_isDigit places decimal c (split ▸ List.mem_append_left _ place)
  have length : shown.length + zeros = places := by
    have lengths := congrArg List.length split
    simpa [length_lastDigits] using lengths.symm
  have after := afterWhole_point (fun c listed => all c (List.mem_append_right _ listed)) given
    stops_nil rfl
  rw [List.append_nil] at after
  refine ⟨_, ofChars_parts (digits_isDigit _) ?_ (leading_digits _) after, rfl,
    digits_below all, ?_, (length_significant _).trans ?_, ?_⟩
  · rintro c ⟨⟩
    rfl
  · rintro ⟨-, empty, -⟩
    exact given (List.map_eq_nil_iff.mp empty)
  · have whole : (Decimal.whole decimal).length ≤ capacity - places := by
      refine (length_digits_le (by decide)).mpr (Nat.div_lt_of_lt_mul ?_)
      rwa [placeValue_eq, ← pow_add]
    have room : capacity - places + places = capacity := rfl
    simp only [List.length_map]
    omega
  · have value : written (Decimal.whole decimal ++ shown) * 10 ^ zeros = decimal :=
      calc written (Decimal.whole decimal ++ shown) * 10 ^ zeros
          = written (Decimal.whole decimal ++ lastDigits places decimal) := by
            rw [split, ← List.append_assoc, written_append _ (List.replicate _ _)]
            simp
        _ = decimal / 10 ^ places * 10 ^ places + decimal % 10 ^ places := by
            rw [written_append, written_lastDigits, length_lastDigits]
            simp [Decimal.whole, placeValue_eq]
        _ = decimal := Nat.div_add_mod' _ _
    have exponent : (0 : ℤ) - (shown.map digitValue).length = zeros - places := by
      rw [List.length_map]
      omega
    simp only [magnitude, power, ← List.map_append, exponent]
    exact value_at value

theorem power_written (point : ℤ) : Single.signed (decide (point < 1))
    (ofDigits ((Decimal.digits (point - 1).natAbs).map digitValue)) = point - 1 := by
  have value : ofDigits ((Decimal.digits (point - 1).natAbs).map digitValue) =
      (point - 1).natAbs := written_digits _
  rw [value]
  by_cases below : point < 1
  · simp only [Single.signed, below, decide_true, if_true]
    omega
  · simp only [Single.signed, below, decide_false, Bool.false_eq_true, if_false]
    omega

theorem exponent_mark (point : ℤ) : exponent? (mark point) =
    some (some (decide (point < 1), (Decimal.digits (point - 1).natAbs).map digitValue)) :=
  exponent_written _ _

theorem afterWhole_places {shown : List Char} (digits : ∀ c ∈ shown, c.isDigit) (point : ℤ) :
    afterWhole? ((if shown = [] then [] else '.' :: shown) ++ mark point) =
      some (shown.map digitValue,
        some (decide (point < 1), (Decimal.digits (point - 1).natAbs).map digitValue)) := by
  have after := exponent_mark point
  by_cases none : shown = []
  · subst none
    exact congrArg (Option.map ([], ·)) after
  · rw [if_neg none, List.cons_append]
    refine afterWhole_point digits none ?_ after
    rintro c ⟨⟩
    rfl

theorem scientific_read (negative : Bool) (small : decimal < 10 ^ capacity) {c : Char}
    {rest : List Char} {zeros : ℕ}
    (split : Decimal.digits decimal = c :: rest ++ List.replicate zeros '0') :
    ∃ numeral, ofChars? (sign negative ++ ([c] ++ ((if rest = [] then [] else '.' :: rest) ++
        mark ((Decimal.digits decimal).length - (places : ℤ))))) = some numeral ∧
      numeral.negative = negative ∧ Denotes decimal numeral := by
  have all : ∀ d ∈ [c] ++ rest, d.isDigit := fun d listed =>
    digits_isDigit decimal d (split ▸ List.mem_append_left _ listed)
  have length : rest.length + 1 + zeros = (Decimal.digits decimal).length := by
    simp only [split, List.length_append, List.length_cons, List.length_replicate]
  have lead : leading? ([c].map digitValue) = some ([c].map digitValue) := by simp [leading?]
  generalize place : ((Decimal.digits decimal).length : ℤ) - places = point
  have after := afterWhole_places (fun d listed => all d (List.mem_append_right _ listed)) point
  have stops : Stops ((if rest = [] then [] else '.' :: rest) ++ mark point) := by
    split <;> rintro d ⟨⟩ <;> rfl
  refine ⟨_, ofChars_parts (fun d listed => all d (List.mem_append_left _ listed)) stops lead after,
    rfl, digits_below all, ?_, (length_significant _).trans ?_, ?_⟩
  · rintro ⟨-, -, none, -⟩
    cases none
  · have short : (Decimal.digits decimal).length ≤ capacity :=
      (length_digits_le (by decide)).mpr small
    simp only [List.length_map, List.length_singleton]
    omega
  · have value : written ([c] ++ rest) * 10 ^ zeros = decimal := by
      have whole := written_digits decimal
      rw [split, written_append] at whole
      simpa using whole
    have exponent : point - 1 - (rest.map digitValue).length = zeros - places := by
      rw [List.length_map]
      omega
    simp only [magnitude, power, ← List.map_append, power_written, exponent]
    exact value_at value

theorem layout_read {text : List Char} (negative : Bool) (small : decimal < 10 ^ capacity)
    (layout : Layout decimal text) : ∃ numeral, ofChars? (sign negative ++ text) = some numeral ∧
      numeral.negative = negative ∧ Denotes decimal numeral := by
  cases layout with
  | positional shown zeros given split => exact positional_read negative small given split
  | scientific c rest zeros split => exact scientific_read negative small split

end

theorem shortest_small (tie : Tie) (rank : Fin 0x7F800000) : shortest tie rank < 10 ^ capacity := by
  by_contra large
  have found : rankOf (shortest tie rank) = rank := rankOf_shortest tie rank
  have beyond : Single.infinityRank ≤ rankOf (shortest tie rank) := by
    apply rank_infinite (placeValue_pos places)
    calc 10 ^ 39 * placeValue places ≤ 10 ^ capacity := by decide +kernel
      _ ≤ shortest tie rank := not_lt.mp large
  rw [found] at beyond
  exact absurd rank.isLt (not_lt.mpr beyond)

/-- The written form of a finite number is a numeral that is read as the number. -/
theorem document_read (negative : Bool) (rank : Fin 0x7F800000) :
    ∃ numeral, ofChars? (sign negative ++ pointed (shortest .even rank)) = some numeral ∧
      numeral.toSingle? = some (.finite negative rank) := by
  obtain ⟨numeral, read, same, denotes⟩ := layout_read negative (shortest_small .even rank)
    (pointed_layout _)
  have value := toSingle_eq denotes.digits denotes.plain denotes.short (placeValue_pos places)
    denotes.value
  rw [same, Single.ofUnits_finite negative (rankOf_shortest .even rank)] at value
  exact ⟨numeral, read, value⟩

/-! ## Characters of a number -/

section
variable {decimal : ℕ} {text : List Char}

theorem digit_parts {cs : List Char} (digits : ∀ c ∈ cs, c.isDigit) :
    ∀ c ∈ cs, Token.isNumberPart c := by
  intro c listed
  simp [Token.isNumberPart, digits c listed]

theorem sign_parts (negative : Bool) : ∀ c ∈ sign negative, Token.isNumberPart c := by
  cases negative with
  | false => nofun
  | true => exact List.forall_mem_singleton.mpr rfl

theorem mark_parts (point : ℤ) : ∀ c ∈ mark point, Token.isNumberPart c :=
  List.forall_mem_cons.mpr
    ⟨rfl, List.forall_mem_append.mpr ⟨sign_parts _, digit_parts (digits_isDigit _)⟩⟩

theorem layout_parts (layout : Layout decimal text) : ∀ c ∈ text, Token.isNumberPart c := by
  cases layout with
  | positional shown zeros given split =>
    have places : ∀ c ∈ shown, Token.isNumberPart c := digit_parts fun c listed =>
      lastDigits_isDigit _ _ c (split ▸ List.mem_append_left _ listed)
    exact List.forall_mem_append.mpr
      ⟨digit_parts (digits_isDigit _), List.forall_mem_cons.mpr ⟨rfl, places⟩⟩
  | scientific c rest zeros split =>
    have all : ∀ d ∈ c :: rest, Token.isNumberPart d := digit_parts fun d listed =>
      digits_isDigit decimal d (split ▸ List.mem_append_left _ listed)
    obtain ⟨first, others⟩ := List.forall_mem_cons.mp all
    have places : ∀ d ∈ (if rest = [] then [] else '.' :: rest), Token.isNumberPart d := by
      split
      · nofun
      · exact List.forall_mem_cons.mpr ⟨rfl, others⟩
    rw [List.singleton_append]
    exact List.forall_mem_cons.mpr ⟨first, List.forall_mem_append.mpr ⟨places, mark_parts _⟩⟩

theorem layout_start (layout : Layout decimal text) : ∃ c rest, text = c :: rest ∧ c.isDigit := by
  cases layout with
  | positional shown zeros given split =>
    obtain ⟨c, rest, front⟩ := List.exists_cons_of_ne_nil
      (show Decimal.whole decimal ≠ [] from Nat.toDigits_ne_nil)
    refine ⟨c, rest ++ '.' :: shown, by rw [front, List.cons_append], ?_⟩
    exact digits_isDigit _ c (front ▸ List.mem_cons_self : c ∈ Decimal.whole decimal)
  | scientific c rest zeros split =>
    exact ⟨c, _, rfl, digits_isDigit decimal c (split ▸ List.mem_cons_self)⟩

end

/-- The token of a finite number is a numeral that is read as the number. -/
theorem reads_finite (negative : Bool) (rank : Fin 0x7F800000) : ∃ numeral,
    Token.Reads (number (.finite negative rank)) [.number numeral] ∧
      numeral.toSingle? = some (.finite negative rank) := by
  obtain ⟨numeral, read, value⟩ := document_read negative rank
  have layout := pointed_layout (shortest .even rank)
  obtain ⟨c, rest, start, digit⟩ := layout_start layout
  have parts := layout_parts layout
  have text : number (.finite negative rank) = sign negative ++ pointed (shortest .even rank) := rfl
  rw [text]
  rw [start] at read parts ⊢
  refine ⟨numeral, ?_, value⟩
  cases negative with
  | false => exact Token.reads_number (.inl digit) (List.forall_mem_cons.mp parts).2 read
  | true => exact Token.reads_number (.inr rfl) parts read

end KnxDatapoint.Json.Numeral
