import KnxDatapoint.Proofs.Decimal.Places
import KnxDatapoint.Proofs.Reading.Text

/-! A rendered text tells what reading it was made of.
A number and its unit are simply put together, but neither a blank nor a percent sign stands in a
number or in a label. So every text falls into a front and a suffix in one way. The suffix is that
of one numeric type or, when it is empty, of the labels, which all differ. -/
namespace KnxDatapoint

/-- Scalars that a text does not tell apart. -/
inductive Value.Alike : Value → Value → Prop
  | state (on : Bool) : Alike (.state on) (.state on)
  | number {x y : Single} (alike : Decimal.Alike x y) : Alike (.number x) (.number y)

/-! ## Front and suffix -/

/-- A character that may stand before a suffix: neither a blank nor a percent sign. -/
def inFront (c : Char) : Bool := c != ' ' && c != '%'

/-- What is shown after a number; nothing follows a label. -/
def DatapointType.suffix : DatapointType → List Char
  | ⟨.boolean, _⟩ => []
  | ⟨.scaled, kind⟩ => kind.separator.toList ++ kind.unit.toList
  | ⟨.float, kind⟩ => ' ' :: kind.unit.toList

/-- What is shown of the scalar alone. -/
def Family.front : (family : Family) → family.Member → family.Scalar → List Char
  | .boolean, kind, state => (kind.label state).toList
  | .scaled, _, x => Decimal.twoPlaces x
  | .float, _, x => Decimal.twoPlaces x

theorem inFront_of_isDigit {c : Char} (digit : c.isDigit) : inFront c := by
  have blank : c ≠ ' ' := by
    rintro rfl
    cases digit
  have percent : c ≠ '%' := by
    rintro rfl
    cases digit
  simp [inFront, blank, percent]

theorem Decimal.twoPlaces_inFront (x : Single) : ∀ c ∈ twoPlaces x, inFront c := by
  have signs : ∀ negative, (sign negative).all inFront := by decide
  cases x with
  | nan => exact List.all_eq_true.mp (by decide)
  | infinite negative => cases negative <;> exact List.all_eq_true.mp (by decide)
  | finite negative rank =>
    intro c listed
    simp only [twoPlaces, List.mem_append, List.mem_cons] at listed
    rcases listed with (front | whole) | rfl | places
    · exact List.all_eq_true.mp (signs negative) c front
    · exact inFront_of_isDigit (digits_isDigit _ c whole)
    · rfl
    · exact inFront_of_isDigit (lastDigits_isDigit _ _ c places)

theorem Family.front_inFront (family : Family) (member : family.Member) (scalar : family.Scalar) :
    ∀ c ∈ family.front member scalar, inFront c := by
  cases family with
  | boolean => cases member <;> cases scalar <;> exact List.all_eq_true.mp (by decide)
  | scaled => exact Decimal.twoPlaces_inFront scalar
  | float => exact Decimal.twoPlaces_inFront scalar

theorem DatapointType.suffix_start (type : DatapointType) : type.suffix.takeWhile inFront = [] := by
  rcases type with ⟨family, member⟩
  cases family <;> cases member <;> decide

theorem Family.pieces_flatten (family : Family) (member : family.Member) (scalar : family.Scalar) :
    (family.pieces member scalar).flatten =
      family.front member scalar ++ DatapointType.suffix ⟨family, member⟩ := by
  cases family <;> simp [Family.pieces, Family.front, DatapointType.suffix]

section
variable {front front' suffix suffix' : List Char}

theorem split_front (all : ∀ c ∈ front, inFront c) (start : suffix.takeWhile inFront = []) :
    (front ++ suffix).takeWhile inFront = front ∧ (front ++ suffix).dropWhile inFront = suffix := by
  have rest := List.takeWhile_append_dropWhile (p := inFront) (l := suffix)
  rw [start, List.nil_append] at rest
  rw [List.takeWhile_append_of_pos all, List.dropWhile_append_of_pos all, start, rest,
    List.append_nil]
  exact ⟨rfl, rfl⟩

theorem split_unique (all : ∀ c ∈ front, inFront c) (all' : ∀ c ∈ front', inFront c)
    (start : suffix.takeWhile inFront = []) (start' : suffix'.takeWhile inFront = [])
    (same : front ++ suffix = front' ++ suffix') : front = front' ∧ suffix = suffix' := by
  obtain ⟨taken, left⟩ := split_front all start
  obtain ⟨taken', left'⟩ := split_front all' start'
  rw [same] at taken left
  exact ⟨taken.symm.trans taken', left.symm.trans left'⟩

end

/-! ## Types and labels -/

theorem DatapointType.suffix_inj {a b : DatapointType} (same : a.suffix = b.suffix) :
    a.family = b.family ∧ (a = b ∨ a.family = .boolean) := by
  have table : ∀ a ∈ all, ∀ b ∈ all, a.suffix = b.suffix →
      a.family = b.family ∧ (a = b ∨ a.family = .boolean) := by decide +kernel
  exact table a a.mem_all b b.mem_all same

theorem BooleanType.mem_all (kind : BooleanType) : kind ∈ all := by
  cases kind <;> decide

theorem BooleanType.label_inj {kind kind' : BooleanType} {on on' : Bool}
    (same : (kind.label on).toList = (kind'.label on').toList) : kind = kind' ∧ on = on' := by
  have table : ∀ kind ∈ all, ∀ kind' ∈ all, ∀ on on' : Bool,
      (kind.label on).toList = (kind'.label on').toList → kind = kind' ∧ on = on' := by
    decide +kernel
  exact table kind kind.mem_all kind' kind'.mem_all on on' same

/-! ## Readings -/

theorem alike_of_pieces {family family' : Family} {member : family.Member}
    {member' : family'.Member} {scalar : family.Scalar} {scalar' : family'.Scalar}
    (same : (family.pieces member scalar).flatten = (family'.pieces member' scalar').flatten) :
    (⟨family, member⟩ : DatapointType) = ⟨family', member'⟩ ∧
      (family.value scalar).Alike (family'.value scalar') := by
  rw [Family.pieces_flatten, Family.pieces_flatten] at same
  obtain ⟨fronts, suffixes⟩ := split_unique (family.front_inFront member scalar)
    (family'.front_inFront member' scalar') (DatapointType.suffix_start _)
    (DatapointType.suffix_start _) same
  obtain ⟨families, types⟩ := DatapointType.suffix_inj suffixes
  obtain rfl : family = family' := families
  cases family with
  | boolean =>
    obtain ⟨rfl, rfl⟩ := BooleanType.label_inj fronts
    exact ⟨rfl, .state scalar⟩
  | scaled =>
    have same := types.resolve_right Family.noConfusion
    exact ⟨same, .number (Decimal.alike_of_twoPlaces fronts)⟩
  | float =>
    have same := types.resolve_right Family.noConfusion
    exact ⟨same, .number (Decimal.alike_of_twoPlaces fronts)⟩

theorem alike_of_display {a b : TaggedReading} (same : display a = display b) :
    a.datapoint = b.datapoint ∧ a.value.Alike b.value := by
  cases a <;> cases b <;> exact alike_of_pieces same

/-- A text rendered for a reading, which is held with its tag or without. -/
inductive Rendered : TaggedReading → List Char → Prop
  | tagged (reading : TaggedReading) : Rendered reading (render reading).value
  | bare {family : Family} (reading : Reading family) :
    Rendered (family.tag reading) (render reading).value

theorem Rendered.displayed {reading : TaggedReading} {text : List Char}
    (rendered : Rendered reading text) : text = display reading := by
  cases rendered with
  | tagged => rw [render_whole]
  | bare reading => rw [reading.shownWhole.2, display_tag]

/-- Two readings of one text have one type, and scalars that differ by no more than the two places
leave open: states and infinities are the same, a NaN is a NaN, and finite numbers have one sign,
that of a zero included, and lie no farther apart than a hundredth. -/
theorem text_determines_reading {a b : TaggedReading} {text : List Char}
    (first : Rendered a text) (second : Rendered b text) :
    a.datapoint = b.datapoint ∧ a.value.Alike b.value :=
  alike_of_display (first.displayed.symm.trans second.displayed)

/-- The numbers 0.001 and 0.004 are both shown as 0.00%, the second one without a tag. -/
theorem text_determines_reading_small :
    Rendered (.scaled ⟨.scaling, .ofBits 0x3A83126F⟩) ['0', '.', '0', '0', '%'] ∧
    Rendered (.scaled ⟨.scaling, .ofBits 0x3B83126F⟩) ['0', '.', '0', '0', '%'] ∧
    (Value.number (.ofBits 0x3A83126F)).Alike (.number (.ofBits 0x3B83126F)) := by
  have shown : (render (TaggedReading.scaled ⟨.scaling, .ofBits 0x3A83126F⟩)).value =
      ['0', '.', '0', '0', '%'] := by decide +kernel
  have shown' : (render (⟨.scaling, .ofBits 0x3B83126F⟩ : Reading .scaled)).value =
      ['0', '.', '0', '0', '%'] := by decide +kernel
  have first := Rendered.tagged (.scaled ⟨.scaling, .ofBits 0x3A83126F⟩)
  have second := Rendered.bare (⟨.scaling, .ofBits 0x3B83126F⟩ : Reading .scaled)
  rw [shown] at first
  rw [shown'] at second
  exact ⟨first, second, (text_determines_reading first second).2⟩

end KnxDatapoint
