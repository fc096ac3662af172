import KnxDatapoint.Codec
import KnxDatapoint.Proofs.Single.Operations

/-! Results of decoding without the records made on the way, and numbers held to a range. -/
namespace KnxDatapoint

variable {α β : Type}

/-- What a decoding yields, its records left out. -/
def result (reading : Decoding α) : Except Fault α := reading.run.value

@[simp] theorem result_pure (a : α) : result (pure a) = .ok a := rfl

@[simp] theorem result_refuse (fault : Fault) : result (refuse fault : Decoding α) = .error fault :=
  rfl

@[simp] theorem result_bind (reading : Decoding α) (next : α → Decoding β) :
    result (reading >>= next) = result reading >>= fun a => result (next a) := by
  simp only [result, ExceptT.run_bind, Logged.value_bind]
  cases reading.run.value <;> rfl

@[simp] theorem result_map (f : α → β) (reading : Decoding α) :
    result (f <$> reading) = f <$> result reading := by
  rw [← bind_pure_comp, result_bind]
  cases result reading <;> rfl

@[simp] theorem result_ite (c : Prop) [Decidable c] (yes no : Decoding α) :
    result (if c then yes else no) = if c then result yes else result no := by
  split <;> rfl

theorem except_bind_ok {first : Except Fault α} {next : α → Except Fault β} {b : β} :
    first >>= next = .ok b ↔ ∃ a, first = .ok a ∧ next a = .ok b := by
  cases first with
  | error fault => simp [bind, Except.bind]
  | ok a => simp [bind, Except.bind]

theorem unpackByte_ok {data : List UInt8} {byte : UInt8} :
    result (Wire.unpackByte data) = .ok byte ↔ data = [byte] := by
  unfold Wire.unpackByte
  split
  · simp
  · rename_i other
    simp only [result_refuse, reduceCtorEq, false_iff]
    exact other byte

theorem unpackFloat_ok {data : List UInt8} {x : Single} :
    result (Wire.unpackFloat data) = .ok x ↔
      ∃ high low, data = [high, low] ∧ x = (ShortFloat.ofWord (Payload.word high low)).toValue := by
  unfold Wire.unpackFloat
  split
  · simp [eq_comm]
  · rename_i other
    simp only [result_refuse, reduceCtorEq, false_iff]
    rintro ⟨high, low, same, -⟩
    exact other high low same

/-! ## Ranges -/

theorem Single.not_lt_iff {x y : Single} (hx : x ≠ .nan) (hy : y ≠ .nan) : ¬ x < y ↔ y ≤ x := by
  simp [Single.lt_iff_toRat, Single.le_iff_toRat, hx, hy]

theorem mem_range {range : Range} {x : Single} :
    x ∈ range ↔ range.least ≤ x ∧ x ≤ range.greatest := Iff.rfl

theorem number_of_mem {range : Range} {x : Single} (held : x ∈ range) : x ≠ .nan :=
  (Single.le_iff_toRat.mp held.1).2.1

theorem not_outside {range : Range} {x : Single} (held : x ∈ range) :
    ¬ x < range.least ∧ ¬ range.greatest < x := by
  obtain ⟨low, high⟩ := mem_range.mp held
  obtain ⟨least, number, -⟩ := Single.le_iff_toRat.mp low
  obtain ⟨-, greatest, -⟩ := Single.le_iff_toRat.mp high
  exact ⟨(Single.not_lt_iff number least).mpr low, (Single.not_lt_iff greatest number).mpr high⟩

theorem clamp_of_mem {range : Range} {x : Single} (held : x ∈ range) :
    x.clamp range.least range.greatest = x := by
  obtain ⟨raised, lowered⟩ := not_outside held
  simp only [Single.clamp, if_neg raised, if_neg lowered]

section
variable {range : Range} {x : Single}

/-- A number is held to the bound beyond which it lies, or kept. -/
theorem clamp_cases (number : x ≠ .nan) (proper : range.least ≤ range.greatest) :
    (x < range.least ∧ x.clamp range.least range.greatest = range.least) ∨
    (range.greatest < x ∧ x.clamp range.least range.greatest = range.greatest) ∨
    (x ∈ range ∧ x.clamp range.least range.greatest = x) := by
  obtain ⟨least, greatest, -⟩ := Single.le_iff_toRat.mp proper
  by_cases below : x < range.least
  · have kept : ¬ range.greatest < range.least := (Single.not_lt_iff greatest least).mpr proper
    exact .inl ⟨below, by simp only [Single.clamp, if_pos below, if_neg kept]⟩
  · by_cases above : range.greatest < x
    · exact .inr (.inl ⟨above, by simp only [Single.clamp, if_neg below, if_pos above]⟩)
    · have held : x ∈ range := ⟨(Single.not_lt_iff number least).mp below,
        (Single.not_lt_iff greatest number).mp above⟩
      exact .inr (.inr ⟨held, clamp_of_mem held⟩)

theorem clamp_mem (number : x ≠ .nan) (proper : range.least ≤ range.greatest) :
    x.clamp range.least range.greatest ∈ range := by
  obtain ⟨least, greatest, -⟩ := Single.le_iff_toRat.mp proper
  rcases clamp_cases number proper with ⟨-, held⟩ | ⟨-, held⟩ | ⟨inside, held⟩
  · rw [held]
    exact ⟨Single.le_iff_toRat.mpr ⟨least, least, le_rfl⟩, proper⟩
  · rw [held]
    exact ⟨proper, Single.le_iff_toRat.mpr ⟨greatest, greatest, le_rfl⟩⟩
  · rwa [held]

theorem toRat_clamp (number : x ≠ .nan) (proper : range.least ≤ range.greatest) :
    (x.clamp range.least range.greatest).toRat =
      max range.least.toRat (min range.greatest.toRat x.toRat) := by
  obtain ⟨-, -, order⟩ := Single.le_iff_toRat.mp proper
  rcases clamp_cases number proper with ⟨below, held⟩ | ⟨above, held⟩ | ⟨inside, held⟩
  · obtain ⟨-, -, lt⟩ := Single.lt_iff_toRat.mp below
    rw [held, min_eq_right (lt.le.trans order), max_eq_left lt.le]
  · obtain ⟨-, -, lt⟩ := Single.lt_iff_toRat.mp above
    rw [held, min_eq_left lt.le, max_eq_right order]
  · obtain ⟨-, -, low⟩ := Single.le_iff_toRat.mp inside.1
    obtain ⟨-, -, high⟩ := Single.le_iff_toRat.mp inside.2
    rw [held, min_eq_right high, max_eq_right low]

end

theorem isNaN_iff {x : Single} : x.isNaN = true ↔ x = .nan := by
  cases x <;> simp [Single.isNaN]

theorem orZero_number {x : Single} (number : x ≠ .nan) : x.orZero = x :=
  if_neg (mt isNaN_iff.mp number)

theorem orZero_ne_nan (x : Single) : x.orZero ≠ .nan := by
  by_cases number : x = .nan
  · rw [number]
    decide
  · rwa [orZero_number number]

namespace Range

variable {range : Range} {v w : Single}

/-- What a range makes of a number: zero of a NaN, a bound of a number beyond it, and the number
itself otherwise. -/
inductive Bounds (range : Range) : Single → Single → Prop
  | nan : range.Bounds .nan 0
  | below {v : Single} (beyond : v < range.least) : range.Bounds v range.least
  | above {v : Single} (beyond : range.greatest < v) : range.Bounds v range.greatest
  | inside {v : Single} (held : v ∈ range) : range.Bounds v v

theorem proper_of_mem (held : v ∈ range) : range.least ≤ range.greatest := by
  obtain ⟨least, -, low⟩ := Single.le_iff_toRat.mp held.1
  obtain ⟨-, greatest, high⟩ := Single.le_iff_toRat.mp held.2
  exact Single.le_iff_toRat.mpr ⟨least, greatest, low.trans high⟩

theorem bounded_mem (v : Single) (proper : range.least ≤ range.greatest) :
    range.bounded v ∈ range :=
  clamp_mem (orZero_ne_nan v) proper

theorem bounded_number (range : Range) (number : v ≠ .nan) :
    range.bounded v = v.clamp range.least range.greatest := by
  rw [bounded, orZero_number number]

theorem bounded_mono (le : v ≤ w) (proper : range.least ≤ range.greatest) :
    range.bounded v ≤ range.bounded w := by
  obtain ⟨hv, hw, order⟩ := Single.le_iff_toRat.mp le
  rw [range.bounded_number hv, range.bounded_number hw, Single.le_iff_toRat,
    toRat_clamp hv proper, toRat_clamp hw proper]
  have first := (clamp_mem hv proper).1
  have second := (clamp_mem hw proper).1
  exact ⟨(Single.le_iff_toRat.mp first).2.1, (Single.le_iff_toRat.mp second).2.1,
    max_le_max_left _ (min_le_min_left _ order)⟩

theorem bounded_of_mem (held : v ∈ range) : range.bounded v = v := by
  rw [range.bounded_number (number_of_mem held), clamp_of_mem held]

theorem bounded_bounds (v : Single) (zero : 0 ∈ range) : range.Bounds v (range.bounded v) := by
  by_cases number : v = .nan
  · have counted : Single.nan.orZero = 0 := rfl
    rw [number, bounded, counted, clamp_of_mem zero]
    exact .nan
  · rw [range.bounded_number number]
    rcases clamp_cases number (proper_of_mem zero) with
      ⟨below, bound⟩ | ⟨above, bound⟩ | ⟨inside, bound⟩
    · rw [bound]
      exact .below below
    · rw [bound]
      exact .above above
    · rw [bound]
      exact .inside inside

end Range

namespace FloatType

theorem zero_mem (kind : FloatType) : 0 ∈ kind.range := by cases kind <;> decide

theorem range_proper (kind : FloatType) : kind.range.least ≤ kind.range.greatest :=
  Range.proper_of_mem kind.zero_mem

end FloatType

namespace ScaledType

theorem zero_mem (kind : ScaledType) : 0 ∈ kind.range := by cases kind <;> decide

theorem range_proper (kind : ScaledType) : kind.range.least ≤ kind.range.greatest :=
  Range.proper_of_mem kind.zero_mem

end ScaledType

end KnxDatapoint
