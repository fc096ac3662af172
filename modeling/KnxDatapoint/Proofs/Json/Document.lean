import KnxDatapoint.Proofs.Json.Tree
import KnxDatapoint.Proofs.Json.Written
import KnxDatapoint.Proofs.Single.Rational

/-! Documents are read back as what was written, and as nothing else.
A descriptor, a reading of a family and a tagged reading are values of different shapes, and no name
is that of two types. So a document is read by the reader of its own kind alone, and by none where
its number has no written form. -/
namespace KnxDatapoint
open Json Tree Token

/-- A state, or a number that has a written form. -/
def Value.Finite : Value → Prop
  | .state _ => True
  | .number x => x.IsFinite

namespace Json

/-- The kinds of document. -/
inductive Kind where
  | descriptor (family : Family)
  | bare (family : Family)
  | tagged
  deriving DecidableEq

namespace Kind

/-- What a document of the kind says. -/
abbrev Content : Kind → Type
  | .descriptor family => family.Member
  | .bare family => Reading family
  | .tagged => TaggedReading

def write : (kind : Kind) → kind.Content → List Char
  | .descriptor family, member => family.writeDescriptor member
  | .bare _, reading => reading.write
  | .tagged, reading => reading.write

def reader : (kind : Kind) → Tree → Option kind.Content
  | .descriptor family => family.readDescriptor?
  | .bare family => Reading.read? family
  | .tagged => TaggedReading.read?

/-- The scalar of a reading; a descriptor has none. -/
def value? : (kind : Kind) → kind.Content → Option Value
  | .descriptor _, _ => none
  | .bare _, reading => some reading.value
  | .tagged, reading => some reading.value

/-- What a document of one kind is to the readers of all kinds. -/
structure Alone (kind : Kind) (content : kind.Content)
    (found : (other : Kind) → Option other.Content) : Prop where
  back : (∀ value ∈ kind.value? content, value.Finite) → found kind = some content
  refused : (∃ value ∈ kind.value? content, ¬ value.Finite) → found kind = none
  elsewhere : ∀ other, other ≠ kind → found other = none

end Kind
end Json

namespace Family

theorem name_plain (family : Family) (member : family.Member) :
    Plain (family.name member).toList := by
  cases family <;> cases member <;> decide

theorem ofName_name (family : Family) (member : family.Member) :
    family.ofName? (family.name member) = some member := by
  cases family <;> cases member <;> decide

theorem ofName_other {family other : Family} (different : other ≠ family)
    (member : family.Member) : other.ofName? (family.name member) = none := by
  revert different
  cases family <;> cases member <;> cases other <;> decide

end Family

/-! ## Scalars -/

namespace Json

/-- A number is written as a numeral that is read as the number, or else as null. -/
theorem number_written (x : Single) : ∃ tree, Written (number x) tree ∧
    ((∃ numeral, tree = .number numeral ∧ numeral.toSingle? = some x ∧ x.IsFinite) ∨
      (tree = .null ∧ ¬ x.IsFinite)) := by
  cases x with
  | nan => exact ⟨.null, written_null, .inr ⟨rfl, id⟩⟩
  | infinite negative => exact ⟨.null, written_null, .inr ⟨rfl, id⟩⟩
  | finite negative rank =>
    obtain ⟨numeral, reads, value⟩ := Numeral.reads_finite negative rank
    exact ⟨.number numeral, ⟨_, reads, fun _ => rfl⟩, .inl ⟨numeral, rfl, value, trivial⟩⟩

end Json

theorem scalar_written (family : Family) (scalar : family.Scalar) : ∃ tree,
    Written (family.writeScalar scalar) tree ∧
    ((family.value scalar).Finite → family.readScalar? tree = some scalar) ∧
    (¬ (family.value scalar).Finite → family.readScalar? tree = none) := by
  cases family with
  | boolean =>
    exact ⟨.truth scalar, written_truth scalar, fun _ => rfl, fun other => absurd trivial other⟩
  | scaled | float =>
    obtain ⟨tree, written, ⟨numeral, rfl, value, finite⟩ | ⟨rfl, infinite⟩⟩ := number_written scalar
    · exact ⟨_, written, fun _ => value, fun other => absurd finite other⟩
    · exact ⟨_, written, fun finite => absurd finite infinite, fun _ => rfl⟩

/-! ## Values of documents -/

section
variable {family : Family}

/-- The value that a reading is written as. -/
def Reading.tree (reading : Reading family) (scalar : Tree) : Tree :=
  .object [(some "dpt", .text (some (family.name reading.member))), (some "value", scalar)]

theorem Reading.read_tree (reading : Reading family) (scalar : Tree) (other : Family) :
    Reading.read? other (reading.tree scalar) = do
      let member ← other.ofName? (family.name reading.member)
      let scalar ← other.readScalar? scalar
      return ⟨member, scalar⟩ := by
  simp [Reading.read?, Reading.tree, field?, Reading.ofParts?, Family.readDescriptor?]

theorem Reading.read_other {other : Family} (different : other ≠ family) (reading : Reading family)
    (scalar : Tree) : Reading.read? other (reading.tree scalar) = none := by
  rw [reading.read_tree, Family.ofName_other different]
  rfl

theorem Reading.tree_written (reading : Reading family) : ∃ scalar,
    Written reading.write (reading.tree scalar) ∧
    (reading.value.Finite → Reading.read? family (reading.tree scalar) = some reading) ∧
    (¬ reading.value.Finite → Reading.read? family (reading.tree scalar) = none) := by
  obtain ⟨scalar, written, finite, infinite⟩ := scalar_written family reading.scalar
  have keys : Plain "dpt".toList ∧ Plain "value".toList := by decide
  have name := family.name_plain reading.member
  refine ⟨scalar, ?_, fun within => ?_, fun beyond => ?_⟩
  · refine written_object ⟨"dpt", _, _⟩ [⟨"value", _, _⟩] ?_
    rw [List.forall_mem_cons, List.forall_mem_singleton]
    exact ⟨⟨keys.1, written_text name⟩, keys.2, written⟩
  · rw [reading.read_tree, family.ofName_name, finite within]
    rfl
  · rw [reading.read_tree, family.ofName_name, infinite beyond]
    rfl

theorem TaggedReading.read_tagged (family : Family) (content : Tree) :
    TaggedReading.read? (.object [(some family.tagName, content)]) =
      (Reading.read? family content).map family.tag := by
  cases family <;> rfl

end

/-! ## Readers -/

namespace Json.Kind

theorem descriptor_alone (family : Family) (member : family.Member) :
    Alone (.descriptor family) member fun other =>
      other.reader (.text (some (family.name member))) := by
  refine ⟨fun _ => family.ofName_name member, nofun, fun other different => ?_⟩
  cases other with
  | descriptor other => exact Family.ofName_other (fun same => different (by rw [same])) member
  | bare other => rfl
  | tagged => rfl

theorem bare_alone {family : Family} (reading : Reading family) : ∃ tree,
    Written reading.write tree ∧ Alone (.bare family) reading fun other => other.reader tree := by
  obtain ⟨scalar, written, finite, infinite⟩ := reading.tree_written
  refine ⟨_, written, fun all => finite (all _ rfl), ?_, fun other different => ?_⟩
  · rintro ⟨_, ⟨⟩, beyond⟩
    exact infinite beyond
  · cases other with
    | descriptor other => rfl
    | bare other => exact Reading.read_other (fun same => different (by rw [same])) reading scalar
    | tagged => rfl

theorem tagged_alone {family : Family} (reading : Reading family) : ∃ tree,
    Written (family.tag reading).write tree ∧
      Alone .tagged (family.tag reading) fun other => other.reader tree := by
  obtain ⟨scalar, written, finite, infinite⟩ := reading.tree_written
  have value := TaggedReading.value_tag reading
  have text : (family.tag reading).write = Json.object [field family.tagName reading.write] := by
    cases family <;> rfl
  have key : Plain family.tagName.toList := by cases family <;> decide
  refine ⟨.object [(some family.tagName, reading.tree scalar)], ?_, fun all => ?_, ?_,
    fun other different => ?_⟩
  · rw [text]
    refine written_object ⟨family.tagName, _, _⟩ [] ?_
    rw [List.forall_mem_singleton]
    exact ⟨key, written⟩
  · have within : reading.value.Finite := value ▸ all _ rfl
    rw [reader, TaggedReading.read_tagged, finite within]
    rfl
  · rintro ⟨_, ⟨⟩, beyond⟩
    rw [value] at beyond
    rw [reader, TaggedReading.read_tagged, infinite beyond]
    rfl
  · cases other with
    | descriptor other => rfl
    | bare other => cases family <;> rfl
    | tagged => exact absurd rfl different

/-- Readers find in a text what they find in the value it was written for. -/
theorem alone_of_written {kind : Kind} {content : kind.Content} {cs : List Char} {tree : Tree}
    (written : Written cs tree) (alone : Alone kind content fun other => other.reader tree) :
    Alone kind content fun other => Json.read? other.reader (String.ofList cs) := by
  have same : ∀ other : Kind, Json.read? other.reader (String.ofList cs) = other.reader tree := by
    intro other
    rw [Json.read?, written_read written]
    rfl
  simpa only [same] using alone

/-- A document is read back as its content by the reader of its kind, scalar and all, and refused by
the readers of all other kinds; one with a number that is not finite is refused by every reader. -/
theorem documents_apart (kind : Kind) (content : kind.Content) : Alone kind content fun other =>
    Json.read? other.reader (String.ofList (kind.write content)) := by
  cases kind with
  | descriptor family =>
    exact alone_of_written (written_text (family.name_plain content))
      (descriptor_alone family content)
  | bare family =>
    obtain ⟨tree, written, alone⟩ := bare_alone content
    exact alone_of_written written alone
  | tagged =>
    have tagged : ∀ {family : Family} (reading : Reading family), Alone .tagged (family.tag reading)
        fun other => Json.read? other.reader (String.ofList (family.tag reading).write) := by
      intro family reading
      obtain ⟨tree, written, alone⟩ := tagged_alone reading
      exact alone_of_written written alone
    cases content with
    | boolean reading => exact tagged reading
    | scaled reading => exact tagged reading
    | float reading => exact tagged reading

end Json.Kind
end KnxDatapoint
