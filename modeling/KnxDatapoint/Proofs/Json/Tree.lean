import KnxDatapoint.Proofs.Json.Token

/-! Values that written text stands for.
A value is built from its tokens in the same way within every array and object, so the parts of a
document are read each for itself. -/
namespace KnxDatapoint.Json.Tree
open Token

/-- Tokens from which a value is built, whatever is still open around it. -/
def Builds (tokens : List Token) (tree : Tree) : Prop :=
  ∀ stack, tokens.foldlM Stage.step? (.value stack) = some (.complete tree stack)

theorem Builds.then {tokens : List Token} {tree : Tree} (builds : Builds tokens tree)
    (stack : List Frame) (rest : List Token) :
    (tokens ++ rest).foldlM Stage.step? (.value stack) =
      rest.foldlM Stage.step? (.complete tree stack) := by
  rw [List.foldlM_append, builds]
  rfl

/-- A text that stands for a value. -/
def Written (cs : List Char) (tree : Tree) : Prop :=
  ∃ tokens, Reads cs tokens ∧ Builds tokens tree

/-- A member of an object as text and as value. -/
structure Entry where
  name : String
  content : List Char
  tree : Tree

def Entry.text (entry : Entry) : List Char := field entry.name entry.content
def Entry.member (entry : Entry) : Option String × Tree := (some entry.name, entry.tree)

/-- A member without escapes in its name, whose content is written for its value. -/
def Entry.Proper (entry : Entry) : Prop :=
  Plain entry.name.toList ∧ Written entry.content entry.tree

theorem written_read {cs : List Char} {tree : Tree} (written : Written cs tree) :
    ofString? (String.ofList cs) = some tree := by
  obtain ⟨tokens, reads, builds⟩ := written
  have found : Token.ofChars? cs = some tokens := by
    have whole := reads [] [] nofun
    rw [List.append_nil, List.append_nil] at whole
    change scan _ _ = _
    rw [whole]
    simp [scan, Scan.finish?]
  have built : ofTokens? tokens = some tree := by
    rw [ofTokens?, builds []]
    rfl
  rw [ofString?, String.toList_ofList, found]
  exact built

theorem written_text {name : String} (plain : Plain name.toList) :
    Written (quoted name) (.text (some name)) :=
  ⟨_, reads_quoted plain, fun _ => rfl⟩

theorem written_truth (state : Bool) : Written (Json.truth state) (.truth state) :=
  ⟨_, reads_truth state, fun _ => rfl⟩

theorem written_null : Written ['n', 'u', 'l', 'l'] .null := ⟨_, reads_null, fun _ => rfl⟩

/-- Tokens that complete an object from the colon of its next member on. -/
def Closes (name : String) (tokens : List Token) (found : List (Option String × Tree)) : Prop :=
  ∀ members stack, tokens.foldlM Stage.step? (.colon members (some name) stack) =
    some (.complete (.object (members.reverse ++ found)) stack)

theorem written_members (entry : Entry) (entries : List Entry)
    (proper : ∀ e ∈ entry :: entries, e.Proper) : ∃ tokens,
      Reads ((((entry :: entries).map Entry.text).intersperse [',']).flatten ++ ['}'])
        (.text (some entry.name) :: tokens) ∧
      Closes entry.name tokens ((entry :: entries).map Entry.member) := by
  induction entries generalizing entry with
  | nil =>
    obtain ⟨plain, content, reads, builds⟩ := proper entry List.mem_cons_self
    have brace : Reads ['}'] [.closeBrace] := reads_nil.cons fun _ => rfl
    refine ⟨.colon :: content ++ [.closeBrace], ?_, fun members stack => ?_⟩
    · simpa [Entry.text] using (reads_field plain reads).append brace (by rintro c ⟨⟩; decide)
    · exact (builds.then (.object members (some entry.name) :: stack) [.closeBrace]).trans
        (by simp [Stage.step?, Entry.member])
  | cons next entries ih =>
    obtain ⟨plain, content, reads, builds⟩ := proper entry List.mem_cons_self
    obtain ⟨tokens, later, closes⟩ := ih next fun e listed =>
      proper e (List.mem_cons_of_mem entry listed)
    refine ⟨.colon :: content ++ .comma :: .text (some next.name) :: tokens, ?_,
      fun members stack => ?_⟩
    · have comma : Reads (',' :: _) _ := later.cons fun _ => rfl
      simpa [Entry.text] using (reads_field plain reads).append comma (by rintro c ⟨⟩; decide)
    · have first := builds.then (.object members (some entry.name) :: stack)
        (.comma :: .text (some next.name) :: tokens)
      have others := closes (entry.member :: members) stack
      calc _ = _ := first
        _ = _ := others
        _ = _ := by simp

theorem written_object (entry : Entry) (entries : List Entry)
    (proper : ∀ e ∈ entry :: entries, e.Proper) :
    Written (Json.object ((entry :: entries).map Entry.text))
      (.object ((entry :: entries).map Entry.member)) := by
  obtain ⟨tokens, reads, closes⟩ := written_members entry entries proper
  exact ⟨.openBrace :: .text (some entry.name) :: tokens, reads.cons fun _ => rfl, closes []⟩

end KnxDatapoint.Json.Tree
