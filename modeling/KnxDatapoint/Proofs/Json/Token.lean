import KnxDatapoint.Json.Document

/-! Tokens of written text.
A written part is found again as its tokens wherever it stands, as long as no letter, digit or sign
follows it: words and numbers end only there. -/
namespace KnxDatapoint.Json.Token

/-- The tokens found from a point of the scan to the end of the text. -/
def scan (start : Scan) (cs : List Char) : Option (List Token) :=
  (cs.foldlM Scan.step? start).bind Scan.finish?

/-- Text at which a word or a number ends. -/
def Delimited (cs : List Char) : Prop :=
  ∀ c ∈ cs.head?, c.isLower = false ∧ isNumberPart c = false

/-- A text that is found again as certain tokens. -/
def Reads (cs : List Char) (found : List Token) : Prop :=
  ∀ tokens rest, Delimited rest →
    scan ⟨.between, tokens⟩ (cs ++ rest) = scan ⟨.between, found.reverse ++ tokens⟩ rest

section
variable {cs cs' rest : List Char} {found found' tokens : List Token} {token : Token}

theorem scan_cons (start : Scan) (c : Char) (cs : List Char) :
    scan start (c :: cs) = (Scan.step? start c).bind fun next => scan next cs := by
  simp [scan, List.foldlM_cons, Option.bind_assoc]

theorem delimited_append (first : Delimited cs) (second : Delimited rest) :
    Delimited (cs ++ rest) := by
  cases cs with
  | nil => exact second
  | cons c cs => exact first

theorem Reads.append (first : Reads cs found) (second : Reads cs' found')
    (apart : Delimited cs') : Reads (cs ++ cs') (found ++ found') := by
  intro tokens rest delimited
  rw [List.append_assoc, first _ _ (delimited_append apart delimited), second _ _ delimited,
    List.reverse_append, List.append_assoc]

/-- A token of one character ends by itself. -/
theorem Reads.cons {c : Char}
    (single : ∀ tokens, Scan.start? tokens c = some ⟨.between, token :: tokens⟩)
    (reads : Reads cs found) : Reads (c :: cs) (token :: found) := by
  intro tokens rest delimited
  have next : Scan.step? ⟨.between, tokens⟩ c = some ⟨.between, token :: tokens⟩ := single tokens
  rw [List.cons_append, scan_cons, next, Option.bind_some, reads _ _ delimited]
  simp

theorem reads_nil : Reads [] [] := fun _ _ _ => rfl

/-- Characters that leave a scan in its mode are kept one after the other. -/
theorem scan_run {α : Type} (mode : List α → Mode) (f : Char → α)
    (stays : ∀ c ∈ cs, ∀ kept, Scan.step? ⟨mode kept, tokens⟩ c = some ⟨mode (f c :: kept), tokens⟩)
    (kept : List α) :
    scan ⟨mode kept, tokens⟩ (cs ++ rest) =
      scan ⟨mode ((cs.map f).reverse ++ kept), tokens⟩ rest := by
  induction cs generalizing kept with
  | nil => rfl
  | cons c cs ih =>
    rw [List.cons_append, scan_cons, stays c List.mem_cons_self, Option.bind_some,
      ih fun d listed => stays d (List.mem_cons_of_mem c listed)]
    simp

/-- A token that ends where the next one begins, or with the text. -/
theorem scan_end {mode : Mode} (delimited : Delimited rest)
    (stops : ∀ c, c.isLower = false → isNumberPart c = false →
      Scan.step? ⟨mode, tokens⟩ c = Scan.step? ⟨.between, token :: tokens⟩ c)
    (finishes : Scan.finish? ⟨mode, tokens⟩ = some (token :: tokens).reverse) :
    scan ⟨mode, tokens⟩ rest = scan ⟨.between, token :: tokens⟩ rest := by
  cases rest with
  | nil => exact finishes
  | cons c rest =>
    obtain ⟨letter, part⟩ := delimited c rfl
    rw [scan_cons, scan_cons, stops c letter part]

/-! ## Words and numbers -/

theorem scan_word (letters : List Char) (word : word? letters.reverse = some token)
    (delimited : Delimited rest) :
    scan ⟨.word letters, tokens⟩ rest = scan ⟨.between, token :: tokens⟩ rest := by
  refine scan_end delimited (fun c letter _ => ?_) ?_
  · simp [Scan.step?, word, letter]
  · simp [Scan.finish?, word]

theorem reads_truth (state : Bool) : Reads (Json.truth state) [.truth state] := by
  intro tokens rest delimited
  cases state with
  | false => exact scan_word ['e', 's', 'l', 'a', 'f'] rfl delimited
  | true => exact scan_word ['e', 'u', 'r', 't'] rfl delimited

theorem reads_null : Reads ['n', 'u', 'l', 'l'] [.null] := by
  intro tokens rest delimited
  exact scan_word ['l', 'l', 'u', 'n'] rfl delimited

theorem start_number {c : Char} (head : c.isDigit ∨ c = '-') :
    Scan.step? ⟨.between, tokens⟩ c = some ⟨.number [c], tokens⟩ := by
  simp only [Scan.step?, Scan.start?]
  split
  all_goals try exact absurd head (by decide)
  exact if_pos head

theorem reads_number {c : Char} {numeral : Numeral} (head : c.isDigit ∨ c = '-')
    (parts : ∀ d ∈ cs, isNumberPart d) (read : Numeral.ofChars? (c :: cs) = some numeral) :
    Reads (c :: cs) [.number numeral] := by
  intro tokens rest delimited
  rw [List.cons_append, scan_cons, start_number head, Option.bind_some,
    scan_run .number id fun d listed kept => by simp [Scan.step?, parts d listed], List.map_id]
  refine scan_end delimited (fun d _ part => ?_) ?_
  · simp [Scan.step?, read, part]
  · simp [Scan.finish?, read]

/-! ## Names -/

/-- A text that is written without escapes. -/
def Plain (cs : List Char) : Prop := ∀ c ∈ cs, c ≠ '"' ∧ c ≠ '\\' ∧ ¬ c < ' '

instance (cs : List Char) : Decidable (Plain cs) := List.decidableBAll _ cs

theorem joinSurrogates_chars (cs : List Char) : joinSurrogates (cs.map Char.toNat) = some cs := by
  induction cs with
  | nil => rfl
  | cons c cs ih =>
    have valid : c.toNat < 0xD800 ∨ 0xDFFF < c.toNat := c.valid.imp_right And.left
    have high : ¬ (0xD800 ≤ c.toNat ∧ c.toNat < 0xDC00) := by omega
    have low : ¬ (0xDC00 ≤ c.toNat ∧ c.toNat < 0xE000) := by omega
    simp only [List.map_cons]
    rw [joinSurrogates.eq_def]
    simp only [if_neg high, if_neg low, ih]
    simp

theorem reads_quoted {name : String} (plain : Plain name.toList) :
    Reads (quoted name) [.text (some name)] := by
  intro tokens rest delimited
  have opening : Scan.step? ⟨.between, tokens⟩ '"' = some ⟨.text [], tokens⟩ := rfl
  have closing : Scan.step? ⟨.text ((name.toList.map Char.toNat).reverse ++ []), tokens⟩ '"' =
      some ⟨.between, .text (some name) :: tokens⟩ := by
    simp [Scan.step?, joinSurrogates_chars]
  have kept : ∀ c ∈ name.toList, ∀ units, Scan.step? ⟨.text units, tokens⟩ c =
      some ⟨.text (c.toNat :: units), tokens⟩ := by
    intro c listed units
    obtain ⟨quote, escape, printed⟩ := plain c listed
    simp [Scan.step?, quote, escape, printed]
  rw [quoted, List.cons_append, List.cons_append, List.append_assoc, scan_cons, opening,
    Option.bind_some, scan_run .text Char.toNat kept, List.singleton_append, scan_cons, closing]
  rfl

theorem reads_field {name : String} (plain : Plain name.toList) (content : Reads cs found) :
    Reads (field name cs) (.text (some name) :: .colon :: found) := by
  have colon : Delimited (':' :: cs) := by
    rintro c ⟨⟩
    decide
  exact (reads_quoted plain).append (content.cons fun _ => rfl) colon

end
end KnxDatapoint.Json.Token
