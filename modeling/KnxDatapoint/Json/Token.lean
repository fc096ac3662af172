import KnxDatapoint.Json.Numeral

/-! The tokens of a document, found by reading it character by character.
Words and numbers end where a character no longer belongs to them. A text whose escapes name half of
a surrogate pair is a token without content. -/
namespace KnxDatapoint.Json

inductive Token where
  | openBrace
  | closeBrace
  | openBracket
  | closeBracket
  | comma
  | colon
  | null
  | truth (value : Bool)
  | number (numeral : Numeral)
  | text (content : Option String)
  deriving DecidableEq

namespace Token

/-- The characters that a sequence of code points and surrogates stands for. -/
def joinSurrogates : List Nat → Option (List Char)
  | [] => some []
  | unit :: rest =>
    if 0xD800 ≤ unit ∧ unit < 0xDC00 then
      match rest with
      | low :: rest =>
        if 0xDC00 ≤ low ∧ low < 0xE000 then
          (joinSurrogates rest).map
            (Char.ofNat (0x10000 + (unit - 0xD800) * 0x400 + (low - 0xDC00)) :: ·)
        else none
      | [] => none
    else if 0xDC00 ≤ unit ∧ unit < 0xE000 then none
    else (joinSurrogates rest).map (Char.ofNat unit :: ·)

/-- Where a scan stands; what has been read of an unfinished token is kept in reverse. -/
inductive Mode where
  | between
  | word (letters : List Char)
  | number (chars : List Char)
  | text (units : List Nat)
  | escape (units : List Nat)
  | hex (units : List Nat) (read code : Nat)
  deriving DecidableEq

/-- A scan: its mode and the finished tokens, the last one first. -/
structure Scan where
  mode : Mode
  tokens : List Token
  deriving DecidableEq

def word? : List Char → Option Token
  | ['n', 'u', 'l', 'l'] => some .null
  | ['t', 'r', 'u', 'e'] => some (.truth true)
  | ['f', 'a', 'l', 's', 'e'] => some (.truth false)
  | _ => none

def isNumberPart (c : Char) : Bool := c.isDigit || c ∈ ['-', '+', '.', 'e', 'E']

/-- The code of an escape of a single letter. -/
def escaped? : Char → Option Nat
  | '"' => some '"'.toNat
  | '\\' => some '\\'.toNat
  | '/' => some '/'.toNat
  | 'b' => some 8
  | 'f' => some 12
  | 'n' => some 10
  | 'r' => some 13
  | 't' => some 9
  | _ => none

def hexValue? (c : Char) : Option Nat :=
  if c.isDigit then some (c.toNat - '0'.toNat)
  else if 'a' ≤ c ∧ c ≤ 'f' then some (c.toNat - 'a'.toNat + 10)
  else if 'A' ≤ c ∧ c ≤ 'F' then some (c.toNat - 'A'.toNat + 10)
  else none

namespace Scan

/-- A character that begins a token, or stands between tokens. -/
def start? (tokens : List Token) (c : Char) : Option Scan :=
  match c with
  | ' ' => some ⟨.between, tokens⟩
  | '\n' => some ⟨.between, tokens⟩
  | '\t' => some ⟨.between, tokens⟩
  | '\r' => some ⟨.between, tokens⟩
  | '{' => some ⟨.between, .openBrace :: tokens⟩
  | '}' => some ⟨.between, .closeBrace :: tokens⟩
  | '[' => some ⟨.between, .openBracket :: tokens⟩
  | ']' => some ⟨.between, .closeBracket :: tokens⟩
  | ',' => some ⟨.between, .comma :: tokens⟩
  | ':' => some ⟨.between, .colon :: tokens⟩
  | '"' => some ⟨.text [], tokens⟩
  | c =>
    if c.isDigit ∨ c = '-' then some ⟨.number [c], tokens⟩
    else if c.isLower then some ⟨.word [c], tokens⟩
    else none

def step? (scan : Scan) (c : Char) : Option Scan :=
  match scan.mode with
  | .between => start? scan.tokens c
  | .word letters =>
    if c.isLower then some ⟨.word (c :: letters), scan.tokens⟩
    else (word? letters.reverse).bind fun token => start? (token :: scan.tokens) c
  | .number chars =>
    if isNumberPart c then some ⟨.number (c :: chars), scan.tokens⟩
    else (Numeral.ofChars? chars.reverse).bind fun numeral =>
      start? (.number numeral :: scan.tokens) c
  | .text units =>
    if c = '"' then
      some ⟨.between, .text ((joinSurrogates units.reverse).map String.ofList) :: scan.tokens⟩
    else if c = '\\' then some ⟨.escape units, scan.tokens⟩
    else if c < ' ' then none
    else some ⟨.text (c.toNat :: units), scan.tokens⟩
  | .escape units =>
    if c = 'u' then some ⟨.hex units 0 0, scan.tokens⟩
    else (escaped? c).map fun code => ⟨.text (code :: units), scan.tokens⟩
  | .hex units read code =>
    (hexValue? c).map fun digit =>
      if read = 3 then ⟨.text ((code * 16 + digit) :: units), scan.tokens⟩
      else ⟨.hex units (read + 1) (code * 16 + digit), scan.tokens⟩

/-- The tokens of a scan at the end of the document. -/
def finish? (scan : Scan) : Option (List Token) :=
  match scan.mode with
  | .between => some scan.tokens.reverse
  | .word letters => (word? letters.reverse).map fun token => (token :: scan.tokens).reverse
  | .number chars =>
    (Numeral.ofChars? chars.reverse).map fun numeral => (.number numeral :: scan.tokens).reverse
  | _ => none

end Scan

def ofChars? (cs : List Char) : Option (List Token) :=
  (cs.foldlM Scan.step? ⟨.between, []⟩).bind Scan.finish?

end Token
end KnxDatapoint.Json
