import KnxDatapoint.Json.Token

/-! The values of a document, built from its tokens one at a time.
A stack keeps the arrays and objects that are still open, so the build is a plain fold: it needs no
bound on depth, and it ends with exactly one value or not at all. -/
namespace KnxDatapoint.Json

inductive Tree where
  | null
  | truth (value : Bool)
  | number (numeral : Numeral)
  | text (content : Option String)
  | array (elements : List Tree)
  | object (members : List (Option String × Tree))

namespace Tree

/-- An array or object that is still open, its finished parts in reverse. -/
inductive Frame where
  | array (elements : List Tree)
  | object (members : List (Option String × Tree)) (key : Option String)

/-- What may come next, and the frames around it. -/
inductive Stage where
  | value (stack : List Frame)
  | element (stack : List Frame)
  | firstKey (stack : List Frame)
  | key (members : List (Option String × Tree)) (stack : List Frame)
  | colon (members : List (Option String × Tree)) (key : Option String) (stack : List Frame)
  | complete (tree : Tree) (stack : List Frame)

namespace Stage

/-- A token that begins a value. -/
def start? (stack : List Frame) : Token → Option Stage
  | .null => some (.complete .null stack)
  | .truth state => some (.complete (.truth state) stack)
  | .number numeral => some (.complete (.number numeral) stack)
  | .text content => some (.complete (.text content) stack)
  | .openBracket => some (.element stack)
  | .openBrace => some (.firstKey stack)
  | _ => none

def step? : Stage → Token → Option Stage
  | .value stack, token => start? stack token
  | .element stack, .closeBracket => some (.complete (.array []) stack)
  | .element stack, token => start? (.array [] :: stack) token
  | .firstKey stack, .closeBrace => some (.complete (.object []) stack)
  | .firstKey stack, .text name => some (.colon [] name stack)
  | .key members stack, .text name => some (.colon members name stack)
  | .colon members name stack, .colon => some (.value (.object members name :: stack))
  | .complete tree (.array elements :: stack), .comma =>
    some (.value (.array (tree :: elements) :: stack))
  | .complete tree (.array elements :: stack), .closeBracket =>
    some (.complete (.array (tree :: elements).reverse) stack)
  | .complete tree (.object members name :: stack), .comma =>
    some (.key ((name, tree) :: members) stack)
  | .complete tree (.object members name :: stack), .closeBrace =>
    some (.complete (.object ((name, tree) :: members).reverse) stack)
  | _, _ => none

def finish? : Stage → Option Tree
  | .complete tree [] => some tree
  | _ => none

end Stage

def ofTokens? (tokens : List Token) : Option Tree :=
  (tokens.foldlM Stage.step? (.value [])).bind Stage.finish?

/-- The value of a whole document. -/
def ofString? (text : String) : Option Tree :=
  (Token.ofChars? text.toList).bind ofTokens?

end Tree
end KnxDatapoint.Json
