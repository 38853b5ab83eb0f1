import Sexpr.Position

/-!
# Tokens

What a source is cut into: brackets, texts in quotes, numbers and names, each
with the place where it begins.
-/

namespace Sexpr

/-- What a token is. -/
inductive TokenKind where
  | leftBracket
  | rightBracket
  | text
  | number
  | identifier
deriving DecidableEq, Inhabited, Repr

/-- The name of a kind of token, as it is shown to a reader. -/
def TokenKind.label : TokenKind → String
  | .leftBracket => "left-bracket"
  | .rightBracket => "right-bracket"
  | .text => "string-literal"
  | .number => "number-literal"
  | .identifier => "identifier"

/-- A token; the text of a quoted token is what stands between its quotes. -/
structure Token where
  kind : TokenKind
  text : String
  position : Position
deriving DecidableEq, Inhabited, Repr

namespace Token

/-- The characters that spell a token in a source. -/
def spelling (t : Token) : List Char :=
  match t.kind with
  | .text => '"' :: t.text.toList ++ ['"']
  | _ => t.text.toList

end Token
end Sexpr
