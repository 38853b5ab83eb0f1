import Sexpr.Json.Record
import Sexpr.Token

/-!
# Tokens in JSON

Tokens and their places are records, and no field may be left out.
-/

namespace Sexpr

/-- Reads a place in a text. -/
def Position.ofJson? (j : Json) : Option Position := do
  let [some offset, some line, some column] ←
    Json.fields? ["offset", "line", "column"] j | none
  return ⟨← offset.natural?, ← line.natural?, ← column.natural?⟩

/-- The kind of token that has this name in JSON. -/
def TokenKind.ofName? : String → Option TokenKind
  | "LeftBracket" => some .leftBracket
  | "RightBracket" => some .rightBracket
  | "String" => some .text
  | "Number" => some .number
  | "Identifier" => some .identifier
  | _ => none

/-- Reads a token. -/
def Token.ofJson? (j : Json) : Option Token := do
  let [some kind, some text, some position] ←
    Json.fields? ["kind", "text", "position"] j | none
  let kind ← TokenKind.ofName? (← kind.choice?)
  return ⟨kind, ← text.text?, ← Position.ofJson? position⟩

end Sexpr
