import Sexpr.Json.Symbol

/-!
# Writing JSON

The text of a value is the text of its symbols. The compact form has nothing
between them; the pretty form puts each item and each member on a line of its
own.
-/

namespace Sexpr
namespace Json

/-- The text of a value, without blanks. -/
def compact (j : Json) : String := j.symbols.foldl Symbol.writeTo ""

/-- Starts a new line, indented by two spaces for each open array and object. -/
def newlineTo (out : String) (depth : Nat) : String :=
  (out.push '\n').pushn ' ' (2 * depth)

/-- Writes symbols behind `out`, inside of `depth` arrays and objects. -/
def prettyTo (out : String) (depth : Nat) : List Symbol → String
  | [] => out
  | .openArray :: .closeArray :: rest => prettyTo (out ++ "[]") depth rest
  | .openObject :: .closeObject :: rest => prettyTo (out ++ "\x7b\x7d") depth rest
  | s :: rest =>
      match s with
      | .openArray | .openObject =>
          prettyTo (newlineTo (s.writeTo out) (depth + 1)) (depth + 1) rest
      | .closeArray | .closeObject =>
          prettyTo (s.writeTo (newlineTo out (depth - 1))) (depth - 1) rest
      | .comma => prettyTo (newlineTo (s.writeTo out) depth) depth rest
      | .colon => prettyTo ((s.writeTo out).push ' ') depth rest
      | _ => prettyTo (s.writeTo out) depth rest

/-- The text of a value, a line for each item and member. -/
def pretty (j : Json) : String := prettyTo "" 0 j.symbols

end Json
end Sexpr
