import Sexpr.Numeral

/-!
# JSON values

A value as its text spells it: numbers keep their digits, the members of an
object keep their order, and a key can occur twice. The escapes of a string can
name half of a surrogate pair, and then it spells no text; all strings of this
kind count as one, `text none`.
-/

namespace Sexpr

inductive Json where
  | null
  | bool (value : Bool)
  | number (numeral : Numeral)
  | text (content : Option String)
  | array (items : List Json)
  | object (members : List (Option String × Json))
deriving Inhabited, Repr

namespace Json

/-- A string that spells a text. -/
def string (content : String) : Json := .text (some content)

/-- An object whose keys are texts. -/
def record (members : List (String × Json)) : Json :=
  .object (members.map fun (key, value) => (some key, value))

/-- An integer without point and exponent. -/
def integer (n : Int) : Json :=
  .number ⟨n < 0, Nat.toDigits 10 n.natAbs, [], none⟩

end Json
end Sexpr
