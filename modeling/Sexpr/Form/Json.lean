import Sexpr.Form.Basic
import Sexpr.Json.Number
import Sexpr.Json.Record
import Sexpr.Json.Written

/-!
# Forms in JSON

A form is an object with one key that names its kind. Writing always succeeds;
reading refuses a text in which more than 127 arrays and objects are open at a
time, and numbers that are not finite have no text to be read back from.
-/

namespace Sexpr
namespace Form

/-! ## Writing -/

mutual

def toJsonT : Form → Json
  | .number value => .record [("Number", value.toJson)]
  | .text content => .record [("String", .string content)]
  | .atom name => .record [("Atom", .string name)]
  | .list items => .record [("List", .array (toJsonF items))]

def toJsonF : List Form → List Json
  | [] => []
  | f :: fs => toJsonT f :: toJsonF fs

end

/-- The JSON text of forms, over several lines. -/
def prettyJson (fs : List Form) : String := (Json.array (toJsonF fs)).pretty

/-! ## Reading -/

mutual

/-- Reads a form; `room` is how many arrays and objects may still be opened. -/
def ofJsonT? (room : Nat) : Json → Option Form
  | .object [(some key, value)] =>
      match room, key, value with
      | _ + 1, "Number", .number numeral =>
          (Binary64.ofJsonNumeral? numeral).map .number
      | _ + 1, "String", .text (some content) => some (.text content)
      | _ + 1, "Atom", .text (some name) => some (.atom name)
      | room + 2, "List", .array items => (ofJsonF? room items).map .list
      | _, _, _ => none
  | _ => none

def ofJsonF? (room : Nat) : List Json → Option (List Form)
  | [] => some []
  | j :: js =>
      match ofJsonT? room j, ofJsonF? room js with
      | some f, some fs => some (f :: fs)
      | _, _ => none

end

/-- How many arrays and objects may be open at a time. -/
def jsonRoom : Nat := 127

/-- Reads a JSON text that holds an array of forms. -/
def ofJsonText? (text : String) : Option (List Form) :=
  match Json.read? text with
  | some (.array items) => ofJsonF? (jsonRoom - 1) items
  | _ => none

end Form
end Sexpr
