import Sexpr.Json.Reader

/-!
# Records in JSON

A record with named fields is an object, or an array with the fields in their
order. Keys that name no field are passed over, and a field may be left out; but
no field may be given twice, and an array may not be longer than the record.
-/

namespace Sexpr
namespace Json

/-- The value of the field `name`, if it is given; two values are refused. -/
def field? (members : Members) (name : String) : Option (Option Json) :=
  match members.filter (·.1 = some name) with
  | [] => some none
  | [(_, value)] => some (some value)
  | _ => none

/-- The fields of a record, in the order of `names`. -/
def fields? (names : List String) : Json → Option (List (Option Json))
  | .array items =>
      if items.length ≤ names.length then
        some (items.map some ++ List.replicate (names.length - items.length) none)
      else none
  | .object members =>
      if members.all (·.1.isSome) then names.mapM (field? members) else none
  | _ => none

/-- A field that is left out has a default. -/
def fieldD {α : Type} (read : Json → Option α) (default : α) : Option Json → Option α
  | none => some default
  | some value => read value

def text? : Json → Option String
  | .text content => content
  | _ => none

def bool? : Json → Option Bool
  | .bool value => some value
  | _ => none

/-- A natural number below `2 ^ 64`, written with digits alone. -/
def natural? : Json → Option Nat
  | .number ⟨false, whole, [], none⟩ =>
      let value := Nat.ofDigitChars 10 whole 0
      if value < Nat.pow 2 64 then some value else none
  | _ => none

/-- The name of a plain choice: a string, or an object with that key and null. -/
def choice? : Json → Option String
  | .text content => content
  | .object [(key, .null)] => key
  | _ => none

end Json
end Sexpr
