import Sexpr.Json.Symbol

/-!
# Reading JSON

A row of symbols is read one symbol at a time. What has been read of the open
arrays and objects is kept in frames, so a text of any depth can be read.
-/

namespace Sexpr
namespace Json

abbrev Members := List (Option String × Json)

/-- An array or object in the middle of which a value stands. What comes before
that value is `done`, newest first. -/
inductive Frame where
  | array (done : List Json)
  | object (done : Members) (key : Option String)
deriving Repr

/-- What has been read, and what may follow. -/
inductive Reading where
  /-- A value. -/
  | needValue (outer : List Frame)
  /-- The first item of an array, or its end. -/
  | arrayStart (outer : List Frame)
  /-- A comma, or the end of an array. -/
  | itemEnd (done : List Json) (outer : List Frame)
  /-- The first key of an object, or its end. -/
  | objectStart (outer : List Frame)
  /-- A key. -/
  | needKey (done : Members) (outer : List Frame)
  /-- The colon behind a key. -/
  | needColon (done : Members) (key : Option String) (outer : List Frame)
  /-- A comma, or the end of an object. -/
  | memberEnd (done : Members) (outer : List Frame)
  /-- Nothing. -/
  | complete (value : Json)
deriving Repr

namespace Reading

/-- A value has been read inside of `outer`. -/
def deliver (j : Json) : List Frame → Reading
  | [] => .complete j
  | .array done :: outer => .itemEnd (j :: done) outer
  | .object done key :: outer => .memberEnd ((key, j) :: done) outer

/-- A value begins with the symbol `s`. -/
def begin? (outer : List Frame) (s : Symbol) : Option Reading :=
  match s with
  | .null => some (deliver .null outer)
  | .bool value => some (deliver (.bool value) outer)
  | .number numeral => some (deliver (.number numeral) outer)
  | .text content => some (deliver (.text content) outer)
  | .openArray => some (.arrayStart outer)
  | .openObject => some (.objectStart outer)
  | .closeArray | .closeObject | .comma | .colon => none

/-- Reads one symbol. -/
def step? (r : Reading) (s : Symbol) : Option Reading :=
  match r, s with
  | .needValue outer, s => begin? outer s
  | .arrayStart outer, .closeArray => some (deliver (.array []) outer)
  | .arrayStart outer, s => begin? (.array [] :: outer) s
  | .itemEnd done outer, .comma => some (.needValue (.array done :: outer))
  | .itemEnd done outer, .closeArray => some (deliver (.array done.reverse) outer)
  | .objectStart outer, .closeObject => some (deliver (.object []) outer)
  | .objectStart outer, .text key => some (.needColon [] key outer)
  | .needKey done outer, .text key => some (.needColon done key outer)
  | .needColon done key outer, .colon => some (.needValue (.object done key :: outer))
  | .memberEnd done outer, .comma => some (.needKey done outer)
  | .memberEnd done outer, .closeObject => some (deliver (.object done.reverse) outer)
  | _, _ => none

end Reading

/-- The value whose symbols these are. -/
def ofSymbols? (symbols : List Symbol) : Option Json :=
  match symbols.foldlM Reading.step? (.needValue []) with
  | some (.complete j) => some j
  | _ => none

/-- Reads a JSON text. -/
def read? (text : String) : Option Json := (symbols? text).bind ofSymbols?

end Json
end Sexpr
