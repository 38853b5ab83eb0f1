/-!
# Positions in a text

A position is a count of characters from the start of the text, with the line
and the column of the character it names. Only a line feed starts a new line.
-/

namespace Sexpr

/-- A place in a text: characters before it (from 0), line and column (from 1). -/
structure Position where
  offset : Nat
  line : Nat
  column : Nat
deriving DecidableEq, Inhabited, Repr

namespace Position

/-- The place of the first character. -/
def start : Position := ⟨0, 1, 1⟩

/-- The place right behind the character `c`. -/
def next (p : Position) (c : Char) : Position :=
  if c = '\n' then ⟨p.offset + 1, p.line + 1, 1⟩
  else ⟨p.offset + 1, p.line, p.column + 1⟩

/-- The place right behind the characters `cs`. -/
def after (p : Position) (cs : List Char) : Position := cs.foldl next p

/-- The written form of a position. -/
def text (p : Position) : String :=
  s!"{p.offset} (line {p.line}, column {p.column})"

/-- The written form of several positions, in their order. -/
def listText (ps : List Position) : String := ", ".intercalate (ps.map text)

@[simp] theorem after_nil (p : Position) : p.after [] = p := rfl

@[simp] theorem after_cons (p : Position) (c : Char) (cs : List Char) :
    p.after (c :: cs) = (p.next c).after cs := rfl

end Position
end Sexpr
