import Sexpr.Binary64.Text
import Sexpr.Fault
import Sexpr.Form.Basic
import Sexpr.Token

/-!
# Forms from tokens

The forms of a row of tokens, in one pass and without recursion on the trees. All
finished forms wait in one row, whatever list they belong to; a mark for each
open bracket remembers how long the row was when the bracket opened. A closing
bracket cuts the row there, and what was cut off becomes one list.
-/

namespace Sexpr

/-- An open bracket: how many forms were finished before it, and its place. -/
structure Mark where
  depth : Nat
  bracket : Position
deriving DecidableEq, Inhabited, Repr

structure Builder where
  /-- The finished forms, oldest first. -/
  values : Array Form
  /-- The open brackets, innermost first. -/
  marks : List Mark
deriving DecidableEq, Inhabited, Repr

namespace Builder

def empty : Builder := ⟨#[], []⟩

def push (b : Builder) (f : Form) : Builder := { b with values := b.values.push f }

/-- Cuts the row of finished forms at `depth`; the cut part becomes a list. -/
def close (b : Builder) (depth : Nat) (marks : List Mark) : Builder :=
  let items := (b.values.extract depth).toList
  ⟨(b.values.shrink depth).push (.list items), marks⟩

/-- Reads one token. -/
def step (b : Builder) (t : Token) : Except BuildFault Builder :=
  match t.kind with
  | .leftBracket => .ok { b with marks := ⟨b.values.size, t.position⟩ :: b.marks }
  | .rightBracket =>
      match b.marks with
      | [] => .error (.unmatchedClose t.position)
      | mark :: marks => .ok (b.close mark.depth marks)
  | .identifier => .ok (b.push (.atom t.text))
  | .text => .ok (b.push (.text t.text))
  | .number =>
      match Binary64.ofText? t.text with
      | some (.finite negative m) => .ok (b.push (.number (.finite negative m)))
      | _ => .error (.badNumber t.text t.position)

/-- Reads tokens up to the first fault. -/
def steps (b : Builder) (ts : List Token) : Except BuildFault Builder := ts.foldlM step b

/-- The end of the tokens: no bracket may be open. -/
def finish (b : Builder) : Except BuildFault (List Form) :=
  match b.marks with
  | [] => .ok b.values.toList
  | marks => .error (.unclosed (marks.reverse.map Mark.bracket))

end Builder

/-- The forms of a row of tokens. -/
def Form.ofTokens (ts : List Token) : Except BuildFault (List Form) := do
  (← Builder.empty.steps ts).finish

end Sexpr
