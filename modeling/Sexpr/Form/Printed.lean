import Sexpr.Binary64.Text
import Sexpr.Form.Basic

/-!
# The printed text of forms

A list is printed in brackets, its items separated by single spaces; a text
stands in quotes, a number and an atom as they are. `Form.print` needs no stack
of its own: the lists that are still open are frames in a list, so a form of any
depth can be printed. `Form.plain` gives the same text by recursion on the tree.
-/

namespace Sexpr
namespace Form

/-! ## By frames -/

/-- The text of a scalar. -/
def scalarText : Form → String
  | .number value => value.text
  | .text content => "\"" ++ content ++ "\""
  | .atom name => name
  | .list _ => ""

/-- What is left of an open list: the items to print, and whether none of its
items has been printed yet. -/
structure Frame where
  items : List Form
  fresh : Bool

/-- The space in front of the next item. -/
def Frame.space (fresh : Bool) : String := if fresh then "" else " "

/-- A printer at work: the text so far, the form that it has come to, and what is
left of the open lists, innermost first. -/
structure Printer where
  out : String
  next : Option Form
  frames : List Frame

namespace Printer

/-- Prints the form that it has come to; of a list the bracket, and the list is
open then. -/
def enter (p : Printer) : Printer :=
  match p with
  | ⟨out, none, frames⟩ => ⟨out, none, frames⟩
  | ⟨out, some (.list items), frames⟩ => ⟨out ++ "(", none, ⟨items, true⟩ :: frames⟩
  | ⟨out, some scalar, frames⟩ => ⟨out ++ scalar.scalarText, none, frames⟩

/-- One round. Behind the form at hand, the printer comes to the next item of the
innermost list or, behind the last one, closes the list; if no list is open, the
text is complete. -/
def round (p : Printer) : String ⊕ Printer :=
  match p.enter with
  | ⟨out, _, []⟩ => .inl out
  | ⟨out, _, ⟨[], _⟩ :: frames⟩ => .inr ⟨out ++ ")", none, frames⟩
  | ⟨out, _, ⟨f :: rest, fresh⟩ :: frames⟩ =>
      .inr ⟨out ++ Frame.space fresh, some f, ⟨rest, false⟩ :: frames⟩

/-- What is left to print: the form at hand, and the items of the open lists. -/
noncomputable def left (p : Printer) : Nat :=
  p.next.elim 0 sizeOf + p.frames.foldr (fun frame n => 1 + sizeOf frame.items + n) 0

theorem left_enter_le (p : Printer) : p.enter.left ≤ p.left := by
  unfold enter
  split <;> simp [left]

/-- A round leaves less to print. -/
theorem left_lt {p q : Printer} (h : p.round = .inr q) : q.left < p.left := by
  apply Nat.lt_of_lt_of_le _ p.left_enter_le
  unfold round at h
  split at h
  · cases h
  · next henter =>
    cases h
    rw [henter]
    simp [left]
    omega
  · next henter =>
    cases h
    rw [henter]
    simp [left]
    omega

/-- Prints all that is left. -/
def run (p : Printer) : String :=
  match _h : p.round with
  | .inl out => out
  | .inr q => q.run
termination_by p.left
decreasing_by exact left_lt _h

end Printer

/-- Prints a form behind `out`. -/
def printTo (out : String) (f : Form) : String := Printer.run ⟨out, some f, []⟩

def print (f : Form) : String := f.printTo ""

/-- Prints forms behind `out`, each after the separator but the first. -/
def printAllTo (separator : String) (out : String) : List Form → String
  | [] => out
  | [f] => f.printTo out
  | f :: fs => printAllTo separator (f.printTo out ++ separator) fs

/-- A form a line. -/
def printAll (fs : List Form) : String := printAllTo "\n" "" fs

/-- The forms as the items of one list. -/
def printList (fs : List Form) : String := printAllTo " " "(" fs ++ ")"

/-! ## By recursion -/

mutual

/-- The printed text of a form. -/
def plainT : Form → String
  | .list items => "(" ++ " ".intercalate (plainF items) ++ ")"
  | .number value => value.text
  | .text content => "\"" ++ content ++ "\""
  | .atom name => name

def plainF : List Form → List String
  | [] => []
  | f :: fs => plainT f :: plainF fs

end

end Form
end Sexpr
