import Mathlib
import Sexpr.Form.Basic

/-!
# JavaScript programs as trees

The expressions and declarations that programs are made of here, and the one that a
form stands for. Nothing depends on how either of them is written.
-/

namespace Sexpr
namespace JavaScript

/-! ## Names -/

/-- The letters beyond ASCII: those that a name may begin with, and those that may
only stand further on. -/
structure Letters where
  start : Char → Bool
  part : Char → Bool

namespace Letters

variable (letters : Letters)

def isStart (c : Char) : Bool :=
  c.isAlpha || c = '$' || c = '_' || (0x80 ≤ c.toNat && letters.start c)

def isPart (c : Char) : Bool :=
  letters.isStart c || c.isDigit || (0x80 ≤ c.toNat && letters.part c)

/-- A word, written without escapes: a name or a reserved word. -/
def isWord : List Char → Bool
  | [] => false
  | c :: cs => letters.isStart c && cs.all letters.isPart

end Letters

/-- The words that are no names. -/
def reserved : List String :=
  ["await", "break", "case", "catch", "class", "const", "continue", "debugger", "default",
    "delete", "do", "else", "enum", "export", "extends", "false", "finally", "for",
    "function", "if", "import", "in", "instanceof", "new", "null", "return", "super",
    "switch", "this", "throw", "true", "try", "typeof", "var", "void", "while", "with",
    "yield"]

def Letters.isName (letters : Letters) (name : String) : Bool :=
  letters.isWord name.toList && !reserved.contains name

theorem Letters.isName_iff {letters : Letters} {name : String} : letters.isName name = true ↔
    letters.isWord name.toList = true ∧ reserved.contains name = false := by
  rw [isName, Bool.and_eq_true, Bool.not_eq_true']

/-! ## Expressions -/

inductive Operator where
  | times
  | over
  | plus
  | minus
  | atMost
  | atLeast
  | same
deriving DecidableEq, Inhabited, Repr

namespace Operator

/-- How tightly an operator binds: products, then sums, then comparisons, then
equality. -/
def tightness : Operator → Nat
  | .times | .over => 4
  | .plus | .minus => 3
  | .atMost | .atLeast => 2
  | .same => 1

end Operator

inductive Expression where
  | name (name : String)
  | number (value : Binary64)
  | text (content : String)
  | null
  | negative (operand : Expression)
  | call (callee : Expression) (arguments : List Expression)
  | operation (operator : Operator) (left right : Expression)
  | conditional (test yes no : Expression)
  | function (parameters : List String) (body : Expression)
deriving Inhabited, Repr

inductive Statement where
  | expression (value : Expression)
  | declaration (name : String) (value : Expression)
deriving Inhabited, Repr

/-! ## What a form stands for -/

/-- The operator that a name stands for at the head of a list. -/
def Operator.ofName? : String → Option Operator
  | "*" => some .times
  | "/" => some .over
  | "+" => some .plus
  | "-" => some .minus
  | "<=" => some .atMost
  | ">=" => some .atLeast
  | "eq?" => some .same
  | _ => none

/-- A number; a negative one is a literal behind a minus. -/
def numberMeaning : Binary64 → Expression
  | .finite true m => .negative (.number (.finite false m))
  | value => .number value

/-- An operator between operands, of which there are two or more, from left to right. -/
def rowMeaning? (operator : Operator) : List Expression → Option Expression
  | first :: second :: more => some ((second :: more).foldl (.operation operator) first)
  | _ => none

mutual

/-- The expression that a form stands for. A declaration is no expression. -/
def meaningT? : Form → Option Expression
  | .number value => some (numberMeaning value)
  | .text content => some (.text content)
  | .atom name => some (.name name)
  | .list [] => some .null
  | .list (.atom head :: parts) =>
      if head = "define" then none
      else if head = "if" then
        match parts with
        | [test, yes, no] => do
            return .conditional (← meaningT? test) (← meaningT? yes) (← meaningT? no)
        | _ => none
      else if head = "lambda" then
        match parts with
        | [.list names, body] => do
            return .function (← names.mapM Form.atomName?) (← meaningT? body)
        | _ => none
      else
        match Operator.ofName? head with
        | some operator => do rowMeaning? operator (← meaningF? parts)
        | none => do return .call (.name head) (← meaningF? parts)
  | .list (head :: parts) => do return .call (← meaningT? head) (← meaningF? parts)

def meaningF? : List Form → Option (List Expression)
  | [] => some []
  | f :: fs => do return (← meaningT? f) :: (← meaningF? fs)

end

/-- The statement that a form stands for. -/
def meaning? : Form → Option Statement
  | .list [.atom "define", .atom name, value] => (meaningT? value).map (.declaration name)
  | f => (meaningT? f).map .expression

/-! ## The forms that are programs -/

section
variable (letters : Letters)

mutual

/-- Numbers are finite and atoms are names, but for those that head a list and are no
name because of what the list is. No list is headed by a number, and a declaration
stands only at the top. -/
def wellFormedT : Bool → Form → Bool
  | _, .number value => value.isFinite
  | _, .text _ => true
  | _, .atom name => letters.isName name
  | _, .list [] => true
  | top, .list (.atom head :: parts) =>
      if head = "define" then top && wellFormedF parts
      else if head = "lambda" then
        match parts with
        | .list names :: bodies =>
            names.all (·.atomName?.all letters.isName) && wellFormedF bodies
        | parts => wellFormedF parts
      else
        (head = "if" || (Operator.ofName? head).isSome || letters.isName head) &&
          wellFormedF parts
  | _, .list (.number _ :: _) => false
  | _, .list (head :: parts) => wellFormedT false head && wellFormedF parts

def wellFormedF : List Form → Bool
  | [] => true
  | f :: fs => wellFormedT false f && wellFormedF fs

end

end

end JavaScript
end Sexpr
