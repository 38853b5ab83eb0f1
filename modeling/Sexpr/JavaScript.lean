import Sexpr.Binary64.Text
import Sexpr.Config
import Sexpr.Fault
import Sexpr.Form.Basic
import Sexpr.Json.Quoted

/-!
# JavaScript

A list is a definition, a conditional, a function, an operator with its operands
or a call, by the atom that heads it. An operand is put in brackets where its
text could fall apart.
-/

namespace Sexpr
namespace JavaScript

/-- The operator that an atom stands for. -/
def operator? : String → Option String
  | "eq?" => some "==="
  | "<=" => some "<="
  | ">=" => some ">="
  | "+" => some "+"
  | "-" => some "-"
  | "*" => some "*"
  | "/" => some "/"
  | _ => none

/-- What a list is, by its head. -/
inductive Role where
  | define
  | conditional
  | function
  | operation (operator : String)
  | call
deriving DecidableEq, Inhabited, Repr

def roleOf (name : String) : Role :=
  match name with
  | "define" => .define
  | "if" => .conditional
  | "lambda" => .function
  | name =>
      match operator? name with
      | some operator => .operation operator
      | none => .call

/-- Whether a form as an operand is put in brackets: a number with a minus, and a
list that is neither a call nor a definition. -/
def needsBrackets (f : Form) : Bool :=
  match f with
  | .number value => value.isNegative
  | _ =>
      match f.headAtom?.map roleOf with
      | some .conditional | some .function | some (.operation _) => true
      | _ => false

def bracketed (text : String) : String := "(" ++ text ++ ")"

/-- The text of an operand, from the text it has as an expression. -/
def operand (f : Form) (text : String) : String :=
  if needsBrackets f then bracketed text else text

/-- The names of a parameter list. -/
def parameters (part : Form) : Except ScriptFault (List String) :=
  match part with
  | .list names =>
      names.mapM fun name => name.atomName?.elim (.error .parameterNotAtom) .ok
  | _ => .error .parametersNotList

mutual

/-- The expression of a form. -/
def exprT : Form → Except ScriptFault String
  | .number value => .ok value.text
  | .text content => .ok (Json.quote content)
  | .atom name => .ok name
  | .list [] => .ok "null"
  | .list (.atom name :: args) =>
      match roleOf name with
      | .define =>
          match args with
          | [target, value] =>
              match target.atomName? with
              | none => .error .defineTarget
              | some target => do
                  return "const " ++ target ++ " = " ++ (← exprT value) ++ ";"
          | args => .error (.defineArity args.length)
      | .conditional =>
          match args with
          | [test, yes, no] => do
              let test ← exprT test
              let yes ← exprT yes
              let no ← exprT no
              return bracketed test ++ " ? " ++ bracketed yes ++ " : " ++ bracketed no
          | args => .error (.ifArity args.length)
      | .function =>
          match args with
          | [names, body] => do
              let names ← parameters names
              return bracketed (",".intercalate names) ++ " => " ++ (← exprT body)
          | args => .error (.lambdaArity args.length)
      | .operation operator =>
          if args.length < 2 then .error (.operatorArity name args.length)
          else do
            let texts ← exprF args
            return operator.intercalate (List.zipWith operand args texts)
      | .call => do return name ++ bracketed (",".intercalate (← exprF args))
  | .list (.list items :: args) => do
      let callee ← exprT (.list items)
      return bracketed callee ++ bracketed (",".intercalate (← exprF args))
  | .list (.number value :: args) => do
      return value.text ++ bracketed (",".intercalate (← exprF args))
  | .list (.text content :: args) => do
      return Json.quote content ++ bracketed (",".intercalate (← exprF args))

def exprF : List Form → Except ScriptFault (List String)
  | [] => .ok []
  | f :: fs => do return (← exprT f) :: (← exprF fs)

end

/-- The statement of an expression: a declaration stands alone, and any other
expression is logged if the options say so. -/
def statement (o : JsOptions) (expression : String) : String :=
  if o.logExpressions && !"const".toList.isPrefixOf expression.toList then
    "console.log(" ++ expression ++ ")"
  else expression

/-- The statement of a form. -/
def form (o : JsOptions) (f : Form) : Except ScriptFault String :=
  (exprT f).map (statement o)

/-- The program of a row of forms. -/
def render (o : JsOptions) (fs : List Form) : Except ScriptFault String := do
  return o.statementSeparator.intercalate ((← exprF fs).map (statement o))

end JavaScript
end Sexpr
