import Sexpr.Position

/-!
# Faults

Every reason for which a source, a run of tokens or a tree is refused, one type
for each stage that can refuse. A fault is a cause together with the places it
names; its wording is a function of the cause. A tree has no places, so faults
of the two renderings name none.
-/

namespace Sexpr

/-! ## Sources that cannot be cut into tokens -/

inductive ScanFault where
  /-- A right bracket that closes nothing. -/
  | unexpectedClose (bracket : Position)
  /-- A quote with no partner. -/
  | unterminatedText (quote : Position)
  /-- A second point in a number, or a point before any digit. -/
  | misplacedPoint (point : Position)
  /-- Left brackets still open at the end, outermost first. -/
  | unclosed (brackets : List Position)
deriving DecidableEq, Inhabited, Repr

namespace ScanFault

def positions : ScanFault → List Position
  | .unexpectedClose p | .unterminatedText p | .misplacedPoint p => [p]
  | .unclosed ps => ps

def message : ScanFault → String
  | .unexpectedClose p => s!"unexpected ) at position {p.text}"
  | .unterminatedText p =>
      s!"expected \" to end string starting at position {p.text}"
  | .misplacedPoint p => s!"invalid decimal point in number at position {p.text}"
  | .unclosed ps =>
      s!"unclosed brackets starting at positions {Position.listText ps}"

end ScanFault

/-! ## Tokens that do not make up trees -/

inductive BuildFault where
  /-- A right bracket with no left bracket before it. -/
  | unmatchedClose (bracket : Position)
  /-- A number token whose text is no finite number. -/
  | badNumber (text : String) (number : Position)
  /-- Left brackets still open at the end, outermost first. -/
  | unclosed (brackets : List Position)
deriving DecidableEq, Inhabited, Repr

namespace BuildFault

def positions : BuildFault → List Position
  | .unmatchedClose p | .badNumber _ p => [p]
  | .unclosed ps => ps

def message : BuildFault → String
  | .unmatchedClose p =>
      s!"unbalanced brackets: ) at position {p.text} has no matching ("
  | .badNumber text p => s!"invalid number \"{text}\" at position {p.text}"
  | .unclosed ps => s!"unclosed brackets at positions {Position.listText ps}"

end BuildFault

/-! ## Trees that are no markup -/

inductive HtmlFault where
  /-- A node that is no list and has no text. -/
  | nodeNotScalar
  /-- An element with no tag. -/
  | emptyElement
  | tagIsList
  /-- Attributes that are no list and have no text. -/
  | attributesNotScalar
  /-- An attribute entry that is no list and has no text. -/
  | entryNotScalar
  /-- An attribute entry with no name. -/
  | emptyAttribute
  | attributeNameIsList
  | attributeValueIsList (name : String)
deriving DecidableEq, Inhabited, Repr

def HtmlFault.message : HtmlFault → String
  | .nodeNotScalar => "expected a scalar node"
  | .emptyElement => "cannot render an empty list as an element"
  | .tagIsList => "element tag must be an atom, string or number, got list"
  | .attributesNotScalar => "expected a scalar attribute part"
  | .entryNotScalar => "expected a scalar attribute"
  | .emptyAttribute => "attribute entry must name an attribute"
  | .attributeNameIsList => "attribute name must be a scalar, got list"
  | .attributeValueIsList name =>
      s!"value of attribute {name} must be a scalar"

/-! ## Trees that are no program -/

inductive ScriptFault where
  /-- A definition with some other number of operands than two. -/
  | defineArity (operands : Nat)
  | defineTarget
  /-- A conditional with some other number of operands than three. -/
  | ifArity (operands : Nat)
  /-- A function with some other number of operands than two. -/
  | lambdaArity (operands : Nat)
  | parametersNotList
  | parameterNotAtom
  /-- An operator with fewer than two operands. -/
  | operatorArity (operator : String) (operands : Nat)
deriving DecidableEq, Inhabited, Repr

def ScriptFault.message : ScriptFault → String
  | .defineArity n => s!"expected two clauses for define, got {n}"
  | .defineTarget => "cannot assign to non-identifier"
  | .ifArity n => s!"expected three clauses for if, got {n}"
  | .lambdaArity n => s!"expected two clauses for lambda, got {n}"
  | .parametersNotList => "expected parameter list for lambda"
  | .parameterNotAtom => "parameter list must only contain identifiers"
  | .operatorArity operator n =>
      s!"expected at least two operands for {operator}, got {n}"

/-! ## All of them -/

/-- The stage that refuses. -/
inductive Stage where
  | lexer
  | builder
  | backend
deriving DecidableEq, Inhabited, Repr

def Stage.label : Stage → String
  | .lexer => "lexer"
  | .builder => "builder"
  | .backend => "backend"

inductive Fault where
  | scan (fault : ScanFault)
  | build (fault : BuildFault)
  | html (fault : HtmlFault)
  | script (fault : ScriptFault)
deriving DecidableEq, Inhabited, Repr

namespace Fault

def stage : Fault → Stage
  | .scan _ => .lexer
  | .build _ => .builder
  | .html _ | .script _ => .backend

def message : Fault → String
  | .scan fault => fault.message
  | .build fault => fault.message
  | .html fault => fault.message
  | .script fault => fault.message

/-- The places a fault names, in the order of its wording. -/
def positions : Fault → List Position
  | .scan fault => fault.positions
  | .build fault => fault.positions
  | .html _ | .script _ => []

/-- The wording with the stage in front. -/
def text (fault : Fault) : String := s!"{fault.stage.label}: {fault.message}"

end Fault
end Sexpr
