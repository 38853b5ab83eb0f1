import Sexpr.Binary64.Text
import Sexpr.Config
import Sexpr.Fault
import Sexpr.Form.Basic

/-!
# HTML

A list is an element: its tag, its attributes, then the nodes of its body. The
attributes are a list of entries, each a scalar or a name with values, or one
scalar that is taken as it is. No text is escaped.
-/

namespace Sexpr
namespace Html

/-- The text of a scalar in markup. -/
def scalar? : Form → Option String
  | .number value => some value.text
  | .text content => some content
  | .atom name => some name
  | .list _ => none

/-- The text of a scalar; what has none is refused. -/
def scalarOr (fault : HtmlFault) (f : Form) : Except HtmlFault String :=
  (scalar? f).elim (.error fault) .ok

/-- One attribute: a name alone, or a name and its values in quotes. -/
def entry (part : Form) : Except HtmlFault String :=
  match part with
  | .list [] => .error .emptyAttribute
  | .list (name :: values) => do
      let name ← scalarOr .attributeNameIsList name
      if values.isEmpty then return name
      else
        let values ← values.mapM (scalarOr (.attributeValueIsList name))
        return name ++ "=\"" ++ " ".intercalate values ++ "\""
  | scalar => scalarOr .entryNotScalar scalar

/-- The attributes of an element. -/
def attributes (part : Form) : Except HtmlFault String :=
  match part with
  | .list entries => do return " ".intercalate (← entries.mapM entry)
  | scalar => scalarOr .attributesNotScalar scalar

/-- The markup of an element. -/
def element (tag attributes body : String) : String :=
  let space := if attributes.isEmpty then "" else " "
  "<" ++ tag ++ space ++ attributes ++ ">" ++ body ++ "</" ++ tag ++ ">"

mutual

/-- The markup of a form. -/
def nodeT (o : HtmlOptions) : Form → Except HtmlFault String
  | .list [] => .error .emptyElement
  | .list (tag :: rest) => do
      let tag ← scalarOr .tagIsList tag
      match rest with
      | [] => return element tag "" ""
      | part :: body => do
          let attributes ← attributes part
          let body ← nodeF o body
          return element tag attributes (o.bodySeparator.intercalate body)
  | scalar => scalarOr .nodeNotScalar scalar

def nodeF (o : HtmlOptions) : List Form → Except HtmlFault (List String)
  | [] => .ok []
  | f :: fs => do return (← nodeT o f) :: (← nodeF o fs)

end

/-- The markup of a row of forms. -/
def render (o : HtmlOptions) (fs : List Form) : Except HtmlFault String := do
  return o.documentSeparator.intercalate (← nodeF o fs)

end Html
end Sexpr
