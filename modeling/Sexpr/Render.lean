import Sexpr.Form.Json
import Sexpr.Form.Printed
import Sexpr.Form.Source
import Sexpr.Html
import Sexpr.JavaScript

/-!
# Rendering

From a row of forms to the text of a target, and from a file to that text.
-/

namespace Sexpr

/-- The text of forms for the target of a configuration. -/
def render (c : Config) (fs : List Form) : Except Fault String :=
  match c.target with
  | .sexpr => .ok (Form.printAll fs)
  | .html => (Html.render c.html fs).mapError .html
  | .js => (JavaScript.render c.js fs).mapError .script
  | .json => .ok (Form.prettyJson fs)

end Sexpr
