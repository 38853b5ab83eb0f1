import Sexpr.Form.Builder
import Sexpr.Scanner

/-!
# Forms from a source

A source is scanned to its end before any form is built, so a fault of its
characters comes before every fault of its tokens.
-/

namespace Sexpr

/-- The forms of a source. -/
def parse (source : String) : Except Fault (List Form) := do
  let ts ← (tokens source).mapError .scan
  (Form.ofTokens ts).mapError .build

end Sexpr
