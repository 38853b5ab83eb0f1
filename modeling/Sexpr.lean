import Sexpr.Command.Directory
import Sexpr.Main
import Sexpr.Token.Json
import Sexpr.Proofs.Form.RoundTrip
import Sexpr.Proofs.Scanner.Resume
import Sexpr.Proofs.Scanner.Row
import Sexpr.Proofs.Scanner.Verdict
import Sexpr.Proofs.Form.Append
import Sexpr.Proofs.Form.Places
import Sexpr.Proofs.Binary64.Literal
import Sexpr.Proofs.JavaScript.Symbol
import Sexpr.Proofs.JavaScript.Reader
import Sexpr.Proofs.JavaScript.ReadBack
import Sexpr.Proofs.Json.Grammar
import Sexpr.Proofs.Json.Layout
import Sexpr.Proofs.Json.Record
import Sexpr.Proofs.Form.Json
import Sexpr.Proofs.JavaScript.Junction
import Sexpr.Proofs.Command.Places
import Sexpr.Proofs.JavaScript.Parts
import Sexpr.Proofs.Form.Descent
import Sexpr.Proofs.JavaScript.Shapes
import Sexpr.Proofs.Html.Nesting
import Sexpr.Proofs.JavaScript.Logging
import Sexpr.Proofs.JavaScript.Signs
import Sexpr.Proofs.Form.Stack
import Sexpr.Proofs.Scanner.Bounds
import Sexpr.Proofs.Config
