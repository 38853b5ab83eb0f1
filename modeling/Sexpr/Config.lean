import Sexpr.Json.Record
import Sexpr.Json.Written

/-!
# Configuration

What forms are rendered to, and how. Every field has a default, so a
configuration in JSON may leave out what it does not change.
-/

namespace Sexpr

/-- What forms are rendered to. -/
inductive Target where
  | sexpr
  | html
  | js
  | json
deriving DecidableEq, Inhabited, Repr

namespace Target

def name : Target → String
  | .sexpr => "sexpr"
  | .html => "html"
  | .js => "js"
  | .json => "json"

/-- The target of a name, in small letters. -/
def ofName? : String → Option Target
  | "sexpr" => some .sexpr
  | "html" => some .html
  | "js" => some .js
  | "json" => some .json
  | _ => none

end Target

structure HtmlOptions where
  /-- What stands between the nodes of an element's body. -/
  bodySeparator : String := " "
  /-- What stands between the forms. -/
  documentSeparator : String := ""
deriving DecidableEq, Inhabited, Repr

structure JsOptions where
  /-- Whether an expression at the top is logged. -/
  logExpressions : Bool := true
  /-- Whether a language line at the start of a source is dropped. -/
  skipLangLine : Bool := true
  /-- What stands between the statements. -/
  statementSeparator : String := "\n"
deriving DecidableEq, Inhabited, Repr

structure Config where
  target : Target := .sexpr
  html : HtmlOptions := {}
  js : JsOptions := {}
deriving DecidableEq, Inhabited, Repr

/-! ## In JSON -/

/-- Reads HTML options from JSON. -/
def HtmlOptions.ofJson? (j : Json) : Option HtmlOptions := do
  let [body, document] ← Json.fields? ["body_separator", "document_separator"] j | none
  let bodySeparator ← Json.fieldD Json.text? " " body
  let documentSeparator ← Json.fieldD Json.text? "" document
  return { bodySeparator, documentSeparator }

def HtmlOptions.toJson (o : HtmlOptions) : Json :=
  .record [("body_separator", .string o.bodySeparator),
    ("document_separator", .string o.documentSeparator)]

/-- Reads script options from JSON. -/
def JsOptions.ofJson? (j : Json) : Option JsOptions := do
  let [log, skip, statement] ←
    Json.fields? ["log_expressions", "skip_lang_line", "statement_separator"] j | none
  let logExpressions ← Json.fieldD Json.bool? true log
  let skipLangLine ← Json.fieldD Json.bool? true skip
  let statementSeparator ← Json.fieldD Json.text? "\n" statement
  return { logExpressions, skipLangLine, statementSeparator }

def JsOptions.toJson (o : JsOptions) : Json :=
  .record [("log_expressions", .bool o.logExpressions),
    ("skip_lang_line", .bool o.skipLangLine),
    ("statement_separator", .string o.statementSeparator)]

namespace Config

/-- Reads a configuration from JSON. -/
def ofJson? (j : Json) : Option Config := do
  let [target, html, js] ← Json.fields? ["target", "html", "js"] j | none
  let target ← Json.fieldD (fun j => (Json.choice? j).bind Target.ofName?) .sexpr target
  let html ← Json.fieldD HtmlOptions.ofJson? {} html
  let js ← Json.fieldD JsOptions.ofJson? {} js
  return { target, html, js }

def toJson (c : Config) : Json :=
  .record [("target", .string c.target.name), ("html", c.html.toJson),
    ("js", c.js.toJson)]

/-- Reads a configuration from a JSON text. -/
def ofJsonText? (text : String) : Option Config := (Json.read? text).bind ofJson?

/-- The configuration with another target, if one is given. -/
def withTarget (c : Config) : Option Target → Config
  | none => c
  | some target => { c with target }

end Config

/-! ## The language line -/

/-- Drops the first line of a source that begins with `#lang`. -/
def stripLangLine (source : String) : String :=
  if "#lang".toList.isPrefixOf source.toList then
    String.ofList ((source.toList.dropWhile (· != '\n')).drop 1)
  else source

/-- The part of a file that is the source for the target: a script has no
language line, unless it is kept. -/
def Config.sourceOf (c : Config) (contents : String) : String :=
  if c.target = .js && c.js.skipLangLine then stripLangLine contents else contents

end Sexpr
