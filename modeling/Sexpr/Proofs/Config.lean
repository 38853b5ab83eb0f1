import Mathlib
import Sexpr.Config
import Sexpr.Proofs.Json.Layout
import Sexpr.Proofs.Json.Record

/-!
# Configurations are read back

An object shows a configuration if it gives some of its fields (`Config.ShownIn`). The
members may be in any order, with others between them, and the same goes for the options
inside of it. Every text of such an object is read as the configuration with the other
fields at their defaults; and an object with a fault in one of its fields
(`Config.Faulty`) is refused, whatever the other fields are
(`Config.ofJsonText?_inverse`).
-/

namespace Sexpr

/-! ## Fields in JSON -/

def HtmlOptions.keys : List String := ["body_separator", "document_separator"]

def JsOptions.keys : List String := ["log_expressions", "skip_lang_line", "statement_separator"]

def Config.keys : List String := ["target", "html", "js"]

def HtmlOptions.fields (o : HtmlOptions) : List (String × Json) :=
  [("body_separator", .string o.bodySeparator), ("document_separator", .string o.documentSeparator)]

def JsOptions.fields (o : JsOptions) : List (String × Json) :=
  [("log_expressions", .bool o.logExpressions), ("skip_lang_line", .bool o.skipLangLine),
    ("statement_separator", .string o.statementSeparator)]

/-- The fields of a configuration whose options are shown in `html` and `js`. -/
def Config.fields (c : Config) (html js : Json) : List (String × Json) :=
  [("target", .string c.target.name), ("html", html), ("js", js)]

theorem HtmlOptions.map_fields (o : HtmlOptions) : o.fields.map Prod.fst = keys := rfl

theorem JsOptions.map_fields (o : JsOptions) : o.fields.map Prod.fst = keys := rfl

theorem Config.map_fields (c : Config) (html js : Json) :
    (c.fields html js).map Prod.fst = keys := rfl

section

-- Which keys are given. No key of the options is a key of the configuration as well.
variable (given : String → Bool)

/-! ## Fields that are left out -/

/-- The options with what is left out at its default. -/
def HtmlOptions.limited (o : HtmlOptions) : HtmlOptions where
  bodySeparator :=
    if given "body_separator" then o.bodySeparator else ({} : HtmlOptions).bodySeparator
  documentSeparator :=
    if given "document_separator" then o.documentSeparator else ({} : HtmlOptions).documentSeparator

/-- The options with what is left out at its default. -/
def JsOptions.limited (o : JsOptions) : JsOptions where
  logExpressions :=
    if given "log_expressions" then o.logExpressions else ({} : JsOptions).logExpressions
  skipLangLine := if given "skip_lang_line" then o.skipLangLine else ({} : JsOptions).skipLangLine
  statementSeparator :=
    if given "statement_separator" then o.statementSeparator
    else ({} : JsOptions).statementSeparator

/-- The configuration with what is left out at its default, inside of the options too. -/
def Config.limited (c : Config) : Config where
  target := if given "target" then c.target else ({} : Config).target
  html := if given "html" then c.html.limited given else ({} : Config).html
  js := if given "js" then c.js.limited given else ({} : Config).js

/-! ## Objects that show a configuration -/

/-- The object gives the options, or some of them. -/
def HtmlOptions.ShownIn (o : HtmlOptions) (j : Json) : Prop := j.Gives given o.fields

/-- The object gives the options, or some of them. -/
def JsOptions.ShownIn (o : JsOptions) (j : Json) : Prop := j.Gives given o.fields

/-- The object gives the fields of the configuration, or some of them. -/
def Config.ShownIn (c : Config) (j : Json) : Prop :=
  ∃ html js, c.html.ShownIn given html ∧ c.js.ShownIn given js ∧ j.Gives given (c.fields html js)

end

/-! ## Objects with a fault -/

/-- A key is given twice, or a separator is not a string. -/
inductive HtmlOptions.Faulty (j : Json) : Prop
  | twice {key : String} (hkey : key ∈ keys) (h : j.Twice key)
  | separator {key : String} {value : Json} (hkey : key ∈ keys) (h : j.Has key value)
      (hvalue : ∀ text, value ≠ .string text)

/-- A key is given twice, a flag is not a truth value, or the separator is not a string. -/
inductive JsOptions.Faulty (j : Json) : Prop
  | twice {key : String} (hkey : key ∈ keys) (h : j.Twice key)
  | flag {key : String} {value : Json} (hkey : key ∈ ["log_expressions", "skip_lang_line"])
      (h : j.Has key value) (hvalue : ∀ flag, value ≠ .bool flag)
  | separator {value : Json} (h : j.Has "statement_separator" value)
      (hvalue : ∀ text, value ≠ .string text)

/-- A key is given twice, the target is a string that names none, or some options have a
fault. -/
inductive Config.Faulty (j : Json) : Prop
  | twice {key : String} (hkey : key ∈ keys) (h : j.Twice key)
  | target {content : Option String} (h : j.Has "target" (.text content))
      (hcontent : ∀ target : Target, content ≠ some target.name)
  | html {value : Json} (h : j.Has "html" value) (hvalue : HtmlOptions.Faulty value)
  | js {value : Json} (h : j.Has "js" value) (hvalue : JsOptions.Faulty value)

/-! ## Reading what is given -/

theorem Target.ofName?_name (target : Target) : ofName? target.name = some target := by
  cases target <;> rfl

theorem Target.eq_name_of_ofName? {name : String} {target : Target}
    (h : ofName? name = some target) : name = target.name := by
  unfold ofName? at h
  split at h <;> cases h <;> rfl

namespace Json

theorem text?_eq_some {j : Json} {text : String} (h : j.text? = some text) : j = .string text := by
  cases j with
  | text content => exact congrArg Json.text h
  | _ => cases h

theorem bool?_eq_some {j : Json} {flag : Bool} (h : j.bool? = some flag) : j = .bool flag := by
  cases j with
  | bool value => exact congrArg Json.bool (Option.some.inj h)
  | _ => cases h

/-- A field is read if it is given, and else has its default. -/
theorem fieldD_ite {α : Type} (read : Json → Option α) {j : Json} {value : α}
    (h : read j = some value) (default : α) (b : Bool) :
    fieldD read default (if b then some j else none) = some (if b then value else default) := by
  cases b with
  | true => exact h
  | false => rfl

end Json

variable {given : String → Bool}

theorem HtmlOptions.ofJson?_of_shownIn {o : HtmlOptions} {j : Json} (h : o.ShownIn given j) :
    ofJson? j = some (o.limited given) := by
  have hfields : Json.fields? keys j = some
      [if given "body_separator" then some (.string o.bodySeparator) else none,
        if given "document_separator" then some (.string o.documentSeparator) else none] :=
    Json.fields?_of_gives o.map_fields (by decide) h
  have hbody : Json.text? (.string o.bodySeparator) = some o.bodySeparator := rfl
  have hdocument : Json.text? (.string o.documentSeparator) = some o.documentSeparator := rfl
  rw [keys] at hfields
  simp only [ofJson?, hfields, Json.fieldD_ite _ hbody, Json.fieldD_ite _ hdocument,
    Option.bind_eq_bind, Option.bind_some]
  rfl

theorem JsOptions.ofJson?_of_shownIn {o : JsOptions} {j : Json} (h : o.ShownIn given j) :
    ofJson? j = some (o.limited given) := by
  have hfields : Json.fields? keys j = some
      [if given "log_expressions" then some (.bool o.logExpressions) else none,
        if given "skip_lang_line" then some (.bool o.skipLangLine) else none,
        if given "statement_separator" then some (.string o.statementSeparator) else none] :=
    Json.fields?_of_gives o.map_fields (by decide) h
  have hlog : Json.bool? (.bool o.logExpressions) = some o.logExpressions := rfl
  have hskip : Json.bool? (.bool o.skipLangLine) = some o.skipLangLine := rfl
  have hstatement : Json.text? (.string o.statementSeparator) = some o.statementSeparator := rfl
  rw [keys] at hfields
  simp only [ofJson?, hfields, Json.fieldD_ite _ hlog, Json.fieldD_ite _ hskip,
    Json.fieldD_ite _ hstatement, Option.bind_eq_bind, Option.bind_some]
  rfl

/-- What an object shows of a configuration is read, and the rest has its defaults. -/
theorem Config.ofJson?_of_shownIn {c : Config} {j : Json} (h : c.ShownIn given j) :
    ofJson? j = some (c.limited given) := by
  obtain ⟨html, js, hhtml, hjs, h⟩ := h
  have hfields : Json.fields? keys j = some
      [if given "target" then some (.string c.target.name) else none,
        if given "html" then some html else none, if given "js" then some js else none] :=
    Json.fields?_of_gives (c.map_fields html js) (by decide) h
  have htarget := Json.fieldD_ite (fun j => (Json.choice? j).bind Target.ofName?)
    (j := .string c.target.name) c.target.ofName?_name
  have hhtml := HtmlOptions.ofJson?_of_shownIn hhtml
  have hjs := JsOptions.ofJson?_of_shownIn hjs
  rw [keys] at hfields
  simp only [ofJson?, hfields, htarget, Json.fieldD_ite _ hhtml, Json.fieldD_ite _ hjs,
    Option.bind_eq_bind, Option.bind_some]
  rfl

/-- A configuration that is written out shows all of itself. -/
theorem Config.shownIn_toJson (c : Config) : c.ShownIn (fun _ => true) c.toJson :=
  ⟨c.html.toJson, c.js.toJson, Json.gives_record c.html.fields, Json.gives_record c.js.fields,
    Json.gives_record (c.fields c.html.toJson c.js.toJson)⟩

/-! ## Refusing what has a fault -/

theorem HtmlOptions.fields_of_ofJson? {j : Json} {o : HtmlOptions} (h : ofJson? j = some o) :
    ∃ body document, Json.fields? keys j = some [body, document] ∧
      Json.fieldD Json.text? " " body = some o.bodySeparator ∧
      Json.fieldD Json.text? "" document = some o.documentSeparator := by
  obtain ⟨values, hfields, h⟩ := Option.bind_eq_some_iff.1 h
  split at h
  · next body document =>
    obtain ⟨bodySeparator, hbody, h⟩ := Option.bind_eq_some_iff.1 h
    obtain ⟨documentSeparator, hdocument, h⟩ := Option.bind_eq_some_iff.1 h
    cases h
    exact ⟨body, document, hfields, hbody, hdocument⟩
  · cases h

theorem JsOptions.fields_of_ofJson? {j : Json} {o : JsOptions} (h : ofJson? j = some o) :
    ∃ log skip statement, Json.fields? keys j = some [log, skip, statement] ∧
      Json.fieldD Json.bool? true log = some o.logExpressions ∧
      Json.fieldD Json.bool? true skip = some o.skipLangLine ∧
      Json.fieldD Json.text? "\n" statement = some o.statementSeparator := by
  obtain ⟨values, hfields, h⟩ := Option.bind_eq_some_iff.1 h
  split at h
  · next log skip statement =>
    obtain ⟨logExpressions, hlog, h⟩ := Option.bind_eq_some_iff.1 h
    obtain ⟨skipLangLine, hskip, h⟩ := Option.bind_eq_some_iff.1 h
    obtain ⟨statementSeparator, hstatement, h⟩ := Option.bind_eq_some_iff.1 h
    cases h
    exact ⟨log, skip, statement, hfields, hlog, hskip, hstatement⟩
  · cases h

theorem Config.fields_of_ofJson? {j : Json} {c : Config} (h : ofJson? j = some c) :
    ∃ target html js, Json.fields? keys j = some [target, html, js] ∧
      Json.fieldD (fun j => (Json.choice? j).bind Target.ofName?) .sexpr target = some c.target ∧
      Json.fieldD HtmlOptions.ofJson? {} html = some c.html ∧
      Json.fieldD JsOptions.ofJson? {} js = some c.js := by
  obtain ⟨values, hfields, h⟩ := Option.bind_eq_some_iff.1 h
  split at h
  · next target html js =>
    obtain ⟨t, htarget, h⟩ := Option.bind_eq_some_iff.1 h
    obtain ⟨htmlOptions, hhtml, h⟩ := Option.bind_eq_some_iff.1 h
    obtain ⟨jsOptions, hjs, h⟩ := Option.bind_eq_some_iff.1 h
    cases h
    exact ⟨target, html, js, hfields, htarget, hhtml, hjs⟩
  · cases h

theorem HtmlOptions.ofJson?_of_faulty {j : Json} (h : Faulty j) : ofJson? j = none := by
  rw [Option.eq_none_iff_forall_ne_some]
  intro o ho
  obtain ⟨body, document, hfields, hbody, hdocument⟩ := fields_of_ofJson? ho
  cases h with
  | twice hkey h =>
      rw [Json.fields?_of_twice hkey h] at hfields
      cases hfields
  | separator hkey h hvalue =>
      have hmem := Json.mem_zip_of_has hfields hkey h
      simp only [keys, List.zip_cons_cons, List.zip_nil_left, List.mem_cons, Prod.mk.injEq,
        List.not_mem_nil, or_false] at hmem
      rcases hmem with ⟨-, rfl⟩ | ⟨-, rfl⟩
      · exact hvalue _ (Json.text?_eq_some hbody)
      · exact hvalue _ (Json.text?_eq_some hdocument)

theorem JsOptions.ofJson?_of_faulty {j : Json} (h : Faulty j) : ofJson? j = none := by
  rw [Option.eq_none_iff_forall_ne_some]
  intro o ho
  obtain ⟨log, skip, statement, hfields, hlog, hskip, hstatement⟩ := fields_of_ofJson? ho
  cases h with
  | twice hkey h =>
      rw [Json.fields?_of_twice hkey h] at hfields
      cases hfields
  | flag hkey h hvalue =>
      have hmem := Json.mem_zip_of_has hfields (List.mem_append_left ["statement_separator"] hkey) h
      simp only [keys, List.zip_cons_cons, List.zip_nil_left, List.mem_cons, Prod.mk.injEq,
        List.not_mem_nil, or_false] at hmem
      rcases hmem with ⟨-, rfl⟩ | ⟨-, rfl⟩ | ⟨rfl, -⟩
      · exact hvalue _ (Json.bool?_eq_some hlog)
      · exact hvalue _ (Json.bool?_eq_some hskip)
      · exact absurd hkey (by decide)
  | separator h hvalue =>
      have hmem := Json.mem_zip_of_has hfields (by decide) h
      simp only [keys, List.zip_cons_cons, List.zip_nil_left, List.mem_cons, Prod.mk.injEq,
        List.not_mem_nil, or_false, String.reduceEq, false_and, false_or, true_and] at hmem
      subst hmem
      exact hvalue _ (Json.text?_eq_some hstatement)

theorem Config.ofJson?_of_faulty {j : Json} (h : Faulty j) : ofJson? j = none := by
  rw [Option.eq_none_iff_forall_ne_some]
  intro c hc
  obtain ⟨target, html, js, hfields, htarget, hhtml, hjs⟩ := fields_of_ofJson? hc
  cases h with
  | twice hkey h =>
      rw [Json.fields?_of_twice hkey h] at hfields
      cases hfields
  | @target content h hcontent =>
      have hmem := Json.mem_zip_of_has hfields (by decide) h
      obtain rfl : some (.text content) = target := by simpa [keys] using hmem
      obtain ⟨name, hname, ht⟩ := Option.bind_eq_some_iff.1 htarget
      apply hcontent c.target
      rw [← Target.eq_name_of_ofName? ht]
      exact hname
  | @html value h hvalue =>
      have hmem := Json.mem_zip_of_has hfields (by decide) h
      obtain rfl : some value = html := by simpa [keys] using hmem
      have hnone := HtmlOptions.ofJson?_of_faulty hvalue
      rw [Json.fieldD, hnone] at hhtml
      cases hhtml
  | @js value h hvalue =>
      have hmem := Json.mem_zip_of_has hfields (by decide) h
      obtain rfl : some value = js := by simpa [keys] using hmem
      have hnone := JsOptions.ofJson?_of_faulty hvalue
      rw [Json.fieldD, hnone] at hjs
      cases hjs

/-! ## Texts -/

namespace Config

theorem ofJsonText?_eq {text : String} {j : Json} (h : Json.IsTextOf text j) :
    ofJsonText? text = ofJson? j := by
  rw [ofJsonText?, Json.read?_of_isTextOf h, Option.bind_some]

/-- A configuration that is written out has no numbers. -/
theorem writable_toJson (c : Config) : Json.Writable c.toJson.symbols := by
  simp [Json.Writable, toJson, HtmlOptions.toJson, JsOptions.toJson, Json.record, Json.string,
    Json.symbols, Json.symbolsT, Json.symbolsM]

theorem limited_all (c : Config) : c.limited (fun _ => true) = c := rfl

/-- **Reading a configuration is the inverse of writing one, and does not depend on how it
is laid out.** -/
theorem ofJsonText?_inverse (c : Config) :
    (∀ given text j, c.ShownIn given j → Json.IsTextOf text j →
      ofJsonText? text = some (c.limited given)) ∧
    ofJsonText? c.toJson.compact = some c ∧
    ofJsonText? c.toJson.pretty = some c ∧
    ∀ text j, Faulty j → Json.IsTextOf text j → ofJsonText? text = none := by
  have hshown : ofJson? c.toJson = some c := by
    rw [ofJson?_of_shownIn c.shownIn_toJson, limited_all]
  refine ⟨?_, ?_, ?_, ?_⟩
  · intro given text j hj htext
    rw [ofJsonText?_eq htext, ofJson?_of_shownIn hj]
  · rw [ofJsonText?_eq (Json.isTextOf_compact c.writable_toJson), hshown]
  · rw [ofJsonText?_eq (Json.isTextOf_pretty c.writable_toJson), hshown]
  · intro text j hj htext
    rw [ofJsonText?_eq htext, ofJson?_of_faulty hj]

/-! ### A part of a configuration -/

/-- Two fields, not in their order and with another member before one of them. -/
def samplePart : Json :=
  .record [("js", .record [("later", .null), ("log_expressions", .bool false)]),
    ("target", .string "js")]

/-- The part as a text, with an escape in the name of the target. -/
def samplePartText : String :=
  "\x7b \"js\": \x7b\"later\":null, \"log_expressions\":false\x7d, \"target\":\"\\u006as\"\x7d\n"

theorem isTextOf_samplePart : Json.IsTextOf samplePartText samplePart := by
  have hname : Json.Symbol.SpelledBy ['"', '\\', 'u', '0', '0', '6', 'a', 's', '"']
      (.text (some "js")) :=
    ⟨_, _, rfl, .unit rfl (.bare (by decide) (by decide) (by decide) .nil),
      .unit (by decide) (.char .nil)⟩
  rw [Json.IsTextOf, samplePartText]
  simp only [String.reduceToList]
  exact .chars .openObject (by simp) <| .blank rfl <|
    .chars (.text (some "js")) (by simp) <| .chars .colon (by simp) <| .blank rfl <|
    .chars .openObject (by simp) <|
    .chars (.text (some "later")) (by simp) <| .chars .colon (by simp) <|
    .chars .null (by simp) <| .chars .comma (by simp) <| .blank rfl <|
    .chars (.text (some "log_expressions")) (by simp) <| .chars .colon (by simp) <|
    .chars (.bool false) (by simp) <| .chars .closeObject (by simp) <|
    .chars .comma (by simp) <| .blank rfl <|
    .chars (.text (some "target")) (by simp) <| .chars .colon (by simp) <| .symbol hname <|
    .chars .closeObject (by simp) <| .blank rfl .nil

/-- It is a part of many configurations, of this one among others. -/
theorem shownIn_samplePart :
    ShownIn (· ∈ ["target", "js", "log_expressions"])
      ⟨.js, ⟨"-", "-"⟩, ⟨false, false, ";"⟩⟩ samplePart := by
  refine ⟨.record [], _, ?_, ?_, [], _, List.forall_mem_nil _, .swap _ _ _, rfl⟩
  · exact ⟨[], [], List.forall_mem_nil _, .nil, rfl⟩
  · refine ⟨[("later", .null)], _, ?_, .swap _ _ _, rfl⟩
    intro m hm
    rw [List.mem_singleton.1 hm]
    decide

/-- The rest has its defaults; and a target that does not exist is refused. -/
theorem ofJsonText?_samplePart :
    ofJsonText? samplePartText = some ⟨.js, {}, ⟨false, true, "\n"⟩⟩ ∧
      ofJsonText? "\x7b\"target\":\"HTML\"\x7d" = none := by
  obtain ⟨hshown, -, -, -⟩ := ofJsonText?_inverse ⟨.js, ⟨"-", "-"⟩, ⟨false, false, ";"⟩⟩
  obtain ⟨-, -, -, hfaulty⟩ := ofJsonText?_inverse {}
  refine ⟨hshown _ _ _ shownIn_samplePart isTextOf_samplePart, ?_⟩
  refine hfaulty _ (.record [("target", .string "HTML")]) ?_ ?_
  · exact .target ⟨_, rfl, List.mem_singleton.2 rfl⟩ (by rintro (_ | _ | _ | _) <;> decide)
  · exact .chars .openObject (by simp) <| .chars (.text (some "target")) (by simp) <|
      .chars .colon (by simp) <| .chars (.text (some "HTML")) (by simp) <|
      .chars .closeObject (by simp) .nil

end Config
end Sexpr
