import Mathlib
import Sexpr.Proofs.JavaScript.Rendered

/-!
# Definitions inside expressions

A definition that stands inside a form is rendered where it stands, as a declaration in
the middle of an expression (`exists_declaration_of_inside`). Nothing refuses it, since
every part of a form is rendered just as a form at the top is.
-/

namespace Sexpr
namespace JavaScript

/-! ## Parts -/

/-- The parts of a form that are expressions of their own: the value of a definition, the
three parts of a conditional, the body of a function, the operands of an operator, and the
head and the arguments of a call. -/
def parts : Form → List Form
  | .list (.atom head :: args) =>
      match roleOf head with
      | .define | .function => (args.drop 1).take 1
      | .conditional | .operation _ => args
      | .call => .atom head :: args
  | .list items => items
  | _ => []

/-- `g` is a part of `f`, or a part of a part, and so on. -/
def Inside : Form → Form → Prop := Relation.TransGen fun g f => g ∈ parts f

theorem parts_of_call {head : Form} (hrole : IsCallHead head) (args : List Form) :
    parts (.list (head :: args)) = head :: args := by
  cases head with
  | atom name => simp [parts, hrole name rfl]
  | number | text | list => rfl

/-! ## Texts of parts -/

theorem infix_bracketed (text : String) : text.toList <:+: (bracketed text).toList :=
  ⟨['('], [')'], by simp [bracketed]⟩

theorem infix_operand (f : Form) (text : String) :
    text.toList <:+: (operand f text).toList := by
  unfold operand
  split
  · exact infix_bracketed text
  · exact List.infix_rfl

theorem infix_callee (head : Form) (text : String) :
    text.toList <:+: (callee head text).toList := by
  unfold callee
  split
  · exact infix_bracketed text
  · exact List.infix_rfl

theorem infix_statement (o : JsOptions) (text : String) :
    text.toList <:+: (statement o text).toList := by
  unfold statement
  split
  · exact ⟨"console.log(".toList, [')'], by simp⟩
  · exact List.infix_rfl

theorem infix_intercalate (separator : String) {text : String} {texts : List String}
    (h : text ∈ texts) : text.toList <:+: (separator.intercalate texts).toList := by
  induction texts with
  | nil => cases h
  | cons first rest ih =>
      by_cases hrest : rest = []
      · subst hrest
        rw [List.mem_singleton.1 h, String.intercalate_singleton]
      · rw [String.intercalate_cons_of_ne_nil hrest, String.toList_append, String.toList_append]
        rcases List.mem_cons.1 h with rfl | h
        · exact ((List.prefix_append _ _).trans (List.prefix_append _ _)).isInfix
        · exact (ih h).trans (List.suffix_append _ _).isInfix

/-- Each form of a row has its text in the row of texts. -/
theorem exists_mem_zip_of_exprF {fs : List Form} {texts : List String}
    (htexts : exprF fs = .ok texts) {g : Form} (hg : g ∈ fs) :
    ∃ text, exprT g = .ok text ∧ (g, text) ∈ fs.zip texts := by
  have hrow := forall₂_of_exprF htexts
  obtain ⟨i, hi, rfl⟩ := List.mem_iff_getElem.1 hg
  have hi' : i < texts.length := hrow.length_eq ▸ hi
  have hmem : (fs[i], texts[i]) ∈ fs.zip texts := by
    rw [← List.getElem_zip (h := by simpa using ⟨hi, hi'⟩)]
    exact List.getElem_mem _
  exact ⟨texts[i], List.forall₂_zip hrow hmem, hmem⟩

/-- The text of a part stands in the text of the form. -/
theorem infix_of_mem_parts {f g : Form} (hg : g ∈ parts f) {text : String}
    (htext : exprT f = .ok text) :
    ∃ inner, exprT g = .ok inner ∧ inner.toList <:+: text.toList := by
  cases rendered_of_exprT htext with
  | number | text | atom | null => cases hg
  | @define name value inner hvalue =>
      obtain rfl : g = value := by simpa [parts, roleOf] using hg
      refine ⟨inner, hvalue, ("const " ++ name ++ " = ").toList, [';'], ?_⟩
      simp
  | @conditional test yes no t y n htest hyes hno =>
      have hg : g = test ∨ g = yes ∨ g = no := by simpa [parts, roleOf] using hg
      rcases hg with rfl | rfl | rfl
      · refine ⟨t, htest, (infix_bracketed t).trans ?_⟩
        exact ⟨[], (" ? " ++ bracketed y ++ " : " ++ bracketed n).toList, by simp⟩
      · refine ⟨y, hyes, (infix_bracketed y).trans ?_⟩
        exact ⟨(bracketed t ++ " ? ").toList, (" : " ++ bracketed n).toList, by simp⟩
      · refine ⟨n, hno, (infix_bracketed n).trans ?_⟩
        exact ⟨(bracketed t ++ " ? " ++ bracketed y ++ " : ").toList, [], by simp⟩
  | @function names body inner hbody =>
      obtain rfl : g = body := by simpa [parts, roleOf] using hg
      refine ⟨inner, hbody, List.IsSuffix.isInfix ?_⟩
      rw [String.toList_append]
      exact List.suffix_append _ _
  | @operation head operator args texts hrole harity hargs =>
      have hg : g ∈ args := by simpa [parts, hrole] using hg
      obtain ⟨inner, hinner, hmem⟩ := exists_mem_zip_of_exprF hargs hg
      have hoperand : operand g inner ∈ List.zipWith operand args texts := by
        rw [← List.map_uncurry_zip_eq_zipWith]
        exact List.mem_map_of_mem hmem
      exact ⟨inner, hinner, (infix_operand g inner).trans (infix_intercalate operator hoperand)⟩
  | @call head inner args texts hrole hhead hargs =>
      rw [parts_of_call hrole, List.mem_cons] at hg
      rw [String.toList_append]
      rcases hg with rfl | hg
      · refine ⟨inner, hhead, (infix_callee g inner).trans ?_⟩
        exact (List.prefix_append _ _).isInfix
      · obtain ⟨inner, hinner, hmem⟩ := exists_mem_zip_of_exprF hargs hg
        refine ⟨inner, hinner, (infix_intercalate "," (List.of_mem_zip hmem).2).trans ?_⟩
        exact (infix_bracketed _).trans (List.suffix_append _ _).isInfix

/-! ## Texts of what is inside -/

/-- Whatever stands inside a form has its text in the text of the form. -/
theorem infix_of_inside {f g : Form} (hg : Inside g f) {text : String}
    (htext : exprT f = .ok text) :
    ∃ inner, exprT g = .ok inner ∧ inner.toList <:+: text.toList := by
  -- from the outside in: the last step of the path is the outermost part
  induction hg generalizing text with
  | single hpart => exact infix_of_mem_parts hpart htext
  | tail _ hpart ih =>
      obtain ⟨between, hbetween, houter⟩ := infix_of_mem_parts hpart htext
      obtain ⟨inner, hinner, hinfix⟩ := ih hbetween
      exact ⟨inner, hinner, hinfix.trans houter⟩

/-- The text of a form of the program stands in the text of the program. -/
theorem infix_of_mem_program {o : JsOptions} {fs : List Form} {out : String}
    (h : render o fs = .ok out) {f : Form} (hf : f ∈ fs) :
    ∃ text, exprT f = .ok text ∧ text.toList <:+: out.toList := by
  obtain ⟨texts, htexts, rfl, -⟩ := exists_texts_of_render h
  obtain ⟨text, htext, hmem⟩ := exists_mem_zip_of_exprF htexts hf
  have hstatement : statement o text ∈ texts.map (statement o) :=
    List.mem_map_of_mem (List.of_mem_zip hmem).2
  refine ⟨text, htext, (infix_statement o text).trans ?_⟩
  exact infix_intercalate o.statementSeparator hstatement

/-- A definition inside a form of a program that is rendered has a name and a value, and
its declaration stands in the program's text. -/
theorem exists_declaration_of_inside {o : JsOptions} {fs : List Form} {out : String}
    (h : render o fs = .ok out) {f : Form} (hf : f ∈ fs) {args : List Form}
    (hinside : Inside (.list (.atom "define" :: args)) f) :
    ∃ name value text, args = [.atom name, value] ∧ exprT value = .ok text ∧
      ("const " ++ name ++ " = " ++ text ++ ";").toList <:+: out.toList := by
  obtain ⟨outer, houter, hprogram⟩ := infix_of_mem_program h hf
  obtain ⟨inner, hinner, hinfix⟩ := infix_of_inside hinside houter
  obtain ⟨name, value, text, hargs, hvalue, rfl⟩ := eq_declaration hinner
  exact ⟨name, value, text, hargs, hvalue, hinfix.trans hprogram⟩

/-- `(f (lambda (a) (define x y)))` -/
def sampleNested : Form :=
  .list [.atom "f", .list [.atom "lambda", .list [.atom "a"],
    .list [.atom "define", .atom "x", .atom "y"]]]

/-- The definition in the body of the function is found in the program's text. -/
theorem exists_declaration_sampleNested :
    render {} [sampleNested] = .ok "console.log(f((a) => const x = y;))" ∧
      ∃ name value text, [Form.atom "x", .atom "y"] = [.atom name, value] ∧
        exprT value = .ok text ∧
        ("const " ++ name ++ " = " ++ text ++ ";").toList <:+:
          "console.log(f((a) => const x = y;))".toList := by
  have hrender : render {} [sampleNested] = .ok "console.log(f((a) => const x = y;))" := by
    decide +kernel
  have hinside : Inside (.list [.atom "define", .atom "x", .atom "y"]) sampleNested := by
    apply Relation.TransGen.tail (b := .list [.atom "lambda", .list [.atom "a"],
      .list [.atom "define", .atom "x", .atom "y"]])
    · apply Relation.TransGen.single
      simp [parts, roleOf]
    · simp [parts, roleOf, operator?, sampleNested]
  exact ⟨hrender, exists_declaration_of_inside hrender (List.mem_singleton_self _) hinside⟩

/-- The program `(f (define x y))` is rendered, with a declaration as an argument. -/
theorem declaration_as_argument :
    render {} [.list [.atom "f", .list [.atom "define", .atom "x", .atom "y"]]] =
        .ok "console.log(f(const x = y;))" ∧
      Inside (.list [.atom "define", .atom "x", .atom "y"])
        (.list [.atom "f", .list [.atom "define", .atom "x", .atom "y"]]) := by
  refine ⟨by decide +kernel, ?_⟩
  apply Relation.TransGen.single
  simp [parts, roleOf, operator?]

end JavaScript
end Sexpr
