import Mathlib
import Sexpr.JavaScript
import Sexpr.Proofs.Fault

/-!
# How a form is rendered

The text of a form is put together from the texts of its parts, in one way for each
kind of form (`Rendered`, `rendered_of_exprT`). What is proved of texts goes by these
kinds.
-/

namespace Sexpr
namespace JavaScript

/-! ## Heads -/

/-- The three heads that make a list neither an operation nor a call. -/
theorem roleOf_special (name : String) :
    (roleOf name = .define → name = "define") ∧ (roleOf name = .conditional → name = "if") ∧
      (roleOf name = .function → name = "lambda") := by
  unfold roleOf
  split
  · exact ⟨fun _ => rfl, nofun, nofun⟩
  · exact ⟨nofun, fun _ => rfl, nofun⟩
  · exact ⟨nofun, nofun, fun _ => rfl⟩
  · cases operator? name <;> exact ⟨nofun, nofun, nofun⟩

/-- A parameter list is a list of atoms. -/
theorem eq_map_of_parameters {part : Form} {names : List String}
    (h : parameters part = .ok names) : part = .list (names.map .atom) := by
  cases part with
  | number | text | atom => cases h
  | list items =>
      congr 1
      have hnames := forall₂_of_mapM h
      clear h
      induction hnames with
      | nil => rfl
      | @cons item _ _ _ hname _ ih =>
          rw [List.map_cons, ih]
          cases item with
          | atom =>
              cases hname
              rfl
          | number | text | list => cases hname

theorem parameters_map_atom (names : List String) :
    parameters (.list (names.map .atom)) = .ok names := by
  rw [parameters]
  induction names with
  | nil => rfl
  | cons name names ih =>
      rw [List.map_cons, List.mapM_cons, ih]
      rfl

/-! ## The kinds of forms -/

/-- The text of the head of a call, from the text that it has as an expression. -/
def callee (head : Form) (text : String) : String :=
  if head.isList then bracketed text else text

/-- The head does not say what its list is, so the list is a call. -/
def IsCallHead (head : Form) : Prop := ∀ name, head = .atom name → roleOf name = .call

/-- The text of a form, from those of its parts. -/
inductive Rendered : Form → String → Prop
  | number (value : Binary64) : Rendered (.number value) value.text
  | text (content : String) : Rendered (.text content) (Json.quote content)
  | atom (name : String) : Rendered (.atom name) name
  | null : Rendered (.list []) "null"
  | define (name : String) {value : Form} {text : String} (hvalue : exprT value = .ok text) :
      Rendered (.list [.atom "define", .atom name, value])
        ("const " ++ name ++ " = " ++ text ++ ";")
  | conditional {test yes no : Form} {t y n : String} (htest : exprT test = .ok t)
      (hyes : exprT yes = .ok y) (hno : exprT no = .ok n) :
      Rendered (.list [.atom "if", test, yes, no])
        (bracketed t ++ " ? " ++ bracketed y ++ " : " ++ bracketed n)
  | function (names : List String) {body : Form} {text : String} (hbody : exprT body = .ok text) :
      Rendered (.list [.atom "lambda", .list (names.map .atom), body])
        (bracketed (",".intercalate names) ++ " => " ++ text)
  | operation {head operator : String} {args : List Form} {texts : List String}
      (hrole : roleOf head = .operation operator) (harity : 2 ≤ args.length)
      (hargs : exprF args = .ok texts) :
      Rendered (.list (.atom head :: args)) (operator.intercalate (List.zipWith operand args texts))
  | call {head : Form} {text : String} {args : List Form} {texts : List String}
      (hrole : IsCallHead head) (hhead : exprT head = .ok text) (hargs : exprF args = .ok texts) :
      Rendered (.list (head :: args)) (callee head text ++ bracketed (",".intercalate texts))

/-- A definition that is rendered has a name and a value. -/
theorem eq_declaration {args : List Form} {text : String}
    (h : exprT (.list (.atom "define" :: args)) = .ok text) :
    ∃ name value inner, args = [.atom name, value] ∧ exprT value = .ok inner ∧
      text = "const " ++ name ++ " = " ++ inner ++ ";" := by
  have hrole : roleOf "define" = .define := rfl
  rw [exprT.eq_def] at h
  simp only [hrole] at h
  split at h
  · next target value =>
    cases target with
    | atom name =>
        obtain ⟨inner, hvalue, h⟩ := exists_of_bind h
        cases h
        exact ⟨name, value, inner, rfl, hvalue, rfl⟩
    | number | text | list => cases h
  · cases h

theorem rendered_of_conditional {args : List Form} {text : String}
    (h : exprT (.list (.atom "if" :: args)) = .ok text) :
    Rendered (.list (.atom "if" :: args)) text := by
  have hrole : roleOf "if" = .conditional := rfl
  rw [exprT.eq_def] at h
  simp only [hrole] at h
  split at h
  · obtain ⟨t, htest, h⟩ := exists_of_bind h
    obtain ⟨y, hyes, h⟩ := exists_of_bind h
    obtain ⟨n, hno, h⟩ := exists_of_bind h
    cases h
    exact .conditional htest hyes hno
  · cases h

theorem rendered_of_function {args : List Form} {text : String}
    (h : exprT (.list (.atom "lambda" :: args)) = .ok text) :
    Rendered (.list (.atom "lambda" :: args)) text := by
  have hrole : roleOf "lambda" = .function := rfl
  rw [exprT.eq_def] at h
  simp only [hrole] at h
  split at h
  · obtain ⟨names, hnames, h⟩ := exists_of_bind h
    obtain ⟨text, hbody, h⟩ := exists_of_bind h
    cases h
    cases eq_map_of_parameters hnames
    exact .function names hbody
  · cases h

theorem rendered_of_operation {head operator text : String} {args : List Form}
    (hrole : roleOf head = .operation operator)
    (h : exprT (.list (.atom head :: args)) = .ok text) :
    Rendered (.list (.atom head :: args)) text := by
  rw [exprT.eq_def] at h
  simp only [hrole] at h
  split at h
  · cases h
  · next harity =>
    obtain ⟨texts, hargs, h⟩ := exists_of_bind h
    cases h
    exact .operation hrole (Nat.le_of_not_lt harity) hargs

/-- A list that an atom heads. -/
theorem rendered_of_atom {head text : String} {args : List Form}
    (h : exprT (.list (.atom head :: args)) = .ok text) :
    Rendered (.list (.atom head :: args)) text := by
  obtain ⟨hdefine, hconditional, hfunction⟩ := roleOf_special head
  cases hrole : roleOf head with
  | define =>
      obtain rfl := hdefine hrole
      obtain ⟨name, value, inner, rfl, hvalue, rfl⟩ := eq_declaration h
      exact .define name hvalue
  | conditional =>
      obtain rfl := hconditional hrole
      exact rendered_of_conditional h
  | function =>
      obtain rfl := hfunction hrole
      exact rendered_of_function h
  | operation operator => exact rendered_of_operation hrole h
  | call =>
      rw [exprT.eq_def] at h
      simp only [hrole] at h
      obtain ⟨texts, hargs, h⟩ := exists_of_bind h
      cases h
      have hhead : IsCallHead (.atom head) := by
        rintro _ ⟨⟩
        exact hrole
      exact .call hhead rfl hargs

/-- Every text of a form is put together from the texts of its parts. -/
theorem rendered_of_exprT {f : Form} {text : String} (h : exprT f = .ok text) :
    Rendered f text := by
  match f with
  | .number value =>
      cases h
      exact .number value
  | .text content =>
      cases h
      exact .text content
  | .atom name =>
      cases h
      exact .atom _
  | .list [] =>
      cases h
      exact .null
  | .list (.atom head :: args) => exact rendered_of_atom h
  | .list (.number value :: args) =>
      rw [exprT] at h
      obtain ⟨texts, hargs, h⟩ := exists_of_bind h
      cases h
      exact .call (show IsCallHead (.number value) from nofun) rfl hargs
  | .list (.text content :: args) =>
      rw [exprT] at h
      obtain ⟨texts, hargs, h⟩ := exists_of_bind h
      cases h
      exact .call (show IsCallHead (.text content) from nofun) rfl hargs
  | .list (.list items :: args) =>
      rw [exprT] at h
      obtain ⟨text, hhead, h⟩ := exists_of_bind h
      obtain ⟨texts, hargs, h⟩ := exists_of_bind h
      cases h
      exact .call nofun hhead hargs

/-- A text that is put together from those of the parts is the text of the form. -/
theorem exprT_of_rendered {f : Form} {text : String} (h : Rendered f text) :
    exprT f = .ok text := by
  cases h with
  | number | text | atom | null => rfl
  | define name hvalue =>
      rw [exprT.eq_def]
      simp only [roleOf, Form.atomName?, hvalue]
      rfl
  | conditional htest hyes hno =>
      rw [exprT.eq_def]
      simp only [roleOf, htest, hyes, hno]
      rfl
  | function names hbody =>
      rw [exprT.eq_def]
      simp only [roleOf, parameters_map_atom, hbody]
      rfl
  | operation hrole harity hargs =>
      rw [exprT.eq_def]
      simp only [hrole, if_neg (Nat.not_lt.2 harity), hargs]
      rfl
  | @call head text args texts hrole hhead hargs =>
      cases head with
      | atom name =>
          have hcall := hrole name rfl
          cases hhead
          rw [exprT.eq_def]
          simp only [hcall, hargs]
          rfl
      | number | text =>
          cases hhead
          rw [exprT, hargs]
          rfl
      | list items =>
          rw [exprT, hhead, hargs]
          rfl

/-- The texts of a row of forms are those of its forms. -/
theorem forall₂_of_exprF {fs : List Form} {texts : List String} (h : exprF fs = .ok texts) :
    List.Forall₂ (fun f text => exprT f = .ok text) fs texts := by
  induction fs generalizing texts with
  | nil =>
      cases h
      exact .nil
  | cons f fs ih =>
      rw [exprF] at h
      obtain ⟨text, htext, h⟩ := exists_of_bind h
      obtain ⟨more, hmore, h⟩ := exists_of_bind h
      cases h
      exact .cons htext (ih hmore)

/-- A program is made of the statements of its forms. -/
theorem exists_texts_of_render {o : JsOptions} {fs : List Form} {out : String}
    (h : render o fs = .ok out) :
    ∃ texts, exprF fs = .ok texts ∧
      out = o.statementSeparator.intercalate (texts.map (statement o)) ∧
      List.Forall₂ (fun f text => form o f = .ok text) fs (texts.map (statement o)) := by
  obtain ⟨texts, htexts, hout⟩ := exists_of_bind h
  cases hout
  refine ⟨texts, htexts, rfl, ?_⟩
  rw [List.forall₂_map_right_iff]
  apply (forall₂_of_exprF htexts).imp
  intro f text htext
  rw [form, htext]
  rfl

end JavaScript
end Sexpr
