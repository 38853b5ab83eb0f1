import Mathlib
import Sexpr.Proofs.JavaScript.Junction

/-!
# Statements that are not logged

Whether a statement is logged is told from the first letters of its text. They are those of
a declaration if the form is a definition, but also if the text begins with a name that goes
on behind these letters (`startsConst_of_exprT`). So a definition is never logged, and
neither is an expression with such a name in front (`form_of_exprT`).
-/

namespace Sexpr
namespace JavaScript

/-! ## The first letters of a text -/

/-- The text begins with the letters of a declaration. -/
def startsConst (text : String) : Bool := "const".toList.isPrefixOf text.toList

theorem startsConst_iff {text : String} :
    startsConst text = true ↔ "const".toList <+: text.toList :=
  List.isPrefixOf_iff_prefix

/-- The letters are all in the first part if the second one begins with none of them. -/
theorem startsConst_append (a : String) {b : String}
    (hb : ∀ c ∈ b.toList.head?, c ∉ "const".toList) : startsConst (a ++ b) = startsConst a := by
  rw [Bool.eq_iff_iff, startsConst_iff, startsConst_iff, String.toList_append]
  constructor
  · intro h
    rcases List.prefix_or_prefix_of_prefix h (List.prefix_append _ _) with hconst | hshort
    · exact hconst
    · obtain ⟨rest, hrest⟩ := hshort
      cases rest with
      | nil =>
          rw [List.append_nil] at hrest
          rw [hrest]
      | cons c rest =>
          -- the second part would begin with the letter `c`
          exfalso
          rw [← hrest, List.prefix_append_right_inj] at h
          obtain ⟨more, hmore⟩ := h
          refine hb c ?_ ?_
          · rw [← hmore]
            rfl
          · rw [← hrest]
            simp
  · intro h
    exact h.trans (List.prefix_append _ _)

theorem startsConst_of_head {text : String} {c : Char} (h : text.toList.head? = some c)
    (hc : c ≠ 'c') : startsConst text = false := by
  rw [← Bool.not_eq_true, startsConst_iff]
  rintro ⟨rest, hrest⟩
  rw [← hrest] at h
  exact hc (Option.some.inj h).symm

theorem startsConst_bracketed (text : String) : startsConst (bracketed text) = false :=
  startsConst_of_head (c := '(') (by simp [toList_bracketed]) (by decide)

theorem startsConst_quote (content : String) : startsConst (Json.quote content) = false := by
  apply startsConst_of_head (c := '"') _ (by decide)
  rw [Json.quote, Json.toList_quoteTo]
  rfl

theorem startsConst_number (value : Binary64) : startsConst value.text = false := by
  cases value with
  | nan => exact (by decide : startsConst "NaN" = false)
  | infinite negative => cases negative <;> decide
  | finite negative m =>
      obtain ⟨c, cs, hchars, hc⟩ := Binary64.exists_digit_text m
      cases negative with
      | true =>
          apply startsConst_of_head (c := '-') _ (by decide)
          rw [Binary64.text_negative]
          rfl
      | false =>
          apply startsConst_of_head (c := c)
          · rw [hchars]
            rfl
          · rintro rfl
            cases hc

/-! ## The first letters of a form -/

/-- The text of the form begins like a declaration: the form is a definition, a name that
begins so, a call of such a name, or an operation whose first operand begins so and has no
brackets. -/
def beginsConst : Form → Bool
  | .atom name => startsConst name
  | .list (.atom head :: args) =>
      match roleOf head, args with
      | .define, _ => true
      | .call, _ => startsConst head
      | .operation _, first :: _ => !needsBrackets first && beginsConst first
      | _, _ => false
  | _ => false

/-- An operation begins like its first operand. -/
theorem startsConst_operation {head operator : String} {first : Form} {more : List Form}
    {text : String} {texts : List String} (hrole : roleOf head = .operation operator)
    (hmore : more ≠ []) (hlength : more.length = texts.length)
    (hfirst : startsConst text = beginsConst first) :
    startsConst (operator.intercalate (List.zipWith operand (first :: more) (text :: texts))) =
      beginsConst (.list (.atom head :: first :: more)) := by
  obtain ⟨mark, -, rfl⟩ := ofName?_of_operation hrole
  have hrest : List.zipWith operand more texts ≠ [] := by
    simpa [← List.length_eq_zero_iff, ← hlength] using hmore
  have hmark : ∀ rest, ∀ c ∈ (mark.chars ++ rest).head?, c ∉ "const".toList := by
    intro rest
    cases mark <;> simp [Operator.chars]
  rw [List.zipWith_cons_cons, String.intercalate_cons_of_ne_nil hrest, String.append_assoc,
    startsConst_append _ (by simpa using hmark _)]
  rw [beginsConst.eq_def, operand]
  simp only [hrole]
  cases needsBrackets first with
  | true => simpa using startsConst_bracketed text
  | false => simpa using hfirst

/-- A call begins like its head. -/
theorem startsConst_call {head : Form} {text : String} (hrole : IsCallHead head)
    (hhead : exprT head = .ok text) (args : List Form) (texts : List String) :
    startsConst (callee head text ++ bracketed (",".intercalate texts)) =
      beginsConst (.list (head :: args)) := by
  rw [startsConst_append _ (by simp [toList_bracketed])]
  cases head with
  | number value =>
      cases hhead
      exact startsConst_number value
  | text content =>
      cases hhead
      exact startsConst_quote content
  | atom name =>
      obtain rfl : name = text := Except.ok.inj hhead
      simp [callee, Form.isList, beginsConst, hrole name rfl]
  | list items => exact startsConst_bracketed text

/-- Whether the text of a form begins like a declaration can be told from the form. -/
theorem startsConst_of_exprT (f : Form) {text : String} (h : exprT f = .ok text) :
    startsConst text = beginsConst f := by
  induction f using Form.itemsInduction generalizing text with
  | number value =>
      cases h
      exact startsConst_number value
  | text content =>
      cases h
      exact startsConst_quote content
  | atom name =>
      cases h
      rfl
  | list items ih =>
      cases rendered_of_exprT h with
      | null => rfl
      | define name =>
          rw [beginsConst.eq_def]
          simp [roleOf, startsConst]
      | conditional =>
          rw [beginsConst.eq_def, startsConst_of_head (c := '(') (by simp [toList_bracketed])
            (by decide)]
          rfl
      | function =>
          rw [beginsConst.eq_def, startsConst_of_head (c := '(') (by simp [toList_bracketed])
            (by decide)]
          rfl
      | operation hrole harity hargs =>
          have hrow := forall₂_of_exprF hargs
          cases hrow with
          | nil => cases harity
          | @cons first text more texts hfirst hmore =>
              have hne : more ≠ [] := by
                rintro rfl
                cases Nat.le_of_succ_le_succ harity
              have hbegins := ih first (by simp) hfirst
              exact startsConst_operation hrole hne hmore.length_eq hbegins
      | call hrole hhead hargs => exact startsConst_call hrole hhead _ _

/-! ## Statements -/

/-- **A statement is left as it is if logging is off, or if its text begins like a
declaration; any other one is logged.** Which texts begin so is told by their forms; those of
definitions do. -/
theorem form_of_exprT {o : JsOptions} {f : Form} {text : String} (h : exprT f = .ok text) :
    form o f = .ok (if o.logExpressions = true ∧ beginsConst f = false
      then "console.log(" ++ text ++ ")" else text) ∧
    ∀ args, f = .list (.atom "define" :: args) → beginsConst f = true := by
  constructor
  · have hstatement : form o f = .ok (statement o text) := by rw [form, h, Except.map]
    have hbegins := startsConst_of_exprT f h
    rw [hstatement, statement, ← hbegins, startsConst]
    simp only [Bool.and_eq_true, Bool.not_eq_true']
  · rintro args rfl
    rw [beginsConst.eq_def]
    rfl

/-- `(+ (constant a) b)` -/
def sampleSum : Form := .list [.atom "+", .list [.atom "constant", .atom "a"], .atom "b"]

/-- The sum is left unlogged, since its text begins with the name `constant`. -/
theorem form_sampleSum :
    exprT sampleSum = .ok "constant(a)+b" ∧ form {} sampleSum = .ok "constant(a)+b" ∧
      ∀ args, sampleSum = .list (.atom "define" :: args) → beginsConst sampleSum = true := by
  have htext : exprT sampleSum = .ok "constant(a)+b" := by decide +kernel
  obtain ⟨hform, hdefine⟩ := form_of_exprT (o := {}) htext
  exact ⟨htext, hform, hdefine⟩

/-- The name `constant` is an expression and no definition, and it is not logged. -/
theorem unlogged_constant :
    exprT (.atom "constant") = .ok "constant" ∧
      (∀ args, Form.atom "constant" ≠ .list (.atom "define" :: args)) ∧
      form {} (.atom "constant") = .ok "constant" ∧
      "constant" ≠ "console.log(" ++ "constant" ++ ")" :=
  ⟨rfl, nofun, by decide +kernel, by decide⟩

end JavaScript
end Sexpr
