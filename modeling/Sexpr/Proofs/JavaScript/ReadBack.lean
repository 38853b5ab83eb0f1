import Mathlib
import Sexpr.Proofs.JavaScript.Rendered
import Sexpr.Proofs.JavaScript.Spelling

/-!
# What is rendered is read back

The text of a form is read as what the form stands for: where brackets are left out,
nothing falls apart, and nothing grows together (`read?_of_wellFormed`).
-/

namespace Sexpr
namespace JavaScript

/-! ## Heads -/

/-- The text of an operator is that of the mark which is read. -/
theorem operator?_eq (name : String) :
    operator? name = (Operator.ofName? name).map fun operator => String.ofList operator.chars := by
  unfold operator?
  split
  case h_8 heq hle hge hplus hminus htimes hover =>
    unfold Operator.ofName?
    split
    all_goals first
      | contradiction
      | rfl
  all_goals rfl

/-- A head that does not say what a list is names an operator or something to call. -/
theorem roleOf_eq {name : String} (hdefine : name ≠ "define") (hif : name ≠ "if")
    (hlambda : name ≠ "lambda") : roleOf name =
      match Operator.ofName? name with
      | some operator => .operation (String.ofList operator.chars)
      | none => .call := by
  unfold roleOf
  split
  · contradiction
  · contradiction
  · contradiction
  · rw [operator?_eq]
    cases Operator.ofName? name <;> rfl

/-- A head that says nothing else names an operator, or is called. -/
theorem ne_of_roleOf {name : String}
    (h : roleOf name = .call ∨ ∃ text, roleOf name = .operation text) :
    name ≠ "define" ∧ name ≠ "if" ∧ name ≠ "lambda" := by
  refine ⟨?_, ?_, ?_⟩
  all_goals
    rintro rfl
    rcases h with h | ⟨_, h⟩ <;> cases h

theorem ofName?_of_call {name : String} (h : roleOf name = .call) :
    Operator.ofName? name = none := by
  obtain ⟨hdefine, hif, hlambda⟩ := ne_of_roleOf (Or.inl h)
  rw [roleOf_eq hdefine hif hlambda] at h
  cases hoperator : Operator.ofName? name with
  | none => rfl
  | some operator =>
      rw [hoperator] at h
      cases h

theorem ofName?_of_operation {name text : String} (h : roleOf name = .operation text) :
    ∃ operator, Operator.ofName? name = some operator ∧ text = String.ofList operator.chars := by
  obtain ⟨hdefine, hif, hlambda⟩ := ne_of_roleOf (Or.inr ⟨text, h⟩)
  rw [roleOf_eq hdefine hif hlambda] at h
  cases hoperator : Operator.ofName? name with
  | none =>
      rw [hoperator] at h
      cases h
  | some operator =>
      rw [hoperator] at h
      cases h
      exact ⟨operator, rfl, rfl⟩

/-! ## Forms -/

variable {letters : Letters} {e : Expression} {es : List Expression}

/-- The text of a form is read as what the form stands for, between operators as well. -/
structure ReadAs (letters : Letters) (f : Form) (text : String) (e : Expression) : Prop where
  meaning : meaningT? f = some e
  expression : Spells letters text.toList e
  between : SpellsOperand letters (operand f text).toList e

theorem toList_bracketed (text : String) :
    (bracketed text).toList = '(' :: text.toList ++ [')'] := by
  simp [bracketed]

theorem ReadAs.of_operand {f : Form} {text : String} (hmeaning : meaningT? f = some e)
    (hf : needsBrackets f = false) (h : SpellsOperand letters text.toList e) :
    ReadAs letters f text e := by
  refine ⟨hmeaning, h.spells, ?_⟩
  rw [operand, hf]
  exact h

theorem ReadAs.of_bracketed {f : Form} {text : String} (hmeaning : meaningT? f = some e)
    (hf : needsBrackets f = true) (h : Spells letters text.toList e) :
    ReadAs letters f text e := by
  refine ⟨hmeaning, h, ?_⟩
  rw [operand, hf, if_pos rfl, toList_bracketed]
  exact h.bracketed

theorem spells_call {callee : String} {texts : List String}
    (h : SpellsOperand letters callee.toList e)
    (htexts : List.Forall₂ (Spells letters) (texts.map String.toList) es) :
    SpellsOperand letters (callee ++ bracketed (",".intercalate texts)).toList (.call e es) := by
  rw [String.toList_append, toList_bracketed, String.toList_intercalate]
  exact h.call htexts

/-! ### What lists are read as -/

theorem ReadAs.conditional {test yes no : Form} {t y n : String} {e₁ e₂ e₃ : Expression}
    (htest : ReadAs letters test t e₁) (hyes : ReadAs letters yes y e₂)
    (hno : ReadAs letters no n e₃) :
    ReadAs letters (.list [.atom "if", test, yes, no])
      (bracketed t ++ " ? " ++ bracketed y ++ " : " ++ bracketed n)
      (.conditional e₁ e₂ e₃) := by
  refine .of_bracketed ?_ rfl ?_
  · simp [meaningT?, htest.meaning, hyes.meaning, hno.meaning]
  · have hspells := Spells.conditional htest.expression.bracketed hyes.expression.bracketed
      hno.expression.bracketed
    simpa [toList_bracketed] using hspells

theorem mapM_atomName? (names : List String) :
    names.mapM (Form.atomName? ∘ Form.atom) = some names := by
  induction names with
  | nil => rfl
  | cons name names ih =>
      rw [List.mapM_cons, ih]
      rfl

theorem ReadAs.function {names : List String} {body : Form} {b : String}
    (hnames : ∀ name ∈ names, letters.isName name = true) (hbody : ReadAs letters body b e) :
    ReadAs letters (.list [.atom "lambda", .list (names.map .atom), body])
      (bracketed (",".intercalate names) ++ " => " ++ b) (.function names e) := by
  refine .of_bracketed ?_ rfl ?_
  · simp [meaningT?, mapM_atomName?, hbody.meaning]
  · have hspells := Spells.function hnames hbody.expression
    simpa [toList_bracketed, String.toList_intercalate] using hspells

theorem ReadAs.call {head : String} {parts : List Form} {texts : List String}
    {es : List Expression} (hdefine : head ≠ "define") (hif : head ≠ "if")
    (hlambda : head ≠ "lambda") (hoperator : Operator.ofName? head = none)
    (hname : letters.isName head = true) (hmeaning : meaningF? parts = some es)
    (hspells : List.Forall₂ (Spells letters) (texts.map String.toList) es) :
    ReadAs letters (.list (.atom head :: parts)) (head ++ bracketed (",".intercalate texts))
      (.call (.name head) es) := by
  have hbare : needsBrackets (.list (.atom head :: parts)) = false := by
    simp [needsBrackets, Form.headAtom?, roleOf_eq hdefine hif hlambda, hoperator]
  refine .of_operand ?_ hbare (spells_call (SpellsOperand.name hname) hspells)
  rw [meaningT?.eq_def]
  simp [hdefine, hif, hlambda, hoperator, hmeaning]

theorem length_of_meaningF? {fs : List Form} (h : meaningF? fs = some es) :
    es.length = fs.length := by
  induction fs generalizing es with
  | nil =>
      cases h
      rfl
  | cons f fs ih =>
      simp only [meaningF?, Option.bind_eq_bind, Option.bind_eq_some_iff] at h
      obtain ⟨e, -, more, hmore, hes⟩ := h
      cases hes
      rw [List.length_cons, List.length_cons, ih hmore]

theorem ReadAs.operation {head : String} {operator : Operator} {parts : List Form}
    {texts : List String} {es : List Expression} (hdefine : head ≠ "define") (hif : head ≠ "if")
    (hlambda : head ≠ "lambda") (hoperator : Operator.ofName? head = some operator)
    (harity : ¬ parts.length < 2) (hmeaning : meaningF? parts = some es)
    (hspells : List.Forall₂ (SpellsOperand letters) (texts.map String.toList) es) :
    ∃ e, ReadAs letters (.list (.atom head :: parts))
      ((String.ofList operator.chars).intercalate texts) e := by
  have hneeds : needsBrackets (.list (.atom head :: parts)) = true := by
    simp [needsBrackets, Form.headAtom?, roleOf_eq hdefine hif hlambda, hoperator]
  have hlength := length_of_meaningF? hmeaning
  obtain ⟨first, second, more, rfl⟩ : ∃ first second more, es = first :: second :: more := by
    match es with
    | [] | [_] => simp at hlength; omega
    | first :: second :: more => exact ⟨first, second, more, rfl⟩
  refine ⟨(second :: more).foldl (.operation operator) first, .of_bracketed ?_ hneeds ?_⟩
  · rw [meaningT?.eq_def]
    simp [hdefine, hif, hlambda, hoperator, hmeaning, rowMeaning?]
  · rw [String.toList_intercalate, String.toList_ofList]
    generalize texts.map String.toList = rows at hspells ⊢
    cases hspells with
    | cons hfirst hmore =>
        refine hfirst.operation hmore ?_ operator
        rintro rfl
        cases hmore

/-! ### All forms -/

/-- If the form renders, its text is read as what the form stands for. -/
def IsReadBack (letters : Letters) (f : Form) : Prop :=
  wellFormedT letters false f = true → ∀ text, exprT f = .ok text → ∃ e, ReadAs letters f text e

theorem exists_readings {fs : List Form} (h : ∀ f ∈ fs, IsReadBack letters f)
    (hfs : wellFormedF letters fs = true) {texts : List String} (htexts : exprF fs = .ok texts) :
    ∃ es, meaningF? fs = some es ∧
      List.Forall₂ (Spells letters) (texts.map String.toList) es ∧
      List.Forall₂ (SpellsOperand letters) ((List.zipWith operand fs texts).map String.toList)
        es := by
  induction fs generalizing texts with
  | nil =>
      cases htexts
      exact ⟨[], rfl, .nil, .nil⟩
  | cons f fs ih =>
      obtain ⟨hfirst, hmore⟩ := List.forall_mem_cons.1 h
      obtain ⟨hf, hfs⟩ := Bool.and_eq_true_iff.1 hfs
      rw [exprF] at htexts
      obtain ⟨text, htext, htexts⟩ := exists_of_bind htexts
      obtain ⟨texts', htexts', htexts⟩ := exists_of_bind htexts
      cases htexts
      obtain ⟨e, he⟩ := hfirst hf text htext
      obtain ⟨es, hmeaning, hspells, hoperands⟩ := ih hmore hfs htexts'
      refine ⟨e :: es, ?_, .cons he.expression hspells, .cons he.between hoperands⟩
      rw [meaningF?, he.meaning, hmeaning]
      rfl

/-- A call is read back, whatever heads it but a number. -/
theorem isReadBack_call {head : Form} {args : List Form} {text : String} {texts : List String}
    (hrole : IsCallHead head) (hhead : exprT head = .ok text) (hargs : exprF args = .ok texts)
    (hitems : ∀ f ∈ head :: args, IsReadBack letters f)
    (hf : wellFormedT letters false (.list (head :: args)) = true) :
    ∃ e, ReadAs letters (.list (head :: args))
      (callee head text ++ bracketed (",".intercalate texts)) e := by
  obtain ⟨hheadBack, hargsBack⟩ := List.forall_mem_cons.1 hitems
  cases head with
  | number value => cases hf
  | atom name =>
      obtain rfl : name = text := Except.ok.inj hhead
      obtain ⟨hdefine, hif, hlambda⟩ := ne_of_roleOf (Or.inl (hrole _ rfl))
      have hoperator := ofName?_of_call (hrole _ rfl)
      have hlist : letters.isName name = true ∧ wellFormedF letters args = true := by
        simpa [wellFormedT.eq_def, hdefine, hif, hlambda, hoperator] using hf
      obtain ⟨es, hmeaning, hspells, -⟩ := exists_readings hargsBack hlist.2 hargs
      exact ⟨_, .call hdefine hif hlambda hoperator hlist.1 hmeaning hspells⟩
  | text content =>
      cases hhead
      obtain ⟨es, hmeaning, hspells, -⟩ :=
        exists_readings hargsBack (Bool.and_eq_true_iff.1 hf).2 hargs
      refine ⟨_, .of_operand ?_ rfl (spells_call (SpellsOperand.text content) hspells)⟩
      simp [meaningT?, hmeaning]
  | list items =>
      obtain ⟨hheadFormed, hargsFormed⟩ := Bool.and_eq_true_iff.1 hf
      obtain ⟨e, he⟩ := hheadBack hheadFormed text hhead
      obtain ⟨es, hmeaning, hspells, -⟩ := exists_readings hargsBack hargsFormed hargs
      have hbracketed : SpellsOperand letters (bracketed text).toList e := by
        rw [toList_bracketed]
        exact he.expression.bracketed
      refine ⟨_, .of_operand ?_ rfl (spells_call hbracketed hspells)⟩
      simp [meaningT?, he.meaning, hmeaning]

theorem isReadBack_list {items : List Form} (h : ∀ f ∈ items, IsReadBack letters f) :
    IsReadBack letters (.list items) := by
  intro hf text htext
  cases rendered_of_exprT htext with
  | null => exact ⟨_, .of_operand rfl rfl SpellsOperand.null⟩
  | define => cases hf
  | @conditional test yes no t y n htest hyes hno =>
      have hparts : wellFormedF letters [test, yes, no] = true := by
        simpa [wellFormedT.eq_def] using hf
      simp only [wellFormedF, Bool.and_eq_true] at hparts
      obtain ⟨htestFormed, hyesFormed, hnoFormed, -⟩ := hparts
      obtain ⟨e₁, h₁⟩ := h test (by simp) htestFormed t htest
      obtain ⟨e₂, h₂⟩ := h yes (by simp) hyesFormed y hyes
      obtain ⟨e₃, h₃⟩ := h no (by simp) hnoFormed n hno
      exact ⟨_, h₁.conditional h₂ h₃⟩
  | @function names body b hbody =>
      have hparts : (∀ name ∈ names, letters.isName name = true) ∧
          wellFormedT letters false body = true := by
        simpa [wellFormedT, wellFormedF, Form.atomName?, List.all_map] using hf
      obtain ⟨e, he⟩ := h body (by simp) hparts.2 b hbody
      exact ⟨_, ReadAs.function hparts.1 he⟩
  | @operation head operator args texts hrole harity hargs =>
      obtain ⟨hdefine, hif, hlambda⟩ := ne_of_roleOf (Or.inr ⟨operator, hrole⟩)
      obtain ⟨operator, hoperator, rfl⟩ := ofName?_of_operation hrole
      have hparts : wellFormedF letters args = true := by
        simpa [wellFormedT.eq_def, hdefine, hif, hlambda, hoperator] using hf
      obtain ⟨es, hmeaning, -, hspells⟩ :=
        exists_readings (List.forall_mem_cons.1 h).2 hparts hargs
      exact ReadAs.operation hdefine hif hlambda hoperator (Nat.not_lt.2 harity) hmeaning hspells
  | call hrole hhead hargs => exact isReadBack_call hrole hhead hargs h hf

theorem isReadBack (letters : Letters) (f : Form) : IsReadBack letters f := by
  induction f using Form.itemsInduction with
  | number value =>
      intro hf text htext
      cases value with
      | infinite | nan => cases hf
      | finite negative m =>
          cases htext
          cases negative with
          | false => exact ⟨_, .of_operand rfl rfl (SpellsOperand.number m)⟩
          | true => exact ⟨_, .of_bracketed rfl rfl (Spells.negative m)⟩
  | text content =>
      rintro - _ ⟨⟩
      exact ⟨_, .of_operand rfl rfl (SpellsOperand.text content)⟩
  | atom name =>
      rintro hf _ ⟨⟩
      exact ⟨_, .of_operand rfl rfl (SpellsOperand.name hf)⟩
  | list items ih => exact isReadBack_list ih

/-! ## Programs -/

/-- Below the top and at the top, a form that is no declaration is the same. -/
theorem wellFormedT_eq {f : Form} (h : f.headAtom? ≠ some "define") (top : Bool) :
    wellFormedT letters top f = wellFormedT letters false f := by
  cases f with
  | number | text | atom => rfl
  | list items =>
      cases items with
      | nil => rfl
      | cons head parts =>
          cases head with
          | atom head =>
              have hdefine : head ≠ "define" := by
                rintro rfl
                exact h rfl
              rw [wellFormedT.eq_def, wellFormedT.eq_def letters false]
              simp [hdefine]
          | number | text | list => rfl

theorem meaning?_eq {f : Form} (h : f.headAtom? ≠ some "define") :
    meaning? f = (meaningT? f).map .expression := by
  unfold meaning?
  split
  · exact absurd rfl h
  · rfl

/-- A declaration is read as it is meant. -/
theorem read?_of_define {parts : List Form} (hparts : wellFormedF letters parts = true)
    {text : String} (htext : exprT (.list (.atom "define" :: parts)) = .ok text) :
    ∃ s, meaning? (.list (.atom "define" :: parts)) = some s ∧ read? letters text = some s := by
  have hrendered := rendered_of_exprT htext
  generalize hform : Form.list (.atom "define" :: parts) = f at hrendered
  cases hrendered with
  | @define name value valueText hvalueText =>
      cases hform
      simp only [wellFormedF, Bool.and_eq_true] at hparts
      obtain ⟨htarget, hvalue, -⟩ := hparts
      obtain ⟨e, he⟩ := isReadBack letters value hvalue valueText hvalueText
      refine ⟨.declaration name e, ?_, he.expression.read?_declaration htarget⟩
      rw [meaning?, he.meaning]
      rfl
  | operation hrole =>
      cases hform
      cases hrole
  | call hrole =>
      cases hform
      cases hrole _ rfl
  | _ => simp at hform

theorem eq_of_headAtom? {f : Form} {head : String} (h : f.headAtom? = some head) :
    ∃ parts, f = .list (.atom head :: parts) := by
  unfold Form.headAtom? at h
  split at h
  · cases h
    exact ⟨_, rfl⟩
  · cases h

/-- **A program that is rendered from a form is read as what the form stands for.** -/
theorem read?_of_wellFormed (letters : Letters) (f : Form) (hf : wellFormedT letters true f = true)
    {text : String} (htext : exprT f = .ok text) :
    ∃ s, meaning? f = some s ∧ read? letters text = some s := by
  by_cases hdefine : f.headAtom? = some "define"
  · obtain ⟨parts, rfl⟩ := eq_of_headAtom? hdefine
    exact read?_of_define (by simpa [wellFormedT.eq_def] using hf) htext
  · rw [wellFormedT_eq hdefine] at hf
    obtain ⟨e, he⟩ := isReadBack letters f hf text htext
    refine ⟨.expression e, ?_, he.expression.read?⟩
    rw [meaning?_eq hdefine, he.meaning]
    rfl

/-- `(define f (lambda (x) (if (<= x -0) (g x ()) (* (+ x 0) x))))` -/
def sampleFunction : Form :=
  .list [.atom "define", .atom "f", .list [.atom "lambda", .list [.atom "x"], .list [.atom "if",
    .list [.atom "<=", .atom "x", .number (.finite true .zero)],
    .list [.atom "g", .atom "x", .list []],
    .list [.atom "*", .list [.atom "+", .atom "x", .number (.finite false .zero)], .atom "x"]]]]

/-- The function is rendered with brackets around the zero with a minus and around the
sum, and is read as it is meant. -/
theorem read?_sampleFunction :
    exprT sampleFunction = .ok "const f = (x) => (x<=(-0)) ? (g(x,null)) : ((x+0)*x);" ∧
    read? ⟨fun _ => false, fun _ => false⟩
        "const f = (x) => (x<=(-0)) ? (g(x,null)) : ((x+0)*x);" =
      some (.declaration "f" (.function ["x"] (.conditional
        (.operation .atMost (.name "x") (.negative (.number (.finite false .zero))))
        (.call (.name "g") [.name "x", .null])
        (.operation .times (.operation .plus (.name "x") (.number (.finite false .zero)))
          (.name "x"))))) := by
  have hwellFormed :
      wellFormedT ⟨fun _ => false, fun _ => false⟩ true sampleFunction = true := by
    decide +kernel
  have htext : exprT sampleFunction =
      .ok "const f = (x) => (x<=(-0)) ? (g(x,null)) : ((x+0)*x);" := by
    decide +kernel
  obtain ⟨s, hmeaning, hread⟩ := read?_of_wellFormed _ sampleFunction hwellFormed htext
  refine ⟨htext, ?_⟩
  rw [hread, ← hmeaning]
  rfl

end JavaScript
end Sexpr
