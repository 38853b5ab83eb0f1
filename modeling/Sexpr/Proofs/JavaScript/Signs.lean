import Mathlib
import Sexpr.Proofs.Form.RoundTrip
import Sexpr.Proofs.JavaScript.Literals

/-!
# Two signs in a row

A sign that stands twice in a row is another operator in a program. Where signs stand in no
name but the operators, a rendered program has no two of them in a row outside its literals,
except in one place: behind a minus, a call that a negative number heads is an operand without
brackets (`doubled_outside_iff`).
-/

namespace Sexpr
namespace JavaScript

open Form

/-! ## Forms -/

/-- Neither sign stands in the text. -/
def Signless (text : String) : Prop := '+' ∉ text.toList ∧ '-' ∉ text.toList

instance (text : String) : Decidable (Signless text) :=
  inferInstanceAs (Decidable (_ ∧ _))

theorem Signless.notMem {c : Char} (hc : c = '+' ∨ c = '-') {text : String} (h : Signless text) :
    c ∉ text.toList := by
  rcases hc with rfl | rfl
  · exact h.1
  · exact h.2

theorem Signless.append {a b : String} (ha : Signless a) (hb : Signless b) :
    Signless (a ++ b) := by
  simp only [Signless, String.toList_append, List.mem_append, not_or]
  exact ⟨⟨ha.1, hb.1⟩, ha.2, hb.2⟩

mutual

/-- A sign stands in no atom, unless it is the whole atom and heads a list of two operands or
more. -/
def signsAtHeadsT : Form → Bool
  | .number _ | .text _ => true
  | .atom name => decide (Signless name)
  | .list [] => true
  | .list (.atom head :: args) =>
      (decide (Signless head) || (head = "+" || head = "-") && decide (2 ≤ args.length)) &&
        signsAtHeadsF args
  | .list (head :: args) => signsAtHeadsT head && signsAtHeadsF args

def signsAtHeadsF : List Form → Bool
  | [] => true
  | f :: fs => signsAtHeadsT f && signsAtHeadsF fs

end

/-- A call that a number with a minus heads. -/
def negativeCall : Form → Bool
  | .list (.number value :: _) => hasMinus value
  | _ => false

/-- A subtraction with such a call behind a minus. -/
def fuses : Form → Bool
  | .list (.atom head :: args) => head = "-" && args.tail.any negativeCall
  | _ => false

theorem signsAtHeadsF_eq_all (fs : List Form) : signsAtHeadsF fs = fs.all signsAtHeadsT := by
  induction fs with
  | nil => rfl
  | cons f fs ih => rw [signsAtHeadsF, ih, List.all_cons]

theorem signsAtHeadsF_of_list {head : Form} {args : List Form}
    (h : signsAtHeadsT (.list (head :: args)) = true) : signsAtHeadsF args = true := by
  cases head with
  | number | text | atom | list =>
      rw [signsAtHeadsT, Bool.and_eq_true] at h
      · exact h.2
      all_goals
        intro name heq
        cases heq

/-! ### With their texts emptied -/

theorem signsAtHeadsT_emptiedT (f : Form) : signsAtHeadsT (emptiedT f) = signsAtHeadsT f := by
  induction f using Form.itemsInduction with
  | number | text | atom => rfl
  | list items ih =>
      cases items with
      | nil => rfl
      | cons head args =>
          obtain ⟨hhead, hargs⟩ := List.forall_mem_cons.1 ih
          have hall : signsAtHeadsF (emptiedF args) = signsAtHeadsF args := by
            rw [signsAtHeadsF_eq_all, signsAtHeadsF_eq_all, all_emptiedF hargs]
          have hlength : (emptiedF args).length = args.length := by
            rw [emptiedF_eq_map, List.length_map]
          cases head with
          | atom => simp only [emptiedT, emptiedF, signsAtHeadsT, hall, hlength]
          | number | text => simp only [emptiedT, emptiedF, signsAtHeadsT, hall]
          | list items =>
              rw [emptiedT, emptiedF, signsAtHeadsT, hhead, hall]
              · rfl
              · intro name heq
                cases heq

theorem canonicalT_emptiedT {f : Form} (h : CanonicalT f) : CanonicalT (emptiedT f) := by
  induction f using Form.itemsInduction with
  | number | atom => exact h
  | text => exact List.not_mem_nil
  | list items ih =>
      have hitems := canonicalF_iff.1 h
      rw [emptiedT, CanonicalT, emptiedF_eq_map, canonicalF_iff, List.forall_mem_map]
      exact fun f hf => ih f hf (hitems f hf)

theorem negativeCall_emptiedT (f : Form) : negativeCall (emptiedT f) = negativeCall f := by
  cases f with
  | number | text | atom => rfl
  | list items =>
      cases items with
      | nil => rfl
      | cons head args => cases head <;> rfl

theorem fuses_emptiedT (f : Form) : fuses (emptiedT f) = fuses f := by
  cases f with
  | number | text | atom => rfl
  | list items =>
      cases items with
      | nil => rfl
      | cons head args =>
          cases head with
          | atom name =>
              simp only [emptiedT, emptiedF, emptiedF_eq_map, fuses, ← List.map_tail, List.any_map]
              congr 2
              exact funext negativeCall_emptiedT
          | number | text | list => rfl

/-- What is left of a form outside its literals: nothing stands in its texts, and its signs are
heads. -/
structure Outer (f : Form) : Prop where
  emptied : emptiedT f = f
  signs : signsAtHeadsT f = true
  canonical : CanonicalT f

theorem outer_emptiedT {f : Form} (hsigns : signsAtHeadsT f = true) (h : CanonicalT f) :
    Outer (emptiedT f) where
  emptied := emptiedT_emptiedT f
  signs := (signsAtHeadsT_emptiedT f).trans hsigns
  canonical := canonicalT_emptiedT h

namespace Outer

theorem of_mem_args {head : Form} {args : List Form} (h : Outer (.list (head :: args))) :
    ∀ f ∈ args, Outer f := by
  intro f hf
  have hmem : f ∈ head :: args := List.mem_cons_of_mem _ hf
  have hsigns := signsAtHeadsF_of_list h.signs
  rw [signsAtHeadsF_eq_all, List.all_eq_true] at hsigns
  exact ⟨emptiedT_list_iff.1 h.emptied f hmem, hsigns f hf, canonicalF_iff.1 h.canonical f hmem⟩

/-- The head of a call is no sign. -/
theorem of_head {head : Form} {args : List Form} (h : Outer (.list (head :: args)))
    (hcall : IsCallHead head) : Outer head := by
  have hmem : head ∈ head :: args := List.mem_cons_self
  refine ⟨emptiedT_list_iff.1 h.emptied head hmem, ?_, canonicalF_iff.1 h.canonical head hmem⟩
  have hsigns := h.signs
  cases head with
  | number | text => rfl
  | list items =>
      rw [signsAtHeadsT, Bool.and_eq_true] at hsigns
      · exact hsigns.1
      · intro name heq
        cases heq
  | atom name =>
      have hplus : name ≠ "+" := by
        rintro rfl
        cases hcall _ rfl
      have hminus : name ≠ "-" := by
        rintro rfl
        cases hcall _ rfl
      simpa [signsAtHeadsT, hplus, hminus] using And.left (Bool.and_eq_true_iff.1 hsigns)

theorem of_mem_parts {f g : Form} (h : Outer f) (hg : g ∈ parts f) : Outer g := by
  cases f with
  | number | text | atom => cases hg
  | list items =>
      cases items with
      | nil => cases hg
      | cons head args =>
          by_cases hcall : IsCallHead head
          · rw [parts_of_call hcall] at hg
            rcases List.mem_cons.1 hg with rfl | hg
            · exact h.of_head hcall
            · exact h.of_mem_args g hg
          · obtain ⟨name, rfl, hname⟩ : ∃ name, head = .atom name ∧ roleOf name ≠ .call := by
              simpa [IsCallHead] using hcall
            apply h.of_mem_args g
            simp only [parts] at hg
            cases hrole : roleOf name with
            | define | function =>
                rw [hrole] at hg
                exact List.mem_of_mem_drop (List.mem_of_mem_take hg)
            | conditional | operation =>
                rw [hrole] at hg
                exact hg
            | call => exact absurd hrole hname

theorem signless {name : String} (h : Outer (.atom name)) : Signless name := by
  simpa [signsAtHeadsT] using h.signs

theorem name_ne_empty {name : String} (h : Outer (.atom name)) : name ≠ "" := by
  rintro rfl
  rcases h.canonical with (hsign | hsign) | ⟨c, tail, hname, -⟩
  · cases hsign
  · cases hsign
  · cases hname

theorem finite {value : Binary64} (h : Outer (.number value)) :
    ∃ negative m, value = .finite negative m := by
  have hfinite : value.isFinite = true := h.canonical
  cases value with
  | finite negative m => exact ⟨negative, m, rfl⟩
  | infinite | nan => cases hfinite

theorem text_eq {content : String} (h : Outer (.text content)) : content = "" :=
  (Form.text.inj h.emptied).symm

end Outer

/-! ## Seams -/

/-- How the text of an operand meets the operators beside it. -/
structure Seam (c : Char) (f : Form) (text : String) : Prop where
  nonempty : text ≠ ""
  ends : ¬ EndsWith c text
  begins : BeginsWith c text ↔ c = '-' ∧ negativeCall f = true

theorem Seam.of_notMem {c : Char} {f : Form} {text : String} (hne : text ≠ "")
    (h : c ∉ text.toList) (hf : negativeCall f = false) : Seam c f text where
  nonempty := hne
  ends := not_endsWith h
  begins := by simp [not_beginsWith h, hf]

theorem negativeCall_of_needsBrackets {f : Form} (h : needsBrackets f = true) :
    negativeCall f = false := by
  cases f with
  | number | text | atom => rfl
  | list items =>
      cases items with
      | nil => rfl
      | cons head args =>
          cases head with
          | number => cases h
          | text | atom | list => rfl

theorem fuses_of_call {head : Form} (hrole : IsCallHead head) (args : List Form) :
    fuses (.list (head :: args)) = false := by
  cases head with
  | number | text | list => rfl
  | atom name =>
      have hname : name ≠ "-" := by
        rintro rfl
        cases hrole _ rfl
      simp [fuses, hname]

theorem text_eq_append (m : Magnitude) :
    Binary64.text (.finite true m) = "-" ++ Binary64.text (.finite false m) := by
  rw [← String.toList_inj, Binary64.text_negative, String.toList_append]
  rfl

theorem bracketed_ne_empty (text : String) : bracketed text ≠ "" := by
  simp [bracketed]

section Sign

variable {c : Char} (hc : c = '+' ∨ c = '-')

include hc

theorem sign_notMem_text (m : Magnitude) : c ∉ (Binary64.text (.finite false m)).toList := by
  rcases hc with rfl | rfl
  · exact Binary64.notMem_text rfl (by decide) m
  · exact Binary64.notMem_text rfl (by decide) m

theorem not_doubled_number (negative : Bool) (m : Magnitude) :
    ¬ Doubled c (Binary64.text (.finite negative m)) := by
  have hnotMem := sign_notMem_text hc m
  cases negative with
  | false => exact not_doubled hnotMem
  | true =>
      rw [text_eq_append, doubled_append_of_notMem_right hnotMem]
      exact not_doubled_of_length (by decide)

theorem not_beginsWith_bracketed (text : String) : ¬ BeginsWith c (bracketed text) := by
  rw [bracketed, String.append_assoc, beginsWith_append (by decide)]
  exact not_beginsWith ((by decide : Signless "(").notMem hc)

theorem not_endsWith_bracketed (text : String) : ¬ EndsWith c (bracketed text) := by
  rw [bracketed, endsWith_append (by decide)]
  exact not_endsWith ((by decide : Signless ")").notMem hc)

theorem doubled_bracketed (text : String) : Doubled c (bracketed text) ↔ Doubled c text := by
  rw [bracketed, doubled_append_of_notMem_right ((by decide : Signless ")").notMem hc),
    doubled_append_of_notMem_left ((by decide : Signless "(").notMem hc)]

theorem doubled_operand (f : Form) (text : String) :
    Doubled c (operand f text) ↔ Doubled c text := by
  unfold operand
  split
  · exact doubled_bracketed hc text
  · exact Iff.rfl

theorem doubled_callee (head : Form) (text : String) :
    Doubled c (callee head text) ↔ Doubled c text := by
  unfold callee
  split
  · exact doubled_bracketed hc text
  · exact Iff.rfl

theorem Seam.bracketed {f : Form} (hf : negativeCall f = false) (text : String) :
    Seam c f (bracketed text) where
  nonempty := bracketed_ne_empty text
  ends := not_endsWith_bracketed hc text
  begins := by simp [not_beginsWith_bracketed hc, hf]

theorem Seam.empty_literal {f : Form} (hf : negativeCall f = false) :
    Seam c f (Json.quote "") := by
  rw [quote_empty]
  exact .of_notMem (by decide) ((by decide : Signless "\"\"").notMem hc) hf

/-- The head of a call meets what stands in front of the call. -/
theorem Seam.callee {head : Form} {text : String} (h : Outer head) (htext : exprT head = .ok text)
    (args : List Form) : Seam c (.list (head :: args)) (callee head text) := by
  cases head with
  | number value =>
      cases htext
      obtain ⟨negative, m, rfl⟩ := h.finite
      have hnotMem := sign_notMem_text hc m
      cases negative with
      | false => exact .of_notMem (text_ne_empty (.finite false m)) hnotMem rfl
      | true =>
          show Seam c _ (Binary64.text (.finite true m))
          rw [text_eq_append]
          refine ⟨append_ne_empty (by decide) _, ?_, ?_⟩
          · rw [endsWith_append (text_ne_empty _)]
            exact not_endsWith hnotMem
          · rw [beginsWith_append (by decide)]
            simp [BeginsWith, negativeCall, hasMinus, eq_comm]
  | text content =>
      obtain rfl := h.text_eq
      cases htext
      exact .empty_literal hc rfl
  | atom name =>
      cases htext
      exact .of_notMem h.name_ne_empty (h.signless.notMem hc) rfl
  | list items => exact .bracketed hc rfl text

theorem Outer.seam {f : Form} {text : String} (h : Outer f) (htext : exprT f = .ok text) :
    Seam c f (operand f text) := by
  unfold operand
  split
  · next hbrackets => exact .bracketed hc (negativeCall_of_needsBrackets hbrackets) text
  next hbrackets =>
  cases rendered_of_exprT htext with
  | number value =>
      obtain ⟨negative, m, rfl⟩ := h.finite
      obtain rfl : negative = false := by simpa [needsBrackets, Binary64.isNegative] using hbrackets
      exact .of_notMem (text_ne_empty _) (sign_notMem_text hc m) rfl
  | text content =>
      obtain rfl := h.text_eq
      exact .empty_literal hc rfl
  | atom name => exact .of_notMem h.name_ne_empty (h.signless.notMem hc) rfl
  | null => exact .of_notMem (by decide) ((by decide : Signless "null").notMem hc) rfl
  | define name hvalue =>
      refine ⟨by simp, ?_, ?_⟩
      · rw [endsWith_append (by decide)]
        exact not_endsWith ((by decide : Signless ";").notMem hc)
      · simp only [String.append_assoc]
        rw [beginsWith_append (by decide)]
        have hconst := (by decide : Signless "const ").notMem hc
        simpa [negativeCall] using not_beginsWith hconst
  | conditional => exact absurd rfl hbrackets
  | function => exact absurd rfl hbrackets
  | operation hrole => simp [needsBrackets, Form.headAtom?, hrole] at hbrackets
  | @call head inner args texts hrole hhead hargs =>
      have hseam := Seam.callee hc (h.of_head hrole) hhead args
      refine ⟨append_ne_empty hseam.nonempty _, ?_, ?_⟩
      · rw [endsWith_append (bracketed_ne_empty _)]
        exact not_endsWith_bracketed hc _
      · rw [beginsWith_append hseam.nonempty]
        exact hseam.begins

end Sign

/-! ## From the parts to the whole -/

/-- The character stands twice in a row in the text of the form. -/
def DoubledIn (c : Char) (f : Form) : Prop := ∃ text, exprT f = .ok text ∧ Doubled c text

section Parts

variable {c : Char}

theorem doubledIn_iff {f : Form} {text : String} (h : exprT f = .ok text) :
    DoubledIn c f ↔ Doubled c text := by
  simp [DoubledIn, h]

theorem forall_mem_of_forall₂ {R : Form → String → Prop} {Q : String → Prop} {fs : List Form}
    {texts : List String} (h : List.Forall₂ R fs texts) (hR : ∀ f text, R f text → Q text) :
    ∀ text ∈ texts, Q text := by
  induction h with
  | nil => exact List.forall_mem_nil _
  | cons hfirst _ ih => exact List.forall_mem_cons.2 ⟨hR _ _ hfirst, ih⟩

theorem exists_mem_iff_of_forall₂ {R : Form → String → Prop} {P : Form → Prop}
    {Q : String → Prop} {fs : List Form} {texts : List String} (h : List.Forall₂ R fs texts)
    (hR : ∀ f text, R f text → (Q text ↔ P f)) :
    (∃ text ∈ texts, Q text) ↔ ∃ f ∈ fs, P f := by
  induction h with
  | nil => simp
  | cons hfirst _ ih => rw [List.exists_mem_cons_iff, List.exists_mem_cons_iff, ih, hR _ _ hfirst]

/-- A sign between operands meets a minus if a call behind it begins with one. -/
theorem doubled_operands {operator : String} (hoperator : operator.toList = [c])
    {args : List Form} {texts : List String}
    (h : List.Forall₂ (fun f text => Seam c f text ∧ (Doubled c text ↔ DoubledIn c f)) args
      texts) :
    Doubled c (operator.intercalate texts) ↔
      (c = '-' ∧ args.tail.any negativeCall = true) ∨ ∃ f ∈ args, DoubledIn c f := by
  have htexts : ∀ text ∈ texts, text ≠ "" ∧ ¬ EndsWith c text :=
    forall_mem_of_forall₂ h fun _ _ hseam => ⟨hseam.1.nonempty, hseam.1.ends⟩
  have htail : List.Forall₂ (fun f text => Seam c f text ∧ (Doubled c text ↔ DoubledIn c f))
      args.tail texts.tail := by
    cases h with
    | nil => exact .nil
    | cons _ hrest => exact hrest
  rw [doubled_intercalate_self hoperator htexts,
    exists_mem_iff_of_forall₂ h fun _ _ hseam => hseam.2,
    exists_mem_iff_of_forall₂ htail fun _ _ hseam => hseam.1.begins, or_comm, List.any_eq_true]
  simp only [exists_and_left, and_left_comm]

variable (hc : c = '+' ∨ c = '-')

include hc

/-- The seams of operands in a row. -/
theorem seams {args : List Form} {texts : List String} (hargs : ∀ f ∈ args, Outer f)
    (h : exprF args = .ok texts) :
    List.Forall₂ (fun f text => Seam c f text ∧ (Doubled c text ↔ DoubledIn c f)) args
      (List.zipWith operand args texts) := by
  have hrow := forall₂_of_exprF h
  clear h
  induction hrow with
  | nil => exact .nil
  | @cons f text fs texts htext _ ih =>
      obtain ⟨hf, hfs⟩ := List.forall_mem_cons.1 hargs
      refine .cons ⟨hf.seam hc htext, ?_⟩ (ih hfs)
      rw [doubled_operand hc, doubledIn_iff htext]

/-- An operator is the sign itself, or the sign does not stand in it. -/
theorem eq_or_notMem_of_operation {head operator : String}
    (hrole : roleOf head = .operation operator) :
    operator.toList = [c] ∧ (c = '-' → head = "-") ∨
      operator ≠ "" ∧ c ∉ operator.toList ∧ ¬ (c = '-' ∧ head = "-") := by
  have hoperator := roleOf_eq_operation_iff.1 hrole
  unfold operator? at hoperator
  split at hoperator <;> cases hoperator
  all_goals
    rcases hc with rfl | rfl
    all_goals decide

theorem doubled_operation {head operator : String} {args : List Form} {texts : List String}
    (hf : Outer (.list (.atom head :: args))) (hrole : roleOf head = .operation operator)
    (hargs : exprF args = .ok texts) :
    Doubled c (operator.intercalate (List.zipWith operand args texts)) ↔
      (c = '-' ∧ fuses (.list (.atom head :: args)) = true) ∨ ∃ g ∈ args, DoubledIn c g := by
  have hrow := seams hc hf.of_mem_args hargs
  rcases eq_or_notMem_of_operation hc hrole with ⟨hoperator, hhead⟩ | ⟨hne, hnotMem, hhead⟩
  · rw [doubled_operands hoperator hrow]
    apply or_congr_left
    apply and_congr_right
    intro hminus
    simp [fuses, hhead hminus]
  · rw [doubled_intercalate hne hnotMem, exists_mem_iff_of_forall₂ hrow fun _ _ hseam => hseam.2]
    have hfuses : ¬ (c = '-' ∧ fuses (.list (.atom head :: args)) = true) := by
      rintro ⟨hminus, hfuses⟩
      simp only [fuses, Bool.and_eq_true, decide_eq_true_eq] at hfuses
      exact hhead ⟨hminus, hfuses.1⟩
    rw [or_iff_right hfuses]

theorem doubled_call {head : Form} {inner : String} {args : List Form} {texts : List String}
    (hhead : exprT head = .ok inner) (hargs : exprF args = .ok texts) :
    Doubled c (callee head inner ++ bracketed (",".intercalate texts)) ↔
      ∃ g ∈ head :: args, DoubledIn c g := by
  have hcomma := (by decide : Signless ",").notMem hc
  have hopen := (by decide : Signless "(").notMem hc
  have hclose := (by decide : Signless ")").notMem hc
  rw [bracketed, ← String.append_assoc, ← String.append_assoc,
    doubled_append_of_notMem_right hclose, doubled_between (by decide) hopen, doubled_callee hc,
    doubled_intercalate (by decide) hcomma,
    exists_mem_iff_of_forall₂ (forall₂_of_exprF hargs) fun _ _ htext => (doubledIn_iff htext).symm,
    List.exists_mem_cons_iff, doubledIn_iff hhead]

/-- Names between commas. -/
theorem not_doubled_names {names : List String} (h : Outer (.list (names.map .atom))) :
    ¬ Doubled c (",".intercalate names) := by
  rw [doubled_intercalate (by decide) ((by decide : Signless ",").notMem hc)]
  rintro ⟨name, hname, hdoubled⟩
  cases names with
  | nil => cases hname
  | cons first rest =>
      rcases List.mem_cons.1 hname with rfl | hname
      · -- the first name heads a list, so it may be a sign
        have hsigns := And.left (Bool.and_eq_true_iff.1 h.signs)
        simp only [Bool.or_eq_true, Bool.and_eq_true, decide_eq_true_eq] at hsigns
        rcases hsigns with hsignless | ⟨rfl | rfl, -⟩
        · exact not_doubled (hsignless.notMem hc) hdoubled
        · exact not_doubled_of_length (by decide) hdoubled
        · exact not_doubled_of_length (by decide) hdoubled
      · have hatom := h.of_mem_args (.atom name) (List.mem_map_of_mem hname)
        exact not_doubled (hatom.signless.notMem hc) hdoubled

/-- A sign stands twice in a row in a form where it does so in a part, or where the form
itself brings two of them together. -/
theorem doubled_iff_parts {f : Form} {text : String} (hf : Outer f) (h : exprT f = .ok text) :
    Doubled c text ↔ (c = '-' ∧ fuses f = true) ∨ ∃ g ∈ parts f, DoubledIn c g := by
  cases rendered_of_exprT h with
  | number value =>
      obtain ⟨negative, m, rfl⟩ := hf.finite
      simp [not_doubled_number hc, fuses, parts]
  | text content =>
      obtain rfl := hf.text_eq
      rw [quote_empty]
      simp [not_doubled ((by decide : Signless "\"\"").notMem hc), fuses, parts]
  | atom name => simp [not_doubled (hf.signless.notMem hc), fuses, parts]
  | null => simp [not_doubled ((by decide : Signless "null").notMem hc), fuses, parts]
  | @define name value inner hvalue =>
      have hname : Outer (.atom name) := hf.of_mem_args _ (by simp)
      have hbefore : Signless ("const " ++ name ++ " = ") :=
        ((by decide : Signless "const ").append hname.signless).append (by decide)
      rw [doubled_append_of_notMem_right ((by decide : Signless ";").notMem hc),
        doubled_append_of_notMem_left (hbefore.notMem hc), ← doubledIn_iff hvalue]
      simp [fuses, parts, roleOf]
  | @conditional test yes no t y n htest hyes hno =>
      have hquestion := (by decide : Signless " ? ").notMem hc
      have hcolon := (by decide : Signless " : ").notMem hc
      rw [doubled_between (by decide) hcolon, doubled_between (by decide) hquestion,
        doubled_bracketed hc, doubled_bracketed hc, doubled_bracketed hc, ← doubledIn_iff htest,
        ← doubledIn_iff hyes, ← doubledIn_iff hno]
      simp [fuses, parts, roleOf, or_assoc]
  | @function names body inner hbody =>
      have hnames : Outer (.list (names.map .atom)) := hf.of_mem_args _ (by simp)
      have harrow := (by decide : Signless " => ").notMem hc
      rw [doubled_between (by decide) harrow, doubled_bracketed hc, ← doubledIn_iff hbody]
      simp [not_doubled_names hc hnames, fuses, parts, roleOf]
  | @operation head operator args texts hrole harity hargs =>
      have hparts : parts (.list (.atom head :: args)) = args := by simp only [parts, hrole]
      rw [hparts]
      exact doubled_operation hc hf hrole hargs
  | @call head inner args texts hrole hhead hargs =>
      rw [doubled_call hc hhead hargs, parts_of_call hrole, fuses_of_call hrole]
      simp

/-- A sign stands twice in a row where an expression of the form brings two of them together. -/
theorem doubled_iff {f : Form} {text : String} (hf : Outer f) (h : exprT f = .ok text) :
    Doubled c text ↔ c = '-' ∧ ∃ g ∈ expressions f, fuses g = true := by
  induction f using expressions.induct generalizing text with
  | case1 f ih =>
      have hparts : ∀ g ∈ parts f,
          (DoubledIn c g ↔ c = '-' ∧ ∃ g' ∈ expressions g, fuses g' = true) := by
        intro g hg
        obtain ⟨inner, hinner, -⟩ := infix_of_mem_parts hg h
        rw [doubledIn_iff hinner, ih g hg (hf.of_mem_parts hg) hinner]
      rw [doubled_iff_parts hc hf h, expressions_eq, List.exists_mem_cons_iff, and_or_left]
      apply or_congr_right
      simp only [List.mem_flatMap]
      constructor
      · rintro ⟨g, hg, hdoubled⟩
        obtain ⟨rfl, g', hg', hfuses⟩ := (hparts g hg).1 hdoubled
        exact ⟨rfl, g', ⟨g, hg, hg'⟩, hfuses⟩
      · rintro ⟨rfl, g', ⟨g, hg, hg'⟩, hfuses⟩
        exact ⟨g, hg, (hparts g hg).2 ⟨rfl, g', hg', hfuses⟩⟩

end Parts

/-! ## Programs -/

/-- **Outside its literals, no program has a plus twice in a row, and it has a minus twice in a
row only where a call that a negative number heads is subtracted.** The names of the form are
free of signs, but for the operators. The program outside its literals is that of the form with
its texts emptied; if no name holds a quote, it is what a reader finds who goes over the
literals. -/
theorem doubled_outside_iff {source : String} {fs : List Form} (hparse : parse source = .ok fs)
    {f : Form} (hf : f ∈ fs) (hsigns : signsAtHeadsT f = true) {text : String}
    (htext : exprT f = .ok text) :
    ∃ outside, exprT (emptiedT f) = .ok outside ∧
      (Unquoted f → emptyLiterals text.toList = outside.toList) ∧
      ¬ Doubled '+' outside ∧
      (Doubled '-' outside ↔ ∃ g ∈ expressions f, fuses g = true) := by
  obtain ⟨outside, houtside⟩ := exists_outside f htext
  have hcanonical := canonicalF_iff.1 (canonical_of_parse hparse) f hf
  have houter := outer_emptiedT hsigns hcanonical
  refine ⟨outside, houtside.expression, ?_, ?_, ?_⟩
  · intro hf
    have hempties := houtside.empties hf []
    rwa [List.append_nil, emptyLiterals, List.append_nil] at hempties
  · rw [doubled_iff (.inl rfl) houter houtside.expression]
    rintro ⟨⟨⟩, -⟩
  · rw [doubled_iff (.inr rfl) houter houtside.expression, expressions_emptiedT]
    simp [fuses_emptiedT]

/-- `(- x (f -0 "--"))` -/
def sampleDifference : Form :=
  .list [.atom "-", .atom "x",
    .list [.atom "f", .number (.finite true .zero), .text "--"]]

/-- The minuses of the text do not count, and the one of the number stands behind a bracket. -/
theorem doubled_outside_sampleDifference :
    parse "(- x (f -0 \"--\"))" = .ok [sampleDifference] ∧
      signsAtHeadsT sampleDifference = true ∧
      exprT sampleDifference = .ok "x-f(-0,\"--\")" ∧
      ∃ outside, exprT (emptiedT sampleDifference) = .ok outside ∧
        emptyLiterals "x-f(-0,\"--\")".toList = outside.toList ∧
        ¬ Doubled '+' outside ∧ ¬ Doubled '-' outside := by
  have hparse : parse "(- x (f -0 \"--\"))" = .ok [sampleDifference] := by decide +kernel
  have hsigns : signsAtHeadsT sampleDifference = true := by decide +kernel
  have hquote : Json.quote "--" = "\"--\"" := by
    rw [← String.toList_inj]
    exact Json.toList_quoteTo "" "--"
  have hzero : (Binary64.finite true .zero).text = "-0" := by decide +kernel
  have htext : exprT sampleDifference = .ok "x-f(-0,\"--\")" := by
    simp [sampleDifference, exprT, exprF, roleOf, operator?, operand, needsBrackets,
      Form.headAtom?, bracketed, hquote, hzero, bind, Except.bind, pure, Except.pure]
  have hunquoted : Unquoted sampleDifference := by
    unfold Unquoted
    decide +kernel
  have hfuses : ¬ ∃ g ∈ expressions sampleDifference, fuses g = true := by
    simp [sampleDifference, expressions_eq, parts, roleOf, operator?, fuses, negativeCall]
  obtain ⟨outside, houtside, hempty, hplus, hminus⟩ :=
    doubled_outside_iff hparse (List.mem_singleton_self _) hsigns htext
  exact ⟨hparse, hsigns, htext, outside, houtside, hempty hunquoted, hplus, mt hminus.1 hfuses⟩

/-- A call that a negative number heads is subtracted, and its minus meets the operator. -/
theorem doubled_minus_negativeCall : ∃ f,
    parse "(- x (-1 y))" = .ok [f] ∧ signsAtHeadsT f = true ∧ exprT f = .ok "x--1(y)" ∧
      exprT (emptiedT f) = .ok "x--1(y)" ∧ Doubled '-' "x--1(y)" := by
  refine ⟨.list [.atom "-", .atom "x",
    .list [.number (.finite true ⟨Nat.pow 2 52, 1022, by decide, by decide, by decide⟩),
      .atom "y"]], ?_, ?_, ?_, ?_, ?_⟩
  all_goals decide +kernel

end JavaScript
end Sexpr
