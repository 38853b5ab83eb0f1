import Mathlib
import Sexpr.Proofs.JavaScript.ReadBack
import Sexpr.Proofs.JavaScript.Seams

/-!
# Statements one behind the other

A statement that does not end with a semicolon goes on with the next line if that
begins with a bracket or a sign. Whether two statements run together can be told from
their forms (`edges`): logged statements never do, and other statements do unless the
first one ends in a declaration or the second one begins with something else
(`isChain_statements_iff`).
-/

namespace Sexpr
namespace JavaScript

/-! ## Edges of texts -/

/-- No statement in the line before ends at a text that begins like this. -/
def StartsOpen (text : String) : Prop :=
  ∃ c ∈ text.toList.head?, c = '(' ∨ c = '+' ∨ c = '-' ∨ c = '/'

/-- The text ends with a semicolon. -/
def IsEnded (text : String) : Prop := text.toList.getLast? = some ';'

instance (text : String) : Decidable (IsEnded text) :=
  inferInstanceAs (Decidable (_ = _))

/-- The second statement is read as part of the first one. -/
def RunsOn (first second : String) : Prop := ¬ IsEnded first ∧ StartsOpen second

theorem append_ne_empty {a : String} (ha : a ≠ "") (b : String) : a ++ b ≠ "" := by
  simp [ha]

theorem startsOpen_append {a : String} (ha : a ≠ "") (b : String) :
    StartsOpen (a ++ b) ↔ StartsOpen a :=
  exists_congr fun _ => and_congr_left fun _ => beginsWith_append ha

theorem isEnded_append (a : String) {b : String} (hb : b ≠ "") :
    IsEnded (a ++ b) ↔ IsEnded b :=
  endsWith_append hb

theorem not_isEnded_of_notMem {text : String} (h : ';' ∉ text.toList) : ¬ IsEnded text :=
  not_endsWith h

theorem startsOpen_bracketed (text : String) : StartsOpen (bracketed text) :=
  ⟨'(', by simp [toList_bracketed], Or.inl rfl⟩

theorem not_isEnded_bracketed (text : String) : ¬ IsEnded (bracketed text) := by
  rw [bracketed, isEnded_append _ (by decide)]
  decide

/-! ### Words and numbers -/

variable {letters : Letters}

theorem not_startsOpen_word {name : String} (h : letters.isWord name.toList = true) :
    ¬ StartsOpen name := by
  rintro ⟨c, hc, hopen⟩
  cases hname : name.toList with
  | nil =>
      rw [hname] at hc
      cases hc
  | cons d ds =>
      rw [hname, Letters.isWord, Bool.and_eq_true] at h
      rw [hname] at hc
      cases hc
      rcases hopen with rfl | rfl | rfl | rfl <;> cases h.1

theorem not_isEnded_word {name : String} (h : letters.isWord name.toList = true) :
    ¬ IsEnded name := by
  apply not_isEnded_of_notMem
  intro hmem
  cases hname : name.toList with
  | nil =>
      rw [hname] at hmem
      cases hmem
  | cons d ds =>
      rw [hname, Letters.isWord, Bool.and_eq_true] at h
      rw [hname] at hmem
      rcases List.mem_cons.1 hmem with rfl | hmem
      · cases h.1
      · cases List.all_eq_true.1 h.2 _ hmem

/-- The text of the number has a minus in front. -/
def hasMinus : Binary64 → Bool
  | .finite negative _ | .infinite negative => negative
  | .nan _ => false

theorem startsOpen_number (value : Binary64) : StartsOpen value.text ↔ hasMinus value = true := by
  cases value with
  | nan negative => simp [StartsOpen, Binary64.text, hasMinus]
  | infinite negative => cases negative <;> simp [StartsOpen, Binary64.text, hasMinus]
  | finite negative m =>
      cases negative with
      | true => simp [StartsOpen, Binary64.text_negative, hasMinus]
      | false =>
          obtain ⟨c, cs, hchars, hc⟩ := Binary64.exists_digit_text m
          simp only [StartsOpen, hchars, hasMinus]
          constructor
          · rintro ⟨d, ⟨⟩, hopen⟩
            rcases hopen with rfl | rfl | rfl | rfl <;> cases hc
          · rintro ⟨⟩

theorem not_isEnded_number (value : Binary64) : ¬ IsEnded value.text := by
  cases value with
  | nan => exact (by decide : ¬ IsEnded "NaN")
  | infinite negative => cases negative <;> decide
  | finite negative m =>
      exact not_isEnded_of_notMem ((Binary64.isNumber_text negative m).notMem rfl (by decide))

theorem text_ne_empty (value : Binary64) : value.text ≠ "" := by
  rw [ne_eq, ← String.toList_inj]
  cases value with
  | nan => exact (by decide : "NaN".toList ≠ [])
  | infinite negative => cases negative <;> decide
  | finite negative m =>
      obtain ⟨c, cs, hchars, -⟩ := Binary64.exists_digit_text m
      cases negative with
      | true => simp [Binary64.text_negative]
      | false => simp [hchars]

/-! ## Edges of forms -/

/-- The text of the form begins with a bracket or a minus. -/
def startsOpen : Form → Bool
  | .number value => hasMinus value
  | .list (.atom head :: args) =>
      match roleOf head, args with
      | .conditional, _ | .function, _ => true
      | .operation _, first :: _ => needsBrackets first || startsOpen first
      | _, _ => false
  | .list (.list _ :: _) => true
  | .list (.number value :: _) => hasMinus value
  | _ => false

mutual

/-- The text of the form ends with a declaration. -/
def endsDeclaredT : Form → Bool
  | .list (.atom head :: args) =>
      match roleOf head, args with
      | .define, _ => true
      | .function, [_, body] => endsDeclaredT body
      | .operation _, args => endsDeclaredF args
      | _, _ => false
  | _ => false

/-- The text of the last operand ends with a declaration. -/
def endsDeclaredF : List Form → Bool
  | [] => false
  | [f] => !needsBrackets f && endsDeclaredT f
  | _ :: fs => endsDeclaredF fs

end

mutual

/-- Atoms are words, but for those that head a list and say what it is. -/
def namedT (letters : Letters) : Form → Bool
  | .number _ | .text _ => true
  | .atom name => letters.isWord name.toList
  | .list [] => true
  | .list (.atom head :: args) =>
      (roleOf head != .call || letters.isWord head.toList) && namedF letters args
  | .list (head :: args) => namedT letters head && namedF letters args

def namedF (letters : Letters) : List Form → Bool
  | [] => true
  | f :: fs => namedT letters f && namedF letters fs

end

/-- How the text of a form begins and ends. -/
structure Edges (f : Form) (text : String) : Prop where
  nonempty : text ≠ ""
  starts : StartsOpen text ↔ startsOpen f = true
  ends : IsEnded text ↔ endsDeclaredT f = true

theorem Edges.operand {f : Form} {text : String} (h : Edges f text) :
    operand f text ≠ "" ∧
      (StartsOpen (operand f text) ↔ (needsBrackets f || startsOpen f) = true) ∧
      (IsEnded (operand f text) ↔ (!needsBrackets f && endsDeclaredT f) = true) := by
  unfold JavaScript.operand
  cases needsBrackets f with
  | true =>
      refine ⟨by simp [bracketed], ?_, ?_⟩
      · simp [startsOpen_bracketed]
      · simp [not_isEnded_bracketed]
  | false => simpa using ⟨h.nonempty, h.starts, h.ends⟩

/-- The text of operands begins like the first one and ends like the last one. -/
theorem edges_operands (operator : String) {first : Form} {text : String} {args : List Form}
    {texts : List String} (hfirst : Edges first text) (h : List.Forall₂ Edges args texts) :
    operator.intercalate (List.zipWith operand (first :: args) (text :: texts)) ≠ "" ∧
      (StartsOpen (operator.intercalate (List.zipWith operand (first :: args) (text :: texts))) ↔
        (needsBrackets first || startsOpen first) = true) ∧
      (IsEnded (operator.intercalate (List.zipWith operand (first :: args) (text :: texts))) ↔
        endsDeclaredF (first :: args) = true) := by
  obtain ⟨hnonempty, hstarts, hends⟩ := hfirst.operand
  -- along the row: in the rest, the second operand is the first one
  induction h generalizing first text with
  | nil =>
      rw [List.zipWith_cons_cons, List.zipWith_nil_left, String.intercalate_singleton]
      exact ⟨hnonempty, hstarts, hends⟩
  | @cons second text' args texts hsecond _ ih =>
      obtain ⟨hnonempty', hstarts', hends'⟩ := hsecond.operand
      obtain ⟨hmore, -, hmoreEnds⟩ := ih hsecond hnonempty' hstarts' hends'
      rw [List.zipWith_cons_cons, String.intercalate_cons_of_ne_nil (by simp), String.append_assoc]
      refine ⟨append_ne_empty hnonempty _, ?_, ?_⟩
      · rw [startsOpen_append hnonempty, hstarts]
      · rw [← String.append_assoc, isEnded_append _ hmore, hmoreEnds]
        rfl

theorem edges_row {fs : List Form} {texts : List String}
    (h : ∀ f ∈ fs, namedT letters f = true → ∀ {text}, exprT f = .ok text → Edges f text)
    (hfs : namedF letters fs = true) (htexts : exprF fs = .ok texts) :
    List.Forall₂ Edges fs texts := by
  have hrow := forall₂_of_exprF htexts
  clear htexts
  induction hrow with
  | nil => exact .nil
  | cons htext _ ih =>
      obtain ⟨hf, hfs⟩ := Bool.and_eq_true_iff.1 hfs
      obtain ⟨hfirst, hmore⟩ := List.forall_mem_cons.1 h
      exact .cons (hfirst hf htext) (ih hmore hfs)

theorem edges_text (content : String) : Json.quote content ≠ "" ∧
    ¬ StartsOpen (Json.quote content) ∧ ¬ IsEnded (Json.quote content) := by
  have hchars : (Json.quote content).toList =
      '"' :: (content.toList.flatMap Json.escape ++ ['"']) :=
    Json.toList_quoteTo "" content
  refine ⟨?_, ?_, ?_⟩
  · rw [ne_eq, ← String.toList_inj, hchars]
    simp
  · rintro ⟨c, hc, hopen⟩
    rw [hchars] at hc
    cases hc
    simp at hopen
  · rw [IsEnded, hchars, ← List.cons_append, List.getLast?_concat]
    decide

/-- A call begins like its head. -/
theorem startsOpen_callee {head : Form} {text : String} (args : List Form)
    (hrole : IsCallHead head) (hhead : exprT head = .ok text)
    (hf : namedT letters (.list (head :: args)) = true) :
    callee head text ≠ "" ∧
      (StartsOpen (callee head text) ↔ startsOpen (.list (head :: args)) = true) := by
  cases head with
  | number value =>
      cases hhead
      exact ⟨text_ne_empty value, startsOpen_number value⟩
  | text content =>
      cases hhead
      obtain ⟨hnonempty, hstarts, -⟩ := edges_text content
      exact ⟨hnonempty, by simpa [callee, Form.isList, startsOpen] using hstarts⟩
  | atom name =>
      obtain rfl : name = text := Except.ok.inj hhead
      have hcall := hrole name rfl
      have hword : letters.isWord name.toList = true := by
        simp only [namedT, hcall, Bool.and_eq_true] at hf
        exact hf.1
      refine ⟨?_, by simpa [callee, Form.isList, startsOpen, hcall] using not_startsOpen_word hword⟩
      rintro rfl
      cases hword
  | list items =>
      refine ⟨by simp [callee, Form.isList, bracketed], ?_⟩
      simp [callee, Form.isList, startsOpen_bracketed, startsOpen]

/-- A call ends with a bracket. -/
theorem not_endsDeclaredT_of_call {head : Form} (hrole : IsCallHead head) (args : List Form) :
    endsDeclaredT (.list (head :: args)) = false := by
  cases head with
  | atom name => simp [endsDeclaredT, hrole name rfl]
  | number | text | list => simp [endsDeclaredT]

/-- Both edges of a rendered list, from those of its items. -/
theorem edges_list {items : List Form} {text : String}
    (h : ∀ f ∈ items, namedT letters f = true → ∀ {text}, exprT f = .ok text → Edges f text)
    (hf : namedT letters (.list items) = true) (htext : exprT (.list items) = .ok text) :
    Edges (.list items) text := by
  cases rendered_of_exprT htext with
  | null => exact ⟨by decide, by simp [StartsOpen, startsOpen], by simp [IsEnded, endsDeclaredT]⟩
  | define name hvalue =>
      refine ⟨by simp, by simp [StartsOpen, startsOpen, roleOf], ?_⟩
      rw [isEnded_append _ (by decide)]
      simp [IsEnded, endsDeclaredT, roleOf]
  | conditional =>
      refine ⟨by simp, by simp [StartsOpen, toList_bracketed, startsOpen, roleOf], ?_⟩
      rw [isEnded_append _ (by simp [bracketed])]
      simp [not_isEnded_bracketed, endsDeclaredT, roleOf]
  | @function names body bodyText hbody =>
      -- the body has no brackets, so the function ends where the body does
      have hnamed : namedT letters body = true := by
        simp only [namedT, namedF, Bool.and_eq_true] at hf
        obtain ⟨-, -, hbody, -⟩ := hf
        exact hbody
      have hedges := h body (by simp) hnamed hbody
      refine ⟨by simp, by simp [StartsOpen, toList_bracketed, startsOpen, roleOf], ?_⟩
      rw [isEnded_append _ hedges.nonempty, hedges.ends]
      simp [endsDeclaredT, roleOf]
  | @operation head operator args texts hrole harity hargs =>
      have hnamed : namedF letters args = true := by
        simp only [namedT, Bool.and_eq_true] at hf
        exact hf.2
      have hrow := edges_row (List.forall_mem_cons.1 h).2 hnamed hargs
      cases hrow with
      | nil => cases harity
      | cons hfirst hmore =>
          obtain ⟨hnonempty, hstarts, hends⟩ := edges_operands operator hfirst hmore
          refine ⟨hnonempty, hstarts.trans ?_, hends.trans ?_⟩
          · simp [startsOpen, hrole]
          · simp [endsDeclaredT, hrole]
  | call hrole hhead hargs =>
      obtain ⟨hnonempty, hstarts⟩ := startsOpen_callee _ hrole hhead hf
      refine ⟨append_ne_empty hnonempty _, ?_, ?_⟩
      · rw [startsOpen_append hnonempty, hstarts]
      · rw [isEnded_append _ (by simp [bracketed]), not_endsDeclaredT_of_call hrole]
        simp [not_isEnded_bracketed]

/-- How a form is rendered begins and ends as can be told from the form. -/
theorem edges (f : Form) (hf : namedT letters f = true) {text : String}
    (htext : exprT f = .ok text) : Edges f text := by
  induction f using Form.itemsInduction generalizing text with
  | number value =>
      cases htext
      refine ⟨text_ne_empty value, startsOpen_number value, ?_⟩
      simp [not_isEnded_number, endsDeclaredT]
  | text content =>
      cases htext
      obtain ⟨hnonempty, hstarts, hends⟩ := edges_text content
      exact ⟨hnonempty, by simp [hstarts, startsOpen], by simp [hends, endsDeclaredT]⟩
  | atom name =>
      obtain rfl : name = text := Except.ok.inj htext
      refine ⟨?_, ?_, ?_⟩
      · rintro rfl
        cases hf
      · simp [not_startsOpen_word hf, startsOpen]
      · simp [not_isEnded_word hf, endsDeclaredT]
  | list items ih => exact edges_list ih hf htext

/-! ## Statements -/

theorem not_runsOn_iff {f g : Form} {first second : String} (hf : Edges f first)
    (hg : Edges g second) :
    ¬ RunsOn first second ↔ endsDeclaredT f = true ∨ startsOpen g = false := by
  rw [RunsOn, not_and_or, not_not, hf.ends, hg.starts, Bool.not_eq_true]

/-- Statements that are not logged are the texts of their forms. -/
theorem isChain_texts_iff {fs : List Form} {texts : List String}
    (h : List.Forall₂ Edges fs texts) :
    texts.IsChain (fun first second => ¬ RunsOn first second) ↔
      fs.IsChain (fun f g => endsDeclaredT f = true ∨ startsOpen g = false) := by
  induction h with
  | nil => simp
  | cons hf hrest ih =>
      cases hrest with
      | nil => simp
      | cons hg _ =>
          rw [List.isChain_cons_cons, List.isChain_cons_cons, ih, not_runsOn_iff hf hg]

/-- A logged statement begins with a word, and so does a declaration. -/
theorem not_startsOpen_logged {o : JsOptions} (hlog : o.logExpressions = true) (text : String) :
    ¬ StartsOpen (statement o text) := by
  unfold statement
  rw [hlog, Bool.true_and]
  split
  · rw [String.append_assoc, startsOpen_append (by decide)]
    simp [StartsOpen]
  · next hconst =>
    have hprefix : "const".toList <+: text.toList := by simpa using hconst
    obtain ⟨rest, hrest⟩ := hprefix
    simp [StartsOpen, ← hrest]

theorem isChain_logged {o : JsOptions} (hlog : o.logExpressions = true) (texts : List String) :
    (texts.map (statement o)).IsChain (fun first second => ¬ RunsOn first second) := by
  rw [List.isChain_map]
  apply List.Pairwise.isChain
  apply List.pairwise_of_forall
  rintro first second ⟨-, hopen⟩
  exact not_startsOpen_logged hlog second hopen

theorem map_statement_of_not_logged {o : JsOptions} (hlog : o.logExpressions = false)
    (texts : List String) : texts.map (statement o) = texts := by
  apply List.map_id''
  intro text
  rw [statement, hlog]
  rfl

/-- The statements of a program are those of its forms, one behind the other. With logging
on, none of them runs on; without it, a statement runs on exactly where a form whose text
does not end with a declaration stands before one whose text begins with a bracket or a
minus. -/
theorem isChain_statements_iff {o : JsOptions} {fs : List Form} {out : String}
    (hfs : namedF letters fs = true) (h : render o fs = .ok out) :
    ∃ statements, List.Forall₂ (fun f text => form o f = .ok text) fs statements ∧
      out = o.statementSeparator.intercalate statements ∧
      (statements.IsChain (fun first second => ¬ RunsOn first second) ↔
        o.logExpressions = true ∨
          fs.IsChain fun f g => endsDeclaredT f = true ∨ startsOpen g = false) := by
  obtain ⟨texts, htexts, hout, hstatements⟩ := exists_texts_of_render h
  refine ⟨texts.map (statement o), hstatements, hout, ?_⟩
  cases hlog : o.logExpressions with
  | true => exact iff_of_true (isChain_logged hlog texts) (Or.inl rfl)
  | false =>
      have hedges := edges_row (fun f _ hf _ => edges f hf) hfs htexts
      rw [map_statement_of_not_logged hlog, isChain_texts_iff hedges]
      simp

/-- `(define f (lambda (x) x)) ((f b) c) a` -/
def sampleProgram : List Form :=
  [.list [.atom "define", .atom "f", .list [.atom "lambda", .list [.atom "x"], .atom "x"]],
    .list [.list [.atom "f", .atom "b"], .atom "c"], .atom "a"]

/-- A call with a bracket in front stands behind a declaration, and nothing runs on. -/
theorem isChain_sampleProgram :
    ∃ statements, List.Forall₂
        (fun f text => form { logExpressions := false } f = .ok text) sampleProgram statements ∧
      "const f = (x) => x;\n(f(b))(c)\na" = "\n".intercalate statements ∧
      statements.IsChain (fun first second => ¬ RunsOn first second) := by
  have hnamed : namedF ⟨fun _ => false, fun _ => false⟩ sampleProgram = true := by
    decide +kernel
  have hrender : render { logExpressions := false } sampleProgram =
      .ok "const f = (x) => x;\n(f(b))(c)\na" := by
    decide +kernel
  obtain ⟨statements, htexts, hout, hchain⟩ := isChain_statements_iff hnamed hrender
  exact ⟨statements, htexts, hout, hchain.2 (Or.inr (by decide))⟩

/-- Behind a name, the call is a call of what the name calls: the two statements of
`a ((f b) c)` are read as one. -/
theorem runsOn_of_atom_call :
    namedF ⟨fun _ => false, fun _ => false⟩
        [.atom "a", .list [.list [.atom "f", .atom "b"], .atom "c"]] = true ∧
      render { logExpressions := false }
        [.atom "a", .list [.list [.atom "f", .atom "b"], .atom "c"]] = .ok "a\n(f(b))(c)" ∧
      form { logExpressions := false } (.atom "a") = .ok "a" ∧
      form { logExpressions := false } (.list [.list [.atom "f", .atom "b"], .atom "c"]) =
        .ok "(f(b))(c)" ∧
      RunsOn "a" "(f(b))(c)" := by
  refine ⟨by decide +kernel, by decide +kernel, by decide +kernel, by decide +kernel, ?_⟩
  exact ⟨by decide, '(', rfl, Or.inl rfl⟩

end JavaScript
end Sexpr
