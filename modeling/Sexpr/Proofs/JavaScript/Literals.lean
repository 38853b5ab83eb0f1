import Mathlib
import Sexpr.Proofs.JavaScript.Junction
import Sexpr.Proofs.JavaScript.Shapes

/-!
# Programs outside their string literals

A text in a form is rendered as a string literal, and the rest of the program does not depend
on it: the form with its texts emptied is rendered as the same program with its literals
emptied (`exists_outside`). Where no name holds a quote, these are the literals that a reader
finds who goes through the program from left to right (`emptyLiterals`).
-/

namespace Sexpr

namespace Form

mutual

/-- The form with nothing in its texts. -/
def emptiedT : Form → Form
  | .text _ => .text ""
  | .list items => .list (emptiedF items)
  | .number value => .number value
  | .atom name => .atom name

def emptiedF : List Form → List Form
  | [] => []
  | f :: fs => emptiedT f :: emptiedF fs

end

mutual

/-- The names of the atoms in a form. -/
def atomsT : Form → List String
  | .atom name => [name]
  | .list items => atomsF items
  | .number _ | .text _ => []

def atomsF : List Form → List String
  | [] => []
  | f :: fs => atomsT f ++ atomsF fs

end

theorem emptiedF_eq_map (fs : List Form) : emptiedF fs = fs.map emptiedT := by
  induction fs with
  | nil => rfl
  | cons f fs ih => rw [emptiedF, ih, List.map_cons]

theorem emptiedF_map_atom (names : List String) :
    emptiedF (names.map .atom) = names.map .atom := by
  rw [emptiedF_eq_map, List.map_map]
  rfl

/-- The texts of a list are empty if those of its items are. -/
theorem emptiedT_list_iff {items : List Form} :
    emptiedT (.list items) = .list items ↔ ∀ f ∈ items, emptiedT f = f := by
  rw [emptiedT, emptiedF_eq_map, list.injEq]
  simpa using List.map_inj_left (l := items) (f := emptiedT) (g := id)

theorem emptiedT_emptiedT (f : Form) : emptiedT (emptiedT f) = emptiedT f := by
  induction f using itemsInduction with
  | number | text | atom => rfl
  | list items ih =>
      simp only [emptiedT, emptiedF_eq_map, List.map_map]
      congr 1
      exact List.map_congr_left ih

theorem all_emptiedF {fs : List Form} {p : Form → Bool} (h : ∀ f ∈ fs, p (emptiedT f) = p f) :
    (emptiedF fs).all p = fs.all p := by
  rw [emptiedF_eq_map, List.all_map, Bool.eq_iff_iff, List.all_eq_true, List.all_eq_true]
  apply forall₂_congr
  intro f hf
  rw [Function.comp_apply, h f hf]

theorem mem_atomsF {fs : List Form} {name : String} :
    name ∈ atomsF fs ↔ ∃ f ∈ fs, name ∈ atomsT f := by
  induction fs with
  | nil => simp [atomsF]
  | cons f fs ih => simp [atomsF, ih]

end Form

open Form

namespace JavaScript

/-! ## Reading over literals -/

/-- Empties the string literals of a text. -/
def emptyLiterals (cs : List Char) : List Char :=
  match cs with
  | [] => []
  | c :: cs =>
      if c = '"' then
        match _ : Json.unquote cs with
        | some (_, rest) => '"' :: '"' :: emptyLiterals rest
        | none => c :: emptyLiterals cs
      else c :: emptyLiterals cs
termination_by cs.length
decreasing_by
  · next h => exact Nat.lt_succ_of_lt (Json.length_of_unquote h)
  · simp
  · simp

theorem quote_empty : Json.quote "" = "\"\"" := by
  rw [← String.toList_inj]
  exact Json.toList_quoteTo "" ""

/-- With its literals emptied, the text becomes the other one. -/
def Empties (text outside : String) : Prop :=
  ∀ rest, emptyLiterals (text.toList ++ rest) = outside.toList ++ emptyLiterals rest

namespace Empties

theorem of_notMem {text : String} (h : '"' ∉ text.toList) : Empties text text := by
  unfold Empties
  generalize text.toList = cs at h
  induction cs with
  | nil =>
      intro rest
      rfl
  | cons c cs ih =>
      rw [List.mem_cons, not_or] at h
      intro rest
      rw [List.cons_append, emptyLiterals, if_neg (Ne.symm h.1), ih h.2 rest, List.cons_append]

theorem append {a b a' b' : String} (ha : Empties a a') (hb : Empties b b') :
    Empties (a ++ b) (a' ++ b') := by
  intro rest
  rw [String.toList_append, String.toList_append, List.append_assoc, ha, hb, List.append_assoc]

theorem quote (content : String) : Empties (Json.quote content) (Json.quote "") := by
  intro rest
  have hchars : (Json.quote content).toList = Json.quoted content.toList :=
    Json.toList_quoteTo "" content
  have hread := Json.unquote_quoted content.toList rest
  rw [quote_empty, hchars, Json.quoted, List.cons_append, List.cons_append, List.append_assoc,
    List.singleton_append, emptyLiterals, if_pos rfl]
  split
  · next hsome =>
    rw [hread] at hsome
    cases hsome
    rfl
  · next hnone =>
    rw [hread] at hnone
    cases hnone

theorem bracketed {text outside : String} (h : Empties text outside) :
    Empties (bracketed text) (bracketed outside) :=
  ((of_notMem (by decide)).append h).append (of_notMem (by decide))

theorem intercalate {separator : String} {texts outsides : List String}
    (hseparator : '"' ∉ separator.toList) (h : List.Forall₂ Empties texts outsides) :
    Empties (separator.intercalate texts) (separator.intercalate outsides) := by
  induction h with
  | nil => exact of_notMem List.not_mem_nil
  | cons htext hrest ih =>
      cases hrest with
      | nil =>
          rw [String.intercalate_singleton, String.intercalate_singleton]
          exact htext
      | cons =>
          rw [String.intercalate_cons_of_ne_nil (List.cons_ne_nil _ _),
            String.intercalate_cons_of_ne_nil (List.cons_ne_nil _ _)]
          exact (htext.append (of_notMem hseparator)).append ih

end Empties

/-! ## Forms with their texts emptied -/

theorem needsBrackets_emptiedT (f : Form) : needsBrackets (emptiedT f) = needsBrackets f := by
  cases f with
  | number | text | atom => rfl
  | list items =>
      cases items with
      | nil => rfl
      | cons head args => cases head <;> rfl

theorem isList_emptiedT (f : Form) : (emptiedT f).isList = f.isList := by
  cases f <;> rfl

theorem isCallHead_emptiedT {head : Form} (h : IsCallHead head) : IsCallHead (emptiedT head) := by
  cases head with
  | atom => exact h
  | number | text | list => nofun

theorem callee_emptiedT (head : Form) (text : String) :
    callee (emptiedT head) text = callee head text := by
  rw [callee, isList_emptiedT, callee]

theorem operand_emptiedT (f : Form) (text : String) :
    operand (emptiedT f) text = operand f text := by
  rw [operand, needsBrackets_emptiedT, operand]

theorem parts_emptiedT (f : Form) : parts (emptiedT f) = (parts f).map emptiedT := by
  cases f with
  | number | text | atom => rfl
  | list items =>
      cases items with
      | nil => rfl
      | cons head args =>
          cases head with
          | atom name =>
              simp only [emptiedT, emptiedF, emptiedF_eq_map, parts]
              cases roleOf name <;> simp [emptiedT, List.map_take]
          | number | text | list => simp [emptiedT, emptiedF, emptiedF_eq_map, parts]

theorem expressions_emptiedT (f : Form) :
    expressions (emptiedT f) = (expressions f).map emptiedT := by
  induction f using expressions.induct with
  | case1 f ih =>
      rw [expressions_eq, expressions_eq f, parts_emptiedT, List.map_cons, List.flatMap_map,
        List.map_flatMap]
      congr 1
      exact List.flatMap_congr ih

/-- No name in the form holds a quote. -/
def Unquoted (f : Form) : Prop := ∀ name ∈ atomsT f, '"' ∉ name.toList

/-- The program of a form outside its literals. -/
structure Outside (f : Form) (text outside : String) : Prop where
  expression : exprT (emptiedT f) = .ok outside
  empties : Unquoted f → Empties text outside

theorem quote_notMem_number (value : Binary64) : '"' ∉ value.text.toList := by
  cases value with
  | nan => exact (by decide : '"' ∉ "NaN".toList)
  | infinite negative => cases negative <;> decide
  | finite negative m => exact (Binary64.isNumber_text negative m).notMem rfl (by decide)

theorem Empties.operand {f : Form} {text outside : String} (h : Empties text outside) :
    Empties (operand f text) (operand (emptiedT f) outside) := by
  rw [operand_emptiedT]
  unfold JavaScript.operand
  split
  · exact h.bracketed
  · exact h

theorem Empties.callee {head : Form} {text outside : String} (h : Empties text outside) :
    Empties (callee head text) (callee (emptiedT head) outside) := by
  rw [callee_emptiedT]
  unfold JavaScript.callee
  split
  · exact h.bracketed
  · exact h

/-- The programs of forms in a row outside their literals. -/
theorem exists_outsides {fs : List Form} {texts : List String}
    (h : ∀ f ∈ fs, ∀ {text}, exprT f = .ok text → ∃ outside, Outside f text outside)
    (htexts : exprF fs = .ok texts) :
    ∃ outsides, exprF (emptiedF fs) = .ok outsides ∧
      ((∀ f ∈ fs, Unquoted f) → List.Forall₂ Empties texts outsides ∧
        List.Forall₂ Empties (List.zipWith operand fs texts)
          (List.zipWith operand (emptiedF fs) outsides)) := by
  have hrow := forall₂_of_exprF htexts
  clear htexts
  induction hrow with
  | nil => exact ⟨[], rfl, fun _ => ⟨.nil, .nil⟩⟩
  | @cons f text fs texts htext _ ih =>
      obtain ⟨hfirst, hrest⟩ := List.forall_mem_cons.1 h
      obtain ⟨outside, houtside⟩ := hfirst htext
      obtain ⟨outsides, houtsides, hempties⟩ := ih hrest
      refine ⟨outside :: outsides, ?_, ?_⟩
      · rw [emptiedF, exprF, houtside.expression, houtsides]
        rfl
      · intro hfs
        obtain ⟨hf, hfs⟩ := List.forall_mem_cons.1 hfs
        obtain ⟨hmore, hoperands⟩ := hempties hfs
        have hone := houtside.empties hf
        exact ⟨.cons hone hmore, .cons hone.operand hoperands⟩

theorem unquoted_list {items : List Form} (h : Unquoted (.list items)) :
    ∀ f ∈ items, Unquoted f := by
  intro f hf name hname
  exact h name (mem_atomsF.2 ⟨f, hf, hname⟩)

theorem quote_notMem_operator {head operator : String} (h : roleOf head = .operation operator) :
    '"' ∉ operator.toList := by
  obtain ⟨mark, -, rfl⟩ := ofName?_of_operation h
  rw [String.toList_ofList]
  cases mark <;> decide

/-- Names between commas. -/
theorem Empties.names {names : List String} (h : ∀ name ∈ names, '"' ∉ name.toList) :
    Empties (",".intercalate names) (",".intercalate names) := by
  apply Empties.intercalate (by decide)
  rw [List.forall₂_same]
  intro name hname
  exact .of_notMem (h name hname)

/-- Outside its literals, a list is rendered as its items are. -/
theorem exists_outside_list {items : List Form} {text : String}
    (ih : ∀ f ∈ items, ∀ {text}, exprT f = .ok text → ∃ outside, Outside f text outside)
    (h : exprT (.list items) = .ok text) : ∃ outside, Outside (.list items) text outside := by
  cases rendered_of_exprT h with
  | null => exact ⟨"null", rfl, fun _ => .of_notMem (by decide)⟩
  | @define name value inner hvalue =>
      obtain ⟨outside, houtside⟩ := ih value (by simp) hvalue
      refine ⟨_, exprT_of_rendered (.define name houtside.expression), ?_⟩
      intro hf
      have hitems := unquoted_list hf
      have hname : '"' ∉ name.toList := hitems (.atom name) (by simp) name (by simp [atomsT])
      have hvalue := houtside.empties (hitems value (by simp))
      exact ((((Empties.of_notMem (by decide)).append (.of_notMem hname)).append
        (.of_notMem (by decide))).append hvalue).append (.of_notMem (by decide))
  | @conditional test yes no t y n htest hyes hno =>
      obtain ⟨t', ht'⟩ := ih test (by simp) htest
      obtain ⟨y', hy'⟩ := ih yes (by simp) hyes
      obtain ⟨n', hn'⟩ := ih no (by simp) hno
      refine ⟨_, exprT_of_rendered (.conditional ht'.expression hy'.expression hn'.expression), ?_⟩
      intro hf
      have hitems := unquoted_list hf
      have htest := (ht'.empties (hitems test (by simp))).bracketed
      have hyes := (hy'.empties (hitems yes (by simp))).bracketed
      have hno := (hn'.empties (hitems no (by simp))).bracketed
      exact (((htest.append (.of_notMem (by decide))).append hyes).append
        (.of_notMem (by decide))).append hno
  | @function names body inner hbody =>
      obtain ⟨outside, houtside⟩ := ih body (by simp) hbody
      refine ⟨bracketed (",".intercalate names) ++ " => " ++ outside, ?_, ?_⟩
      · have hrendered := Rendered.function names houtside.expression
        rw [← emptiedF_map_atom] at hrendered
        exact exprT_of_rendered hrendered
      · intro hf
        have hitems := unquoted_list hf
        have hparameters := unquoted_list (hitems (.list (names.map .atom)) (by simp))
        have hnames : Empties (",".intercalate names) (",".intercalate names) := by
          apply Empties.names
          intro name hname
          exact hparameters (.atom name) (List.mem_map_of_mem hname) name (by simp [atomsT])
        have hbody := houtside.empties (hitems body (by simp))
        exact (hnames.bracketed.append (.of_notMem (by decide))).append hbody
  | @operation head operator args texts hrole harity hargs =>
      obtain ⟨outsides, houtsides, hempties⟩ :=
        exists_outsides (List.forall_mem_cons.1 ih).2 hargs
      have harity' : 2 ≤ (emptiedF args).length := by
        rwa [emptiedF_eq_map, List.length_map]
      refine ⟨_, exprT_of_rendered (.operation hrole harity' houtsides), ?_⟩
      intro hf
      have hitems := unquoted_list hf
      have hoperands := (hempties (List.forall_mem_cons.1 hitems).2).2
      exact .intercalate (quote_notMem_operator hrole) hoperands
  | @call head headText args texts hrole hhead hargs =>
      obtain ⟨hfirst, hrest⟩ := List.forall_mem_cons.1 ih
      obtain ⟨outside, houtside⟩ := hfirst hhead
      obtain ⟨outsides, houtsides, hempties⟩ := exists_outsides hrest hargs
      refine ⟨_, exprT_of_rendered
        (.call (isCallHead_emptiedT hrole) houtside.expression houtsides), ?_⟩
      intro hf
      obtain ⟨hhead, hargs⟩ := List.forall_mem_cons.1 (unquoted_list hf)
      have harguments : Empties (",".intercalate texts) (",".intercalate outsides) :=
        .intercalate (by decide) (hempties hargs).1
      exact (houtside.empties hhead).callee.append harguments.bracketed

/-- **A form with its texts emptied is rendered as the same program with its literals
emptied.** -/
theorem exists_outside (f : Form) {text : String} (h : exprT f = .ok text) :
    ∃ outside, Outside f text outside := by
  induction f using Form.itemsInduction generalizing text with
  | number value =>
      cases h
      exact ⟨value.text, rfl, fun _ => .of_notMem (quote_notMem_number value)⟩
  | text content =>
      cases h
      exact ⟨Json.quote "", rfl, fun _ => .quote content⟩
  | atom name =>
      cases h
      exact ⟨_, rfl, fun hf => .of_notMem (hf _ (List.mem_singleton_self _))⟩
  | list items ih => exact exists_outside_list ih h

end JavaScript
end Sexpr
