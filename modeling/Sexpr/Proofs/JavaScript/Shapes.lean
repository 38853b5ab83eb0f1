import Mathlib
import Sexpr.Proofs.JavaScript.Parts

/-!
# Lists of a shape that cannot be rendered

A list may have too few or too many operands for its head, or names that are no atoms. A
program is rendered unless one of its expressions is such a list; and then the fault is
that of the first one, in the order in which expressions are written, whatever the options
are (`render_eq_error_iff`).
-/

namespace Sexpr
namespace JavaScript

/-! ## Shapes -/

/-- A list whose shape is wrong, and its fault. The number of operands comes before what
the operands are. -/
inductive IllShaped : Form → ScriptFault → Prop
  | defineArity {args : List Form} : args.length ≠ 2 →
      IllShaped (.list (.atom "define" :: args)) (.defineArity args.length)
  | defineTarget {target value : Form} : (∀ name, target ≠ .atom name) →
      IllShaped (.list [.atom "define", target, value]) .defineTarget
  | ifArity {args : List Form} : args.length ≠ 3 →
      IllShaped (.list (.atom "if" :: args)) (.ifArity args.length)
  | lambdaArity {args : List Form} : args.length ≠ 2 →
      IllShaped (.list (.atom "lambda" :: args)) (.lambdaArity args.length)
  | parametersNotList {part body : Form} : (∀ items, part ≠ .list items) →
      IllShaped (.list [.atom "lambda", part, body]) .parametersNotList
  | parameterNotAtom {items : List Form} {body : Form} :
      (∃ item ∈ items, ∀ name, item ≠ .atom name) →
      IllShaped (.list [.atom "lambda", .list items, body]) .parameterNotAtom
  | operatorArity {head operator : String} {args : List Form} :
      operator? head = some operator → args.length < 2 →
      IllShaped (.list (.atom head :: args)) (.operatorArity head args.length)

/-- The fault of a parameter list, if it is not a list of atoms. -/
def parametersFault? : Form → Option ScriptFault
  | .list items => if items.all (·.atomName?.isSome) then none else some .parameterNotAtom
  | _ => some .parametersNotList

/-- The fault of a list whose shape is wrong. -/
def shapeFault? : Form → Option ScriptFault
  | .list (.atom head :: args) =>
      match roleOf head with
      | .define =>
          match args with
          | [target, _] => if target.atomName?.isSome then none else some .defineTarget
          | args => some (.defineArity args.length)
      | .conditional => if args.length = 3 then none else some (.ifArity args.length)
      | .function =>
          match args with
          | [part, _] => parametersFault? part
          | args => some (.lambdaArity args.length)
      | .operation _ =>
          if args.length < 2 then some (.operatorArity head args.length) else none
      | .call => none
  | _ => none

theorem roleOf_eq_operation_iff {head operator : String} :
    roleOf head = .operation operator ↔ operator? head = some operator := by
  unfold roleOf
  split
  · simp [operator?]
  · simp [operator?]
  · simp [operator?]
  · cases operator? head <;> simp

theorem atomName?_eq_none_iff {f : Form} :
    f.atomName? = none ↔ ∀ name, f ≠ .atom name := by
  cases f <;> simp [Form.atomName?]

/-- The last case of a match on two operands. -/
theorem length_ne_two {fs : List Form} (h : ∀ f g, fs = [f, g] → False) : fs.length ≠ 2 := by
  intro hlength
  obtain ⟨f, g, rfl⟩ := List.length_eq_two.1 hlength
  exact h f g rfl

theorem shapeFault?_of_illShaped {f : Form} {e : ScriptFault} (h : IllShaped f e) :
    shapeFault? f = some e := by
  cases h with
  | @defineArity args hargs =>
      simp only [shapeFault?, roleOf]
      split
      · exact absurd rfl hargs
      · rfl
  | defineTarget htarget =>
      simp [shapeFault?, roleOf, atomName?_eq_none_iff.2 htarget]
  | ifArity hargs => simp [shapeFault?, roleOf, hargs]
  | @lambdaArity args hargs =>
      simp only [shapeFault?, roleOf]
      split
      · exact absurd rfl hargs
      · rfl
  | @parametersNotList part body hpart =>
      cases part with
      | list items => exact absurd rfl (hpart items)
      | number | text | atom => rfl
  | parameterNotAtom hitem =>
      obtain ⟨item, hmem, hname⟩ := hitem
      simp only [shapeFault?, roleOf, parametersFault?]
      rw [if_neg]
      intro hall
      have hsome : item.atomName?.isSome = true := List.all_eq_true.1 hall item hmem
      rw [atomName?_eq_none_iff.2 hname] at hsome
      cases hsome
  | operatorArity hhead hargs =>
      simp [shapeFault?, roleOf_eq_operation_iff.2 hhead, hargs]

theorem illShaped_of_parametersFault? {part body : Form} {e : ScriptFault}
    (h : parametersFault? part = some e) : IllShaped (.list [.atom "lambda", part, body]) e := by
  unfold parametersFault? at h
  split at h
  · next items =>
    split at h
    · cases h
    · next hall =>
      cases h
      apply IllShaped.parameterNotAtom
      simpa [atomName?_eq_none_iff] using hall
  · next hpart =>
    cases h
    exact .parametersNotList hpart

theorem illShaped_of_shapeFault? {f : Form} {e : ScriptFault} (h : shapeFault? f = some e) :
    IllShaped f e := by
  unfold shapeFault? at h
  split at h
  · next head args =>
    obtain ⟨hdefine, hconditional, hfunction⟩ := roleOf_special head
    split at h
    · next hrole =>
      obtain rfl := hdefine hrole
      split at h
      · next target value =>
        split at h
        · cases h
        · next hname =>
          cases h
          apply IllShaped.defineTarget
          simpa [atomName?_eq_none_iff] using hname
      · next hargs =>
        cases h
        exact .defineArity (length_ne_two hargs)
    · next hrole =>
      obtain rfl := hconditional hrole
      split at h
      · cases h
      · next hargs =>
        cases h
        exact .ifArity hargs
    · next hrole =>
      obtain rfl := hfunction hrole
      split at h
      · exact illShaped_of_parametersFault? h
      · next hargs =>
        cases h
        exact .lambdaArity (length_ne_two hargs)
    · next operator hrole =>
      split at h
      · next hargs =>
        cases h
        exact .operatorArity (roleOf_eq_operation_iff.1 hrole) hargs
      · cases h
    · cases h
  · cases h

theorem shapeFault?_eq_some_iff {f : Form} {e : ScriptFault} :
    shapeFault? f = some e ↔ IllShaped f e :=
  ⟨illShaped_of_shapeFault?, shapeFault?_of_illShaped⟩

theorem shapeFault?_eq_none_iff {f : Form} :
    shapeFault? f = none ↔ ∀ e, ¬ IllShaped f e := by
  simp only [Option.eq_none_iff_forall_ne_some, ne_eq, shapeFault?_eq_some_iff]

/-! ## Expressions -/

theorem mem_items_of_mem_parts {items : List Form} {g : Form} (h : g ∈ parts (.list items)) :
    g ∈ items := by
  unfold parts at h
  split at h
  · next head args heq =>
    cases heq
    split at h
    · exact List.mem_cons_of_mem _ (List.mem_of_mem_drop (List.mem_of_mem_take h))
    · exact List.mem_cons_of_mem _ (List.mem_of_mem_drop (List.mem_of_mem_take h))
    · exact List.mem_cons_of_mem _ h
    · exact List.mem_cons_of_mem _ h
    · exact h
  · next heq =>
    cases heq
    exact h
  · cases h

theorem sizeOf_lt_of_mem_parts {f g : Form} (h : g ∈ parts f) : sizeOf g < sizeOf f := by
  cases f with
  | list items =>
      have hitem := List.sizeOf_lt_of_mem (mem_items_of_mem_parts h)
      simp only [Form.list.sizeOf_spec]
      omega
  | number | text | atom => cases h

/-- The expressions of a form, in the order in which they are written: the form itself, then
those of its parts. -/
def expressions (f : Form) : List Form :=
  f :: (parts f).attach.flatMap fun ⟨g, _⟩ => expressions g
termination_by sizeOf f
decreasing_by exact sizeOf_lt_of_mem_parts ‹_›

theorem expressions_eq (f : Form) : expressions f = f :: (parts f).flatMap expressions := by
  rw [expressions]
  simp

/-! ## Faults in order -/

/-- The fault that is found first among the expressions of forms. -/
def firstFault? (fs : List Form) : Option ScriptFault :=
  (fs.flatMap expressions).findSome? shapeFault?

theorem firstFault?_cons (f : Form) (fs : List Form) :
    firstFault? (f :: fs) = (firstFault? [f]).or (firstFault? fs) := by
  simp [firstFault?]

theorem firstFault?_singleton (f : Form) :
    firstFault? [f] = (shapeFault? f).or (firstFault? (parts f)) := by
  simp only [firstFault?, List.flatMap_singleton]
  rw [expressions_eq, List.findSome?_cons]
  cases shapeFault? f <;> rfl

theorem faultOf?_exprF {fs : List Form} (h : ∀ f ∈ fs, faultOf? (exprT f) = firstFault? [f]) :
    faultOf? (exprF fs) = firstFault? fs := by
  induction fs with
  | nil => rfl
  | cons f fs ih =>
      obtain ⟨hf, hfs⟩ := List.forall_mem_cons.1 h
      rw [exprF, firstFault?_cons, ← hf, ← ih hfs]
      apply faultOf?_bind
      intro text
      exact faultOf?_map _ _

/-! ## The fault of one list -/

theorem parameters_of_not_atom {items : List Form}
    (h : ∃ item ∈ items, ∀ name, item ≠ .atom name) :
    parameters (.list items) = .error .parameterNotAtom := by
  obtain ⟨item, hitem, hname⟩ := h
  rw [parameters]
  induction hitem with
  | head =>
    rw [List.mapM_cons, atomName?_eq_none_iff.2 hname]
    rfl
  | @tail first items _ ih =>
    rw [List.mapM_cons, ih]
    cases first.atomName? <;> rfl

/-- A list whose shape is wrong is at fault itself. -/
theorem exprT_of_illShaped {f : Form} {e : ScriptFault} (h : IllShaped f e) :
    exprT f = .error e := by
  cases h with
  | @defineArity args hargs =>
      rw [exprT.eq_def]
      simp only [roleOf]
      split
      · exact absurd rfl hargs
      · rfl
  | @defineTarget target value htarget =>
      have htarget : target.atomName? = none := atomName?_eq_none_iff.2 htarget
      rw [exprT.eq_def]
      simp [roleOf, htarget]
  | @ifArity args hargs =>
      rw [exprT.eq_def]
      simp only [roleOf]
      split
      · exact absurd rfl hargs
      · rfl
  | @lambdaArity args hargs =>
      rw [exprT.eq_def]
      simp only [roleOf]
      split
      · exact absurd rfl hargs
      · rfl
  | @parametersNotList part body hpart =>
      cases part with
      | list items => exact absurd rfl (hpart items)
      | number | text | atom => rfl
  | @parameterNotAtom items body hitem =>
      rw [exprT.eq_def]
      simp only [roleOf]
      rw [parameters_of_not_atom hitem]
      rfl
  | @operatorArity head operator args hhead hargs =>
      have hrole := roleOf_eq_operation_iff.2 hhead
      rw [exprT.eq_def]
      simp only [hrole]
      rw [if_pos hargs]

/-! ## Lists in good shape

A list that is in good shape is at fault just as the row of its parts is. -/

theorem faultOf?_define (name : String) (value : Form) :
    faultOf? (exprT (.list [.atom "define", .atom name, value])) = faultOf? (exprT value) :=
  faultOf?_map _ _

theorem faultOf?_conditional (test yes no : Form) :
    faultOf? (exprT (.list [.atom "if", test, yes, no])) = faultOf? (exprF [test, yes, no]) := by
  simp only [exprT, exprF, roleOf]
  cases exprT test with
  | error => rfl
  | ok =>
      cases exprT yes with
      | error => rfl
      | ok => cases exprT no <;> rfl

theorem faultOf?_function (names : List String) (body : Form) :
    faultOf? (exprT (.list [.atom "lambda", .list (names.map .atom), body])) =
      faultOf? (exprT body) := by
  rw [exprT.eq_def]
  simp only [roleOf]
  rw [parameters_map_atom]
  exact faultOf?_map _ _

theorem faultOf?_operation {head operator : String} {args : List Form}
    (hrole : roleOf head = .operation operator) (harity : 2 ≤ args.length) :
    faultOf? (exprT (.list (.atom head :: args))) = faultOf? (exprF args) := by
  rw [exprT.eq_def]
  simp only [hrole]
  rw [if_neg (Nat.not_lt.2 harity)]
  exact faultOf?_map _ _

theorem faultOf?_call {head : Form} (hrole : IsCallHead head) (args : List Form) :
    faultOf? (exprT (.list (head :: args))) = faultOf? (exprF (head :: args)) := by
  cases head with
  | number | text =>
      rw [exprT, exprF]
      exact (faultOf?_map _ _).trans (faultOf?_map _ _).symm
  | atom name =>
      rw [exprT.eq_def]
      simp only [hrole name rfl]
      exact (faultOf?_map _ _).trans (faultOf?_map _ _).symm
  | list items =>
      rw [exprT, exprF]
      cases exprT (.list items) with
      | error => rfl
      | ok => exact (faultOf?_map _ _).trans (faultOf?_map _ _).symm

theorem eq_of_define {args : List Form}
    (h : ∀ e, ¬ IllShaped (.list (.atom "define" :: args)) e) :
    ∃ name value, args = [.atom name, value] := by
  have hlength : args.length = 2 := by_contra fun hargs => h _ (.defineArity hargs)
  obtain ⟨target, value, rfl⟩ := List.length_eq_two.1 hlength
  obtain ⟨name, rfl⟩ : ∃ name, target = .atom name :=
    by_contra fun htarget => h _ (.defineTarget (not_exists.1 htarget))
  exact ⟨name, value, rfl⟩

theorem eq_of_conditional {args : List Form}
    (h : ∀ e, ¬ IllShaped (.list (.atom "if" :: args)) e) :
    ∃ test yes no, args = [test, yes, no] :=
  List.length_eq_three.1 (by_contra fun hargs => h _ (.ifArity hargs))

theorem eq_of_function {args : List Form}
    (h : ∀ e, ¬ IllShaped (.list (.atom "lambda" :: args)) e) :
    ∃ (names : List String) (body : Form), args = [.list (names.map .atom), body] := by
  have hlength : args.length = 2 := by_contra fun hargs => h _ (.lambdaArity hargs)
  obtain ⟨part, body, rfl⟩ := List.length_eq_two.1 hlength
  obtain ⟨items, rfl⟩ : ∃ items, part = .list items :=
    by_contra fun hpart => h _ (.parametersNotList (not_exists.1 hpart))
  have hitems : items ∈ Set.range (List.map Form.atom) := by
    rw [Set.range_list_map]
    intro item hitem
    by_contra hname
    exact h _ (.parameterNotAtom ⟨item, hitem, fun name heq => hname ⟨name, heq.symm⟩⟩)
  obtain ⟨names, rfl⟩ := hitems
  exact ⟨names, body, rfl⟩

theorem faultOf?_of_wellShaped {f : Form} (hshape : ∀ e, ¬ IllShaped f e)
    (h : ∀ g ∈ parts f, faultOf? (exprT g) = firstFault? [g]) :
    faultOf? (exprT f) = firstFault? (parts f) := by
  have hrow := faultOf?_exprF h
  match f with
  | .number _ | .text _ | .atom _ | .list [] => rfl
  | .list (head :: args) =>
      by_cases hcall : IsCallHead head
      · rw [faultOf?_call hcall, ← hrow, parts_of_call hcall]
      · obtain ⟨name, rfl, hname⟩ : ∃ name, head = .atom name ∧ roleOf name ≠ .call := by
          simpa [IsCallHead] using hcall
        obtain ⟨hdefine, hconditional, hfunction⟩ := roleOf_special name
        cases hrole : roleOf name with
        | define =>
            obtain rfl := hdefine hrole
            obtain ⟨target, value, rfl⟩ := eq_of_define hshape
            rw [faultOf?_define]
            exact h value (List.mem_singleton.2 rfl)
        | conditional =>
            obtain rfl := hconditional hrole
            obtain ⟨test, yes, no, rfl⟩ := eq_of_conditional hshape
            rw [faultOf?_conditional]
            exact hrow
        | function =>
            obtain rfl := hfunction hrole
            obtain ⟨names, body, rfl⟩ := eq_of_function hshape
            rw [faultOf?_function]
            exact h body (List.mem_singleton.2 rfl)
        | operation operator =>
            have harity : 2 ≤ args.length := by
              by_contra hargs
              have hhead := roleOf_eq_operation_iff.1 hrole
              exact hshape _ (.operatorArity hhead (Nat.not_le.1 hargs))
            rw [faultOf?_operation hrole harity, ← hrow]
            simp only [parts, hrole]
        | call => exact absurd hrole hname

/-! ## What is refused -/

theorem faultOf?_exprT (f : Form) : faultOf? (exprT f) = firstFault? [f] := by
  induction f using Form.itemsInduction with
  | number | text | atom =>
      rw [firstFault?_singleton, exprT]
      rfl
  | list items ih =>
      rw [firstFault?_singleton]
      cases hshape : shapeFault? (.list items) with
      | some e =>
          rw [exprT_of_illShaped (shapeFault?_eq_some_iff.1 hshape)]
          rfl
      | none =>
          rw [Option.none_or]
          apply faultOf?_of_wellShaped
          · exact shapeFault?_eq_none_iff.1 hshape
          · exact fun g hg => ih g (mem_items_of_mem_parts hg)

theorem faultOf?_render (o : JsOptions) (fs : List Form) :
    faultOf? (render o fs) = firstFault? fs :=
  (faultOf?_map _ _).trans (faultOf?_exprF fun f _ => faultOf?_exprT f)

/-- **A program is refused for its first list of a wrong shape, and for nothing else.** The
fault is one of the rendering and names no place, and no option matters. -/
theorem render_eq_error_iff (o : JsOptions) (fs : List Form) :
    ((∃ out, render o fs = .ok out) ↔
      ∀ f ∈ fs.flatMap expressions, ∀ e, ¬ IllShaped f e) ∧
    (∀ e, render o fs = .error e ↔
      ∃ before f after, fs.flatMap expressions = before ++ f :: after ∧ IllShaped f e ∧
        ∀ g ∈ before, ∀ e', ¬ IllShaped g e') ∧
    ∀ e, (Fault.script e).stage = .backend ∧ (Fault.script e).positions = [] := by
  refine ⟨?_, fun e => ?_, fun e => ⟨rfl, rfl⟩⟩
  · rw [← faultOf?_eq_none_iff, faultOf?_render, firstFault?, List.findSome?_eq_none_iff]
    simp only [shapeFault?_eq_none_iff]
  · rw [← faultOf?_eq_some_iff, faultOf?_render, firstFault?, List.findSome?_eq_some_iff]
    simp only [shapeFault?_eq_some_iff, shapeFault?_eq_none_iff]

end JavaScript
end Sexpr
