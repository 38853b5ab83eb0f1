import Mathlib
import Sexpr.Proofs.JavaScript.Symbol

/-!
# Reading JavaScript

The symbols of an expression are read one after the other. What has been begun in
front of the place that is read is kept in frames, innermost first. An operand goes
to the operator that binds it tightest, and of two equals to the left one; a
conditional and a function reach as far as they can (`read?`).

A row of symbols yields an expression if it does so within all that may have been
begun before it (`Yields`, `YieldsOperand`); such rows are put together part by part.
-/

namespace Sexpr
namespace JavaScript

/-! ## The reader -/

/-- Something begun, in the middle of which an expression stands. -/
inductive Frame where
  /-- Brackets, and the names in front of the last comma, newest first. Only the
  brackets of a parameter list have commas. -/
  | brackets (names : List String)
  /-- The brackets behind a callee, and the arguments in front of the last comma,
  newest first. -/
  | arguments (callee : Expression) (done : List Expression)
  | negative
  | operation (operator : Operator) (left : Expression)
  | test (test : Expression)
  | branches (test yes : Expression)
  | function (parameters : List String)
deriving Repr

/-- What has been read. -/
inductive State where
  /-- No more than what an operand follows. -/
  | need (outer : List Frame)
  /-- An opening bracket, behind which a closing one may follow as well. -/
  | opened (outer : List Frame)
  | named (name : String) (outer : List Frame)
  | operand (value : Expression) (outer : List Frame)
  /-- Names in brackets: parameters, or a name in brackets if it is only one. -/
  | parameters (names : List String) (outer : List Frame)
deriving Repr

/-- Completes the operations that bind at least as tightly as `tightness`. -/
def completeTo (tightness : Nat) : List Frame → Expression → Expression × List Frame
  | .negative :: outer, e => completeTo tightness outer (.negative e)
  | .operation operator left :: outer, e =>
      if tightness ≤ operator.tightness then
        completeTo tightness outer (.operation operator left e)
      else (e, .operation operator left :: outer)
  | outer, e => (e, outer)

/-- Completes all that ends with an expression. -/
def complete : List Frame → Expression → Expression × List Frame
  | .negative :: outer, e => complete outer (.negative e)
  | .operation operator left :: outer, e => complete outer (.operation operator left e)
  | .branches test yes :: outer, e => complete outer (.conditional test yes e)
  | .function parameters :: outer, e => complete outer (.function parameters e)
  | outer, e => (e, outer)

/-- Whether a function may begin here: it is no operand. -/
def loose : List Frame → Bool
  | .negative :: _ | .operation _ _ :: _ => false
  | _ => true

namespace State

/-- The operand that has just been read. -/
def value? : State → Option (Expression × List Frame)
  | .named name outer | .parameters [name] outer => some (.name name, outer)
  | .operand e outer => some (e, outer)
  | _ => none

/-- The expression that ends here. -/
def completed? (st : State) : Option (Expression × List Frame) :=
  st.value?.map fun (e, outer) => complete outer e

/-- An operand begins. -/
def begin? (outer : List Frame) : Symbol → Option State
  | .word name =>
      if name = "null" then some (.operand .null outer)
      else if reserved.contains name then none
      else some (.named name outer)
  | .number value => some (.operand (.number value) outer)
  | .text content => some (.operand (.text content) outer)
  | .mark .opening => some (.opened (.brackets [] :: outer))
  | .mark (.op .minus) => some (.need (.negative :: outer))
  | .mark _ => none

/-- A mark behind the operand `e`. -/
def continue? (outer : List Frame) (e : Expression) : Mark → Option State
  | .opening => some (.opened (.arguments e [] :: outer))
  | .op operator =>
      let (left, outer) := completeTo operator.tightness outer e
      some (.need (.operation operator left :: outer))
  | .question =>
      let (test, outer) := completeTo 0 outer e
      some (.need (.test test :: outer))
  | .colon =>
      match complete outer e with
      | (yes, .test test :: outer) => some (.need (.branches test yes :: outer))
      | _ => none
  | .comma =>
      match complete outer e with
      | (e, .arguments callee done :: outer) =>
          some (.need (.arguments callee (e :: done) :: outer))
      | _ => none
  | .closing =>
      match complete outer e with
      | (e, .brackets [] :: outer) => some (.operand e outer)
      | (e, .arguments callee done :: outer) =>
          some (.operand (.call callee (e :: done).reverse) outer)
      | _ => none
  | .semicolon | .assign | .arrow => none

/-- Reads one symbol. -/
def step? : State → Symbol → Option State
  | .need outer, s => begin? outer s
  | .opened (.brackets [] :: outer), .mark .closing => some (.parameters [] outer)
  | .opened (.arguments callee [] :: outer), .mark .closing =>
      some (.operand (.call callee []) outer)
  | .opened outer, s => begin? outer s
  | .named name (.brackets names :: outer), .mark .comma =>
      some (.need (.brackets (name :: names) :: outer))
  | .named name (.brackets names :: outer), .mark .closing =>
      some (.parameters (name :: names).reverse outer)
  | .parameters names outer, .mark .arrow =>
      if loose outer then some (.need (.function names :: outer)) else none
  | st, .mark m => st.value?.bind fun (e, outer) => continue? outer e m
  | _, _ => none

def run? (st : State) (ss : List Symbol) : Option State := ss.foldlM step? st

end State

/-- The expression whose symbols these are. -/
def expression? (ss : List Symbol) : Option Expression :=
  match ((State.need []).run? ss).bind State.completed? with
  | some (e, []) => some e
  | _ => none

/-- The statement whose symbols these are. -/
def statement? : List Symbol → Option Statement
  | .word "const" :: .word name :: .mark .assign :: ss =>
      if reserved.contains name || ss.getLast? ≠ some (.mark .semicolon) then none
      else (expression? ss.dropLast).map (.declaration name)
  | ss => (expression? ss).map .expression

/-- Reads a program of one statement. -/
def read? (letters : Letters) (program : String) : Option Statement :=
  (symbols? letters program.toList).bind statement?

/-! ## What a row of symbols yields -/

/-- The symbols are those of an expression, wherever a function may begin. -/
def Yields (ss : List Symbol) (e : Expression) : Prop :=
  ∀ outer, loose outer = true → ∃ st, (State.need outer).run? ss = some st ∧
    st.completed? = some (complete outer e)

/-- The symbols are those of an operand. -/
def YieldsOperand (ss : List Symbol) (e : Expression) : Prop :=
  ∀ outer, ∃ st, (State.need outer).run? ss = some st ∧ st.value? = some (e, outer)

namespace State

variable {st : State} {e : Expression} {outer : List Frame} {s : Symbol} {ss ts : List Symbol}

theorem run?_cons : st.run? (s :: ss) = (st.step? s).bind (·.run? ss) := rfl

theorem run?_append : st.run? (ss ++ ts) = (st.run? ss).bind (·.run? ts) := by
  unfold run?
  rw [List.foldlM_append]
  rfl

/-- A row of symbols, one more symbol and what is behind it. -/
theorem run?_behind {st₀ st' : State} (hst : st₀.run? ss = some st)
    (hstep : st.step? s = some st') : st₀.run? (ss ++ s :: ts) = st'.run? ts := by
  rw [run?_append, hst, Option.bind_some, run?_cons, hstep, Option.bind_some]

/-- Behind an opening bracket an operand is read as anywhere else. -/
theorem run?_opened (h : (need outer).run? ss = some st) (hst : st ≠ need outer) :
    (opened outer).run? ss = some st := by
  cases ss with
  | nil =>
      cases h
      exact absurd rfl hst
  | cons s ss =>
      have hs : s ≠ .mark .closing := by
        rintro rfl
        cases h
      have hstep : (opened outer).step? s = begin? outer s := by
        unfold step?
        split <;> simp_all
      rw [run?_cons] at h ⊢
      rwa [hstep]

/-- A mark behind an operand is read as `continue?` says, unless it may belong to a
parameter list. -/
theorem step?_mark (h : st.value? = some (e, outer)) {m : Mark} (harrow : m ≠ .arrow)
    (hnames : ∀ names rest, outer = .brackets names :: rest → m ≠ .comma ∧ m ≠ .closing) :
    st.step? (.mark m) = continue? outer e m := by
  cases st with
  | need | opened => cases h
  | operand => cases h; rfl
  | named name inner =>
      cases h
      cases outer with
      | nil => rfl
      | cons f rest =>
          cases f with
          | brackets names =>
              obtain ⟨hcomma, hclosing⟩ := hnames names rest rfl
              cases m with
              | comma => exact absurd rfl hcomma
              | closing => exact absurd rfl hclosing
              | _ => rfl
          | _ => rfl
  | parameters names inner =>
      cases names with
      | nil => cases h
      | cons name names =>
          cases names with
          | nil =>
              cases h
              cases m with
              | arrow => exact absurd rfl harrow
              | _ => rfl
          | cons => cases h

theorem completed?_of_value? (h : st.value? = some (e, outer)) :
    st.completed? = some (complete outer e) := by
  rw [completed?, h]
  rfl

theorem value?_of_completed? {p : Expression × List Frame} (h : st.completed? = some p) :
    ∃ e outer, st.value? = some (e, outer) ∧ complete outer e = p := by
  obtain ⟨⟨e, outer⟩, hvalue, hcomplete⟩ := Option.map_eq_some_iff.1 h
  exact ⟨e, outer, hvalue, hcomplete⟩

/-- An expression in brackets is an operand. -/
theorem step?_closing_brackets (h : st.completed? = some (e, .brackets [] :: outer)) :
    ∃ st' : State, st.step? (.mark .closing) = some st' ∧ st'.value? = some (e, outer) := by
  obtain ⟨value, inner, hvalue, hcomplete⟩ := value?_of_completed? h
  have hcontinue : continue? inner value .closing = some (.operand e outer) := by
    rw [continue?, hcomplete]
  by_cases hnames : ∃ names rest, inner = .brackets names :: rest
  · obtain ⟨names, rest, rfl⟩ := hnames
    cases hcomplete
    -- a name in brackets may still turn out to be a parameter
    cases st with
    | need | opened => cases hvalue
    | operand =>
        cases hvalue
        exact ⟨_, hcontinue, rfl⟩
    | named name =>
        cases hvalue
        exact ⟨.parameters [name] outer, rfl, rfl⟩
    | parameters names' =>
        cases names' with
        | nil => cases hvalue
        | cons name names' =>
            cases names' with
            | nil =>
                cases hvalue
                exact ⟨_, hcontinue, rfl⟩
            | cons => cases hvalue
  · refine ⟨.operand e outer, ?_, rfl⟩
    rw [← hcontinue]
    refine step?_mark hvalue (by decide) ?_
    intro names rest hinner
    exact absurd ⟨names, rest, hinner⟩ hnames

variable {callee : Expression} {done : List Expression}

/-- Behind an argument, marks are read as `continue?` says. -/
theorem step?_argument (h : st.completed? = some (e, .arguments callee done :: outer)) {m : Mark}
    (harrow : m ≠ .arrow) : ∃ value inner,
      complete inner value = (e, .arguments callee done :: outer) ∧
      st.step? (.mark m) = continue? inner value m := by
  obtain ⟨value, inner, hvalue, hcomplete⟩ := value?_of_completed? h
  refine ⟨value, inner, hcomplete, step?_mark hvalue harrow ?_⟩
  rintro names rest rfl
  cases hcomplete

theorem step?_comma_arguments (h : st.completed? = some (e, .arguments callee done :: outer)) :
    st.step? (.mark .comma) = some (.need (.arguments callee (e :: done) :: outer)) := by
  obtain ⟨value, inner, hcomplete, hstep⟩ := step?_argument h (m := .comma) (by decide)
  rw [hstep, continue?, hcomplete]

theorem step?_closing_arguments (h : st.completed? = some (e, .arguments callee done :: outer)) :
    st.step? (.mark .closing) = some (.operand (.call callee (e :: done).reverse) outer) := by
  obtain ⟨value, inner, hcomplete, hstep⟩ := step?_argument h (m := .closing) (by decide)
  rw [hstep, continue?, hcomplete]

end State

/-! ## Putting rows together -/

variable {ss : List Symbol} {e : Expression}

theorem YieldsOperand.yields (h : YieldsOperand ss e) : Yields ss e := by
  intro outer _
  obtain ⟨st, hst, hvalue⟩ := h outer
  exact ⟨st, hst, State.completed?_of_value? hvalue⟩

/-- An expression in brackets is an operand. -/
theorem Yields.bracketed (h : Yields ss e) :
    YieldsOperand (Symbol.mark .opening :: ss ++ [.mark .closing]) e := by
  intro outer
  obtain ⟨st, hst, hcompleted⟩ := h (.brackets [] :: outer) rfl
  obtain ⟨value, inner, hvalue, -⟩ := State.value?_of_completed? hcompleted
  obtain ⟨st', hclosing, hvalue'⟩ := State.step?_closing_brackets hcompleted
  have hopened := State.run?_opened hst (by rintro rfl; cases hvalue)
  refine ⟨st', ?_, hvalue'⟩
  rw [List.cons_append, State.run?_cons]
  exact State.run?_behind hopened hclosing

/-! ### Calls -/

/-- Rows of symbols with commas between them. -/
def commas (rows : List (List Symbol)) : List Symbol := [Symbol.mark .comma].intercalate rows

theorem commas_singleton (row : List Symbol) : commas [row] = row := List.intercalate_singleton

theorem commas_cons_cons (row next : List Symbol) (rows : List (List Symbol)) :
    commas (row :: next :: rows) = row ++ Symbol.mark .comma :: commas (next :: rows) := by
  rw [commas, List.intercalate_cons_cons, List.append_assoc, List.singleton_append, commas]

theorem run?_arguments {rows : List (List Symbol)} {es : List Expression}
    (h : List.Forall₂ Yields rows es) (hne : rows ≠ []) (callee : Expression)
    (done : List Expression) (outer : List Frame) :
    (State.need (.arguments callee done :: outer)).run? (commas rows ++ [.mark .closing]) =
      some (.operand (.call callee (done.reverse ++ es)) outer) := by
  induction h generalizing done with
  | nil => exact absurd rfl hne
  | @cons row e rows es hrow hrows ih =>
      obtain ⟨st, hst, hcompleted⟩ := hrow (.arguments callee done :: outer) rfl
      cases hrows with
      | nil =>
          rw [commas_singleton,
            State.run?_behind hst (State.step?_closing_arguments hcompleted)]
          simp [State.run?]
      | cons =>
          rw [commas_cons_cons, List.append_assoc, List.cons_append,
            State.run?_behind hst (State.step?_comma_arguments hcompleted),
            ih (List.cons_ne_nil _ _)]
          simp

theorem YieldsOperand.call {rows : List (List Symbol)} {es : List Expression}
    (h : YieldsOperand ss e) (hrows : List.Forall₂ Yields rows es) :
    YieldsOperand (ss ++ (Symbol.mark .opening :: commas rows ++ [.mark .closing]))
      (.call e es) := by
  intro outer
  obtain ⟨st, hst, hvalue⟩ := h outer
  refine ⟨.operand (.call e es) outer, ?_, rfl⟩
  have hopening : st.step? (.mark .opening) = some (.opened (.arguments e [] :: outer)) :=
    State.step?_mark hvalue (by decide) (by simp)
  rw [List.cons_append, State.run?_behind hst hopening]
  cases hrows with
  | nil => rfl
  | cons hrow hrows =>
      exact State.run?_opened
        (run?_arguments (.cons hrow hrows) (List.cons_ne_nil _ _) e [] outer) (by simp)

/-! ### Operations -/

theorem completeTo_loose {outer : List Frame} (h : loose outer = true) (tightness : Nat)
    (e : Expression) : completeTo tightness outer e = (e, outer) := by
  cases outer with
  | nil => rfl
  | cons f outer =>
      cases f with
      | negative | operation => cases h
      | _ => rfl

/-- Where a function may begin, nothing is completed by an operator. -/
theorem State.step?_operator {st : State} {outer : List Frame} (h : st.value? = some (e, outer))
    (hloose : loose outer = true) (operator : Operator) :
    st.step? (.mark (.op operator)) = some (.need (.operation operator e :: outer)) := by
  rw [step?_mark h (by simp) (by simp), continue?, completeTo_loose hloose]

/-- An operand between two operators goes to the second one only if this binds tighter. -/
theorem State.step?_second_operator {st : State} {left : Expression} {first : Operator}
    {outer : List Frame} (h : st.value? = some (e, .operation first left :: outer))
    (hloose : loose outer = true) (second : Operator) :
    st.step? (.mark (.op second)) = some (.need
      (if second.tightness ≤ first.tightness then
        .operation second (.operation first left e) :: outer
      else .operation second e :: .operation first left :: outer)) := by
  rw [step?_mark h (by simp) (by simp), continue?, completeTo, completeTo_loose hloose]
  by_cases htight : second.tightness ≤ first.tightness
  · rw [if_pos htight, if_pos htight]
  · rw [if_neg htight, if_neg htight]

example : expression? [.word "a", .mark (.op .minus), .word "b", .mark (.op .times), .word "c"] =
    some (.operation .minus (.name "a") (.operation .times (.name "b") (.name "c"))) := rfl

/-- Operands behind a left one and an operator go to the operator from left to right. -/
theorem run?_operands {rows : List (List Symbol)} {es : List Expression}
    (h : List.Forall₂ YieldsOperand rows es) (hne : rows ≠ []) (operator : Operator)
    (left : Expression) {outer : List Frame} (hloose : loose outer = true) :
    ∃ st, (State.need (.operation operator left :: outer)).run?
        ([Symbol.mark (.op operator)].intercalate rows) = some st ∧
      st.completed? = some (complete outer (es.foldl (.operation operator) left)) := by
  induction h generalizing left with
  | nil => exact absurd rfl hne
  | @cons row e rows es hrow hrows ih =>
      obtain ⟨st, hst, hvalue⟩ := hrow (.operation operator left :: outer)
      cases hrows with
      | nil =>
          refine ⟨st, ?_, ?_⟩
          · rw [List.intercalate_singleton, hst]
          · exact (State.completed?_of_value? hvalue).trans rfl
      | cons =>
          -- the same operator again completes the operation in front of it
          have hstep := State.step?_second_operator hvalue hloose operator
          rw [if_pos (Nat.le_refl _)] at hstep
          obtain ⟨st', hst', hcompleted⟩ := ih (List.cons_ne_nil _ _) (.operation operator left e)
          refine ⟨st', ?_, hcompleted⟩
          rw [List.intercalate_cons_cons, List.append_assoc, List.singleton_append,
            State.run?_behind hst hstep, hst']

theorem Yields.operation {rows : List (List Symbol)} {es : List Expression}
    (h : YieldsOperand ss e) (hrows : List.Forall₂ YieldsOperand rows es) (hne : rows ≠ [])
    (operator : Operator) : Yields ([Symbol.mark (.op operator)].intercalate (ss :: rows))
      (es.foldl (.operation operator) e) := by
  intro outer hloose
  obtain ⟨st, hst, hvalue⟩ := h outer
  obtain ⟨st', hst', hcompleted⟩ := run?_operands hrows hne operator e hloose
  refine ⟨st', ?_, hcompleted⟩
  rw [List.intercalate_cons_of_ne_nil hne, List.append_assoc, List.singleton_append,
    State.run?_behind hst (State.step?_operator hvalue hloose operator), hst']

theorem Yields.negative (h : YieldsOperand ss e) :
    Yields (.mark (.op .minus) :: ss) (.negative e) := by
  intro outer _
  obtain ⟨st, hst, hvalue⟩ := h (.negative :: outer)
  exact ⟨st, hst, (State.completed?_of_value? hvalue).trans rfl⟩

/-! ### Conditionals and functions -/

theorem Yields.conditional {ts us : List Symbol} {yes no : Expression} (htest : YieldsOperand ss e)
    (hyes : YieldsOperand ts yes) (hno : YieldsOperand us no) :
    Yields (ss ++ Symbol.mark .question :: (ts ++ Symbol.mark .colon :: us))
      (.conditional e yes no) := by
  intro outer hloose
  obtain ⟨st, hst, hvalue⟩ := htest outer
  have hquestion : st.step? (.mark .question) = some (.need (.test e :: outer)) := by
    rw [State.step?_mark hvalue (by decide) (by simp), State.continue?, completeTo_loose hloose]
  obtain ⟨st₁, hst₁, hvalue₁⟩ := hyes (.test e :: outer)
  have hcolon : st₁.step? (.mark .colon) = some (.need (.branches e yes :: outer)) :=
    State.step?_mark hvalue₁ (by decide) (by simp)
  obtain ⟨st₂, hst₂, hvalue₂⟩ := hno (.branches e yes :: outer)
  refine ⟨st₂, ?_, ?_⟩
  · rw [State.run?_behind hst hquestion, State.run?_behind hst₁ hcolon, hst₂]
  · exact (State.completed?_of_value? hvalue₂).trans rfl

theorem begin?_name {name : String} (h : reserved.contains name = false) (outer : List Frame) :
    State.begin? outer (.word name) = some (.named name outer) := by
  have hnull : name ≠ "null" := by
    rintro rfl
    exact absurd h (by decide)
  rw [State.begin?, if_neg hnull, h]
  rfl

theorem run?_parameters {names : List String} (h : ∀ name ∈ names, reserved.contains name = false)
    (hne : names ≠ []) (done : List String) (outer : List Frame) :
    (State.need (.brackets done :: outer)).run?
        (commas (names.map ([.word ·])) ++ [.mark .closing]) =
      some (.parameters (done.reverse ++ names) outer) := by
  induction names generalizing done with
  | nil => exact absurd rfl hne
  | cons name names ih =>
      obtain ⟨hname, hnames⟩ := List.forall_mem_cons.1 h
      have hstep : (State.need (.brackets done :: outer)).step? (.word name) =
          some (.named name (.brackets done :: outer)) := begin?_name hname _
      cases names with
      | nil =>
          rw [List.map_singleton, commas_singleton, List.singleton_append, State.run?_cons, hstep,
            Option.bind_some]
          simp [State.run?, State.step?]
      | cons next names =>
          have hcomma : (State.named name (.brackets done :: outer)).step? (.mark .comma) =
              some (.need (.brackets (name :: done) :: outer)) := rfl
          have hnext := ih hnames (List.cons_ne_nil _ _) (name :: done)
          rw [List.map_cons] at hnext ⊢
          rw [List.map_cons, commas_cons_cons, List.append_assoc, List.singleton_append,
            State.run?_cons, hstep, Option.bind_some, List.cons_append, State.run?_cons, hcomma,
            Option.bind_some, hnext]
          simp

theorem Yields.function {names : List String}
    (hnames : ∀ name ∈ names, reserved.contains name = false) (h : Yields ss e) :
    Yields (Symbol.mark .opening :: commas (names.map ([.word ·])) ++ [.mark .closing] ++
      Symbol.mark .arrow :: ss) (.function names e) := by
  intro outer hloose
  have hparameters : (State.need outer).run? (Symbol.mark .opening ::
      commas (names.map ([.word ·])) ++ [.mark .closing]) = some (.parameters names outer) := by
    rw [List.cons_append, State.run?_cons]
    cases names with
    | nil => rfl
    | cons name names =>
        exact State.run?_opened (run?_parameters hnames (List.cons_ne_nil _ _) [] outer) (by simp)
  have harrow : (State.parameters names outer).step? (.mark .arrow) =
      some (.need (.function names :: outer)) := by
    rw [State.step?, if_pos hloose]
  obtain ⟨st, hst, hcompleted⟩ := h (.function names :: outer) rfl
  refine ⟨st, ?_, hcompleted⟩
  rw [State.run?_behind hparameters harrow, hst]

/-! ### Words and literals -/

theorem YieldsOperand.name {name : String} (h : reserved.contains name = false) :
    YieldsOperand [.word name] (.name name) := by
  intro outer
  exact ⟨_, by rw [State.run?_cons, State.step?, begin?_name h]; rfl, rfl⟩

theorem YieldsOperand.null : YieldsOperand [.word "null"] .null := by
  intro outer
  exact ⟨.operand .null outer, rfl, rfl⟩

theorem YieldsOperand.number (value : Binary64) :
    YieldsOperand [.number value] (.number value) := by
  intro outer
  exact ⟨.operand (.number value) outer, rfl, rfl⟩

theorem YieldsOperand.text (content : String) : YieldsOperand [.text content] (.text content) := by
  intro outer
  exact ⟨.operand (.text content) outer, rfl, rfl⟩

/-! ### Statements -/

theorem Yields.expression? (h : Yields ss e) : expression? ss = some e := by
  obtain ⟨st, hst, hcompleted⟩ := h [] rfl
  rw [JavaScript.expression?, hst, Option.bind_some, hcompleted]
  rfl

/-- No expression begins like a declaration. -/
theorem Yields.statement? (h : Yields ss e) : statement? ss = some (.expression e) := by
  unfold JavaScript.statement?
  split
  · obtain ⟨st, hst, -⟩ := h [] rfl
    cases hst
  · rw [h.expression?]
    rfl

theorem Yields.declaration {name : String} (hname : reserved.contains name = false)
    (h : Yields ss e) :
    JavaScript.statement? (.word "const" :: .word name :: .mark .assign :: (ss ++
      [.mark .semicolon])) = some (.declaration name e) := by
  rw [JavaScript.statement?, List.getLast?_concat, List.dropLast_concat, h.expression?, hname]
  rfl

end JavaScript
end Sexpr
