import Sexpr.Binary64.Basic

/-!
# Forms

A form is a tree of lists. Its leaves, the scalars, are numbers, quoted texts and
atoms. A source holds a row of forms.
-/

namespace Sexpr

inductive Form where
  | number (value : Binary64)
  | text (content : String)
  | atom (name : String)
  | list (items : List Form)
deriving Inhabited, Repr

namespace Form

/-- What holds for the scalars, and for a list if it holds for its items, holds for
each form. -/
@[elab_as_elim]
theorem itemsInduction {motive : Form → Prop} (number : ∀ value, motive (.number value))
    (text : ∀ content, motive (.text content)) (atom : ∀ name, motive (.atom name))
    (list : ∀ items, (∀ f ∈ items, motive f) → motive (.list items)) (f : Form) : motive f :=
  Form.rec (motive_1 := motive) (motive_2 := fun fs => ∀ f ∈ fs, motive f) number text atom list
    (fun _ h => nomatch h)
    (fun _ _ hf hfs _ h => by
      cases h with
      | head => exact hf
      | tail _ h => exact hfs _ h)
    f

/-- The name of a kind of form. -/
def kind : Form → String
  | .number _ => "number"
  | .text _ => "string"
  | .atom _ => "atom"
  | .list _ => "list"

def isList : Form → Bool
  | .list _ => true
  | _ => false

def atomName? : Form → Option String
  | .atom name => some name
  | _ => none

def items? : Form → Option (List Form)
  | .list items => some items
  | _ => none

/-- The atom that heads a list. -/
def headAtom? : Form → Option String
  | .list (.atom name :: _) => some name
  | _ => none

mutual

/-- The numbers in a form. -/
def numbersT : Form → List Binary64
  | .number value => [value]
  | .text _ | .atom _ => []
  | .list items => numbersF items

def numbersF : List Form → List Binary64
  | [] => []
  | f :: fs => numbersT f ++ numbersF fs

end

/-! ## Equality

Two forms are equal as data, or the same up to the equality of numbers. -/

mutual

def decEqT : (f g : Form) → Decidable (f = g)
  | .number a, .number b => decidable_of_iff (a = b) (by simp)
  | .text a, .text b => decidable_of_iff (a = b) (by simp)
  | .atom a, .atom b => decidable_of_iff (a = b) (by simp)
  | .list fs, .list gs =>
      match decEqF fs gs with
      | .isTrue h => .isTrue (congrArg list h)
      | .isFalse h => .isFalse fun e => h (Form.list.inj e)
  | .number _, .text _ | .number _, .atom _ | .number _, .list _
  | .text _, .number _ | .text _, .atom _ | .text _, .list _
  | .atom _, .number _ | .atom _, .text _ | .atom _, .list _
  | .list _, .number _ | .list _, .text _ | .list _, .atom _ =>
      .isFalse (by simp)

def decEqF : (fs gs : List Form) → Decidable (fs = gs)
  | [], [] => .isTrue rfl
  | f :: fs, g :: gs =>
      match decEqT f g, decEqF fs gs with
      | .isTrue h, .isTrue k => .isTrue (by rw [h, k])
      | .isFalse h, _ => .isFalse fun e => h (List.cons.inj e).1
      | _, .isFalse k => .isFalse fun e => k (List.cons.inj e).2
  | [], _ :: _ | _ :: _, [] => .isFalse (by simp)

end

instance : DecidableEq Form := decEqT

mutual

/-- The same form: equal shape and texts, and the same numbers. -/
def sameT : Form → Form → Bool
  | .number a, .number b => a.same b
  | .text a, .text b => a = b
  | .atom a, .atom b => a = b
  | .list fs, .list gs => sameF fs gs
  | _, _ => false

def sameF : List Form → List Form → Bool
  | [], [] => true
  | f :: fs, g :: gs => sameT f g && sameF fs gs
  | _, _ => false

end

end Form
end Sexpr
