import Mathlib
import Sexpr.Html
import Sexpr.Proofs.Fault

/-!
# Elements of a shape that cannot be rendered

A list may have no tag, or attributes that name nothing or hold lists. Forms are rendered
unless one of their elements is such a list; and then the fault is that of the first one in
the order of the document, whatever the separators are (`render_refused_iff`). A scalar
always has a text, so the faults of a scalar without one never arise.
-/

namespace Sexpr
namespace Html

/-! ## The order of the document -/

mutual

/-- The nodes of a form: the form itself, and behind an element those of its body, which is
what follows the tag and the attributes. -/
def nodesT : Form → List Form
  | .list (tag :: part :: body) => .list (tag :: part :: body) :: nodesF body
  | f => [f]

def nodesF : List Form → List Form
  | [] => []
  | f :: fs => nodesT f ++ nodesF fs

end

/-! ## Shapes -/

/-- A scalar, or some scalars in a list. -/
def IsEntry (f : Form) : Prop :=
  ∀ items, f = .list items → items ≠ [] ∧ ∀ item ∈ items, item.isList = false

/-- A list has a scalar in front, its tag; and if a list of attributes comes next, that holds
entries only. -/
def WellShaped (f : Form) : Prop :=
  ∀ items, f = .list items →
    items ≠ [] ∧ (∀ tag ∈ items.head?, tag.isList = false) ∧
      ∀ entries, items[1]? = some (.list entries) → ∀ entry ∈ entries, IsEntry entry

/-- An entry that is none, and its fault. The name comes before the values. -/
inductive IllEntry : Form → HtmlFault → Prop
  | empty : IllEntry (.list []) .emptyAttribute
  | nameIsList {items values : List Form} :
      IllEntry (.list (.list items :: values)) .attributeNameIsList
  | valueIsList {name : Form} {values : List Form} {text : String} :
      scalar? name = some text → (∃ value ∈ values, value.isList = true) →
      IllEntry (.list (name :: values)) (.attributeValueIsList text)

/-- A list whose shape is wrong, and its fault: the tag comes before the attributes, and of
these the first one that is no entry counts. -/
inductive IllShaped : Form → HtmlFault → Prop
  | empty : IllShaped (.list []) .emptyElement
  | tagIsList {items rest : List Form} : IllShaped (.list (.list items :: rest)) .tagIsList
  | entry {tag part : Form} {before after body : List Form} {e : HtmlFault} :
      tag.isList = false → (∀ g ∈ before, IsEntry g) → IllEntry part e →
      IllShaped (.list (tag :: .list (before ++ part :: after) :: body)) e

/-- The fault of an entry. -/
def entryFault? : Form → Option HtmlFault
  | .list [] => some .emptyAttribute
  | .list (name :: values) =>
      match scalar? name with
      | none => some .attributeNameIsList
      | some text => if values.any (·.isList) then some (.attributeValueIsList text) else none
  | _ => none

/-- The fault of attributes. -/
def attributesFault? : Form → Option HtmlFault
  | .list entries => entries.findSome? entryFault?
  | _ => none

/-- The fault of a list as an element, its body apart. -/
def shapeFault? : Form → Option HtmlFault
  | .list [] => some .emptyElement
  | .list (tag :: rest) =>
      if tag.isList then some .tagIsList else rest.head?.bind attributesFault?
  | _ => none

theorem scalar?_eq_none_iff {f : Form} : scalar? f = none ↔ f.isList = true := by
  cases f <;> simp [scalar?, Form.isList]

theorem isList_of_scalar? {f : Form} {text : String} (h : scalar? f = some text) :
    f.isList = false := by
  rw [← Bool.not_eq_true, ← scalar?_eq_none_iff, h]
  exact Option.some_ne_none text

/-! ### Entries -/

theorem entryFault?_eq_none_iff {f : Form} : entryFault? f = none ↔ IsEntry f := by
  cases f with
  | number | text | atom => simp [entryFault?, IsEntry]
  | list items =>
      cases items with
      | nil => simp [entryFault?, IsEntry]
      | cons name values =>
          simp only [entryFault?, IsEntry]
          cases hname : scalar? name with
          | none => simp [scalar?_eq_none_iff.1 hname]
          | some text => simp [isList_of_scalar? hname]

theorem entryFault?_of_illEntry {f : Form} {e : HtmlFault} (h : IllEntry f e) :
    entryFault? f = some e := by
  cases h with
  | empty => rfl
  | nameIsList => rfl
  | valueIsList hname hvalue =>
      rw [entryFault?, hname]
      exact if_pos (List.any_eq_true.2 hvalue)

theorem illEntry_of_entryFault? {f : Form} {e : HtmlFault} (h : entryFault? f = some e) :
    IllEntry f e := by
  unfold entryFault? at h
  split at h
  · cases h
    exact .empty
  · next name values =>
    split at h
    · next hname =>
      cases h
      cases name with
      | list items => exact .nameIsList
      | number | text | atom => cases hname
    · next text hname =>
      split at h
      · next hvalue =>
        cases h
        exact .valueIsList hname (List.any_eq_true.1 hvalue)
      · cases h
  · cases h

/-! ### Elements -/

theorem attributesFault?_eq_none_iff {f : Form} :
    attributesFault? f = none ↔
      ∀ entries, f = .list entries → ∀ entry ∈ entries, IsEntry entry := by
  cases f with
  | number | text | atom => simp [attributesFault?]
  | list entries => simp [attributesFault?, List.findSome?_eq_none_iff, entryFault?_eq_none_iff]

theorem shapeFault?_eq_none_iff {f : Form} : shapeFault? f = none ↔ WellShaped f := by
  cases f with
  | number | text | atom => simp [shapeFault?, WellShaped]
  | list items =>
      cases items with
      | nil => simp [shapeFault?, WellShaped]
      | cons tag rest =>
          simp only [shapeFault?, WellShaped, Form.list.injEq]
          cases htag : tag.isList with
          | true => simp [htag]
          | false =>
              cases rest with
              | nil => simp [htag]
              | cons part body => simp [htag, attributesFault?_eq_none_iff]

theorem shapeFault?_of_illShaped {f : Form} {e : HtmlFault} (h : IllShaped f e) :
    shapeFault? f = some e := by
  cases h with
  | empty => rfl
  | tagIsList => rfl
  | entry htag hbefore hpart =>
      rw [shapeFault?, htag]
      refine List.findSome?_eq_some_iff.2 ⟨_, _, _, rfl, entryFault?_of_illEntry hpart, ?_⟩
      intro g hg
      exact entryFault?_eq_none_iff.2 (hbefore g hg)

theorem illShaped_of_shapeFault? {f : Form} {e : HtmlFault} (h : shapeFault? f = some e) :
    IllShaped f e := by
  unfold shapeFault? at h
  split at h
  · cases h
    exact .empty
  · next tag rest =>
    split at h
    · next htag =>
      cases h
      cases tag with
      | list items => exact .tagIsList
      | number | text | atom => cases htag
    · next htag =>
      obtain ⟨part, hrest, hpart⟩ := Option.bind_eq_some_iff.1 h
      obtain ⟨body, rfl⟩ := List.head?_eq_some_iff.1 hrest
      cases part with
      | number | text | atom => cases hpart
      | list entries =>
          obtain ⟨before, first, after, rfl, hfirst, hbefore⟩ :=
            List.findSome?_eq_some_iff.1 hpart
          apply IllShaped.entry (by simpa using htag)
          · intro g hg
            exact entryFault?_eq_none_iff.1 (hbefore g hg)
          · exact illEntry_of_entryFault? hfirst
  · cases h

theorem shapeFault?_eq_some_iff {f : Form} {e : HtmlFault} :
    shapeFault? f = some e ↔ IllShaped f e :=
  ⟨illShaped_of_shapeFault?, shapeFault?_of_illShaped⟩

/-! ## Faults in order -/

theorem faultOf?_scalarOr (e : HtmlFault) (f : Form) :
    faultOf? (scalarOr e f) = if f.isList then some e else none := by
  cases f <;> rfl

/-- Scalars in a row: the fault is the same, whichever of them is a list. -/
theorem faultOf?_scalars (e : HtmlFault) (fs : List Form) :
    faultOf? (fs.mapM (scalarOr e)) = if fs.any (·.isList) then some e else none := by
  rw [faultOf?_mapM]
  induction fs with
  | nil => rfl
  | cons f fs ih =>
      rw [List.findSome?_cons, faultOf?_scalarOr, ih, List.any_cons]
      cases f.isList <;> rfl

theorem faultOf?_entry (f : Form) : faultOf? (entry f) = entryFault? f := by
  cases f with
  | number | text | atom => rfl
  | list items =>
      cases items with
      | nil => rfl
      | cons name values =>
          rw [entry, entryFault?]
          cases hname : scalar? name with
          | none => simp [scalarOr, hname, faultOf?, bind, Except.bind]
          | some text =>
              have hvalues := faultOf?_scalars (.attributeValueIsList text) values
              rw [scalarOr, hname]
              cases values with
              | nil => rfl
              | cons value values => exact (faultOf?_map _ _).trans hvalues

theorem faultOf?_attributes (part : Form) : faultOf? (attributes part) = attributesFault? part := by
  cases part with
  | number | text | atom => rfl
  | list entries =>
      rw [attributes, attributesFault?, faultOf?_map, faultOf?_mapM]
      simp only [faultOf?_entry]

/-- The fault that is found first among the nodes of forms. -/
def firstFault? (fs : List Form) : Option HtmlFault := (nodesF fs).findSome? shapeFault?

theorem firstFault?_cons (f : Form) (fs : List Form) :
    firstFault? (f :: fs) = ((nodesT f).findSome? shapeFault?).or (firstFault? fs) := by
  rw [firstFault?, nodesF, List.findSome?_append, firstFault?]

theorem faultOf?_nodeF {o : HtmlOptions} {fs : List Form}
    (h : ∀ f ∈ fs, faultOf? (nodeT o f) = (nodesT f).findSome? shapeFault?) :
    faultOf? (nodeF o fs) = firstFault? fs := by
  induction fs with
  | nil => rfl
  | cons f fs ih =>
      obtain ⟨hf, hfs⟩ := List.forall_mem_cons.1 h
      rw [nodeF, firstFault?_cons, ← hf, ← ih hfs]
      apply faultOf?_bind
      intro text
      exact faultOf?_map _ _

/-- An element is at fault itself, or else as its body is. -/
theorem faultOf?_nodeT (o : HtmlOptions) (f : Form) :
    faultOf? (nodeT o f) = (nodesT f).findSome? shapeFault? := by
  induction f using Form.itemsInduction with
  | number | text | atom => rfl
  | list items ih =>
      match items with
      | [] => rfl
      | [tag] =>
          cases tag <;> rfl
      | tag :: part :: body =>
          have hbody : faultOf? (nodeF o body) = firstFault? body := by
            apply faultOf?_nodeF
            intro f hf
            exact ih f (List.mem_cons_of_mem _ (List.mem_cons_of_mem _ hf))
          rw [nodeT, nodesT, List.findSome?_cons, shapeFault?, List.head?_cons, Option.bind_some]
          cases tag with
          | list => rfl
          | number | text | atom =>
              refine (faultOf?_bind fun _ => faultOf?_map _ _).trans ?_
              rw [faultOf?_attributes, hbody]
              cases attributesFault? part <;> rfl

theorem faultOf?_render (o : HtmlOptions) (fs : List Form) :
    faultOf? (render o fs) = firstFault? fs :=
  (faultOf?_map _ _).trans (faultOf?_nodeF fun f _ => faultOf?_nodeT o f)

/-! ## What is refused -/

/-- How a scalar without a text would be refused, as a node, as attributes and as an entry. -/
def scalarMessages : List String :=
  [HtmlFault.nodeNotScalar, .attributesNotScalar, .entryNotScalar].map HtmlFault.message

theorem message_notMem_of_illShaped {f : Form} {e : HtmlFault} (h : IllShaped f e) :
    e.message ∉ scalarMessages := by
  cases h with
  | empty | tagIsList => decide
  | entry _ _ hpart =>
      cases hpart with
      | empty | nameIsList => decide
      | @valueIsList _ _ name =>
          have hscalar : ∀ text ∈ scalarMessages, text.toList.head? = some 'e' := by decide
          have hmessage : (HtmlFault.attributeValueIsList name).message =
              "value of attribute " ++ name ++ " must be a scalar" := rfl
          intro hmem
          have hfirst := hscalar _ hmem
          rw [hmessage, String.append_assoc, String.toList_append,
            List.head?_append_of_ne_nil _ (by decide)] at hfirst
          cases hfirst

/-- **Forms are refused for their first element of a wrong shape, and for nothing else.** The
fault is never that of a scalar without a text, and the separators do not matter. -/
theorem render_refused_iff (o : HtmlOptions) (fs : List Form) :
    ((∃ out, render o fs = .ok out) ↔ ∀ f ∈ nodesF fs, WellShaped f) ∧
    (∀ e, render o fs = .error e ↔
      ∃ before f after, nodesF fs = before ++ f :: after ∧ IllShaped f e ∧
        ∀ g ∈ before, WellShaped g) ∧
    (∀ e, render o fs = .error e → e.message ∉ scalarMessages) ∧
    ∀ o' : HtmlOptions,
      (∃ out out', render o fs = .ok out ∧ render o' fs = .ok out') ∨
        ∃ e, render o fs = .error e ∧ render o' fs = .error e := by
  have herror : ∀ e, render o fs = .error e ↔
      ∃ before f after, nodesF fs = before ++ f :: after ∧ IllShaped f e ∧
        ∀ g ∈ before, WellShaped g := by
    intro e
    rw [← faultOf?_eq_some_iff, faultOf?_render, firstFault?, List.findSome?_eq_some_iff]
    simp only [shapeFault?_eq_some_iff, shapeFault?_eq_none_iff]
  refine ⟨?_, herror, ?_, ?_⟩
  · rw [← faultOf?_eq_none_iff, faultOf?_render, firstFault?, List.findSome?_eq_none_iff]
    simp only [shapeFault?_eq_none_iff]
  · intro e he
    obtain ⟨_, f, _, -, hshape, -⟩ := (herror e).1 he
    exact message_notMem_of_illShaped hshape
  · intro o'
    -- both runs have the fault that is found among the nodes, if there is one
    have hsame : faultOf? (render o' fs) = faultOf? (render o fs) := by
      rw [faultOf?_render, faultOf?_render]
    cases hrender : faultOf? (render o fs) with
    | none =>
        rw [hrender] at hsame
        obtain ⟨out, hout⟩ := faultOf?_eq_none_iff.1 hrender
        obtain ⟨out', hout'⟩ := faultOf?_eq_none_iff.1 hsame
        exact Or.inl ⟨out, out', hout, hout'⟩
    | some e =>
        rw [hrender] at hsame
        exact Or.inr ⟨e, faultOf?_eq_some_iff.1 hrender, faultOf?_eq_some_iff.1 hsame⟩

end Html
end Sexpr
