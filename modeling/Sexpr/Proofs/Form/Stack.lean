import Mathlib
import Sexpr.Proofs.Form.Linear

/-!
# The row of finished forms

The finished forms of a builder wait in one row, and each open bracket remembers how long
the row was when it opened. An inner bracket never remembers less than an outer one, and
none more than there is (`Nested`). So a closing bracket cuts the row inside of it, and
takes the forms that were finished since its partner opened and no others
(`stacked_of_steps`).
-/

namespace Sexpr
namespace Builder

/-! ## Depths -/

/-- The marks are ordered by their depths, and the innermost is inside of the row. -/
structure Nested (b : Builder) : Prop where
  ordered : b.marks.Pairwise fun inner outer => outer.depth ≤ inner.depth
  inside : ∀ mark ∈ b.marks.head?, mark.depth ≤ b.values.size

namespace Nested

variable {b b' : Builder}

theorem empty : Nested .empty := ⟨.nil, nofun⟩

/-- With the innermost mark, all are inside of the row. -/
theorem le_size (h : b.Nested) {mark : Mark} (hmark : mark ∈ b.marks) :
    mark.depth ≤ b.values.size := by
  obtain ⟨values, marks⟩ := b
  cases marks with
  | nil => cases hmark
  | cons top marks =>
      have htop := h.inside top rfl
      rcases List.mem_cons.1 hmark with rfl | hmark
      · exact htop
      · exact ((List.pairwise_cons.1 h.ordered).1 mark hmark).trans htop

theorem push (h : b.Nested) (f : Form) : (b.push f).Nested := by
  refine ⟨h.ordered, ?_⟩
  intro mark hmark
  have hsize : (b.push f).values.size = b.values.size + 1 := Array.size_push _
  have hinside := h.inside mark hmark
  omega

theorem openBracket (h : b.Nested) (place : Position) :
    Nested { b with marks := ⟨b.values.size, place⟩ :: b.marks } := by
  constructor
  · refine List.pairwise_cons.2 ⟨?_, h.ordered⟩
    intro mark hmark
    exact h.le_size hmark
  · rintro mark ⟨⟩
    exact Nat.le_refl _

/-- A closed bracket leaves its list behind, above everything that an outer bracket
remembers. -/
theorem close (h : b.Nested) {mark : Mark} {marks : List Mark} (hmarks : b.marks = mark :: marks) :
    (b.close mark.depth marks).Nested := by
  have hinside := h.inside mark (by rw [hmarks]; rfl)
  have hordered := h.ordered
  rw [hmarks] at hordered
  obtain ⟨houter, hordered⟩ := List.pairwise_cons.1 hordered
  refine ⟨hordered, ?_⟩
  intro outer hmem
  have hsize : (b.close mark.depth marks).values.size = mark.depth + 1 := by
    simp [Builder.close, hinside]
  have hle := houter outer (List.mem_of_head? hmem)
  omega

/-- One token keeps the order of the marks. -/
theorem step {t : Token} (h : b.Nested) (hstep : b.step t = .ok b') : b'.Nested := by
  rcases step_cases hstep with ⟨f, -, rfl⟩ | ⟨-, rfl⟩ | ⟨-, mark, marks, hmarks, rfl⟩
  · exact h.push f
  · exact h.openBracket t.position
  · exact h.close hmarks

/-- So does a run over any tokens. -/
theorem steps {ts : List Token} (h : b.Nested) (hsteps : b.steps ts = .ok b') : b'.Nested := by
  refine steps_induction (motive := fun _ b => b.Nested) ?_ [] h hsteps
  intro _ b t b' h hstep
  exact h.step hstep

end Nested

/-! ## What a bracket takes -/

/-- A builder that holds the forms of some tokens is the one that has read them. -/
theorem Holds.steps_eq {ts : List Token} {b : Builder} (h : Holds ts b) :
    Builder.empty.steps ts = .ok b := by
  induction h with
  | outer hfs => rw [steps_of_linear hfs .empty]; simp [Builder.empty]
  | @inner b l items ts us _ hl hitems ih =>
      have hleft : b.step l = .ok { b with marks := ⟨b.values.size, l.position⟩ :: b.marks } := by
        simp only [Builder.step, hl]
      rw [steps_append, ih, Except.bind, steps_cons, hleft, Except.bind, steps_of_linear hitems]

/-- The innermost bracket of `b`, which stands behind the tokens `ts`, and what it will
take: the tokens before it had been read into `before`, and the tokens behind it are
`items`. -/
structure Innermost (ts : List Token) (b : Builder) (mark : Mark) (before : Builder)
    (items : List Form) : Prop where
  /-- The bracket stands among the tokens, and those behind it spell the items. -/
  opened : ∃ front l inner, ts = front ++ l :: inner ∧ l.kind = .leftBracket ∧
    l.position = mark.bracket ∧ Builder.empty.steps front = .ok before ∧ Form.Linear items inner
  /-- The row is cut where it ended when the bracket opened. -/
  depth : mark.depth = before.values.size
  /-- What was there then is still there, and the items have come behind it. -/
  values : b.values = before.values ++ items.toArray
  /-- The other brackets are those that were open then. -/
  marks : b.marks = mark :: before.marks
  /-- Closing the bracket takes the items and leaves the rest as it was. -/
  closes : ∀ r : Token, r.kind = .rightBracket → b.step r = .ok (before.push (.list items))

/-- A builder behind the tokens `ts`. -/
structure Stacked (ts : List Token) (b : Builder) : Prop where
  /-- An inner bracket does not remember less than an outer one. -/
  ordered : b.marks.Pairwise fun inner outer => outer.depth ≤ inner.depth
  /-- No bracket remembers more than there is, so each cut is inside of the row. -/
  inside : ∀ mark ∈ b.marks, mark.depth ≤ b.values.size
  /-- The innermost bracket takes what was finished since it opened. -/
  innermost : ∀ mark ∈ b.marks.head?, ∃ before items, Innermost ts b mark before items

/-- **A closing bracket takes what was finished since its partner opened.** Behind any
tokens that are read, it cuts the row of finished forms inside of it, and no form of a list
around it is taken. -/
theorem stacked_of_steps {ts : List Token} {b : Builder} (h : Builder.empty.steps ts = .ok b) :
    Stacked ts b := by
  have hnested := Nested.empty.steps h
  refine ⟨hnested.ordered, fun mark => hnested.le_size, ?_⟩
  intro mark hmark
  have hholds : Holds ([] ++ ts) b := Holds.steps (.outer .nil) h
  cases hholds with
  | outer => cases hmark
  | @inner before l items front inner hbefore hl hitems =>
      cases hmark
      refine ⟨before, items, ⟨front, l, inner, rfl, hl, rfl, hbefore.steps_eq, hitems⟩, rfl, rfl,
        rfl, ?_⟩
      intro r hr
      simp only [Builder.step, hr, close_append]
      rfl

/-- The tokens of `(a (b c`. -/
def sampleTokens : List Token :=
  [⟨.leftBracket, "(", ⟨0, 1, 1⟩⟩, ⟨.identifier, "a", ⟨1, 1, 2⟩⟩, ⟨.leftBracket, "(", ⟨3, 1, 4⟩⟩,
    ⟨.identifier, "b", ⟨4, 1, 5⟩⟩, ⟨.identifier, "c", ⟨6, 1, 7⟩⟩]

/-- Both brackets are open, at the depths 1 and 0, and the inner one will take `b` and `c`. -/
theorem stacked_sampleTokens : ∃ b, Builder.empty.steps sampleTokens = .ok b ∧
    b.marks.map Mark.depth = [1, 0] ∧ b.values.size = 3 ∧ Stacked sampleTokens b := by
  have hsteps : Builder.empty.steps sampleTokens = .ok
      ⟨#[.atom "a", .atom "b", .atom "c"], [⟨1, ⟨3, 1, 4⟩⟩, ⟨0, ⟨0, 1, 1⟩⟩]⟩ := rfl
  exact ⟨_, hsteps, rfl, rfl, stacked_of_steps hsteps⟩

end Builder
end Sexpr
