import Mathlib
import Sexpr.Form.Builder
import Sexpr.Proofs.Token

/-!
# Forms written out as tokens

A row of forms is written out in a row of tokens by putting the tokens of the items
of a list between two brackets (`Form.Linear`). Places and the texts of brackets
are free. The builder reads the forms back (`Builder.steps_of_linear`).
-/

namespace Sexpr

namespace Builder

theorem steps_cons (b : Builder) (t : Token) (ts : List Token) :
    b.steps (t :: ts) = (b.step t).bind (·.steps ts) := rfl

theorem steps_append (b : Builder) (ts us : List Token) :
    b.steps (ts ++ us) = (b.steps ts).bind (·.steps us) :=
  List.foldlM_append

/-- What holds of a builder and the tokens behind which it stands, and is kept by each
token that is read, is kept by all of them. -/
theorem steps_induction {motive : List Token → Builder → Prop}
    (hkept : ∀ ts b t b', motive ts b → b.step t = .ok b' → motive (ts ++ [t]) b')
    (ts : List Token) {us : List Token} {b b' : Builder} (h : motive ts b)
    (hsteps : b.steps us = .ok b') : motive (ts ++ us) b' := by
  induction us generalizing ts b with
  | nil =>
      cases hsteps
      rwa [List.append_nil]
  | cons u us ih =>
      rw [steps_cons] at hsteps
      cases hstep : b.step u with
      | error fault =>
          rw [hstep] at hsteps
          cases hsteps
      | ok next =>
          rw [hstep] at hsteps
          rw [List.append_cons]
          exact ih _ (hkept ts b u next h hstep) hsteps

end Builder

theorem Form.ofTokens_of_steps {ts : List Token} {b : Builder}
    (h : Builder.empty.steps ts = .ok b) : ofTokens ts = b.finish := by
  unfold ofTokens
  rw [h]
  rfl

/-- The tokens are the forms, written out one behind the other. -/
inductive Form.Linear : List Form → List Token → Prop
  | nil : Linear [] []
  | atom {t : Token} {fs : List Form} {ts : List Token} :
      t.kind = .identifier → Linear fs ts → Linear (.atom t.text :: fs) (t :: ts)
  | text {t : Token} {fs : List Form} {ts : List Token} :
      t.kind = .text → Linear fs ts → Linear (.text t.text :: fs) (t :: ts)
  | number {t : Token} {negative : Bool} {m : Magnitude} {fs : List Form} {ts : List Token} :
      t.kind = .number → Binary64.ofText? t.text = some (.finite negative m) → Linear fs ts →
      Linear (.number (.finite negative m) :: fs) (t :: ts)
  | list {l r : Token} {items fs : List Form} {us ts : List Token} :
      l.kind = .leftBracket → r.kind = .rightBracket → Linear items us → Linear fs ts →
      Linear (.list items :: fs) (l :: us ++ r :: ts)

namespace Form.Linear

variable {fs gs : List Form} {ts us : List Token}

theorem append (h : Linear fs ts) (hg : Linear gs us) : Linear (fs ++ gs) (ts ++ us) := by
  induction h with
  | nil => exact hg
  | atom hkind _ ih => exact .atom hkind ih
  | text hkind _ ih => exact .text hkind ih
  | number hkind hread _ ih => exact .number hkind hread ih
  | list hl hr hitems _ _ ih =>
      rw [List.append_assoc, List.cons_append, List.cons_append]
      exact .list hl hr hitems ih

/-- All brackets that are opened are closed again. -/
theorem openedBy (h : Linear fs ts) (ps : List Position) : Token.openedBy ps ts = some ps := by
  induction h generalizing ps with
  | nil => rfl
  | atom hkind _ ih | text hkind _ ih | number hkind _ _ ih =>
      rw [Token.openedBy_cons]
      simp only [Token.opened, hkind, Option.bind_some, ih]
  | list hl hr _ _ ihitems ih =>
      rw [Token.openedBy_append, Token.openedBy_cons]
      simp only [Token.opened, hl, hr, Option.bind_some, ihitems, Token.openedBy_cons, ih]

end Form.Linear

namespace Builder

/-- Closing a bracket makes a list of what was finished since it opened. -/
theorem close_append (values : Array Form) (items : List Form) (old marks : List Mark) :
    (Builder.mk (values ++ items.toArray) old).close values.size marks =
      ⟨values.push (.list items), marks⟩ := by
  simp [close]

/-- A token that is read as one form, in front of tokens that are read. -/
theorem steps_of_push {b : Builder} {t : Token} {ts : List Token} {f : Form} {fs : List Form}
    (hstep : b.step t = .ok (b.push f))
    (h : (b.push f).steps ts = .ok ⟨(b.push f).values ++ fs.toArray, b.marks⟩) :
    b.steps (t :: ts) = .ok ⟨b.values ++ (f :: fs).toArray, b.marks⟩ := by
  rw [steps_cons, hstep, Except.bind, h]
  simp [push]

/-- **The builder reads back what is written out.** -/
theorem steps_of_linear {fs : List Form} {ts : List Token} (h : Form.Linear fs ts) (b : Builder) :
    b.steps ts = .ok ⟨b.values ++ fs.toArray, b.marks⟩ := by
  induction h generalizing b with
  | nil => exact congrArg Except.ok (by simp)
  | atom hkind _ ih => exact steps_of_push (by simp only [step, hkind]) (ih _)
  | text hkind _ ih => exact steps_of_push (by simp only [step, hkind]) (ih _)
  | number hkind hread _ ih => exact steps_of_push (by simp only [step, hkind, hread]) (ih _)
  | @list l r items fs us ts hl hr _ _ ihitems ih =>
      have hleft : b.step l = .ok { b with marks := ⟨b.values.size, l.position⟩ :: b.marks } := by
        simp only [step, hl]
      have hright : (Builder.mk (b.values ++ items.toArray)
          (⟨b.values.size, l.position⟩ :: b.marks)).step r =
            .ok ⟨b.values.push (.list items), b.marks⟩ := by
        simp only [step, hr, close_append]
      rw [steps_append, steps_cons, hleft, Except.bind, ihitems, Except.bind, steps_cons, hright,
        Except.bind, ih]
      simp

/-! ## What was read -/

/-- A token that is read finishes a form, opens a list or closes one. -/
theorem step_cases {b b' : Builder} {t : Token} (h : b.step t = .ok b') :
    (∃ f, Form.Linear [f] [t] ∧ b' = b.push f) ∨
    (t.kind = .leftBracket ∧ b' = { b with marks := ⟨b.values.size, t.position⟩ :: b.marks }) ∨
    (t.kind = .rightBracket ∧ ∃ mark marks, b.marks = mark :: marks ∧
      b' = b.close mark.depth marks) := by
  unfold step at h
  split at h
  · next hkind => exact Or.inr (Or.inl ⟨hkind, (Except.ok.inj h).symm⟩)
  · next hkind =>
    split at h
    · cases h
    · next mark marks hmarks =>
      exact Or.inr (Or.inr ⟨hkind, mark, marks, hmarks, (Except.ok.inj h).symm⟩)
  · next hkind => exact Or.inl ⟨_, .atom hkind .nil, (Except.ok.inj h).symm⟩
  · next hkind => exact Or.inl ⟨_, .text hkind .nil, (Except.ok.inj h).symm⟩
  · next hkind =>
    split at h
    · next hread => exact Or.inl ⟨_, .number hkind hread .nil, (Except.ok.inj h).symm⟩
    · cases h

/-- A builder behind some tokens: which of them each row of finished forms is read
from, list by list. -/
inductive Holds : List Token → Builder → Prop
  | outer {fs : List Form} {ts : List Token} : Form.Linear fs ts → Holds ts ⟨fs.toArray, []⟩
  | inner {b : Builder} {l : Token} {items : List Form} {ts us : List Token} :
      Holds ts b → l.kind = .leftBracket → Form.Linear items us →
      Holds (ts ++ l :: us)
        ⟨b.values ++ items.toArray, ⟨b.values.size, l.position⟩ :: b.marks⟩

theorem Holds.push {b : Builder} {f : Form} {ts us : List Token} (h : Holds ts b)
    (hf : Form.Linear [f] us) : Holds (ts ++ us) (b.push f) := by
  cases h with
  | @outer fs _ hfs =>
      have hrow := Holds.outer (hfs.append hf)
      simpa [Builder.push] using hrow
  | @inner b l items ts us' hb hl hitems =>
      have hrow := Holds.inner hb hl (hitems.append hf)
      simpa [Builder.push] using hrow

theorem Holds.step {b b' : Builder} {t : Token} {ts : List Token} (h : Holds ts b)
    (hstep : b.step t = .ok b') : Holds (ts ++ [t]) b' := by
  rcases step_cases hstep with ⟨f, hf, rfl⟩ | ⟨hkind, rfl⟩ | ⟨hkind, mark, marks, hmarks, rfl⟩
  · exact h.push hf
  · simpa using Holds.inner h hkind .nil
  · cases h with
    | outer => cases hmarks
    | @inner b l items ts us hb hl hitems =>
        cases hmarks
        -- the innermost row becomes one form of the row around it
        rw [close_append, List.append_assoc]
        exact hb.push (.list hl hkind hitems .nil)

theorem Holds.steps {b b' : Builder} {ts us : List Token} (h : Holds ts b)
    (hsteps : b.steps us = .ok b') : Holds (ts ++ us) b' :=
  steps_induction (fun _ _ _ _ h hstep => h.step hstep) ts h hsteps

end Builder

/-- Forms that are written out are built again. -/
theorem Form.Linear.ofTokens {fs : List Form} {ts : List Token} (h : Linear fs ts) :
    Form.ofTokens ts = .ok fs := by
  rw [ofTokens_of_steps (Builder.steps_of_linear h .empty)]
  simp [Builder.finish, Builder.empty]

/-- Tokens that are built are the forms, written out. -/
theorem Form.linear_of_ofTokens {fs : List Form} {ts : List Token} (h : ofTokens ts = .ok fs) :
    Linear fs ts := by
  cases hsteps : Builder.empty.steps ts with
  | error fault =>
      unfold ofTokens at h
      rw [hsteps] at h
      cases h
  | ok b =>
      rw [ofTokens_of_steps hsteps] at h
      have hholds : Builder.Holds ([] ++ ts) b := Builder.Holds.steps (.outer .nil) hsteps
      cases hholds with
      | outer hfs =>
          cases h
          exact hfs
      | inner => cases h

end Sexpr
