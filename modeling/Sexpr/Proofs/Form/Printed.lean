import Mathlib
import Sexpr.Form.Printed

/-!
# Printing without recursion

The printer keeps the open lists as frames. What it has printed, with what it still
owes for the form at hand and for all open lists, is the same text round after round
(`Printer.settled_round`), so behind whatever was printed before, it prints what the
recursion on the tree gives (`Printer.run_eq`, `prints_plain`).
-/

namespace Sexpr
namespace Form

/-! ## What is owed -/

namespace Frame

/-- The text that is left of an open list, with its bracket. -/
def remainder (fresh : Bool) : List Form → String
  | [] => ")"
  | f :: fs => space fresh ++ f.plainT ++ remainder false fs

/-- The text that is left of all open lists. -/
def owed : List Frame → String
  | [] => ""
  | ⟨items, fresh⟩ :: frames => remainder fresh items ++ owed frames

theorem remainder_cons (fresh : Bool) (f : Form) (fs : List Form) :
    remainder fresh (f :: fs) =
      space fresh ++ (" ".intercalate (plainF (f :: fs)) ++ ")") := by
  induction fs generalizing fresh f with
  | nil =>
      simp only [remainder, plainF, String.intercalate_singleton]
      rw [String.append_assoc]
  | cons g fs ih =>
      rw [remainder, ih false g]
      simp [plainF, space, String.append_assoc]

theorem remainder_fresh (fs : List Form) :
    remainder true fs = " ".intercalate (plainF fs) ++ ")" := by
  cases fs with
  | nil => rfl
  | cons f fs => rw [remainder_cons, space, if_pos rfl, String.empty_append]

end Frame

namespace Printer

/-- The text behind a printer that is done: what it has printed, what it owes for the
form at hand, and what it owes for the open lists. -/
def settled (p : Printer) : String :=
  p.out ++ (p.next.elim "" plainT ++ Frame.owed p.frames)

/-! ## One round -/

/-- The form at hand is printed, but for the items of a list, and these are owed then. -/
theorem settled_enter (p : Printer) : p.enter.settled = p.settled := by
  unfold enter
  split
  · rfl
  · simp only [settled, Option.elim, Frame.owed, Frame.remainder_fresh, plainT,
      String.append_assoc, String.empty_append]
  · next out scalar frames hscalar =>
    have hplain : scalar.plainT = scalar.scalarText := by
      cases scalar with
      | list items => exact absurd rfl (hscalar items)
      | number | text | atom => simp [plainT, scalarText]
    simp only [settled, Option.elim, hplain, String.append_assoc, String.empty_append]

theorem next_enter (p : Printer) : p.enter.next = none := by
  unfold enter
  split <;> rfl

/-- **A round keeps the text that comes out in the end.** -/
theorem settled_round (p : Printer) :
    (∀ text, p.round = .inl text → text = p.settled) ∧
      ∀ q, p.round = .inr q → q.settled = p.settled := by
  have hnext := p.next_enter
  rw [← settled_enter]
  unfold round
  split
  · next out next henter =>
    rw [henter] at hnext ⊢
    obtain rfl : next = none := hnext
    refine ⟨?_, nofun⟩
    rintro _ ⟨⟩
    simp [settled, Frame.owed]
  · next out next fresh frames henter =>
    rw [henter] at hnext ⊢
    obtain rfl : next = none := hnext
    refine ⟨nofun, ?_⟩
    rintro _ ⟨⟩
    simp [settled, Frame.owed, Frame.remainder, String.append_assoc]
  · next out next f rest fresh frames henter =>
    rw [henter] at hnext ⊢
    obtain rfl : next = none := hnext
    refine ⟨nofun, ?_⟩
    rintro _ ⟨⟩
    simp [settled, Frame.owed, Frame.remainder, String.append_assoc]

/-! ## All rounds -/

/-- The rounds come to an end, with the text `text`. -/
inductive Ends : Printer → String → Prop
  | done {p : Printer} {text : String} : p.round = .inl text → Ends p text
  | more {p q : Printer} {text : String} : p.round = .inr q → Ends q text → Ends p text

/-- Every printer comes to an end: each round leaves less to print. -/
theorem ends_settled (p : Printer) : Ends p p.settled := by
  obtain ⟨hdone, hmore⟩ := p.settled_round
  cases hround : p.round with
  | inl text =>
      rw [← hdone text hround]
      exact .done hround
  | inr q =>
      have hless : q.left < p.left := left_lt hround
      rw [← hmore q hround]
      exact .more hround q.ends_settled
termination_by p.left

theorem run_of_ends {p : Printer} {text : String} (h : Ends p text) : p.run = text := by
  induction h with
  | done hround =>
      rw [run]
      split
      · next out hout => exact Sum.inl.inj (hout.symm.trans hround)
      · next q hq => cases hq.symm.trans hround
  | more hround _ ih =>
      rw [run]
      split
      · next out hout => cases hout.symm.trans hround
      · next q hq =>
        obtain rfl := Sum.inr.inj (hq.symm.trans hround)
        exact ih

theorem run_eq (p : Printer) : p.run = p.settled := run_of_ends p.ends_settled

end Printer

/-! ## Forms and rows of forms -/

theorem printTo_eq (out : String) (f : Form) : f.printTo out = out ++ f.plainT := by
  rw [printTo, Printer.run_eq]
  simp [Printer.settled, Frame.owed]

theorem printAllTo_eq (separator out : String) (fs : List Form) :
    printAllTo separator out fs = out ++ separator.intercalate (plainF fs) := by
  induction fs generalizing out with
  | nil => simp [printAllTo, plainF]
  | cons f fs ih =>
      cases fs with
      | nil => rw [printAllTo, printTo_eq, plainF, plainF, String.intercalate_singleton]
      | cons g fs =>
          rw [printAllTo, ih, printTo_eq]
          · simp [plainF, String.append_assoc]
          · simp

/-- Forms are printed a line each. -/
theorem printAll_eq (fs : List Form) : printAll fs = "\n".intercalate (plainF fs) := by
  rw [printAll, printAllTo_eq, String.empty_append]

theorem plainF_eq_map (fs : List Form) : plainF fs = fs.map plainT := by
  induction fs with
  | nil => rfl
  | cons f fs ih => rw [plainF, ih, List.map_cons]

/-- **The printer prints what the recursion on the tree gives.** Behind any text, its
rounds come to an end with the text of the form appended; hence forms as the items of one
list are printed as that list is, and forms by themselves a line each. -/
theorem prints_plain :
    (∀ out f, Printer.Ends ⟨out, some f, []⟩ (out ++ plainT f) ∧
      printTo out f = out ++ plainT f) ∧
    (∀ fs, printList fs = print (.list fs)) ∧
    ∀ fs, printAll fs = "\n".intercalate (fs.map plainT) := by
  refine ⟨?_, ?_, ?_⟩
  · intro out f
    have hends := Printer.ends_settled ⟨out, some f, []⟩
    simp only [Printer.settled, Option.elim, Frame.owed, String.append_empty] at hends
    exact ⟨hends, printTo_eq out f⟩
  · intro fs
    rw [printList, print, printAllTo_eq, printTo_eq, plainT, String.empty_append]
  · intro fs
    rw [printAll_eq, plainF_eq_map]

end Form
end Sexpr
