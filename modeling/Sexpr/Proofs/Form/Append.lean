import Mathlib
import Sexpr.Form.Source
import Sexpr.Proofs.Form.RoundTrip
import Sexpr.Proofs.Relocation

/-!
# Sources one behind the other

A source that holds forms, blanks and a second source: it holds the forms of both,
and a fault of the second one is found where it then stands (`parse_append`).
-/

namespace Sexpr

theorem EndsName.append {blanks : List Char} (hblanks : ∀ c ∈ blanks, isBlank c = true)
    (hne : blanks ≠ []) (rest : List Char) : EndsName (blanks ++ rest) := by
  obtain ⟨c, cs, rfl⟩ := List.exists_cons_of_ne_nil hne
  rintro d ⟨⟩
  simp [endsWord, hblanks c List.mem_cons_self]

/-- A complete source with blanks behind it is a row in front of anything. -/
theorem row_of_tokens {x : String} {blanks : List Char} {ts : List Token}
    (hx : tokens x = .ok ts) (hblanks : ∀ c ∈ blanks, isBlank c = true) (hne : blanks ≠ [])
    (rest : List Char) : Row rest [] (x.toList ++ blanks) ts := by
  have hfront : Row (blanks ++ rest) [] x.toList ts :=
    (spelt_of_tokens hx).1.row.behind (Or.inr (EndsName.append hblanks hne rest))
  have hgap : Row rest ([] ++ x.toList) (blanks ++ []) [] := .blanks hblanks .nil
  rw [List.append_nil] at hgap
  simpa using hfront.append hgap

variable {f : Position → Position} {front y source : String} {ts us : List Token}

/-- Tokens behind a row that leaves no bracket open. -/
theorem tokens_append (hsource : source.toList = front.toList ++ y.toList)
    (hfront : Row y.toList [] front.toList ts) (hclosed : Token.openedBy [] ts = some [])
    (hf : Moves f front.toList y.toList) (hy : tokens y = .ok us) :
    tokens source = .ok (ts ++ us.map (Token.relocate f)) := by
  obtain ⟨hspelt, hopens⟩ := spelt_of_tokens hy
  have hrow : Row [] ([] ++ front.toList) y.toList (us.map (Token.relocate f)) := by
    simpa using hspelt.row.relocate hf
  have hall : Row [] [] source.toList (ts ++ us.map (Token.relocate f)) := by
    rw [hsource]
    exact Row.append (by rwa [List.append_nil]) hrow
  refine tokens_of_spelt hall.spelt ?_
  have hmoved := Token.openedBy_relocate (f := f) [] us
  rw [hopens] at hmoved
  rw [Token.openedBy_append, hclosed]
  exact hmoved

/-- A fault of the scanner behind a row that leaves no bracket open. -/
theorem tokens_append_error {fault : ScanFault}
    (hsource : source.toList = front.toList ++ y.toList)
    (hfront : Row y.toList [] front.toList ts) (hclosed : Token.openedBy [] ts = some [])
    (hf : Moves f front.toList y.toList) (hy : tokens y = .error fault) :
    tokens source = .error (fault.relocate f) := by
  obtain ⟨mid, rest, us, ps, hsplit, hrow, hopens, hstops⟩ := tokens_eq_error_iff.1 hy
  rw [hsplit] at hsource hfront hf
  have hfrow : Moves f front.toList ([] ++ mid) := by
    intro cs hcs
    exact hf cs (hcs.trans (List.prefix_append _ _))
  have hmoved : Row rest ([] ++ front.toList) mid (us.map (Token.relocate f)) := by
    simpa using hrow.relocate hfrow
  have hmovedOpens := Token.openedBy_relocate (f := f) [] us
  rw [hopens] at hmovedOpens
  refine tokens_eq_error_iff.2 ⟨front.toList ++ mid, rest, ts ++ us.map (Token.relocate f),
    ps.map f, ?_, hfront.append hmoved, ?_, hstops.relocate hf⟩
  · rw [hsource, List.append_assoc]
  · rw [Token.openedBy_append, hclosed]
    exact hmovedOpens

theorem parse_eq_error_iff {fault : Fault} : parse y = .error fault ↔
    (∃ e, tokens y = .error e ∧ fault = .scan e) ∨
    ∃ us e, tokens y = .ok us ∧ Form.ofTokens us = .error e ∧ fault = .build e := by
  unfold parse
  cases htokens : tokens y with
  | error e => simp [Except.mapError, bind, Except.bind, eq_comm]
  | ok us =>
      cases hforms : Form.ofTokens us <;>
        simp [Except.mapError, bind, Except.bind, hforms, eq_comm]

/-- **Parsing goes through a source part by part**, in forms and in faults alike. -/
theorem parse_append {x w : String} {fx : List Form} (hx : parse x = .ok fx) (hw : w ≠ "")
    (hblank : ∀ c ∈ w.toList, isBlank c = true) (y : String) :
    (∀ fy, parse y = .ok fy → parse (x ++ w ++ y) = .ok (fx ++ fy)) ∧
    ∀ fault, parse y = .error fault →
      ∃ moved, parse (x ++ w ++ y) = .error moved ∧
        moved = fault.relocate (Position.shifted (x ++ w ++ y).toList (x ++ w).length) ∧
        moved.stage = fault.stage ∧
        moved.positions =
          fault.positions.map (Position.shifted (x ++ w ++ y).toList (x ++ w).length) := by
  obtain ⟨ts, htokens, hforms⟩ := Form.parse_eq_ok_iff.1 hx
  have hne : w.toList ≠ [] := by simpa using hw
  have hfront : Row y.toList [] (x ++ w).toList ts := by
    rw [String.toList_append]
    exact row_of_tokens htokens hblank hne y.toList
  have hclosed := (spelt_of_tokens htokens).2
  have hlinear := Form.linear_of_ofTokens hforms
  have hsource : (x ++ w ++ y).toList = (x ++ w).toList ++ y.toList := String.toList_append
  have hmoves : Moves (Position.shifted (x ++ w ++ y).toList (x ++ w).length) (x ++ w).toList
      y.toList := by
    rw [hsource, ← String.length_toList]
    exact moves_shifted _ _
  generalize Position.shifted (x ++ w ++ y).toList (x ++ w).length = f at hmoves ⊢
  constructor
  · intro fy hy
    obtain ⟨us, husTokens, husForms⟩ := Form.parse_eq_ok_iff.1 hy
    have hboth : Form.Linear (fx ++ fy) (ts ++ us.map (Token.relocate f)) :=
      hlinear.append (Form.linear_of_ofTokens husForms).relocate
    exact Form.parse_eq_ok_iff.2
      ⟨_, tokens_append hsource hfront hclosed hmoves husTokens, hboth.ofTokens⟩
  · intro fault hy
    refine ⟨_, ?_, rfl, fault.stage_relocate, fault.positions_relocate⟩
    rcases parse_eq_error_iff.1 hy with ⟨e, he, rfl⟩ | ⟨us, e, hus, he, rfl⟩
    · exact parse_eq_error_iff.2
        (Or.inl ⟨_, tokens_append_error hsource hfront hclosed hmoves he, rfl⟩)
    · exact parse_eq_error_iff.2 (Or.inr ⟨_, _, tokens_append hsource hfront hclosed hmoves hus,
        Form.ofTokens_append_error hlinear he, rfl⟩)

/-- Behind `(a)` and a line feed, `b` is one more form, and the bracket in `b )` is found
on the second line. -/
theorem parse_append_line :
    parse ("(a)" ++ "\n" ++ "b") = .ok ([.list [.atom "a"]] ++ [.atom "b"]) ∧
    ∃ moved, parse ("(a)" ++ "\n" ++ "b )") = .error moved ∧
      moved.positions = [⟨6, 2, 3⟩] := by
  have hx : parse "(a)" = .ok [.list [.atom "a"]] := by decide +kernel
  have hy : parse "b" = .ok [.atom "b"] := by decide +kernel
  have hfault : parse "b )" = .error (.scan (.unexpectedClose ⟨2, 1, 3⟩)) := by decide +kernel
  have hblank : ∀ c ∈ "\n".toList, isBlank c = true := by simp [isBlank]
  obtain ⟨moved, hmoved, -, -, hpositions⟩ :=
    (parse_append hx (by decide) hblank "b )").2 _ hfault
  refine ⟨(parse_append hx (by decide) hblank "b").1 _ hy, moved, hmoved, ?_⟩
  rw [hpositions]
  decide +kernel

end Sexpr
