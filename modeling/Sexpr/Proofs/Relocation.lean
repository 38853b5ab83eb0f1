import Mathlib
import Sexpr.Proofs.Form.Linear
import Sexpr.Proofs.Scanner.Row

/-!
# Sources that begin further behind

A text that stands behind another text is read as it would be read alone, with all
its places moved. This holds of the grammar of the scanner (`Row.relocate`,
`Stops.relocate`) and of the builder, whose faults depend on no form
(`Builder.steps_relocate`).
-/

namespace Sexpr

variable {f : Position → Position}

/-! ## Moving places -/

/-- The place in `text` of what would stand at `p` without its first `n` characters. -/
def Position.shifted (text : List Char) (n : Nat) (p : Position) : Position :=
  let place := behind (text.take (n + p.offset))
  ⟨n + p.offset, place.line, place.column⟩

theorem Position.shifted_behind (front cs rest : List Char) :
    (behind cs).shifted (front ++ (cs ++ rest)) front.length = behind (front ++ cs) := by
  have htake : (front ++ (cs ++ rest)).take (front.length + cs.length) = front ++ cs := by
    rw [← List.append_assoc, ← List.length_append, List.take_left]
  unfold shifted
  rw [offset_behind, htake]
  simp [behind]

def Token.relocate (f : Position → Position) (t : Token) : Token :=
  { t with position := f t.position }

def ScanFault.relocate (f : Position → Position) : ScanFault → ScanFault
  | .unexpectedClose p => .unexpectedClose (f p)
  | .unterminatedText p => .unterminatedText (f p)
  | .misplacedPoint p => .misplacedPoint (f p)
  | .unclosed ps => .unclosed (ps.map f)

def BuildFault.relocate (f : Position → Position) : BuildFault → BuildFault
  | .unmatchedClose p => .unmatchedClose (f p)
  | .badNumber text p => .badNumber text (f p)
  | .unclosed ps => .unclosed (ps.map f)

/-- The same fault at other places. -/
def Fault.relocate (f : Position → Position) : Fault → Fault
  | .scan fault => .scan (fault.relocate f)
  | .build fault => .build (fault.relocate f)
  | .html fault => .html fault
  | .script fault => .script fault

@[simp] theorem Token.position_relocate (t : Token) :
    (t.relocate f).position = f t.position := rfl

@[simp] theorem Fault.stage_relocate (fault : Fault) :
    (fault.relocate f).stage = fault.stage := by
  cases fault <;> rfl

@[simp] theorem Fault.positions_relocate (fault : Fault) :
    (fault.relocate f).positions = fault.positions.map f := by
  cases fault with
  | scan fault => cases fault <;> rfl
  | build fault => cases fault <;> rfl
  | html | script => rfl

/-! ## Rows -/

/-- `f` takes each place in `text` to the place that it has behind `front`. -/
def Moves (f : Position → Position) (front text : List Char) : Prop :=
  ∀ cs, cs <+: text → f (.behind cs) = .behind (front ++ cs)

theorem moves_shifted (front text : List Char) :
    Moves (Position.shifted (front ++ text) front.length) front text := by
  rintro cs ⟨rest, rfl⟩
  exact Position.shifted_behind front cs rest

theorem Row.relocate {rest front before mid : List Char} {ts : List Token}
    (h : Row rest before mid ts) (hf : Moves f front (before ++ mid)) :
    Row rest (front ++ before) mid (ts.map (Token.relocate f)) := by
  induction h with
  | nil => exact .nil
  | blank hc _ ih =>
      rw [List.append_cons] at hf
      exact .blank hc (by rw [List.append_assoc]; exact ih hf)
  | @token before mid t ts hplace hfits _ ih =>
      have hmoved : (t.relocate f).position = .behind (front ++ before) := by
        rw [Token.position_relocate, hplace, hf before (List.prefix_append _ _)]
      rw [← List.append_assoc] at hf
      exact .token hmoved hfits (by rw [List.append_assoc]; exact ih hf)

theorem Stops.relocate {front before rest : List Char} {ps : List Position} {fault : ScanFault}
    (h : Stops before ps rest fault) (hf : Moves f front (before ++ rest)) :
    Stops (front ++ before) (ps.map f) rest (fault.relocate f) := by
  have hbefore := hf before (List.prefix_append _ _)
  cases h with
  | stray hclosed =>
      rw [ScanFault.relocate, hbefore]
      exact .stray (by rw [hclosed, List.map_nil])
  | @point digits rest hdigits =>
      rw [← List.append_assoc] at hf
      rw [ScanFault.relocate, hf _ (List.prefix_append _ _), ← List.append_assoc]
      exact .point hdigits
  | quote hbody =>
      rw [ScanFault.relocate, hbefore]
      exact .quote hbody
  | atEnd hopen =>
      rw [ScanFault.relocate, List.map_reverse]
      exact .atEnd (by simpa using hopen)

theorem Token.opened_relocate (ps : List Position) (t : Token) :
    opened (ps.map f) (t.relocate f) = (opened ps t).map (List.map f) := by
  obtain ⟨kind, text, place⟩ := t
  cases kind with
  | rightBracket => cases ps <;> rfl
  | leftBracket | text | number | identifier => rfl

theorem Token.openedBy_relocate (ps : List Position) (ts : List Token) :
    openedBy (ps.map f) (ts.map (relocate f)) = (openedBy ps ts).map (List.map f) := by
  induction ts generalizing ps with
  | nil => rfl
  | cons t ts ih =>
      rw [List.map_cons, openedBy_cons, openedBy_cons, opened_relocate]
      cases opened ps t with
      | none => rfl
      | some qs => exact ih qs

/-! ## Forms -/

theorem Form.Linear.relocate {fs : List Form} {ts : List Token} (h : Linear fs ts) :
    Linear fs (ts.map (Token.relocate f)) := by
  induction h with
  | nil => exact .nil
  | @atom t _ _ hkind _ ih => exact .atom (t := t.relocate f) hkind ih
  | @text t _ _ hkind _ ih => exact .text (t := t.relocate f) hkind ih
  | number hkind hread _ ih => exact .number hkind hread ih
  | list hl hr _ _ ihitems ih =>
      rw [List.cons_append, List.map_cons, List.map_append]
      exact .list hl hr ihitems ih

namespace Builder

/-- Whether a token is refused depends on the open brackets alone, and not on the forms
that are finished. -/
theorem step_relocate {b b' : Builder} (hmarks : b'.marks.map Mark.bracket =
    (b.marks.map Mark.bracket).map f) (t : Token) :
    (∃ c c', b.step t = .ok c ∧ b'.step (t.relocate f) = .ok c' ∧
      c'.marks.map Mark.bracket = (c.marks.map Mark.bracket).map f) ∨
    ∃ fault, b.step t = .error fault ∧ b'.step (t.relocate f) = .error (fault.relocate f) := by
  obtain ⟨values, marks⟩ := b
  obtain ⟨values', marks'⟩ := b'
  obtain ⟨kind, text, place⟩ := t
  cases kind with
  | leftBracket => exact Or.inl ⟨_, _, rfl, rfl, congrArg (f place :: ·) hmarks⟩
  | rightBracket =>
      cases marks with
      | nil =>
          cases marks' with
          | nil => exact Or.inr ⟨_, rfl, rfl⟩
          | cons mark marks' => cases hmarks
      | cons mark marks =>
          cases marks' with
          | nil => cases hmarks
          | cons mark' marks' => exact Or.inl ⟨_, _, rfl, rfl, (List.cons.inj hmarks).2⟩
  | text | identifier => exact Or.inl ⟨_, _, rfl, rfl, hmarks⟩
  | number =>
      simp only [step, Token.relocate]
      split
      · exact Or.inl ⟨_, _, rfl, rfl, hmarks⟩
      · exact Or.inr ⟨_, rfl, rfl⟩

/-- A row of tokens that is refused is refused elsewhere too, and for the same reason. -/
theorem steps_relocate {b b' : Builder} (hmarks : b'.marks.map Mark.bracket =
    (b.marks.map Mark.bracket).map f) (ts : List Token) :
    (∃ c c', b.steps ts = .ok c ∧ b'.steps (ts.map (Token.relocate f)) = .ok c' ∧
      c'.marks.map Mark.bracket = (c.marks.map Mark.bracket).map f) ∨
    ∃ fault, b.steps ts = .error fault ∧
      b'.steps (ts.map (Token.relocate f)) = .error (fault.relocate f) := by
  induction ts generalizing b b' with
  | nil => exact Or.inl ⟨b, b', rfl, rfl, hmarks⟩
  | cons t ts ih =>
      rw [List.map_cons, steps_cons, steps_cons]
      rcases step_relocate hmarks t with ⟨c, c', hc, hc', hmarks'⟩ | ⟨fault, hfault, hfault'⟩
      · rw [hc, hc']
        exact ih hmarks'
      · rw [hfault, hfault']
        exact Or.inr ⟨fault, rfl, rfl⟩

theorem finish_relocate {b b' : Builder} {fault : BuildFault} (hmarks : b'.marks.map Mark.bracket =
    (b.marks.map Mark.bracket).map f) (h : b.finish = .error fault) :
    b'.finish = .error (fault.relocate f) := by
  obtain ⟨values, marks⟩ := b
  obtain ⟨values', marks'⟩ := b'
  cases marks with
  | nil => cases h
  | cons mark marks =>
      cases marks' with
      | nil => cases hmarks
      | cons mark' marks' =>
          have hreverse := congrArg List.reverse hmarks
          rw [← List.map_reverse, ← List.map_reverse, ← List.map_reverse] at hreverse
          cases h
          exact congrArg (Except.error ∘ BuildFault.unclosed) hreverse

end Builder

/-- Behind tokens that make up forms, a row of tokens is refused just as it is alone. -/
theorem Form.ofTokens_append_error {fs : List Form} {ts us : List Token} {fault : BuildFault}
    (hts : Linear fs ts) (hus : ofTokens us = .error fault) :
    ofTokens (ts ++ us.map (Token.relocate f)) = .error (fault.relocate f) := by
  let front : Builder := ⟨Builder.empty.values ++ fs.toArray, Builder.empty.marks⟩
  have hfront : Builder.empty.steps ts = .ok front := Builder.steps_of_linear hts .empty
  have hnone : front.marks.map Mark.bracket = (Builder.empty.marks.map Mark.bracket).map f := rfl
  unfold ofTokens
  rw [Builder.steps_append, hfront]
  rcases Builder.steps_relocate hnone us with ⟨c, c', hc, hc', hmarks⟩ | ⟨fault', hfault, hfault'⟩
  · rw [ofTokens_of_steps hc] at hus
    rw [Except.bind, hc']
    exact Builder.finish_relocate hmarks hus
  · unfold ofTokens at hus
    rw [hfault] at hus
    rw [Except.bind, hfault']
    cases hus
    rfl

end Sexpr
