import Mathlib
import Sexpr.Proofs.Scanner.Language
import Sexpr.Proofs.Token.Partners

/-!
# Rows of tokens inside a source

`Spelt` follows a source to its end. A `Row` is a part of a source in front of
some rest, of which only the first character matters (`Row.behind`). A scanner reads
a row in one go (`Scanner.scan_row`), and a call that fails has read a row and stops
at what cannot be read (`tokens_eq_error_iff`).
-/

namespace Sexpr

/-- What may stand in front of `rest` may stand in front of `rest'` as well, if this
begins in the same way or with something that ends a name. -/
theorem Token.Fits.behind {t : Token} {rest rest' : List Char} (h : t.Fits rest)
    (hrest : rest'.head? = rest.head? ∨ EndsName rest') : t.Fits rest' := by
  obtain ⟨kind, text, place⟩ := t
  have hnumber : EndsNumber rest → EndsNumber rest' := by
    intro hends
    rcases hrest with hsame | hname
    · exact fun c hc => hends c (hsame ▸ hc)
    · exact hname.endsNumber
  have hname : EndsName rest → EndsName rest' := by
    intro hends
    rcases hrest with hsame | hname
    · exact fun c hc => hends c (hsame ▸ hc)
    · exact hname
  cases kind with
  | leftBracket | rightBracket | text => exact h
  | number => exact ⟨h.1, hnumber h.2⟩
  | identifier => exact h.imp (And.imp_right hnumber) (And.imp_right hname)

/-- Behind `before`, the characters `mid` are tokens with blanks between them, in front
of `rest`. -/
inductive Row (rest : List Char) : List Char → List Char → List Token → Prop
  | nil {before : List Char} : Row rest before [] []
  | blank {before mid : List Char} {c : Char} {ts : List Token} :
      isBlank c = true → Row rest (before ++ [c]) mid ts → Row rest before (c :: mid) ts
  | token {before mid : List Char} {t : Token} {ts : List Token} :
      t.position = .behind before → t.Fits (mid ++ rest) →
      Row rest (before ++ t.spelling) mid ts → Row rest before (t.spelling ++ mid) (t :: ts)

namespace Row

variable {rest rest' before mid mid' : List Char} {ts us : List Token}

/-- Blanks in front of a row. -/
theorem blanks {blanks : List Char} (hblanks : ∀ c ∈ blanks, isBlank c = true)
    (h : Row rest (before ++ blanks) mid ts) : Row rest before (blanks ++ mid) ts := by
  induction blanks generalizing before with
  | nil => rwa [List.append_nil] at h
  | cons c blanks ih =>
      obtain ⟨hc, hblanks⟩ := List.forall_mem_cons.1 hblanks
      rw [List.append_cons] at h
      exact .blank hc (ih hblanks h)

/-- Only the beginning of what stands behind a row matters. -/
theorem behind (h : Row rest before mid ts)
    (hrest : rest'.head? = rest.head? ∨ EndsName rest') : Row rest' before mid ts := by
  induction h with
  | nil => exact .nil
  | blank hc _ ih => exact .blank hc ih
  | @token before mid t ts hplace hfits _ ih =>
      refine .token hplace (hfits.behind ?_) ih
      cases mid with
      | nil => exact hrest
      | cons c mid => exact Or.inl rfl

theorem append (h : Row (mid' ++ rest) before mid ts) (h' : Row rest (before ++ mid) mid' us) :
    Row rest before (mid ++ mid') (ts ++ us) := by
  induction h with
  | nil => rwa [List.append_nil] at h'
  | blank hc _ ih =>
      rw [List.append_cons] at h'
      exact .blank hc (ih h')
  | token hplace hfits _ ih =>
      rw [← List.append_assoc] at h'
      rw [List.append_assoc]
      exact .token hplace (by rwa [List.append_assoc]) (ih h')

/-- A piece that is not reported, in front of a row. -/
theorem piece {p : Piece} (hfits : p.Fits before (mid ++ rest)) (hp : p.fault? = none)
    (h : Row rest (before ++ p.chars) mid ts) :
    Row rest before (p.chars ++ mid) (p.token?.toList ++ ts) := by
  cases p with
  | blank c => exact .blank hfits h
  | token t => exact .token hfits.2 hfits.1 h
  | stray | brokenNumber | openText => cases hp

end Row

theorem Spelt.row {before mid : List Char} {ts : List Token} (h : Spelt before mid ts) :
    Row [] before mid ts := by
  induction h with
  | @blanks before blanks hblanks =>
      have hrow : Row [] before (blanks ++ []) [] := .blanks hblanks .nil
      rwa [List.append_nil] at hrow
  | token hblanks hplace hfits _ ih =>
      rw [List.append_assoc]
      exact .blanks hblanks (.token hplace (by rwa [List.append_nil]) ih)

theorem Row.spelt {before mid : List Char} {ts : List Token} (h : Row [] before mid ts) :
    Spelt before mid ts := by
  induction h with
  | nil => exact .blanks (List.forall_mem_nil _)
  | blank hc _ ih => exact ih.blank hc
  | token hplace hfits _ ih =>
      rw [List.append_nil] at hfits
      exact .adjacent hplace hfits ih

/-! ## Reading a row -/

/-- Where and why a call stops behind `before`, with the brackets `ps` open. -/
inductive Stops (before : List Char) (ps : List Position) : List Char → ScanFault → Prop
  | stray {rest : List Char} :
      ps = [] → Stops before ps (')' :: rest) (.unexpectedClose (.behind before))
  | point {digits rest : List Char} : IsSign digits ∨ IsPointed digits →
      Stops before ps (digits ++ '.' :: rest) (.misplacedPoint (.behind (before ++ digits)))
  | quote {body : List Char} :
      '"' ∉ body → Stops before ps ('"' :: body) (.unterminatedText (.behind before))
  | atEnd : ps ≠ [] → Stops before ps [] (.unclosed ps.reverse)

namespace Scanner

/-- A row that is read is queued, and the call goes on behind it. -/
theorem scan_row {rest before mid : List Char} {ts : List Token} (h : Row rest before mid ts)
    {s : Scanner} {ps : List Position} (hrest : s.rest = mid ++ rest)
    (hhere : s.here = .behind before) (hopens : Token.openedBy s.opens ts = some ps) :
    s.scan = (Scanner.mk rest (.behind (before ++ mid)) (ts.reverse ++ s.queued) ps).scan := by
  induction h generalizing s with
  | @nil before =>
      obtain ⟨rest', here, queued, opens⟩ := s
      obtain rfl : here = .behind before := hhere
      cases hrest
      cases hopens
      rw [List.append_nil]
      rfl
  | @blank before mid c ts hc _ ih =>
      have hnext : s.here.next c = .behind (before ++ [c]) := by
        rw [hhere, Position.behind_concat]
      rw [List.cons_append] at hrest
      rw [scan_blank hc hrest, ih (s := ⟨mid ++ rest, s.here.next c, s.queued, s.opens⟩) rfl hnext
        hopens, List.append_assoc, List.singleton_append]
  | @token before mid t ts hplace hfits _ ih =>
      have hnext : s.here.after t.spelling = .behind (before ++ t.spelling) := by
        rw [hhere, Position.behind_append]
      obtain ⟨opens, hopen, hopens⟩ := Option.bind_eq_some_iff.1 hopens
      rw [List.append_assoc] at hrest
      rw [scan_token (hplace.trans hhere.symm) hfits hrest hopen,
        ih (s := ⟨mid ++ rest, s.here.after t.spelling, t :: s.queued, opens⟩) rfl hnext hopens]
      simp

/-- The characters of a lexeme that is reported end the call. -/
theorem scan_of_fault {s : Scanner} {l : Lexeme} {rest : List Char} {fault : ScanFault}
    (hfits : l.Fits rest) (hne : l.chars ≠ []) (hrest : s.rest = l.chars ++ rest)
    (hread : (s.read l rest).2 = some fault) : s.scan.1 = .error fault := by
  obtain ⟨c, cs, hcons, hstep⟩ := step_of_fits hfits hne hrest
  rw [scan_fault hcons (hstep ▸ hread)]

/-- What a call stops at is reported. -/
theorem scan_stops {s : Scanner} {before : List Char} {fault : ScanFault}
    (h : Stops before s.opens s.rest fault) (hhere : s.here = .behind before) :
    s.scan.1 = .error fault := by
  obtain ⟨rest', here, queued, opens⟩ := s
  cases hhere
  cases h with
  | @stray rest hclosed =>
      obtain rfl : opens = [] := hclosed
      exact scan_of_fault (l := .closing) trivial (List.cons_ne_nil _ _) rfl rfl
  | @point digits rest hdigits =>
      refine scan_of_fault (l := .brokenNumber digits) ⟨hdigits, rest, rfl⟩ ?_ rfl ?_
      · rcases hdigits with (rfl | rfl) | ⟨whole, fraction, rfl, -⟩ <;> simp [Lexeme.chars]
      · rw [Position.behind_append]
        rfl
  | @quote body hbody =>
      have hfits : (Lexeme.openText body).Fits [] := ⟨hbody, rfl⟩
      exact scan_of_fault hfits (List.cons_ne_nil _ _) (List.append_nil _).symm rfl
  | atEnd hopen => rw [scan_nil rfl, finish_of_open hopen]

/-- A step that is reported stops the call. -/
theorem stops_of_step {s : Scanner} {before : List Char} {c : Char} {cs : List Char}
    {fault : ScanFault} (hrest : s.rest = c :: cs) (hhere : s.here = .behind before)
    (hfault : (s.step c cs).2 = some fault) : Stops before s.opens s.rest fault := by
  have hchars := (Lexeme.chars_first c cs).trans hrest.symm
  have hfits := Lexeme.fits_first c cs
  rw [step] at hfault
  cases hl : (Lexeme.first c cs).1 with
  | blank | opening | text | number | word =>
      rw [hl] at hfault
      cases hfault
  | closing =>
      rw [hl] at hchars hfault
      rw [← hchars]
      cases hopens : s.opens with
      | nil =>
          simp only [read, hopens, Option.some.injEq] at hfault
          rw [← hfault, hhere]
          exact .stray rfl
      | cons p ps => simp [read, hopens] at hfault
  | openText body =>
      rw [hl] at hchars hfault hfits
      obtain ⟨hbody, hnil⟩ := hfits
      rw [← hchars, hnil, List.append_nil]
      cases hfault
      rw [hhere]
      exact .quote hbody
  | brokenNumber digits =>
      rw [hl] at hchars hfault hfits
      obtain ⟨hdigits, rest, hpoint⟩ := hfits
      rw [← hchars, hpoint]
      cases hfault
      rw [hhere]
      show Stops _ _ _ (.misplacedPoint ((Position.behind before).after digits))
      rw [← Position.behind_append]
      exact .point hdigits

/-- A call that fails has read a row up to where it stops. -/
theorem exists_row_of_error (s : Scanner) (before : List Char) {fault : ScanFault}
    (hhere : s.here = .behind before) (h : s.scan.1 = .error fault) :
    ∃ mid rest ts ps, s.rest = mid ++ rest ∧ Row rest before mid ts ∧
      Token.openedBy s.opens ts = some ps ∧ Stops (before ++ mid) ps rest fault := by
  cases hrest : s.rest with
  | nil =>
      rw [scan_nil hrest] at h
      by_cases hclosed : s.opens = []
      · rw [finish_of_closed hclosed] at h
        cases h
      · rw [finish_of_open hclosed] at h
        cases h
        exact ⟨[], [], [], s.opens, rfl, .nil, rfl, .atEnd hclosed⟩
  | cons c cs =>
      have hshorter := s.rest_step_length c cs
      cases hfault : (s.step c cs).2 with
      | some fault' =>
          rw [scan_fault hrest hfault] at h
          cases h
          have hstops := stops_of_step hrest hhere hfault
          rw [hrest] at hstops
          exact ⟨[], c :: cs, [], s.opens, rfl, .nil, rfl, by rwa [List.append_nil]⟩
      | none =>
          rw [scan_step hrest hfault] at h
          obtain ⟨piece, htakes, hpiece⟩ := step_takes hrest
          have hnext : (s.step c cs).1.here = .behind (before ++ piece.chars) := by
            rw [htakes.here, hhere, Position.behind_append]
          obtain ⟨mid, rest, ts, ps, hsplit, hrow, hopens, hstops⟩ :=
            exists_row_of_error (s.step c cs).1 _ hnext h
          have hfits := htakes.fits before hhere
          have hsource : c :: cs = piece.chars ++ mid ++ rest := by
            rw [← hrest, htakes.rest, hsplit, List.append_assoc]
          rw [List.append_assoc] at hstops
          refine ⟨piece.chars ++ mid, rest, piece.token?.toList ++ ts, ps, hsource, ?_, ?_, hstops⟩
          · rw [hsplit] at hfits
            exact .piece hfits (hpiece.symm.trans hfault) hrow
          · rw [Token.openedBy_append, htakes.opens]
            exact hopens
termination_by s.rest.length
decreasing_by simp_all

end Scanner

/-- **Why a source is refused.** The scanner reports a fault just where a row of tokens
stops at something that cannot be read. -/
theorem tokens_eq_error_iff {source : String} {fault : ScanFault} :
    tokens source = .error fault ↔ ∃ mid rest ts ps, source.toList = mid ++ rest ∧
      Row rest [] mid ts ∧ Token.openedBy [] ts = some ps ∧ Stops mid ps rest fault := by
  constructor
  · intro h
    exact (Scanner.ofString source).exists_row_of_error [] rfl h
  · rintro ⟨mid, rest, ts, ps, hsource, hrow, hopens, hstops⟩
    have hscan := Scanner.scan_row hrow (s := Scanner.ofString source) hsource rfl hopens
    rw [tokens, hscan]
    exact Scanner.scan_stops hstops rfl

end Sexpr
