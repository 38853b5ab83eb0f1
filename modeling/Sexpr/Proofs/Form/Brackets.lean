import Mathlib
import Sexpr.Proofs.Binary64.Text
import Sexpr.Proofs.Form.Faults
import Sexpr.Proofs.Scanner.Language
import Sexpr.Proofs.Scanner.States

/-!
# The brackets of the scanner and of the builder

The scanner and the builder check brackets on their own, the one over characters
and the other over tokens. They keep the same stack: after any calls of a scanner,
the builder reads the queued tokens without a fault, and its marks are the places
of the brackets the scanner holds open (`brackets_agree`).
-/

namespace Sexpr

/-! ## Numbers that are too large -/

/-- The number is half a step or more above the largest magnitude: rounding gives
infinity. -/
def Token.Overflows (t : Token) : Prop :=
  t.kind = .number ∧ (2 : ℚ) ^ 1024 - 2 ^ 970 ≤ spelledValue t.text.toList

/-- The first token of a row that overflows. -/
def Token.FirstOverflow (ts : List Token) (t : Token) : Prop :=
  ∃ before after, ts = before ++ t :: after ∧ (∀ u ∈ before, ¬ u.Overflows) ∧ t.Overflows

theorem cast_overflow : (Magnitude.overflow : ℚ) = 2 ^ 1024 - 2 ^ 970 := by
  have hle : 2 ^ 970 ≤ 2 ^ 1024 := pow_le_pow_right₀ one_le_two (by decide)
  unfold Magnitude.overflow
  rw [Nat.cast_sub hle, Nat.cast_pow, Nat.cast_pow, Nat.cast_two]

theorem Token.exists_first_overflow (ts : List Token) :
    (∀ t ∈ ts, ¬ t.Overflows) ∨ ∃ t, FirstOverflow ts t := by
  classical
  cases hfind : ts.find? fun t => decide t.Overflows with
  | none => exact Or.inl (by simpa using hfind)
  | some t =>
      obtain ⟨ht, before, after, hts, hbefore⟩ := List.find?_eq_some_iff_append.1 hfind
      exact Or.inr ⟨t, before, after, hts, by simpa using hbefore, by simpa using ht⟩

/-- A token of a source is a number that cannot be read just if it overflows. -/
theorem Token.Fits.badNumber_iff {t : Token} {rest : List Char} (h : t.Fits rest) :
    t.BadNumber ↔ t.Overflows := by
  obtain ⟨kind, text, place⟩ := t
  by_cases hkind : kind = .number
  · subst hkind
    have hread := Binary64.ofText?_finite_iff h.1
    rw [cast_overflow] at hread
    constructor
    · rintro ⟨-, hbad⟩
      refine ⟨rfl, not_lt.1 fun hlt => ?_⟩
      obtain ⟨negative, m, hfinite⟩ := hread.2 (not_le.2 hlt)
      cases hbad _ hfinite
    · rintro ⟨-, hle⟩
      rcases finite_or_badNumber (t := ⟨.number, text, place⟩) rfl with hfinite | hbad
      · exact absurd hle (hread.1 hfinite)
      · exact hbad
  · exact iff_of_false (fun hbad => hkind hbad.1) (fun hover => hkind hover.1)

theorem Token.faultless_of_fits {ts : List Token} {ps : List Position}
    (hfits : ∀ t ∈ ts, ∃ rest, t.Fits rest) (hfinite : ∀ t ∈ ts, ¬ t.Overflows)
    (h : openedBy [] ts = some ps) : Faultless ts := by
  apply faultless_of_openedBy _ h
  intro t ht hbad
  obtain ⟨rest, hfit⟩ := hfits t ht
  exact hfinite t ht (hfit.badNumber_iff.1 hbad)

namespace Form

variable {ts : List Token} {ps : List Position}

theorem ofTokens_of_closed (hfits : ∀ t ∈ ts, ∃ rest, t.Fits rest)
    (hfinite : ∀ t ∈ ts, ¬ t.Overflows) (h : Token.openedBy [] ts = some []) :
    ∃ forms, ofTokens ts = .ok forms :=
  ofTokens_of_faultless (Token.faultless_of_fits hfits hfinite h) (Token.unclosed_eq h)

theorem ofTokens_of_open (hfits : ∀ t ∈ ts, ∃ rest, t.Fits rest)
    (hfinite : ∀ t ∈ ts, ¬ t.Overflows) (h : Token.openedBy [] ts = some ps) (hne : ps ≠ []) :
    ofTokens ts = .error (.unclosed ps.reverse) := by
  have hunclosed := Token.unclosed_eq h
  rw [← hunclosed]
  apply ofTokens_of_unclosed (Token.faultless_of_fits hfits hfinite h)
  rw [hunclosed]
  exact List.reverse_eq_nil_iff.not.2 hne

/-- The first number that overflows is refused, whatever stands behind it. -/
theorem ofTokens_of_overflow {t : Token} (hfits : ∀ t ∈ ts, ∃ rest, t.Fits rest)
    (h : Token.openedBy [] ts = some ps) (hfirst : Token.FirstOverflow ts t) :
    ofTokens ts = .error (.badNumber t.text t.position) := by
  obtain ⟨before, after, rfl, hbefore, ht⟩ := hfirst
  rw [Token.openedBy_append] at h
  obtain ⟨qs, hopens, -⟩ := Option.bind_eq_some_iff.1 h
  obtain ⟨hfitsBefore, hfitsAfter⟩ := List.forall_mem_append.1 hfits
  obtain ⟨rest, hfit⟩ := hfitsAfter t List.mem_cons_self
  have hfaultless := Token.faultless_of_fits hfitsBefore hbefore hopens
  refine ofTokens_of_firstFault ⟨before, t, ⟨after, by simp⟩, hfaultless, ?_⟩
  exact .badNumber (hfit.badNumber_iff.2 ht)

end Form

/-! ## The two checks agree -/

theorem Spelt.fits {before rest : List Char} {ts : List Token} (h : Spelt before rest ts) :
    ∀ t ∈ ts, ∃ rest, t.Fits rest := by
  induction h with
  | blanks => exact List.forall_mem_nil _
  | token _ _ hfits _ ih => exact List.forall_mem_cons.2 ⟨⟨_, hfits⟩, ih⟩

/-- What the scanner and the builder say of the brackets of a source. -/
structure BracketsAgree (source : String) : Prop where
  /-- The tokens of a source are built, unless a number is too large; then the first
  such number is the fault. -/
  closed : ∀ ts, tokens source = .ok ts →
    (∀ t ∈ ts, ¬ t.Overflows) ∧ (∃ forms, Form.ofTokens ts = .ok forms) ∨
      ∃ t, Token.FirstOverflow ts t ∧ Form.ofTokens ts = .error (.badNumber t.text t.position)
  /-- Up to a fault of unclosed brackets, the marks of the builder behind the queued
  tokens are the places of the brackets that the scanner holds open. -/
  states : ∀ s, Scanner.Reaches source s → (∀ t ∈ s.queued, ¬ t.Overflows) →
    ∃ b, Builder.empty.steps s.queued.reverse = .ok b ∧ b.marks.map Mark.bracket = s.opens
  /-- The calls before a fault of unclosed brackets leave such states. -/
  calls : ∀ n, (∀ i < n, ∀ ps,
      ((Scanner.ofString source).afterCalls i).scan.1 ≠ .error (.unclosed ps)) →
    Scanner.Reaches source ((Scanner.ofString source).afterCalls n)
  /-- The tokens handed out behind a fault of unclosed brackets lead the builder to
  the same fault, unless a number is too large. -/
  unclosed : ∀ n ps, ((Scanner.ofString source).afterCalls n).scan.1 = .error (.unclosed ps) →
    ∃ ts, ((Scanner.ofString source).afterCalls (n + 1)).scan.1 = .ok ts ∧
      ((∀ t ∈ ts, ¬ t.Overflows) → Form.ofTokens ts = .error (.unclosed ps)) ∧
      ∀ t, Token.FirstOverflow ts t → Form.ofTokens ts = .error (.badNumber t.text t.position)

theorem Scanner.Reaches.steps {source : String} {s : Scanner} (h : Reaches source s)
    (hfinite : ∀ t ∈ s.queued, ¬ t.Overflows) :
    ∃ b, Builder.empty.steps s.queued.reverse = .ok b ∧ b.opens = s.opens := by
  obtain ⟨-, hfits, hopens⟩ := h.sound
  have hfaultless : Token.Faultless s.queued.reverse := by
    apply Token.faultless_of_fits _ _ hopens
    · intro t ht
      exact hfits t (List.mem_reverse.1 ht)
    · intro t ht
      exact hfinite t (List.mem_reverse.1 ht)
  obtain ⟨b, hsteps, -⟩ := hfaultless.exists_builder
  have hopened := Builder.openedBy_of_steps hsteps
  exact ⟨b, hsteps, Option.some.inj (hopened.symm.trans hopens)⟩

/-- **The scanner and the builder agree on the brackets of every source.** -/
theorem brackets_agree (source : String) : BracketsAgree source where
  closed := by
    intro ts h
    obtain ⟨hspelt, hopens⟩ := spelt_of_tokens h
    rcases Token.exists_first_overflow ts with hfinite | ⟨t, hfirst⟩
    · exact Or.inl ⟨hfinite, Form.ofTokens_of_closed hspelt.fits hfinite hopens⟩
    · exact Or.inr ⟨t, hfirst, Form.ofTokens_of_overflow hspelt.fits hopens hfirst⟩
  states := by
    intro s h hfinite
    exact h.steps hfinite
  calls := by
    intro n h
    exact Scanner.reaches_afterCalls h
  unclosed := by
    intro n ps h
    -- the fault is found at the end of the source, in a state that still holds the stack
    obtain ⟨e, he, hopen, rfl, hdelivered⟩ := (Scanner.reaches_of_unclosed h).scan_unclosed h
    obtain ⟨-, hfits, hopens⟩ := he.sound
    have hqueued : ∀ t ∈ e.queued.reverse, ∃ rest, t.Fits rest := by
      intro t ht
      exact hfits t (List.mem_reverse.1 ht)
    refine ⟨e.queued.reverse, hdelivered, ?_, ?_⟩
    · intro hfinite
      exact Form.ofTokens_of_open hqueued hfinite hopens hopen
    · intro t hfirst
      exact Form.ofTokens_of_overflow hqueued hopens hfirst

/-- Two brackets that are never closed are reported twice, and in the same order. -/
theorem brackets_agree_two_open :
    ((Scanner.ofString "((a").afterCalls 0).scan.1 =
        .error (.unclosed [⟨0, 1, 1⟩, ⟨1, 1, 2⟩]) ∧
      ∃ ts, ((Scanner.ofString "((a").afterCalls 1).scan.1 = .ok ts ∧
        Form.ofTokens ts = .error (.unclosed [⟨0, 1, 1⟩, ⟨1, 1, 2⟩]) := by
  have hfirst : ((Scanner.ofString "((a").afterCalls 0).scan.1 =
      .error (.unclosed [⟨0, 1, 1⟩, ⟨1, 1, 2⟩]) := by decide +kernel
  have hsecond : ((Scanner.ofString "((a").afterCalls 1).scan.1 =
      .ok [⟨.leftBracket, "(", ⟨0, 1, 1⟩⟩, ⟨.leftBracket, "(", ⟨1, 1, 2⟩⟩,
        ⟨.identifier, "a", ⟨2, 1, 3⟩⟩] := by decide +kernel
  obtain ⟨ts, hts, hbuild, -⟩ := (brackets_agree "((a").unclosed 0 _ hfirst
  refine ⟨hfirst, ts, hts, hbuild ?_⟩
  intro t ht
  cases hsecond.symm.trans hts
  rintro ⟨hnumber, -⟩
  simp only [List.mem_cons, List.not_mem_nil, or_false] at ht
  rcases ht with rfl | rfl | rfl <;> cases hnumber

end Sexpr
