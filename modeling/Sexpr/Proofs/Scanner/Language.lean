import Mathlib
import Sexpr.Proofs.Scanner.Run

/-!
# The language of the scanner

A source that scans without a fault is a row of tokens with blanks between them,
`w₀ l₁ w₁ … lₙ wₙ`, and its brackets are balanced. `tokens_eq_ok_iff` says that
the scanner accepts these sources and no others, and which tokens it returns.
-/

namespace Sexpr

/-- Behind `before`, the rest of a source is a row of tokens with blanks between. -/
inductive Spelt : List Char → List Char → List Token → Prop
  | blanks {before blanks : List Char} : (∀ c ∈ blanks, isBlank c = true) →
      Spelt before blanks []
  | token {before blanks rest : List Char} {t : Token} {ts : List Token} :
      (∀ c ∈ blanks, isBlank c = true) → t.position = .behind (before ++ blanks) →
      t.Fits rest → Spelt (before ++ blanks ++ t.spelling) rest ts →
      Spelt before (blanks ++ t.spelling ++ rest) (t :: ts)

namespace Spelt

/-- One more blank in front. -/
theorem blank {before rest : List Char} {c : Char} {ts : List Token} (hc : isBlank c = true)
    (h : Spelt (before ++ [c]) rest ts) : Spelt before (c :: rest) ts := by
  cases h with
  | blanks hblanks => exact .blanks (List.forall_mem_cons.2 ⟨hc, hblanks⟩)
  | @token _ blanks rest t ts hblanks hplace hfits htail =>
      rw [List.append_assoc before, List.singleton_append] at hplace htail
      exact @token _ (c :: blanks) _ _ _ (List.forall_mem_cons.2 ⟨hc, hblanks⟩) hplace hfits htail

/-- One more token in front. -/
theorem adjacent {before rest : List Char} {t : Token} {ts : List Token}
    (hplace : t.position = .behind before) (hfits : t.Fits rest)
    (h : Spelt (before ++ t.spelling) rest ts) : Spelt before (t.spelling ++ rest) (t :: ts) :=
  @token _ [] _ _ _ (List.forall_mem_nil _)
    (by rwa [List.append_nil]) hfits (by rwa [List.append_nil])

end Spelt

/-- Pieces without a fault are tokens and blanks. -/
theorem Cut.spelt {before rest : List Char} {pieces : List Piece} (h : Cut before rest pieces)
    (hf : faultsOf pieces = []) : Spelt before rest (tokensOf pieces) := by
  induction h with
  | nil => exact .blanks (List.forall_mem_nil _)
  | @cons before rest piece pieces hfits _ ih =>
      rw [faultsOf_cons, List.append_eq_nil_iff] at hf
      cases piece with
      | blank c => exact .blank hfits (ih hf.2)
      | token t => exact .adjacent hfits.2 hfits.1 (ih hf.2)
      | stray p | brokenNumber digits p | openText body p => cases hf.1

namespace Scanner

/-- The characters of a lexeme that fits are read as this lexeme. -/
theorem step_of_fits {s : Scanner} {l : Lexeme} {rest : List Char} (hfits : l.Fits rest)
    (hne : l.chars ≠ []) (h : s.rest = l.chars ++ rest) :
    ∃ c cs, s.rest = c :: cs ∧ s.step c cs = s.read l rest := by
  obtain ⟨c, cs, hcs⟩ := List.exists_cons_of_ne_nil hne
  rw [hcs, List.cons_append] at h
  refine ⟨c, cs ++ rest, h, ?_⟩
  unfold step
  rw [Lexeme.first_eq_of_fits hfits (by rw [hcs, List.cons_append])]

/-- A token that fits and does not close a bracket that is not open is queued. -/
theorem read_token {s : Scanner} {t : Token} {rest : List Char} {opens : List Position}
    (hplace : t.position = s.here) (hfits : t.Fits rest) (hopens : t.opened s.opens = some opens) :
    s.read t.lexeme rest =
      (⟨rest, s.here.after t.spelling, t :: s.queued, opens⟩, none) := by
  rw [← hfits.lexeme_chars]
  obtain ⟨kind, text, place⟩ := t
  obtain ⟨rest', here, queued, opens'⟩ := s
  cases hplace
  cases kind with
  | leftBracket =>
      cases hfits
      cases hopens
      rfl
  | rightBracket =>
      cases hfits
      cases opens' with
      | nil => cases hopens
      | cons p ps =>
          cases hopens
          rfl
  | text | number | identifier =>
      cases hopens
      simp [read, queue, Token.lexeme]

theorem scan_blank {s : Scanner} {c : Char} {rest : List Char} (hc : isBlank c = true)
    (h : s.rest = c :: rest) :
    s.scan = (Scanner.mk rest (s.here.next c) s.queued s.opens).scan := by
  obtain ⟨d, cs, hcons, hstep⟩ :=
    step_of_fits (l := .blank c) hc (List.cons_ne_nil _ _) h
  rw [scan_step hcons (by rw [hstep]; rfl), hstep]
  rfl

theorem scan_blanks {blanks : List Char} (hblanks : ∀ c ∈ blanks, isBlank c = true) {s : Scanner}
    {rest : List Char} (h : s.rest = blanks ++ rest) :
    s.scan = (Scanner.mk rest (s.here.after blanks) s.queued s.opens).scan := by
  induction blanks generalizing s with
  | nil =>
      obtain ⟨rest', here, queued, opens⟩ := s
      cases h
      rfl
  | cons c blanks ih =>
      obtain ⟨hc, hblanks⟩ := List.forall_mem_cons.1 hblanks
      rw [scan_blank hc h, ih hblanks rfl]
      rfl

theorem scan_token {s : Scanner} {t : Token} {rest : List Char} {opens : List Position}
    (hplace : t.position = s.here) (hfits : t.Fits rest) (h : s.rest = t.spelling ++ rest)
    (hopens : t.opened s.opens = some opens) :
    s.scan = (Scanner.mk rest (s.here.after t.spelling) (t :: s.queued) opens).scan := by
  rw [← hfits.lexeme_chars] at h
  obtain ⟨c, cs, hcons, hstep⟩ := step_of_fits hfits.lexeme_fits
    (hfits.lexeme_chars ▸ hfits.spelling_ne_nil) h
  rw [read_token hplace hfits hopens] at hstep
  rw [scan_step hcons (congrArg Prod.snd hstep), hstep]

/-- A row of tokens that closes all brackets is queued and handed out. -/
theorem scan_of_spelt {before rest : List Char} {ts : List Token} (h : Spelt before rest ts)
    {s : Scanner} (hrest : s.rest = rest) (hhere : s.here = .behind before)
    (hopens : Token.openedBy s.opens ts = some []) :
    s.scan.1 = .ok (s.queued.reverse ++ ts) := by
  induction h generalizing s with
  | @blanks before blanks hblanks =>
      have hclosed : s.opens = [] := Option.some.inj hopens
      rw [scan_blanks hblanks (hrest.trans (List.append_nil _).symm), scan_nil rfl, hclosed]
      simp [finish]
  | @token before blanks rest t ts hblanks hplace hfits _ ih =>
      have hhere' : s.here.after blanks = .behind (before ++ blanks) := by
        rw [hhere, Position.behind_append]
      obtain ⟨opens, hopen, hopens⟩ := Option.bind_eq_some_iff.1 hopens
      rw [List.append_assoc] at hrest
      rw [scan_blanks hblanks hrest,
        scan_token (s := ⟨_, s.here.after blanks, s.queued, s.opens⟩)
          (hplace.trans hhere'.symm) hfits rfl hopen,
        ih (s := ⟨rest, _, t :: s.queued, opens⟩) rfl
          (by rw [Position.behind_append, ← hhere']) hopens]
      simp

end Scanner

/-- A source that scans without a fault is a row of tokens. -/
theorem spelt_of_tokens {source : String} {ts : List Token} (h : tokens source = .ok ts) :
    Spelt [] source.toList ts ∧ Token.openedBy [] ts = some [] := by
  obtain ⟨pieces, e, hd⟩ := (Scanner.ofString source).exists_drains [] rfl
  have hscan := hd.scan_eq.symm.trans h
  have hopens : Token.openedBy [] (tokensOf pieces) = some e.opens := hd.opens
  have hqueued : e.queued = (tokensOf pieces).reverse ++ [] := hd.queued
  cases hfaults : faultsOf pieces with
  | cons fault faults =>
      -- the first fault would have been the answer
      rw [hfaults] at hscan
      cases hscan
  | nil =>
      rw [hfaults] at hscan
      by_cases hclosed : e.opens = []
      · rw [Scanner.finish_of_closed hclosed, hqueued, List.append_nil,
          List.reverse_reverse] at hscan
        rw [hclosed] at hopens
        cases hscan
        exact ⟨hd.cut.spelt hfaults, hopens⟩
      · rw [Scanner.finish_of_open hclosed] at hscan
        cases hscan

/-- A row of tokens that closes all brackets scans without a fault. -/
theorem tokens_of_spelt {source : String} {ts : List Token} (h : Spelt [] source.toList ts)
    (hopens : Token.openedBy [] ts = some []) : tokens source = .ok ts :=
  Scanner.scan_of_spelt h rfl rfl hopens

/-- **The scanner accepts its grammar and nothing else.** -/
theorem tokens_eq_ok_iff (source : String) (ts : List Token) :
    tokens source = .ok ts ↔ Spelt [] source.toList ts ∧ Token.BalancedFrom 0 ts := by
  have hbalanced : Token.openedBy [] ts = some [] ↔ Token.BalancedFrom 0 ts :=
    Token.openedBy_eq_nil_iff
  rw [← hbalanced]
  constructor
  · exact spelt_of_tokens
  · rintro ⟨hspelt, hclosed⟩
    exact tokens_of_spelt hspelt hclosed

end Sexpr
