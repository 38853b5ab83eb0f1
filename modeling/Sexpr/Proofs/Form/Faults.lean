import Mathlib
import Sexpr.Proofs.Form.Linear
import Sexpr.Proofs.Token.Partners

/-!
# Tokens that make up no forms

Tokens in any order, at any places, are built unless a number is no finite number, a right
bracket closes nothing, or a left bracket is never closed. The first token at fault is the
one that is reported, and only tokens without fault are searched for brackets that are left
open (`ofTokens_eq_error_iff`).
-/

namespace Sexpr

/-! ## Tokens at fault -/

namespace Token

/-- The text of a number token is no finite number. -/
def BadNumber (t : Token) : Prop :=
  t.kind = .number ∧ ∀ value, Binary64.ofText? t.text = some value → value.isFinite = false

/-- A number is read as a finite one, or it is bad. -/
theorem finite_or_badNumber {t : Token} (h : t.kind = .number) :
    (∃ negative m, Binary64.ofText? t.text = some (.finite negative m)) ∨ t.BadNumber := by
  by_cases hread : ∃ negative m, Binary64.ofText? t.text = some (.finite negative m)
  · exact Or.inl hread
  · refine Or.inr ⟨h, ?_⟩
    intro value hvalue
    cases value with
    | finite negative m => exact absurd ⟨negative, m, hvalue⟩ hread
    | infinite | nan => rfl

/-- What is wrong with a token that stands behind `before`. -/
inductive FaultAt (before : List Token) (t : Token) : BuildFault → Prop
  /-- The number cannot be read. -/
  | badNumber : t.BadNumber → FaultAt before t (.badNumber t.text t.position)
  /-- With this right bracket there are more of them than left brackets before it. -/
  | unmatchedClose : t.kind = .rightBracket → lefts before < rights (before ++ [t]) →
      FaultAt before t (.unmatchedClose t.position)

/-- No token has a fault where it stands. -/
def Faultless (ts : List Token) : Prop :=
  ∀ before t, before ++ [t] <+: ts → ∀ e, ¬ FaultAt before t e

/-- The fault of the first token that has one. -/
def FirstFault (ts : List Token) (e : BuildFault) : Prop :=
  ∃ before t, before ++ [t] <+: ts ∧ Faultless before ∧ FaultAt before t e

section

variable {ts : List Token} {t : Token} {e : BuildFault}

theorem faultless_nil : Faultless [] := by
  intro before t h
  simp at h

theorem not_firstFault_nil : ¬ FirstFault [] e := by
  rintro ⟨before, t, h, -⟩
  simp at h

theorem faultless_concat : Faultless (ts ++ [t]) ↔ Faultless ts ∧ ∀ e, ¬ FaultAt ts t e := by
  constructor
  · intro h
    refine ⟨?_, h ts t (List.prefix_refl _)⟩
    intro before u hu
    exact h before u (hu.trans (List.prefix_append _ _))
  · rintro ⟨hts, ht⟩ before u h
    rcases List.prefix_concat_iff.1 h with heq | hu
    · obtain ⟨rfl, hlast⟩ := List.append_inj' heq rfl
      obtain rfl : u = t := List.singleton_inj.1 hlast
      exact ht
    · exact hts before u hu

theorem firstFault_concat :
    FirstFault (ts ++ [t]) e ↔ FirstFault ts e ∨ Faultless ts ∧ FaultAt ts t e := by
  constructor
  · rintro ⟨before, u, h, hbefore, hu⟩
    rcases List.prefix_concat_iff.1 h with heq | h
    · obtain ⟨rfl, hlast⟩ := List.append_inj' heq rfl
      obtain rfl : u = t := List.singleton_inj.1 hlast
      exact Or.inr ⟨hbefore, hu⟩
    · exact Or.inl ⟨before, u, h, hbefore, hu⟩
  · rintro (⟨before, u, h, hbefore, hu⟩ | ⟨hts, ht⟩)
    · exact ⟨before, u, h.trans (List.prefix_append _ _), hbefore, hu⟩
    · exact ⟨ts, t, List.prefix_refl _, hts, ht⟩

/-! ## Counting brackets -/

theorem length_opened {ps qs : List Position} (h : opened ps t = some qs) :
    qs.length + rights [t] = ps.length + lefts [t] := by
  cases hkind : t.kind with
  | leftBracket =>
      simp only [opened, hkind, Option.some.injEq] at h
      subst h
      simp [lefts, rights, hkind]
  | rightBracket =>
      cases ps with
      | nil => simp [opened, hkind] at h
      | cons p ps =>
          simp only [opened, hkind, Option.some.injEq] at h
          subst h
          simp [lefts, rights, hkind]
  | text | number | identifier =>
      simp only [opened, hkind, Option.some.injEq] at h
      subst h
      simp [lefts, rights, hkind]

theorem openedBy_singleton (ps : List Position) : openedBy ps [t] = opened ps t := by
  rw [openedBy_cons]
  exact Option.bind_fun_some _

theorem lefts_concat : lefts (ts ++ [t]) = lefts ts + lefts [t] := List.countP_append

theorem rights_concat : rights (ts ++ [t]) = rights ts + rights [t] := List.countP_append

/-- Each right bracket takes one away from the open left ones. -/
theorem length_openedBy {ps qs : List Position} (h : openedBy ps ts = some qs) :
    qs.length + rights ts = ps.length + lefts ts := by
  induction ts using List.reverseRecOn generalizing qs with
  | nil =>
      cases h
      simp [lefts, rights]
  | append_singleton ts t ih =>
      rw [openedBy_append] at h
      obtain ⟨rs, hrs, h⟩ := Option.bind_eq_some_iff.1 h
      rw [openedBy_singleton] at h
      have hbefore := ih hrs
      have hlast := length_opened h
      rw [lefts_concat, rights_concat]
      omega

/-- The last token has no fault if it is a number that can be read, or no number, and if
there are not more right than left brackets with it. -/
theorem not_faultAt_iff (h : rights ts ≤ lefts ts) :
    (∀ e, ¬ FaultAt ts t e) ↔ ¬ t.BadNumber ∧ rights (ts ++ [t]) ≤ lefts (ts ++ [t]) := by
  constructor
  · intro ht
    refine ⟨fun hbad => ht _ (.badNumber hbad), ?_⟩
    by_cases hkind : t.kind = .rightBracket
    · have hle : ¬ lefts ts < rights (ts ++ [t]) := fun hlt => ht _ (.unmatchedClose hkind hlt)
      rw [lefts_concat]
      omega
    · have hnone : rights [t] = 0 := by simp [rights, hkind]
      rw [lefts_concat, rights_concat]
      omega
  · rintro ⟨hnumber, hle⟩ e (hbad | ⟨hkind, hlt⟩)
    · exact hnumber hbad
    · have hnone : lefts [t] = 0 := by simp [lefts, hkind]
      rw [lefts_concat] at hle
      omega

/-- Tokens without fault: all numbers can be read, and nowhere are there more right than
left brackets. -/
theorem faultless_iff : Faultless ts ↔
    (∀ t ∈ ts, ¬ t.BadNumber) ∧ ∀ pre, pre <+: ts → rights pre ≤ lefts pre := by
  induction ts using List.reverseRecOn with
  | nil =>
      refine iff_of_true faultless_nil ⟨List.forall_mem_nil _, ?_⟩
      intro pre hpre
      simp [List.prefix_nil.1 hpre, lefts, rights]
  | append_singleton ts t ih =>
      have hprefixes : (∀ pre, pre <+: ts ++ [t] → rights pre ≤ lefts pre) ↔
          (∀ pre, pre <+: ts → rights pre ≤ lefts pre) ∧
            rights (ts ++ [t]) ≤ lefts (ts ++ [t]) := by
        simp only [List.prefix_concat_iff, or_imp, forall_and, forall_eq, and_comm]
      rw [faultless_concat, ih, hprefixes, List.forall_mem_append, List.forall_mem_singleton]
      constructor
      · rintro ⟨⟨hnumbers, hpre⟩, ht⟩
        obtain ⟨hnumber, hall⟩ := (not_faultAt_iff (hpre ts (List.prefix_refl _))).1 ht
        exact ⟨⟨hnumbers, hnumber⟩, hpre, hall⟩
      · rintro ⟨⟨hnumbers, hnumber⟩, hpre, hall⟩
        have ht := (not_faultAt_iff (hpre ts (List.prefix_refl _))).2 ⟨hnumber, hall⟩
        exact ⟨⟨hnumbers, hpre⟩, ht⟩

/-- Tokens whose brackets are opened before they are closed, and whose numbers can be read,
are without fault. -/
theorem faultless_of_openedBy {ps : List Position} (hnumbers : ∀ t ∈ ts, ¬ t.BadNumber)
    (h : openedBy [] ts = some ps) : Faultless ts := by
  refine faultless_iff.2 ⟨hnumbers, ?_⟩
  rintro pre ⟨rest, rfl⟩
  rw [openedBy_append] at h
  obtain ⟨qs, hqs, -⟩ := Option.bind_eq_some_iff.1 h
  have hcount := length_openedBy hqs
  simp only [List.length_nil] at hcount
  omega

end

end Token

namespace Builder

/-- The places of the brackets that are open in a builder. -/
def opens (b : Builder) : List Position := b.marks.map Mark.bracket

/-! ## One token -/

theorem opened_of_step {b b' : Builder} {t : Token} (h : b.step t = .ok b') :
    t.opened b.opens = some b'.opens := by
  rcases step_cases h with ⟨f, hf, rfl⟩ | ⟨hkind, rfl⟩ | ⟨hkind, mark, marks, hmarks, rfl⟩
  · rw [← Token.openedBy_singleton]
    exact hf.openedBy b.opens
  · simp [Token.opened, hkind, opens]
  · simp [Token.opened, hkind, opens, hmarks, close]

theorem step_of_badNumber {t : Token} (h : t.BadNumber) (b : Builder) :
    b.step t = .error (.badNumber t.text t.position) := by
  obtain ⟨hkind, hbad⟩ := h
  simp only [step, hkind]
  split
  · next hread => cases hbad _ hread
  · rfl

/-- A token is refused if it is a number that cannot be read or a right bracket where none
is open. -/
theorem step_eq_error_iff {b : Builder} {t : Token} {e : BuildFault} :
    b.step t = .error e ↔
      (t.BadNumber ∧ e = .badNumber t.text t.position) ∨
        (t.kind = .rightBracket ∧ b.opens = [] ∧ e = .unmatchedClose t.position) := by
  constructor
  · intro h
    unfold step at h
    split at h
    · cases h
    · next hkind =>
      split at h
      · next hmarks =>
        cases h
        exact Or.inr ⟨hkind, by simp [opens, hmarks], rfl⟩
      · cases h
    · cases h
    · cases h
    · next hkind =>
      split at h
      · cases h
      · next hread =>
        cases h
        rcases Token.finite_or_badNumber hkind with ⟨negative, m, hfinite⟩ | hbad
        · exact absurd hfinite (hread negative m)
        · exact Or.inl ⟨hbad, rfl⟩
  · rintro (⟨hbad, rfl⟩ | ⟨hkind, hopens, rfl⟩)
    · exact step_of_badNumber hbad b
    · simp only [step, hkind, List.map_eq_nil_iff.1 hopens]

/-! ## A row of tokens -/

theorem steps_concat (b : Builder) (ts : List Token) (t : Token) :
    b.steps (ts ++ [t]) = (b.steps ts).bind (·.step t) := by
  rw [steps_append]
  congr
  funext b
  rw [steps_cons]
  cases b.step t <;> rfl

theorem openedBy_of_steps {b b' : Builder} {ts : List Token} (h : b.steps ts = .ok b') :
    Token.openedBy b.opens ts = some b'.opens := by
  induction ts generalizing b with
  | nil =>
      cases h
      rfl
  | cons t ts ih =>
      rw [steps_cons] at h
      cases hstep : b.step t with
      | error e =>
          rw [hstep] at h
          cases h
      | ok next =>
          rw [hstep] at h
          rw [Token.openedBy_cons, opened_of_step hstep]
          exact ih h

/-- **What the builder refuses is a token at fault.** Behind tokens that it has read, it
refuses the next one for the fault that the token has there. -/
theorem step_eq_error_iff_faultAt {ts : List Token} {b : Builder} (h : empty.steps ts = .ok b)
    {t : Token} {e : BuildFault} : b.step t = .error e ↔ Token.FaultAt ts t e := by
  have hcount : b.opens.length + Token.rights ts = 0 + Token.lefts ts :=
    Token.length_openedBy (openedBy_of_steps h)
  rw [step_eq_error_iff]
  constructor
  · rintro (⟨hbad, rfl⟩ | ⟨hkind, hopens, rfl⟩)
    · exact .badNumber hbad
    · have hone : Token.rights [t] = 1 := by simp [Token.rights, hkind]
      refine .unmatchedClose hkind ?_
      rw [Token.rights_concat, hone]
      rw [hopens] at hcount
      simp only [List.length_nil] at hcount
      omega
  · rintro (hbad | ⟨hkind, hlt⟩)
    · exact Or.inl ⟨hbad, rfl⟩
    · have hone : Token.rights [t] = 1 := by simp [Token.rights, hkind]
      rw [Token.rights_concat, hone] at hlt
      refine Or.inr ⟨hkind, List.length_eq_zero_iff.1 ?_, rfl⟩
      omega

/-- **The builder stops at the first token at fault, and at no other.** -/
theorem steps_iff (ts : List Token) :
    ((∃ b, empty.steps ts = .ok b) ↔ Token.Faultless ts) ∧
      ∀ e, empty.steps ts = .error e ↔ Token.FirstFault ts e := by
  induction ts using List.reverseRecOn with
  | nil =>
      refine ⟨iff_of_true ⟨_, rfl⟩ Token.faultless_nil, ?_⟩
      intro e
      exact iff_of_false nofun Token.not_firstFault_nil
  | append_singleton ts t ih =>
      obtain ⟨hok, herror⟩ := ih
      rw [steps_concat, Token.faultless_concat]
      simp only [Token.firstFault_concat, ← herror, ← hok]
      cases hsteps : empty.steps ts with
      | error fault => simp [Except.bind]
      | ok b =>
          simp only [Except.bind, ← step_eq_error_iff_faultAt hsteps]
          cases b.step t <;> simp

end Builder

/-! ## The end of the tokens -/

namespace Token

variable {ts : List Token} {e : BuildFault}

theorem firstFault_or_faultless (ts : List Token) :
    (∃ e, FirstFault ts e) ∨ Faultless ts := by
  obtain ⟨hok, herror⟩ := Builder.steps_iff ts
  cases hsteps : Builder.empty.steps ts with
  | error e => exact Or.inl ⟨e, (herror e).1 hsteps⟩
  | ok b => exact Or.inr (hok.1 ⟨b, hsteps⟩)

theorem FirstFault.not_faultless (h : FirstFault ts e) :
    ¬ Faultless ts := by
  obtain ⟨before, t, hprefix, -, ht⟩ := h
  intro hts
  exact hts before t hprefix e ht

/-- Behind tokens without fault, a builder holds open what has no partner. -/
theorem Faultless.exists_builder (h : Faultless ts) :
    ∃ b, Builder.empty.steps ts = .ok b ∧ unclosed ts = b.opens.reverse := by
  obtain ⟨b, hsteps⟩ := (Builder.steps_iff ts).1.2 h
  exact ⟨b, hsteps, unclosed_eq (Builder.openedBy_of_steps hsteps)⟩

theorem Faultless.length_unclosed (h : Faultless ts) :
    (unclosed ts).length + rights ts = lefts ts := by
  obtain ⟨b, hsteps, hunclosed⟩ := h.exists_builder
  have hcount := length_openedBy (Builder.openedBy_of_steps hsteps)
  rw [hunclosed, List.length_reverse, hcount]
  exact Nat.zero_add _

end Token

namespace Form

variable {ts : List Token} {e : BuildFault}

theorem ofTokens_of_firstFault (h : Token.FirstFault ts e) : ofTokens ts = .error e := by
  unfold ofTokens
  rw [((Builder.steps_iff ts).2 e).2 h]
  rfl

theorem ofTokens_of_unclosed (h : Token.Faultless ts) (hopen : Token.unclosed ts ≠ []) :
    ofTokens ts = .error (.unclosed (Token.unclosed ts)) := by
  obtain ⟨⟨values, marks⟩, hsteps, hunclosed⟩ := h.exists_builder
  rw [ofTokens_of_steps hsteps, hunclosed, Builder.opens, ← List.map_reverse]
  cases marks with
  | nil => exact absurd hunclosed hopen
  | cons mark marks => rfl

theorem ofTokens_of_faultless (h : Token.Faultless ts) (hclosed : Token.unclosed ts = []) :
    ∃ forms, ofTokens ts = .ok forms := by
  obtain ⟨⟨values, marks⟩, hsteps, hunclosed⟩ := h.exists_builder
  rw [ofTokens_of_steps hsteps]
  cases marks with
  | nil => exact ⟨_, rfl⟩
  | cons mark marks => simp [hclosed, Builder.opens] at hunclosed

theorem refused_iff : ofTokens ts = .error e ↔
    Token.FirstFault ts e ∨
      Token.Faultless ts ∧ Token.unclosed ts ≠ [] ∧ e = .unclosed (Token.unclosed ts) := by
  constructor
  · intro h
    rcases Token.firstFault_or_faultless ts with ⟨fault, hfault⟩ | hts
    · obtain rfl := Except.error.inj ((ofTokens_of_firstFault hfault).symm.trans h)
      exact Or.inl hfault
    · by_cases hopen : Token.unclosed ts = []
      · obtain ⟨forms, hforms⟩ := ofTokens_of_faultless hts hopen
        cases hforms.symm.trans h
      · have hfault := Except.error.inj ((ofTokens_of_unclosed hts hopen).symm.trans h)
        exact Or.inr ⟨hts, hopen, hfault.symm⟩
  · rintro (h | ⟨hts, hopen, rfl⟩)
    · exact ofTokens_of_firstFault h
    · exact ofTokens_of_unclosed hts hopen

/-- **A row of tokens is refused for its first token at fault, or else for the brackets that
it leaves open.** It is refused just when a number cannot be read, when up to some place
there are more right than left brackets, or when in all there are fewer. -/
theorem ofTokens_eq_error_iff (ts : List Token) :
    ((∃ e, ofTokens ts = .error e) ↔
      (∃ t ∈ ts, t.BadNumber) ∨ (∃ pre, pre <+: ts ∧ Token.lefts pre < Token.rights pre) ∨
        Token.rights ts < Token.lefts ts) ∧
    ∀ e, ofTokens ts = .error e ↔
      Token.FirstFault ts e ∨
        Token.Faultless ts ∧ Token.unclosed ts ≠ [] ∧ e = .unclosed (Token.unclosed ts) := by
  refine ⟨?_, fun e => refused_iff⟩
  rcases Token.firstFault_or_faultless ts with ⟨fault, hfault⟩ | hts
  · refine iff_of_true ⟨fault, ofTokens_of_firstFault hfault⟩ ?_
    have hnot := hfault.not_faultless
    rw [Token.faultless_iff, not_and_or] at hnot
    simp only [not_forall, not_not, not_le, exists_prop] at hnot
    rcases hnot with hnumber | hbrackets
    · exact Or.inl hnumber
    · exact Or.inr (Or.inl hbrackets)
  · -- only open brackets are left as a reason, and these are counted
    have hcount := hts.length_unclosed
    obtain ⟨hnumbers, hprefixes⟩ := Token.faultless_iff.1 hts
    constructor
    · rintro ⟨e, he⟩
      rcases refused_iff.1 he with hfault | ⟨-, hopen, -⟩
      · exact absurd hts hfault.not_faultless
      · have hpos := List.length_pos_iff.2 hopen
        exact Or.inr (Or.inr (by omega))
    · rintro (⟨t, ht, hbad⟩ | ⟨pre, hpre, hlt⟩ | hlt)
      · exact absurd hbad (hnumbers t ht)
      · exact absurd (hprefixes pre hpre) (Nat.not_le_of_lt hlt)
      · refine ⟨_, ofTokens_of_unclosed hts ?_⟩
        intro hclosed
        rw [hclosed] at hcount
        simp only [List.length_nil] at hcount
        omega

end Form
end Sexpr
