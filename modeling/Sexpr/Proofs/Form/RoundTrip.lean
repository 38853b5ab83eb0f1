import Mathlib
import Sexpr.Form.Source
import Sexpr.Proofs.Binary64.Text
import Sexpr.Proofs.Form.Brackets
import Sexpr.Proofs.Form.Printed

/-!
# What is printed is parsed again

A form is canonical if its leaves can be written down: finite numbers, texts
without quotes, and names that no other lexeme is mistaken for. A source holds
canonical forms only, and printing loses nothing of them and of no other form.
-/

namespace Sexpr
namespace Form

mutual

/-- The leaves of a form can be written down. -/
def CanonicalT : Form → Prop
  | .number value => value.isFinite = true
  | .text content => '"' ∉ content.toList
  | .atom name => IsSign name.toList ∨ IsName name.toList
  | .list items => CanonicalF items

def CanonicalF : List Form → Prop
  | [] => True
  | f :: fs => CanonicalT f ∧ CanonicalF fs

end

theorem canonicalF_iff {fs : List Form} : CanonicalF fs ↔ ∀ f ∈ fs, CanonicalT f := by
  induction fs with
  | nil => simp [CanonicalF]
  | cons f fs ih => simp [CanonicalF, ih]

/-! ## What is parsed is canonical -/

theorem Linear.canonical {fs : List Form} {ts : List Token} (h : Linear fs ts)
    (hfits : ∀ t ∈ ts, ∃ rest, t.Fits rest) : CanonicalF fs := by
  induction h with
  | nil => trivial
  | @atom t fs ts hkind _ ih =>
      obtain ⟨⟨rest, hfit⟩, hfits⟩ := List.forall_mem_cons.1 hfits
      rw [Token.Fits, hkind] at hfit
      exact ⟨hfit.imp And.left And.left, ih hfits⟩
  | @text t fs ts hkind _ ih =>
      obtain ⟨⟨rest, hfit⟩, hfits⟩ := List.forall_mem_cons.1 hfits
      rw [Token.Fits, hkind] at hfit
      exact ⟨hfit, ih hfits⟩
  | number hkind _ _ ih => exact ⟨rfl, ih (List.forall_mem_cons.1 hfits).2⟩
  | list hl hr _ _ ihitems ih =>
      constructor
      · apply ihitems
        intro t ht
        exact hfits t (List.mem_append_left _ (List.mem_cons_of_mem _ ht))
      · apply ih
        intro t ht
        exact hfits t (List.mem_append_right _ (List.mem_cons_of_mem _ ht))

theorem parse_eq_ok_iff {source : String} {forms : List Form} :
    parse source = .ok forms ↔ ∃ ts, tokens source = .ok ts ∧ ofTokens ts = .ok forms := by
  unfold parse
  cases htokens : tokens source with
  | error fault => simp [Except.mapError, bind, Except.bind]
  | ok ts => cases hforms : ofTokens ts <;> simp [Except.mapError, bind, Except.bind, hforms]

theorem canonical_of_parse {source : String} {forms : List Form} (h : parse source = .ok forms) :
    CanonicalF forms := by
  obtain ⟨ts, htokens, hforms⟩ := parse_eq_ok_iff.1 h
  exact (linear_of_ofTokens hforms).canonical (spelt_of_tokens htokens).1.fits

/-! ## What is canonical is printed and parsed -/

/-- A form that is printed as one token stands in front of the tokens behind it. -/
theorem spelt_scalar {f : Form} {t : Token} {before rest : List Char} {ts : List Token}
    (hlinear : Linear [f] [t]) (hspelling : f.plainT.toList = t.spelling)
    (hplace : t.position = .behind before) (hfits : t.Fits rest)
    (h : Spelt (before ++ f.plainT.toList) rest ts) :
    ∃ us, Linear [f] us ∧ Spelt before (f.plainT.toList ++ rest) (us ++ ts) := by
  rw [hspelling] at h ⊢
  exact ⟨[t], hlinear, .adjacent hplace hfits h⟩

mutual

theorem spelt_plainT (f : Form) (hcanonical : CanonicalT f) {before rest : List Char}
    {ts : List Token} (hends : EndsName rest) (h : Spelt (before ++ f.plainT.toList) rest ts) :
    ∃ us, Linear [f] us ∧ Spelt before (f.plainT.toList ++ rest) (us ++ ts) := by
  cases f with
  | number value =>
      cases value with
      | finite negative m =>
          have hlinear := Linear.number
            (t := ⟨.number, (Binary64.finite negative m).text, .behind before⟩) rfl
            (Binary64.ofText?_text negative m) .nil
          exact spelt_scalar hlinear rfl rfl ⟨Binary64.isNumber_text negative m, hends.endsNumber⟩ h
      | infinite | nan => cases hcanonical
  | text content =>
      have hlinear := Linear.text (t := ⟨.text, content, .behind before⟩) rfl .nil
      exact spelt_scalar hlinear (by simp [plainT, Token.spelling]) rfl hcanonical h
  | atom name =>
      have hlinear := Linear.atom (t := ⟨.identifier, name, .behind before⟩) rfl .nil
      have hfits : Token.Fits ⟨.identifier, name, .behind before⟩ rest :=
        hcanonical.imp (fun hsign => ⟨hsign, hends.endsNumber⟩) (fun hname => ⟨hname, hends⟩)
      exact spelt_scalar hlinear rfl rfl hfits h
  | list items =>
      have hplain : (plainT (.list items)).toList =
          "(".toList ++ (" ".intercalate (plainF items)).toList ++ ")".toList := by
        rw [plainT, String.toList_append, String.toList_append]
      rw [hplain, ← List.append_assoc, ← List.append_assoc] at h
      let l : Token := ⟨.leftBracket, "(", .behind before⟩
      let r : Token := ⟨.rightBracket, ")",
        .behind (before ++ "(".toList ++ (" ".intercalate (plainF items)).toList)⟩
      have hright := Spelt.adjacent (t := r) rfl rfl h
      have hbracket : EndsName (")".toList ++ rest) := by simp [EndsName, endsWord]
      obtain ⟨us, hus, hbody⟩ :=
        spelt_plainF items hcanonical rfl (by decide : isBlank ' ' = true) hbracket hright
      have hleft := Spelt.adjacent (t := l) rfl rfl hbody
      refine ⟨l :: us ++ [r], .list rfl rfl hus .nil, ?_⟩
      rw [hplain]
      simpa [Token.spelling, l] using hleft

theorem spelt_plainF (fs : List Form) (hcanonical : CanonicalF fs) {separator : String} {c : Char}
    (hseparator : separator.toList = [c]) (hblank : isBlank c = true) {before rest : List Char}
    {ts : List Token} (hends : EndsName rest)
    (h : Spelt (before ++ (separator.intercalate (plainF fs)).toList) rest ts) :
    ∃ us, Linear fs us ∧
      Spelt before ((separator.intercalate (plainF fs)).toList ++ rest) (us ++ ts) := by
  match fs, hcanonical with
  | [], _ => exact ⟨[], .nil, by simpa [plainF] using h⟩
  | [f], ⟨hf, _⟩ =>
      rw [plainF, plainF, String.intercalate_singleton] at h ⊢
      exact spelt_plainT f hf hends h
  | f :: g :: fs, ⟨hf, hfs⟩ =>
      have hjoin : (separator.intercalate (plainF (f :: g :: fs))).toList =
          f.plainT.toList ++ c :: (separator.intercalate (plainF (g :: fs))).toList := by
        simp [plainF, String.intercalate_cons_cons, hseparator]
      rw [hjoin, List.append_cons, ← List.append_assoc] at h
      obtain ⟨us, hus, htail⟩ := spelt_plainF (g :: fs) hfs hseparator hblank hends h
      rw [← List.append_assoc] at htail
      -- the separator ends whatever stands in front of it, so no two leaves merge
      have hgap : EndsName (c :: ((separator.intercalate (plainF (g :: fs))).toList ++ rest)) := by
        rintro d ⟨⟩
        simp [endsWord, hblank]
      obtain ⟨vs, hvs, hspelt⟩ := spelt_plainT f hf hgap (htail.blank hblank)
      refine ⟨vs ++ us, hvs.append hus, ?_⟩
      rw [hjoin]
      simpa using hspelt

end

/-- Forms that are printed a line each are parsed again. -/
theorem parse_of_canonical {forms : List Form} (h : CanonicalF forms) :
    parse (printAll forms) = .ok forms := by
  have hends : EndsName [] := by simp [EndsName]
  have hnothing : Spelt ([] ++ ("\n".intercalate (plainF forms)).toList) [] [] :=
    .blanks (List.forall_mem_nil _)
  obtain ⟨ts, hlinear, hspelt⟩ :=
    spelt_plainF forms h rfl (by decide : isBlank '\n' = true) hends hnothing
  rw [List.append_nil, List.append_nil, ← printAll_eq] at hspelt
  exact parse_eq_ok_iff.2 ⟨ts, tokens_of_spelt hspelt (hlinear.openedBy []), hlinear.ofTokens⟩

/-! ## Equality of numbers -/

mutual

theorem sameT_self (f : Form) (h : CanonicalT f) : sameT f f = true := by
  cases f with
  | number value =>
      cases value with
      | finite negative m => simp [sameT, Binary64.same]
      | infinite | nan => cases h
  | text | atom => simp [sameT]
  | list items => exact sameF_self items h

theorem sameF_self (fs : List Form) (h : CanonicalF fs) : sameF fs fs = true := by
  cases fs with
  | nil => rfl
  | cons f fs => simp [sameF, sameT_self f h.1, sameF_self fs h.2]

end

mutual

theorem canonicalT_of_same (f g : Form) (hsame : sameT f g = true) (h : CanonicalT f) :
    CanonicalT g := by
  cases f with
  | number a =>
      cases g with
      | number b =>
          cases a <;> cases b <;> simp_all [sameT, Binary64.same, CanonicalT, Binary64.isFinite]
      | text | atom | list => cases hsame
  | text a =>
      cases g with
      | text b => simp_all [sameT, CanonicalT]
      | number | atom | list => cases hsame
  | atom a =>
      cases g with
      | atom b => simp_all [sameT, CanonicalT]
      | number | text | list => cases hsame
  | list fs =>
      cases g with
      | list gs => exact canonicalF_of_same fs gs hsame h
      | number | text | atom => cases hsame

theorem canonicalF_of_same (fs gs : List Form) (hsame : sameF fs gs = true)
    (h : CanonicalF fs) : CanonicalF gs := by
  cases fs with
  | nil =>
      cases gs with
      | nil => trivial
      | cons => cases hsame
  | cons f fs =>
      cases gs with
      | nil => cases hsame
      | cons g gs =>
          rw [sameF, Bool.and_eq_true] at hsame
          exact ⟨canonicalT_of_same f g hsame.1 h.1, canonicalF_of_same fs gs hsame.2 h.2⟩

end

/-! ## The round trip -/

/-- **Printing and parsing again gives back the canonical forms and no others**, as data
and up to the equality of numbers; and every source holds canonical forms. -/
theorem parse_printAll :
    (∀ source forms, parse source = .ok forms → CanonicalF forms) ∧
    (∀ forms, parse (printAll forms) = .ok forms ↔ CanonicalF forms) ∧
    (∀ forms, (∃ again, parse (printAll forms) = .ok again ∧ sameF again forms = true) ↔
      CanonicalF forms) ∧
    ∀ source forms, parse source = .ok forms → parse (printAll forms) = .ok forms := by
  refine ⟨?_, ?_, ?_, ?_⟩
  · intro source forms h
    exact canonical_of_parse h
  · intro forms
    exact ⟨canonical_of_parse, parse_of_canonical⟩
  · intro forms
    constructor
    · rintro ⟨again, hparse, hsame⟩
      exact canonicalF_of_same again forms hsame (canonical_of_parse hparse)
    · intro h
      exact ⟨forms, parse_of_canonical h, sameF_self forms h⟩
  · intro source forms h
    exact parse_of_canonical (canonical_of_parse h)

/-- The sign of zero is kept, and a source in any layout can be printed. -/
theorem parse_printAll_zero : ∃ forms, parse "( a -0 \"b c\"())" = .ok forms ∧
    parse (printAll forms) = .ok forms ∧ CanonicalF forms := by
  have hparse : parse "( a -0 \"b c\"())" = .ok
      [.list [.atom "a", .number (.finite true .zero), .text "b c", .list []]] := by
    decide +kernel
  exact ⟨_, hparse, parse_printAll.2.2.2 _ _ hparse, parse_printAll.1 _ _ hparse⟩

end Form
end Sexpr
