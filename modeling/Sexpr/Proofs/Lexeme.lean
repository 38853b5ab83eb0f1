import Mathlib
import Sexpr.Lexeme
import Sexpr.Proofs.Numeral

/-!
# The grammar of lexemes

`Lexeme.Fits` says, without reading anything, which characters make up a lexeme
and what may stand behind it. `Lexeme.first` takes off just what the grammar
allows (`fits_first`, `first_eq_of_fits`), so a source begins with one lexeme
only.
-/

namespace Sexpr

/-- Neither a digit nor a point follows. -/
def EndsNumber (rest : List Char) : Prop := ∀ c ∈ rest.head?, c.isDigit = false ∧ c ≠ '.'

/-- A blank, a bracket or nothing follows. -/
def EndsName (rest : List Char) : Prop := ∀ c ∈ rest.head?, endsWord c = true

/-- A name holds no blank and no bracket and begins like no other lexeme. -/
def IsName (cs : List Char) : Prop :=
  ∃ c tail, cs = c :: tail ∧ c ≠ '"' ∧ startsNumber c = false ∧ ∀ d ∈ cs, endsWord d = false

theorem EndsNumber.endsDigits {rest : List Char} (h : EndsNumber rest) : EndsDigits rest := by
  intro c hc
  exact (h c hc).1

theorem EndsNumber.not_point {tail : List Char} : ¬ EndsNumber ('.' :: tail) := by
  intro h
  exact (h '.' rfl).2 rfl

theorem EndsDigits.endsNumber {rest : List Char} (h : EndsDigits rest)
    (hp : ∀ tail, rest ≠ '.' :: tail) : EndsNumber rest := by
  intro c hc
  refine ⟨h c hc, ?_⟩
  rintro rfl
  cases rest with
  | nil => cases hc
  | cons d tail =>
      cases hc
      exact hp tail rfl

theorem endsName_dropWhile (cs : List Char) : EndsName (cs.dropWhile (!endsWord ·)) := by
  intro c hc
  have hnot := List.head?_dropWhile_not (!endsWord ·) cs
  rw [Option.mem_def.1 hc] at hnot
  simpa using hnot

/-- What ends a name ends a number as well. -/
theorem EndsName.endsNumber {rest : List Char} (h : EndsName rest) : EndsNumber rest := by
  intro c hc
  have hend := h c hc
  simp only [endsWord, isBlank, Bool.or_eq_true, decide_eq_true_eq] at hend
  rcases hend with ((((rfl | rfl) | rfl) | rfl) | rfl) | rfl <;> decide

theorem IsSign.not_any {cs : List Char} (h : IsSign cs) : cs.any Char.isDigit = false := by
  rcases h with rfl | rfl <;> rfl

theorem IsWhole.any {cs : List Char} (h : IsWhole cs) : cs.any Char.isDigit = true := by
  obtain ⟨sign, digits, rfl, -, hne, hd⟩ := h
  obtain ⟨d, ds, rfl⟩ := List.exists_cons_of_ne_nil hne
  rw [List.any_eq_true]
  exact ⟨d, by simp, hd d List.mem_cons_self⟩

namespace Lexeme

/-- The lexeme is well formed, and `rest` may stand behind it. -/
def Fits (rest : List Char) : Lexeme → Prop
  | .blank c => isBlank c = true
  | .opening => True
  | .closing => True
  | .text body => '"' ∉ body
  | .openText body => '"' ∉ body ∧ rest = []
  | .number digits => IsNumber digits ∧ EndsNumber rest
  | .brokenNumber digits => (IsSign digits ∨ IsPointed digits) ∧ ∃ tail, rest = '.' :: tail
  | .word name => IsSign name ∧ EndsNumber rest ∨ IsName name ∧ EndsName rest

/-! ## What is taken off fits -/

theorem quote_notMem_takeWhile (cs : List Char) : '"' ∉ cs.takeWhile (· != '"') := by
  intro h
  simpa using List.mem_takeWhile_imp h

theorem fits_textFrom (cs : List Char) : (textFrom cs).1.Fits (textFrom cs).2 := by
  unfold textFrom
  split
  · exact quote_notMem_takeWhile cs
  · next hnone =>
    refine ⟨?_, rfl⟩
    have hnot := List.head?_dropWhile_not (· != '"') cs
    have hnil : cs.dropWhile (· != '"') = [] := by
      cases h : cs.dropWhile (· != '"') with
      | nil => rfl
      | cons c tail =>
          rw [h] at hnot
          simp only [List.head?_cons, bne_eq_false_iff_eq] at hnot
          exact absurd h (hnot ▸ hnone tail)
    intro hmem
    simpa using List.dropWhile_eq_nil_iff.1 hnil _ hmem

/-- The characters that `numberFrom` reads first: a sign, or digits with a sign
or without. -/
theorem isSign_or_isWhole {c : Char} (cs : List Char) (hc : startsNumber c = true) :
    IsSign (c :: cs.takeWhile Char.isDigit) ∨ IsWhole (c :: cs.takeWhile Char.isDigit) := by
  have hdigits := allDigits_takeWhile cs
  simp only [startsNumber, Bool.or_eq_true, decide_eq_true_eq] at hc
  by_cases hdigit : c.isDigit = true
  · refine Or.inr ⟨[], _, rfl, Or.inl rfl, by simp, ?_⟩
    intro d hd
    rcases List.mem_cons.1 hd with rfl | hd
    · exact hdigit
    · exact hdigits d hd
  · have hsign : IsSign [c] := by
      rcases hc with (hc | rfl) | rfl
      · exact absurd hc hdigit
      · exact Or.inl rfl
      · exact Or.inr rfl
    by_cases hnil : cs.takeWhile Char.isDigit = []
    · exact Or.inl (hnil ▸ hsign)
    · exact Or.inr ⟨[c], _, rfl, Or.inr hsign, hnil, hdigits⟩

theorem fits_fractionFrom {whole : List Char} (hw : IsWhole whole) (cs : List Char) :
    (fractionFrom (whole ++ ['.']) cs).1.Fits (fractionFrom (whole ++ ['.']) cs).2 := by
  have hpointed : IsPointed (whole ++ ['.'] ++ cs.takeWhile Char.isDigit) :=
    ⟨whole, _, by simp, hw, allDigits_takeWhile cs⟩
  unfold fractionFrom
  dsimp only
  split
  · exact ⟨Or.inr hpointed, _, rfl⟩
  · next hnone =>
    exact ⟨Or.inr hpointed, (endsDigits_dropWhile cs).endsNumber hnone⟩

theorem fits_numberFrom {c : Char} (hc : startsNumber c = true) (cs : List Char) :
    (numberFrom c cs).1.Fits (numberFrom c cs).2 := by
  have hend := endsDigits_dropWhile cs
  unfold numberFrom
  dsimp only
  rcases isSign_or_isWhole cs hc with hsign | hwhole
  · rw [if_neg (by simp [hsign.not_any])]
    split
    · exact ⟨Or.inl hsign, _, rfl⟩
    · next hnone => exact Or.inl ⟨hsign, hend.endsNumber hnone⟩
  · rw [if_pos hwhole.any]
    split
    · exact fits_fractionFrom hwhole _
    · next hnone => exact ⟨Or.inl hwhole, hend.endsNumber hnone⟩

theorem fits_wordFrom {c : Char} (hword : endsWord c = false) (hquote : c ≠ '"')
    (hnumber : startsNumber c = false) (cs : List Char) :
    (wordFrom c cs).1.Fits (wordFrom c cs).2 := by
  refine Or.inr ⟨⟨c, _, rfl, hquote, hnumber, ?_⟩, endsName_dropWhile cs⟩
  intro d hd
  rcases List.mem_cons.1 hd with rfl | hd
  · exact hword
  · simpa using List.mem_takeWhile_imp hd

/-- The first lexeme of a source is one that the grammar allows. -/
theorem fits_first (c : Char) (cs : List Char) : (first c cs).1.Fits (first c cs).2 := by
  unfold first
  split
  · next hblank => exact hblank
  split
  · trivial
  split
  · trivial
  split
  · exact fits_textFrom cs
  split
  · next hnumber => exact fits_numberFrom hnumber cs
  · next hblank hopen hclose hquote hnumber =>
    exact fits_wordFrom (by simp [endsWord, hblank, hopen, hclose]) hquote
      (by simpa using hnumber) cs

/-! ## What fits is taken off -/

theorem textFrom_append {body : List Char} (hq : '"' ∉ body) (rest : List Char) :
    textFrom (body ++ '"' :: rest) = (.text body, rest) := by
  have hne : ∀ c ∈ body, (c != '"') = true := by
    intro c hc
    rw [bne_iff_ne]
    rintro rfl
    exact hq hc
  unfold textFrom
  rw [List.dropWhile_append_of_pos hne, List.takeWhile_append_of_pos hne]
  simp

theorem textFrom_of_notMem {body : List Char} (hq : '"' ∉ body) :
    textFrom body = (.openText body, []) := by
  have hdrop : body.dropWhile (· != '"') = [] := by
    rw [List.dropWhile_eq_nil_iff]
    intro c hc
    rw [bne_iff_ne]
    rintro rfl
    exact hq hc
  unfold textFrom
  rw [hdrop]

/-- The digits of a number, with or without a sign, are what is read first. -/
theorem span_whole {whole rest cs : List Char} {c : Char} (hw : IsWhole whole)
    (hrest : EndsDigits rest) (h : whole ++ rest = c :: cs) :
    startsNumber c = true ∧ c :: cs.takeWhile Char.isDigit = whole ∧
      cs.dropWhile Char.isDigit = rest := by
  obtain ⟨sign, digits, rfl, hs, hne, hd⟩ := hw
  rcases hs with rfl | hsign
  · obtain ⟨d, ds, rfl⟩ := List.exists_cons_of_ne_nil hne
    have hds : AllDigits ds := by
      intro x hx
      exact hd x (List.mem_cons_of_mem _ hx)
    rw [List.nil_append, List.cons_append] at h
    obtain ⟨rfl, rfl⟩ := List.cons.inj h
    refine ⟨by simp [startsNumber, hd d List.mem_cons_self], ?_, dropWhile_digits hds hrest⟩
    rw [takeWhile_digits hds hrest, List.nil_append]
  · obtain ⟨d, rfl⟩ : ∃ d, sign = [d] := by rcases hsign with rfl | rfl <;> exact ⟨_, rfl⟩
    rw [List.append_assoc, List.singleton_append] at h
    obtain ⟨rfl, rfl⟩ := List.cons.inj h
    refine ⟨?_, ?_, dropWhile_digits hd hrest⟩
    · rcases hsign with hd | hd <;> cases hd <;> rfl
    · rw [takeWhile_digits hd hrest, List.singleton_append]

/-- After a sign with no digit, nothing more is read at first. -/
theorem span_sign {sign rest cs : List Char} {c : Char} (hs : IsSign sign)
    (hrest : EndsDigits rest) (h : sign ++ rest = c :: cs) :
    startsNumber c = true ∧ c :: cs.takeWhile Char.isDigit = sign ∧
      cs.dropWhile Char.isDigit = rest := by
  have htake := takeWhile_digits allDigits_nil hrest
  have hdrop := dropWhile_digits allDigits_nil hrest
  rcases hs with rfl | rfl <;> obtain ⟨rfl, rfl⟩ := List.cons.inj h <;>
    exact ⟨rfl, congrArg _ htake, hdrop⟩

theorem first_of_startsNumber {c : Char} (hc : startsNumber c = true) (cs : List Char) :
    first c cs = numberFrom c cs := by
  -- what begins a number is none of the characters that are asked for first
  have hother : ∀ d, startsNumber d = false → c ≠ d := by
    rintro d hd rfl
    rw [hd] at hc
    cases hc
  have hblank : isBlank c = false := by
    simp [isBlank, hother ' ' rfl, hother '\t' rfl, hother '\n' rfl, hother '\r' rfl]
  unfold first
  rw [if_neg (by simp [hblank]), if_neg (hother '(' rfl), if_neg (hother ')' rfl),
    if_neg (hother '"' rfl), if_pos hc]

theorem fractionFrom_append {fraction rest : List Char} (digits : List Char)
    (hf : AllDigits fraction) (hrest : EndsNumber rest) :
    fractionFrom digits (fraction ++ rest) = (.number (digits ++ fraction), rest) := by
  unfold fractionFrom
  rw [takeWhile_digits hf hrest.endsDigits, dropWhile_digits hf hrest.endsDigits]
  dsimp only
  split
  · exact absurd hrest EndsNumber.not_point
  · rfl

theorem fractionFrom_append_point {fraction : List Char} (digits : List Char)
    (hf : AllDigits fraction) (tail : List Char) :
    fractionFrom digits (fraction ++ '.' :: tail) =
      (.brokenNumber (digits ++ fraction), '.' :: tail) := by
  unfold fractionFrom
  rw [takeWhile_digits hf (endsDigits_point tail), dropWhile_digits hf (endsDigits_point tail)]
  rfl

/-- Digits with no point behind them are a number. -/
theorem first_of_whole {whole rest cs : List Char} {c : Char} (hw : IsWhole whole)
    (hrest : EndsNumber rest) (h : whole ++ rest = c :: cs) :
    first c cs = (.number whole, rest) := by
  obtain ⟨hc, htake, hdrop⟩ := span_whole hw hrest.endsDigits h
  rw [first_of_startsNumber hc]
  unfold numberFrom
  rw [htake, hdrop]
  dsimp only
  rw [if_pos hw.any]
  split
  · exact absurd hrest EndsNumber.not_point
  · rfl

/-- A point behind digits is read with the digits that follow it. -/
theorem first_of_pointed {whole rest cs : List Char} {c : Char} (hw : IsWhole whole)
    (h : whole ++ '.' :: rest = c :: cs) :
    first c cs = fractionFrom (whole ++ ['.']) rest := by
  obtain ⟨hc, htake, hdrop⟩ := span_whole hw (endsDigits_point _) h
  rw [first_of_startsNumber hc]
  unfold numberFrom
  rw [htake, hdrop]
  exact if_pos hw.any

/-- A sign with no digit behind it is a word. -/
theorem first_of_sign {sign rest cs : List Char} {c : Char} (hs : IsSign sign)
    (hrest : EndsNumber rest) (h : sign ++ rest = c :: cs) :
    first c cs = (.word sign, rest) := by
  obtain ⟨hc, htake, hdrop⟩ := span_sign hs hrest.endsDigits h
  rw [first_of_startsNumber hc]
  unfold numberFrom
  rw [htake, hdrop]
  dsimp only
  rw [if_neg (by simp [hs.not_any])]
  split
  · exact absurd hrest EndsNumber.not_point
  · rfl

theorem first_of_sign_point {sign tail cs : List Char} {c : Char} (hs : IsSign sign)
    (h : sign ++ '.' :: tail = c :: cs) :
    first c cs = (.brokenNumber sign, '.' :: tail) := by
  obtain ⟨hc, htake, hdrop⟩ := span_sign hs (endsDigits_point tail) h
  rw [first_of_startsNumber hc]
  unfold numberFrom
  rw [htake, hdrop]
  exact if_neg (by simp [hs.not_any])

theorem first_of_name {name rest cs : List Char} {c : Char} (hn : IsName name)
    (hrest : EndsName rest) (h : name ++ rest = c :: cs) :
    first c cs = (.word name, rest) := by
  obtain ⟨d, tail, rfl, hquote, hnumber, hword⟩ := hn
  rw [List.cons_append] at h
  obtain ⟨rfl, rfl⟩ := List.cons.inj h
  have hd := hword d List.mem_cons_self
  have htail : ∀ x ∈ tail, (!endsWord x) = true := by
    intro x hx
    simp [hword x (List.mem_cons_of_mem _ hx)]
  simp only [endsWord, Bool.or_eq_false_iff, decide_eq_false_iff_not] at hd
  unfold first
  rw [if_neg (by simp [hd.1.1]), if_neg hd.1.2, if_neg hd.2, if_neg hquote,
    if_neg (by simp [hnumber])]
  unfold wordFrom
  rw [List.takeWhile_append_of_pos htail, List.dropWhile_append_of_pos htail]
  cases rest with
  | nil => simp
  | cons e rest =>
      have he : endsWord e = true := hrest e rfl
      simp [he]

/-- The grammar leaves no choice: a lexeme that fits is the one that is taken off. -/
theorem first_eq_of_fits {l : Lexeme} {rest cs : List Char} {c : Char} (hfits : l.Fits rest)
    (h : l.chars ++ rest = c :: cs) : first c cs = (l, rest) := by
  cases l with
  | blank b =>
      obtain ⟨rfl, rfl⟩ := List.cons.inj h
      exact if_pos hfits
  | opening =>
      obtain ⟨rfl, rfl⟩ := List.cons.inj h
      rfl
  | closing =>
      obtain ⟨rfl, rfl⟩ := List.cons.inj h
      rfl
  | text body =>
      have h : '"' :: (body ++ '"' :: rest) = c :: cs := by simpa [chars] using h
      obtain ⟨rfl, rfl⟩ := List.cons.inj h
      exact textFrom_append hfits rest
  | openText body =>
      obtain ⟨hq, rfl⟩ := hfits
      rw [List.append_nil] at h
      obtain ⟨rfl, rfl⟩ := List.cons.inj h
      exact textFrom_of_notMem hq
  | number digits =>
      obtain ⟨hw | ⟨whole, fraction, rfl, hw, hf⟩, hend⟩ := hfits
      · exact first_of_whole hw hend h
      · have h : whole ++ '.' :: (fraction ++ rest) = c :: cs := by simpa [chars] using h
        rw [first_of_pointed hw h, fractionFrom_append _ hf hend]
        simp
  | brokenNumber digits =>
      obtain ⟨hs | ⟨whole, fraction, rfl, hw, hf⟩, tail, rfl⟩ := hfits
      · exact first_of_sign_point hs h
      · have h : whole ++ '.' :: (fraction ++ '.' :: tail) = c :: cs := by simpa [chars] using h
        rw [first_of_pointed hw h, fractionFrom_append_point _ hf]
        simp
  | word name =>
      rcases hfits with ⟨hs, hend⟩ | ⟨hn, hend⟩
      · exact first_of_sign hs hend h
      · exact first_of_name hn hend h

end Lexeme
end Sexpr
