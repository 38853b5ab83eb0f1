import Mathlib
import Sexpr.Binary64.Text
import Sexpr.Proofs.Binary64.Decimal
import Sexpr.Proofs.Numeral

/-!
# The text of a number is read back

Every plain number is read as the number nearest to its exact value
(`ofText?_of_isNumber`). The printed form of a finite number is a plain number
(`isNumber_text`) and is read as that number, sign of zero included
(`ofText?_text`).
-/

namespace Sexpr

/-! ## The positional form -/

theorem allDigits_replicate (n : Nat) : AllDigits (List.replicate n '0') := by
  intro c hc
  rw [List.eq_of_mem_replicate hc]
  rfl

theorem AllDigits.append {xs ys : List Char} (hx : AllDigits xs) (hy : AllDigits ys) :
    AllDigits (xs ++ ys) := by
  intro c hc
  rcases List.mem_append.1 hc with hc | hc
  · exact hx c hc
  · exact hy c hc

namespace Decimal

/-- The positional form has a digit before the point and spells the same decimal. -/
theorem positional_spec (d : Decimal) :
    d.positional.1 ≠ [] ∧ AllDigits d.positional.1 ∧ AllDigits d.positional.2 ∧
      Magnitude.ofDecimal (Nat.ofDigitChars 10 (d.positional.1 ++ d.positional.2) 0)
        (-d.positional.2.length) = Magnitude.ofDecimal d.digits d.exponent := by
  unfold positional
  dsimp only
  split
  · next hsign =>
    refine ⟨by simp [Nat.toDigits_ne_nil],
      (allDigits_toDigits _).append (allDigits_replicate _),
      allDigits_nil, ?_⟩
    rw [List.append_nil, Nat.ofDigitChars_append, Nat.ofDigitChars_ten_toDigits,
      Nat.ofDigitChars_replicate_zero, Magnitude.ofDecimal_eq_nearest,
      Magnitude.ofDecimal_eq_nearest, show (-d.exponent).toNat = 0 by omega]
    simp [Nat.mul_comm]
  · next hsign =>
    -- zeros in front make up for digits that stand only behind the point
    obtain ⟨places, hplaces⟩ : ∃ places : Nat, places = (-d.exponent).toNat := ⟨_, rfl⟩
    have hexponent : d.exponent = -(places : Int) := by omega
    obtain ⟨padded, hpadded⟩ : ∃ padded, padded =
      List.leftpad (places + 1) '0' (Nat.toDigits 10 d.digits) := ⟨_, rfl⟩
    have hlength : places + 1 ≤ padded.length := by
      rw [hpadded, List.length_leftpad]
      exact Nat.le_max_left _ _
    have hdigits : AllDigits padded := by
      rw [hpadded]
      exact (allDigits_replicate _).append (allDigits_toDigits _)
    have hvalue : Nat.ofDigitChars 10 padded 0 = d.digits := by
      rw [hpadded, List.leftpad, Nat.ofDigitChars_append, Nat.ofDigitChars_replicate_zero,
        Nat.mul_zero, Nat.ofDigitChars_ten_toDigits]
    rw [← hplaces, ← hpadded, List.splitAt_eq]
    refine ⟨?_, ?_, ?_, ?_⟩
    · rw [← List.length_pos_iff, List.length_take]
      omega
    · intro c hc
      exact hdigits c (List.mem_of_mem_take hc)
    · intro c hc
      exact hdigits c (List.mem_of_mem_drop hc)
    · rw [List.take_append_drop, hvalue, List.length_drop, hexponent,
        show padded.length - (padded.length - places) = places by omega]

end Decimal

namespace Binary64

/-! ## Reading plain numbers -/

theorem toLower_of_isDigit {c : Char} (hc : c.isDigit = true) : c.toLower = c := by
  have hle : c.val ≤ 57 := by
    simp only [Char.isDigit, Bool.and_eq_true, decide_eq_true_eq] at hc
    exact hc.2
  unfold Char.toLower
  rw [dif_neg]
  rintro ⟨hge, -⟩
  exact absurd (UInt32.le_trans hge hle) (by decide)

/-- The words for values that are no numerals do not begin with a digit. -/
theorem ofWord?_of_isDigit {c : Char} (hc : c.isDigit = true) (negative : Bool) (cs : List Char) :
    ofWord? negative (c :: cs) = none := by
  have hhead : ∀ {d : Char} {ds : List Char} {word : String}, word.toList = d :: ds →
      String.ofList ((c :: cs).map Char.toLower) = word → c = d := by
    intro d ds word hword h
    have hlist := congrArg String.toList h
    rw [String.toList_ofList, List.map_cons, toLower_of_isDigit hc, hword] at hlist
    exact (List.cons.inj hlist).1
  unfold ofWord?
  split
  · next h => cases hhead rfl h; cases hc
  · next h => cases hhead rfl h; cases hc
  · next h => cases hhead rfl h; cases hc
  · rfl

theorem ofText?_append {sign digits point fraction : List Char}
    (hs : sign = [] ∨ IsSign sign) (hne : digits ≠ []) (hd : AllDigits digits)
    (hp : point = [] ∧ fraction = [] ∨ point = '.' :: fraction) (hf : AllDigits fraction) :
    ofText? (String.ofList (sign ++ digits ++ point)) =
      some (ofRounded (decide (sign = ['-']))
        (Magnitude.ofDecimal (Nat.ofDigitChars 10 (digits ++ fraction) 0) (-fraction.length))) := by
  -- a digit in front rules the words out
  have hword : ofWord? (decide (sign = ['-'])) (digits ++ point) = none := by
    obtain ⟨c, cs, rfl⟩ := List.exists_cons_of_ne_nil hne
    exact ofWord?_of_isDigit (hd c List.mem_cons_self) _ _
  unfold ofText?
  rw [String.toList_ofList, Numeral.takeSign_append hs hne hd]
  simp only [hword, Numeral.ofChars?_append hs hne hd hp hf, Option.map_some, ofNumeral,
    Numeral.digits, Numeral.scale, Option.getD_none, Int.zero_sub]

/-- A plain number is read as the number nearest to its exact value. -/
theorem ofText?_of_isNumber {text : String} (h : IsNumber text.toList) : ∃ negative,
    ofText? text = some (ofRounded negative
      (Magnitude.nearest (spelledDigits text.toList) (10 ^ spelledPlaces text.toList))) := by
  obtain ⟨sign, digits, point, fraction, htext, hs, hne, hd, hp, hf⟩ := h.parts
  refine ⟨decide (sign = ['-']), ?_⟩
  rw [htext, spelledDigits_append hs hd hp hf, spelledPlaces_append hs hd hp hf,
    ← String.ofList_toList (s := text), htext, ofText?_append hs hne hd hp hf,
    Magnitude.ofDecimal_eq_nearest, neg_neg, Int.toNat_neg_natCast, Int.toNat_natCast, pow_zero,
    Nat.mul_one]

theorem overflow_le_spelledValue_iff (cs : List Char) :
    (Magnitude.overflow : ℚ) ≤ spelledValue cs ↔
      Magnitude.overflow * 10 ^ spelledPlaces cs ≤ spelledDigits cs := by
  unfold spelledValue
  rw [le_div_iff₀ (by positivity)]
  exact_mod_cast Iff.rfl

/-- The plain numbers below `overflow` are the ones that are read as finite numbers. -/
theorem ofText?_finite_iff {text : String} (h : IsNumber text.toList) :
    (∃ negative m, ofText? text = some (.finite negative m)) ↔
      ¬ (Magnitude.overflow : ℚ) ≤ spelledValue text.toList := by
  obtain ⟨negative, hread⟩ := ofText?_of_isNumber h
  rw [overflow_le_spelledValue_iff,
    ← Magnitude.nearest_eq_none_iff (Nat.pow_pos (by decide)), hread]
  cases Magnitude.nearest _ _ with
  | none => simp [ofRounded]
  | some m => simp [ofRounded]

/-! ## Reading what is printed -/

theorem toList_text (negative : Bool) (m : Magnitude) : (text (.finite negative m)).toList =
    Numeral.signChars negative ++ (m.shortest .up).positional.1 ++
      Numeral.fractionChars (m.shortest .up).positional.2 := by
  simp [text, printedNumeral, Numeral.chars, Numeral.exponentChars]

theorem isSign_signChars (negative : Bool) :
    Numeral.signChars negative = [] ∨ IsSign (Numeral.signChars negative) := by
  cases negative
  · exact Or.inl rfl
  · exact Or.inr (Or.inr rfl)

theorem fractionChars_cases (fraction : List Char) :
    Numeral.fractionChars fraction = [] ∧ fraction = [] ∨
      Numeral.fractionChars fraction = '.' :: fraction := by
  cases fraction
  · exact Or.inl ⟨rfl, rfl⟩
  · exact Or.inr rfl

/-- The printed form of a finite number is a plain number. -/
theorem isNumber_text (negative : Bool) (m : Magnitude) :
    IsNumber (text (.finite negative m)).toList := by
  obtain ⟨hne, hwhole, hfraction, -⟩ := (m.shortest .up).positional_spec
  have hdigits : IsWhole (Numeral.signChars negative ++ (m.shortest .up).positional.1) :=
    ⟨_, _, rfl, isSign_signChars negative, hne, hwhole⟩
  rw [toList_text]
  rcases fractionChars_cases (m.shortest .up).positional.2 with ⟨h, -⟩ | h
  · rw [h, List.append_nil]
    exact Or.inl hdigits
  · rw [h]
    exact Or.inr ⟨_, _, rfl, hdigits, hfraction⟩

/-- What is neither a digit nor a point stands in no number without a minus. -/
theorem notMem_text {c : Char} (hdigit : c.isDigit = false) (hpoint : c ≠ '.') (m : Magnitude) :
    c ∉ (text (.finite false m)).toList := by
  obtain ⟨-, hwhole, hfraction, -⟩ := (m.shortest .up).positional_spec
  have hdigits : ∀ {ds : List Char}, AllDigits ds → c ∉ ds := by
    intro ds hds hmem
    cases hdigit.symm.trans (hds c hmem)
  rw [toList_text]
  rcases fractionChars_cases (m.shortest .up).positional.2 with ⟨hnone, -⟩ | hsome
  · simp [hnone, Numeral.signChars, hdigits hwhole]
  · simp [hsome, Numeral.signChars, hdigits hwhole, hdigits hfraction, hpoint]

/-- Printing a finite number and reading it again gives the same number. -/
theorem ofText?_text (negative : Bool) (m : Magnitude) :
    ofText? (text (.finite negative m)) = some (.finite negative m) := by
  obtain ⟨hne, hwhole, hfraction, hvalue⟩ := (m.shortest .up).positional_spec
  have hback : Magnitude.ofDecimal (m.shortest .up).digits (m.shortest .up).exponent = some m :=
    m.readsBack_shortest .up
  have hsign : decide (Numeral.signChars negative = ['-']) = negative := by
    cases negative <;> rfl
  rw [← String.ofList_toList (s := text _), toList_text,
    ofText?_append (isSign_signChars negative) hne hwhole (fractionChars_cases _) hfraction,
    hvalue, hback, hsign]
  rfl

end Binary64
end Sexpr
