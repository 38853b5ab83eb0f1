import Mathlib
import Sexpr.Json.Symbol
import Sexpr.Proofs.Binary64.Text
import Sexpr.Proofs.Lexeme

/-!
# The text of a number as a literal

The printed form of a number has no zero in front of another digit
(`positional_whole`). So it is a decimal literal as well, whose digits are those of
the printed numeral (`numberFrom_printed`) and whose value is the number
(`ofNumeral_printed`).
-/

namespace Sexpr

/-! ## No zero in front -/

theorem head_toDigits {n : Nat} (hn : n ≠ 0) : (Nat.toDigits 10 n).head? ≠ some '0' := by
  induction n using Nat.strong_induction_on with
  | h n ih =>
      rw [Nat.toDigits_eq_if (by decide)]
      split
      · next hsmall =>
        have hdigit : ∀ k < 10, k ≠ 0 → Nat.digitChar k ≠ '0' := by decide
        simpa using hdigit n hsmall hn
      · next hlarge =>
        have hhead := ih (n / 10) (by omega) (by omega)
        rw [List.head?_append_of_ne_nil _ Nat.toDigits_ne_nil]
        exact hhead

namespace Decimal

theorem trimmed_eq_zero (d : Decimal) : d.trimmed.digits = 0 → d.trimmed.exponent = 0 := by
  fun_induction trimmed d with
  | case1 => simp
  | case2 _ _ _ ih => exact ih
  | case3 d hne => exact fun h => absurd h hne

/-- A zero before the point stands alone. -/
theorem positional_whole {d : Decimal} (h : d.digits = 0 → d.exponent = 0) :
    d.positional.1 = ['0'] ∨ d.positional.1.head? ≠ some '0' := by
  unfold positional
  dsimp only
  split
  · by_cases hzero : d.digits = 0
    · left
      rw [hzero, h hzero]
      rfl
    · right
      rw [List.head?_append_of_ne_nil _ Nat.toDigits_ne_nil]
      exact head_toDigits hzero
  · next hsign =>
    obtain ⟨places, hplaces⟩ : ∃ places : Nat, places = (-d.exponent).toNat := ⟨_, rfl⟩
    have hne : d.digits ≠ 0 := by
      intro hzero
      have := h hzero
      omega
    rw [← hplaces, List.splitAt_eq]
    dsimp only
    rcases Nat.lt_or_ge places (Nat.toDigits 10 d.digits).length with hlong | hshort
    · -- the digits reach beyond the point
      right
      have hpadded : List.leftpad (places + 1) '0' (Nat.toDigits 10 d.digits) =
          Nat.toDigits 10 d.digits := by
        rw [List.leftpad, Nat.sub_eq_zero_of_le hlong, List.replicate_zero, List.nil_append]
      rw [hpadded, List.head?_take, if_neg (by omega)]
      exact head_toDigits hne
    · left
      have hlength : (List.leftpad (places + 1) '0' (Nat.toDigits 10 d.digits)).length =
          places + 1 := by
        rw [List.length_leftpad]
        omega
      rw [hlength, show places + 1 - places = 1 by omega, List.leftpad,
        show places + 1 - (Nat.toDigits 10 d.digits).length =
          places - (Nat.toDigits 10 d.digits).length + 1 by omega, List.replicate_succ]
      rfl

end Decimal

namespace Magnitude

theorem shortest_eq_zero (tie : Tie) (m : Magnitude) (h : (m.shortest tie).digits = 0) :
    (m.shortest tie).exponent = 0 := by
  unfold shortest at h ⊢
  dsimp only at h ⊢
  split at h
  · exact Decimal.trimmed_eq_zero _ h
  · exact Decimal.trimmed_eq_zero _ h

end Magnitude

/-! ## Reading the digits -/

/-- The digits are those of a number in JSON: a zero before the point stands alone. -/
structure Numeral.IsJson (n : Numeral) : Prop where
  nonempty : n.whole ≠ []
  whole : AllDigits n.whole
  zero : n.whole = ['0'] ∨ n.whole.head? ≠ some '0'
  fraction : AllDigits n.fraction

/-- How a power of ten is written: with either letter, and with a sign or without. -/
inductive SpellsExponent : List Char → Option Int → Prop
  | none : SpellsExponent [] none
  | some {letter : Char} {sign digits : List Char} (hletter : letter = 'e' ∨ letter = 'E')
      (hsign : sign = [] ∨ IsSign sign) (hne : digits ≠ []) (hdigits : AllDigits digits) :
      SpellsExponent (letter :: (sign ++ digits))
        (some (Numeral.signed (decide (sign = ['-'])) (Nat.ofDigitChars 10 digits 0)))

theorem spellsExponent_chars (e : Option Int) : SpellsExponent (Numeral.exponentChars e) e := by
  cases e with
  | none => exact .none
  | some e =>
      have hdigits := allDigits_toDigits e.natAbs
      unfold Numeral.exponentChars
      dsimp only
      by_cases he : e < 0
      · have hsign : ['-'] = [] ∨ IsSign ['-'] := Or.inr (Or.inr rfl)
        have hspells := SpellsExponent.some (Or.inl rfl) hsign Nat.toDigits_ne_nil hdigits
        have hvalue : Numeral.signed true e.natAbs = e := by
          simp only [Numeral.signed, if_true]
          omega
        rw [Nat.ofDigitChars_ten_toDigits, decide_eq_true rfl, hvalue] at hspells
        rwa [if_pos he]
      · have hsign : ['+'] = [] ∨ IsSign ['+'] := Or.inr (Or.inl rfl)
        have hspells := SpellsExponent.some (Or.inl rfl) hsign Nat.toDigits_ne_nil hdigits
        have hvalue : Numeral.signed false e.natAbs = e := by
          simp only [Numeral.signed, Bool.false_eq_true, if_false]
          omega
        rw [Nat.ofDigitChars_ten_toDigits, decide_eq_false (by decide), hvalue] at hspells
        rwa [if_neg he]

/-- The numeral is written like this in JSON. -/
structure Numeral.SpelledBy (n : Numeral) (cs : List Char) : Prop where
  isJson : n.IsJson
  chars : ∃ exponent, SpellsExponent exponent n.exponent ∧
    cs = signChars n.negative ++ n.whole ++ fractionChars n.fraction ++ exponent

theorem Numeral.IsJson.spelledBy_chars {n : Numeral} (hn : n.IsJson) : n.SpelledBy n.chars :=
  ⟨hn, _, spellsExponent_chars n.exponent, rfl⟩

/-- A numeral begins with a minus or a digit. -/
theorem Numeral.SpelledBy.exists_head {n : Numeral} {cs : List Char} (h : n.SpelledBy cs) :
    ∃ d ds, cs = d :: ds ∧ (d = '-' ∨ d.isDigit = true) := by
  obtain ⟨hn, exponent, -, rfl⟩ := h
  obtain ⟨d, ds, hwhole⟩ := List.exists_cons_of_ne_nil hn.nonempty
  cases n.negative with
  | true => exact ⟨'-', _, rfl, Or.inl rfl⟩
  | false =>
      rw [hwhole]
      exact ⟨d, _, rfl, Or.inr (hn.whole d (by rw [hwhole]; exact List.mem_cons_self))⟩

/-- No numeral goes on here. -/
def EndsNumeral (rest : List Char) : Prop :=
  ∀ c ∈ rest.head?, c.isDigit = false ∧ c ≠ '.' ∧ c ≠ 'e' ∧ c ≠ 'E'

theorem EndsNumeral.endsNumber {rest : List Char} (h : EndsNumeral rest) : EndsNumber rest := by
  intro c hc
  exact ⟨(h c hc).1, (h c hc).2.1⟩

namespace Json

theorem wholeFrom_append {whole rest : List Char} (hne : whole ≠ []) (hwhole : AllDigits whole)
    (hzero : whole = ['0'] ∨ whole.head? ≠ some '0') (hrest : EndsDigits rest) :
    wholeFrom (whole ++ rest) = some (whole, rest) := by
  unfold wholeFrom
  rw [takeWhile_digits hwhole hrest, dropWhile_digits hwhole hrest]
  split
  · contradiction
  · simp at hzero
  · rfl

theorem fractionFrom_append {fraction rest : List Char} (hfraction : AllDigits fraction)
    (hrest : EndsNumber rest) :
    fractionFrom (Numeral.fractionChars fraction ++ rest) = some (fraction, rest) := by
  unfold fractionFrom
  cases fraction with
  | nil =>
      rw [Numeral.fractionChars, List.nil_append]
      split
      · exact absurd hrest EndsNumber.not_point
      · rfl
  | cons d ds =>
      simp only [Numeral.fractionChars, List.cons_append]
      rw [← List.cons_append, takeWhile_digits hfraction hrest.endsDigits,
        dropWhile_digits hfraction hrest.endsDigits]

/-- A power of ten, or none where no letter begins one. -/
theorem exponentFrom_append {exponent rest : List Char} {e : Option Int}
    (he : SpellsExponent exponent e) (hrest : EndsNumeral rest) :
    exponentFrom (exponent ++ rest) = some (e, rest) := by
  cases he with
  | none =>
      rw [List.nil_append]
      cases rest with
      | nil => rfl
      | cons c cs => simp [exponentFrom, hrest c rfl]
  | @some letter sign digits hletter hsign hne hdigits =>
      have htake := takeWhile_digits hdigits hrest.endsNumber.endsDigits
      have hdrop := dropWhile_digits hdigits hrest.endsNumber.endsDigits
      have hread : Numeral.takeSign (sign ++ digits ++ rest) =
          (decide (sign = ['-']), digits ++ rest) := Numeral.takeSign_append hsign hne hdigits
      rw [List.cons_append, exponentFrom, if_pos (by simpa using hletter), hread]
      dsimp only
      rw [htake, hdrop]
      split
      · contradiction
      · rfl

/-- A numeral of JSON is read, however it is written. -/
theorem numberFrom_spelling {n : Numeral} {cs : List Char} (h : n.SpelledBy cs) {rest : List Char}
    (hrest : EndsNumeral rest) : numberFrom (cs ++ rest) = some (.number n, rest) := by
  obtain ⟨negative, whole, fraction, e⟩ := n
  obtain ⟨⟨hne, hwhole, hzero, hfraction⟩, exponent, hspells, rfl⟩ := h
  have hexponent : EndsNumber (exponent ++ rest) := by
    cases hspells with
    | none => exact hrest.endsNumber
    | some hletter =>
        rintro c ⟨⟩
        rcases hletter with rfl | rfl <;> exact ⟨rfl, by decide⟩
  have hpoint : EndsDigits (Numeral.fractionChars fraction ++ (exponent ++ rest)) := by
    cases fraction with
    | nil => exact hexponent.endsDigits
    | cons d ds => exact endsDigits_point _
  have hread := wholeFrom_append hne hwhole hzero hpoint
  have hfractionRead := fractionFrom_append hfraction hexponent
  have hexponentRead := exponentFrom_append hspells hrest
  unfold numberFrom
  simp only [List.append_assoc]
  cases negative with
  | true => simp [Numeral.signChars, hread, hfractionRead, hexponentRead]
  | false =>
      obtain ⟨c, cs, rfl⟩ := List.exists_cons_of_ne_nil hne
      have hminus : c ≠ '-' := by
        rintro rfl
        cases hwhole '-' List.mem_cons_self
      rw [Numeral.signChars, if_neg (by decide), List.nil_append]
      simp only [List.cons_append] at hread ⊢
      split
      · next h =>
        cases h
        exact absurd rfl hminus
      · simp [hread, hfractionRead, hexponentRead]

end Json

namespace Binary64

theorem text_negative (m : Magnitude) :
    (text (.finite true m)).toList = '-' :: (text (.finite false m)).toList := by
  rw [toList_text, toList_text]
  rfl

theorem exists_digit_text (m : Magnitude) :
    ∃ c cs, (text (.finite false m)).toList = c :: cs ∧ c.isDigit = true := by
  obtain ⟨hne, hwhole, -, -⟩ := (m.shortest .up).positional_spec
  obtain ⟨c, cs, hcs⟩ := List.exists_cons_of_ne_nil hne
  rw [toList_text, hcs]
  exact ⟨c, _, rfl, hwhole c (by rw [hcs]; exact List.mem_cons_self)⟩

/-- The printed form of a number without a minus is a literal with the digits of the
printed numeral. -/
theorem numberFrom_printed (m : Magnitude) {rest : List Char} (hrest : EndsNumeral rest) :
    Json.numberFrom ((text (.finite false m)).toList ++ rest) =
      some (.number (printedNumeral false m), rest) := by
  obtain ⟨hne, hwhole, hfraction, -⟩ := (m.shortest .up).positional_spec
  have hjson : (printedNumeral false m).IsJson :=
    ⟨hne, hwhole, Decimal.positional_whole (m.shortest_eq_zero .up), hfraction⟩
  rw [text, String.toList_ofList]
  exact Json.numberFrom_spelling hjson.spelledBy_chars hrest

/-- The value of the printed numeral is the number. -/
theorem ofNumeral_printed (negative : Bool) (m : Magnitude) :
    ofNumeral (printedNumeral negative m) = .finite negative m := by
  obtain ⟨-, -, -, hvalue⟩ := (m.shortest .up).positional_spec
  have hback : Magnitude.ofDecimal (m.shortest .up).digits (m.shortest .up).exponent = some m :=
    m.readsBack_shortest .up
  rw [hback] at hvalue
  simp only [ofNumeral, printedNumeral, Numeral.digits, Numeral.scale, Option.getD_none,
    Int.zero_sub, hvalue, ofRounded]

end Binary64
end Sexpr
