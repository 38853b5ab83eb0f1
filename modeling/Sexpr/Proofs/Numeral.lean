import Mathlib
import Sexpr.Numeral

/-!
# Plain numbers

The spelling of numbers in a source: `[+-]?D+(.D*)?`, with `D` a decimal digit.
A plain number has no power of ten, and `Numeral.ofChars?` reads each of them.
-/

namespace Sexpr

/-- `[+-]` -/
def IsSign (cs : List Char) : Prop := cs = ['+'] ∨ cs = ['-']

/-- `D*` -/
def AllDigits (cs : List Char) : Prop := ∀ c ∈ cs, c.isDigit = true

/-- `[+-]?D+` -/
def IsWhole (cs : List Char) : Prop :=
  ∃ sign digits, cs = sign ++ digits ∧ (sign = [] ∨ IsSign sign) ∧ digits ≠ [] ∧ AllDigits digits

/-- `[+-]?D+.D*` -/
def IsPointed (cs : List Char) : Prop :=
  ∃ whole fraction, cs = whole ++ '.' :: fraction ∧ IsWhole whole ∧ AllDigits fraction

/-- `[+-]?D+(.D*)?` -/
def IsNumber (cs : List Char) : Prop := IsWhole cs ∨ IsPointed cs

/-- No digit follows. -/
def EndsDigits (rest : List Char) : Prop := ∀ c ∈ rest.head?, c.isDigit = false

/-! ## Runs of digits -/

theorem allDigits_nil : AllDigits [] := List.forall_mem_nil _

theorem endsDigits_nil : EndsDigits [] := by simp [EndsDigits]

theorem endsDigits_point (cs : List Char) : EndsDigits ('.' :: cs) := by
  simp [EndsDigits, Char.isDigit]

theorem takeWhile_digits {digits rest : List Char} (hd : AllDigits digits) (hr : EndsDigits rest) :
    (digits ++ rest).takeWhile Char.isDigit = digits := by
  rw [List.takeWhile_append_of_pos hd]
  cases rest with
  | nil => simp
  | cons c rest => simp [hr c rfl]

theorem dropWhile_digits {digits rest : List Char} (hd : AllDigits digits) (hr : EndsDigits rest) :
    (digits ++ rest).dropWhile Char.isDigit = rest := by
  rw [List.dropWhile_append_of_pos hd]
  cases rest with
  | nil => rfl
  | cons c rest => simp [hr c rfl]

theorem allDigits_takeWhile (cs : List Char) : AllDigits (cs.takeWhile Char.isDigit) :=
  fun _ h => List.mem_takeWhile_imp h

theorem allDigits_toDigits (n : Nat) : AllDigits (Nat.toDigits 10 n) :=
  fun _ => Nat.isDigit_of_mem_toDigits (by decide) (by decide)

theorem endsDigits_dropWhile (cs : List Char) : EndsDigits (cs.dropWhile Char.isDigit) := by
  intro c hc
  have hne := List.head?_dropWhile_not Char.isDigit cs
  rw [Option.mem_def.1 hc] at hne
  simpa using hne

theorem AllDigits.filter {digits : List Char} (hd : AllDigits digits) :
    digits.filter Char.isDigit = digits :=
  List.filter_eq_self.2 hd

theorem filter_sign {sign : List Char} (hs : sign = [] ∨ IsSign sign) :
    sign.filter Char.isDigit = [] := by
  rcases hs with rfl | rfl | rfl <;> decide

/-! ## What a plain number spells -/

/-- All the digits of a number, read as one natural number. -/
def spelledDigits (cs : List Char) : Nat := Nat.ofDigitChars 10 (cs.filter Char.isDigit) 0

/-- How many of the digits stand behind the point. -/
def spelledPlaces (cs : List Char) : Nat :=
  ((cs.dropWhile (· != '.')).filter Char.isDigit).length

/-- The exact value of a number, without its sign. -/
def spelledValue (cs : List Char) : ℚ := spelledDigits cs / 10 ^ spelledPlaces cs

namespace Numeral

variable {sign digits point fraction : List Char}

theorem takeSign_append {rest : List Char} (hs : sign = [] ∨ IsSign sign) (hne : digits ≠ [])
    (hd : AllDigits digits) :
    takeSign (sign ++ digits ++ rest) = (decide (sign = ['-']), digits ++ rest) := by
  obtain ⟨c, cs, rfl⟩ := List.exists_cons_of_ne_nil hne
  have hc : c.isDigit = true := hd c List.mem_cons_self
  rcases hs with rfl | rfl | rfl
  · have hplus : c ≠ '+' := by rintro rfl; cases hc
    have hminus : c ≠ '-' := by rintro rfl; cases hc
    simp [takeSign, hplus, hminus]
  · rfl
  · rfl

/-- A plain number is read as the numeral that has its digits. -/
theorem ofChars?_append (hs : sign = [] ∨ IsSign sign) (hne : digits ≠ [])
    (hd : AllDigits digits) (hp : point = [] ∧ fraction = [] ∨ point = '.' :: fraction)
    (hf : AllDigits fraction) :
    ofChars? (sign ++ digits ++ point) =
      some ⟨decide (sign = ['-']), digits, fraction, none⟩ := by
  have hend : EndsDigits point := by
    rcases hp with ⟨rfl, -⟩ | rfl
    · exact endsDigits_nil
    · exact endsDigits_point _
  have hwhole : digits.isEmpty = false := by simpa using hne
  have htake : fraction.takeWhile Char.isDigit = fraction := List.takeWhile_eq_self_iff.2 hf
  have hdrop : fraction.dropWhile Char.isDigit = [] := List.dropWhile_eq_nil_iff.2 hf
  unfold ofChars?
  rw [takeSign_append hs hne hd]
  dsimp only
  rw [takeWhile_digits hd hend, dropWhile_digits hd hend, hwhole]
  rcases hp with ⟨rfl, rfl⟩ | rfl
  · rfl
  · simp only [htake, hdrop]
    rfl

end Numeral

/-- A plain number in its parts. -/
theorem IsNumber.parts {cs : List Char} (h : IsNumber cs) :
    ∃ sign digits point fraction, cs = sign ++ digits ++ point ∧ (sign = [] ∨ IsSign sign) ∧
      digits ≠ [] ∧ AllDigits digits ∧
      (point = [] ∧ fraction = [] ∨ point = '.' :: fraction) ∧ AllDigits fraction := by
  rcases h with ⟨sign, digits, rfl, hs, hne, hd⟩ |
    ⟨_, fraction, rfl, ⟨sign, digits, rfl, hs, hne, hd⟩, hf⟩
  · exact ⟨sign, digits, [], [], (List.append_nil _).symm, hs, hne, hd, Or.inl ⟨rfl, rfl⟩,
      allDigits_nil⟩
  · exact ⟨sign, digits, _, fraction, rfl, hs, hne, hd, Or.inr rfl, hf⟩

/-- A number is made of digits, signs and points. -/
theorem IsNumber.notMem {cs : List Char} (h : IsNumber cs) {c : Char} (hdigit : c.isDigit = false)
    (hother : c ∉ ['+', '-', '.']) : c ∉ cs := by
  obtain ⟨sign, digits, point, fraction, rfl, hs, -, hd, hp, hf⟩ := h.parts
  have hdigits : ∀ {ds : List Char}, AllDigits ds → c ∉ ds := by
    intro ds hds hmem
    rw [hds c hmem] at hdigit
    cases hdigit
  simp only [List.mem_cons, List.not_mem_nil, or_false, not_or] at hother
  rw [List.mem_append, List.mem_append, not_or, not_or]
  refine ⟨⟨?_, hdigits hd⟩, ?_⟩
  · rcases hs with rfl | rfl | rfl <;> simp [hother]
  · rcases hp with ⟨rfl, -⟩ | rfl <;> simp [hother, hdigits hf]

theorem spelledDigits_append {sign digits point fraction : List Char}
    (hs : sign = [] ∨ IsSign sign) (hd : AllDigits digits)
    (hp : point = [] ∧ fraction = [] ∨ point = '.' :: fraction) (hf : AllDigits fraction) :
    spelledDigits (sign ++ digits ++ point) = Nat.ofDigitChars 10 (digits ++ fraction) 0 := by
  have hpoint : point.filter Char.isDigit = fraction := by
    rcases hp with ⟨rfl, rfl⟩ | rfl
    · rfl
    · rw [List.filter_cons_of_neg (by decide), hf.filter]
  unfold spelledDigits
  rw [List.filter_append, List.filter_append, filter_sign hs, hd.filter, hpoint, List.nil_append]

theorem spelledPlaces_append {sign digits point fraction : List Char}
    (hs : sign = [] ∨ IsSign sign) (hd : AllDigits digits)
    (hp : point = [] ∧ fraction = [] ∨ point = '.' :: fraction) (hf : AllDigits fraction) :
    spelledPlaces (sign ++ digits ++ point) = fraction.length := by
  have hbefore : ∀ c ∈ sign ++ digits, (c != '.') = true := by
    intro c hc
    rcases List.mem_append.1 hc with hc | hc
    · rcases hs with rfl | rfl | rfl <;> simp_all
    · rw [bne_iff_ne]
      rintro rfl
      cases hd _ hc
  unfold spelledPlaces
  rw [List.dropWhile_append_of_pos hbefore]
  rcases hp with ⟨rfl, rfl⟩ | rfl
  · rfl
  · rw [List.dropWhile_cons_of_neg (by decide), List.filter_cons_of_neg (by decide), hf.filter]

end Sexpr
