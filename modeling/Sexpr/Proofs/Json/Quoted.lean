import Mathlib
import Sexpr.Json.Quoted
import Sexpr.Json.Symbol

/-!
# Quoted strings are read back

The text between two quotes is cut into pieces (`Body`), and the pieces spell a text
(`Spells`) or, with half of a surrogate pair among them, none. Every such string is read
as what it spells (`unquote_body`). The written form of a text is one of them, so it is
read as that text, whatever comes behind the closing quote (`unquote_quoted`).
-/

namespace Sexpr
namespace Json

/-! ## Spellings -/

/-- What stands between two quotes, cut into pieces: a piece is written as it is, by a
letter behind a backslash, or by four hexadecimal digits. -/
inductive Body : List Char → List Piece → Prop
  | nil : Body [] []
  | bare {c : Char} {cs : List Char} {ps : List Piece} (hquote : c ≠ '"') (hslash : c ≠ '\\')
      (hcontrol : ¬ c.toNat < 0x20) (h : Body cs ps) : Body (c :: cs) (.char c :: ps)
  | letter {l c : Char} {cs : List Char} {ps : List Piece} (hl : unescape? l = some c)
      (h : Body cs ps) : Body ('\\' :: l :: cs) (.char c :: ps)
  | unit {i j k l : Char} {code : Nat} {cs : List Char} {ps : List Piece}
      (hcode : hexUnit? i j k l = some code) (h : Body cs ps) :
      Body ('\\' :: 'u' :: i :: j :: k :: l :: cs) (.unit code :: ps)

/-- The text that pieces spell. A unit is a character of its own, or two units are the
halves of one that is beyond 16 bits. -/
inductive Spells : List Piece → List Char → Prop
  | nil : Spells [] []
  | char {c : Char} {ps : List Piece} {cs : List Char} (h : Spells ps cs) :
      Spells (.char c :: ps) (c :: cs)
  | unit {c : Char} {ps : List Piece} {cs : List Char} (hc : c.toNat < 0x10000)
      (h : Spells ps cs) : Spells (.unit c.toNat :: ps) (c :: cs)
  | halves {c : Char} {ps : List Piece} {cs : List Char} (hc : 0x10000 ≤ c.toNat)
      (h : Spells ps cs) :
      Spells (.unit (0xD800 + (c.toNat - 0x10000) / 0x400) ::
        .unit (0xDC00 + (c.toNat - 0x10000) % 0x400) :: ps) (c :: cs)

/-- The pieces spell this text; or they spell none. -/
def HasContent (ps : List Piece) : Option String → Prop
  | some content => Spells ps content.toList
  | none => ∀ cs, ¬ Spells ps cs

/-! ## Reading the pieces -/

theorem hexDigit?_lt {c : Char} {n : Nat} (h : hexDigit? c = some n) : n < 16 := by
  unfold hexDigit? at h
  simp only [Char.isDigit, Bool.and_eq_true, decide_eq_true_eq, ge_iff_le, Char.le_def,
    UInt32.le_iff_toNat_le, Char.reduceVal, UInt32.reduceToNat, Char.reduceToNat] at h
  have hc : c.toNat = c.val.toNat := rfl
  split at h
  · cases h
    omega
  split at h
  · cases h
    omega
  split at h
  · cases h
    omega
  · cases h

theorem hexUnit?_lt {i j k l : Char} {code : Nat} (h : hexUnit? i j k l = some code) :
    code < 0x10000 := by
  obtain ⟨a, ha, h⟩ := Option.bind_eq_some_iff.1 h
  obtain ⟨b, hb, h⟩ := Option.bind_eq_some_iff.1 h
  obtain ⟨c, hc, h⟩ := Option.bind_eq_some_iff.1 h
  obtain ⟨d, hd, h⟩ := Option.bind_eq_some_iff.1 h
  have := hexDigit?_lt ha
  have := hexDigit?_lt hb
  have := hexDigit?_lt hc
  have := hexDigit?_lt hd
  cases h
  omega

namespace Body

variable {cs rest : List Char} {ps : List Piece}

/-- The pieces are read, up to the closing quote. -/
theorem piecesTo (h : Body cs ps) (done : List Piece) (rest : List Char) :
    piecesTo done (cs ++ '"' :: rest) = some (done.reverse ++ ps, rest) := by
  induction h generalizing done with
  | nil => simp [Json.piecesTo]
  | bare hquote hslash hcontrol _ ih =>
      rw [List.cons_append, Json.piecesTo, if_neg (by simp [hslash, hcontrol]), ih,
        List.reverse_cons, List.append_assoc, List.singleton_append]
      · exact hquote
      · rintro _ _ _ _ _ rfl
        exact absurd rfl hslash
      · rintro _ _ rfl
        exact absurd rfl hslash
  | letter hl _ ih =>
      rw [List.cons_append, List.cons_append, Json.piecesTo, hl]
      · dsimp only
        rw [ih, List.reverse_cons, List.append_assoc, List.singleton_append]
      · rintro _ _ _ _ _ rfl
        cases hl
  | unit hcode _ ih =>
      simp only [List.cons_append, Json.piecesTo, hcode]
      rw [ih, List.reverse_cons, List.append_assoc, List.singleton_append]

/-- Four hexadecimal digits are the code of 16 bits. -/
theorem unit_lt (h : Body cs ps) : ∀ code, .unit code ∈ ps → code < 0x10000 := by
  induction h with
  | nil => exact nofun
  | bare _ _ _ _ ih | letter _ _ ih =>
      intro code hcode
      exact ih code (by simpa using hcode)
  | unit hunit _ ih =>
      intro code hcode
      rcases List.mem_cons.1 hcode with heq | hcode
      · cases heq
        exact hexUnit?_lt hunit
      · exact ih code hcode

end Body

/-! ## Joining the pieces -/

/-- A unit that is no half is a character of its own. -/
theorem joinTo_unit {code : Nat} (hhigh : isHighHalf code = false) (hlow : isLowHalf code = false)
    (done : List Char) (ps : List Piece) :
    joinTo done (.unit code :: ps) = joinTo (Char.ofNat code :: done) ps := by
  rcases ps with _ | ⟨c | low, ps⟩ <;> simp [joinTo, hhigh, hlow]

theorem not_half (c : Char) : isHighHalf c.toNat = false ∧ isLowHalf c.toNat = false := by
  have hvalid : c.toNat.isValidChar := c.valid
  simp only [isHighHalf, isLowHalf, Bool.and_eq_false_iff, decide_eq_false_iff_not]
  unfold Nat.isValidChar at hvalid
  omega

/-- A code of 16 bits that is no half is that of a character. -/
theorem toNat_ofNat_of_not_half {code : Nat} (hcode : code < 0x10000)
    (hhigh : isHighHalf code = false) (hlow : isLowHalf code = false) :
    (Char.ofNat code).toNat = code := by
  rw [Char.toNat_ofNat, if_pos]
  simp only [isHighHalf, isLowHalf, Bool.and_eq_false_iff, decide_eq_false_iff_not] at hhigh hlow
  unfold Nat.isValidChar
  omega

/-- The halves of a character make up that character. -/
theorem ofHalves_halves {c : Char} (hc : 0x10000 ≤ c.toNat) :
    ofHalves (0xD800 + (c.toNat - 0x10000) / 0x400) (0xDC00 + (c.toNat - 0x10000) % 0x400) = c := by
  have hcode : 0x10000 + (0xD800 + (c.toNat - 0x10000) / 0x400 - 0xD800) * 0x400 +
      (0xDC00 + (c.toNat - 0x10000) % 0x400 - 0xDC00) = c.toNat := by omega
  rw [ofHalves, hcode, Char.ofNat_toNat]

theorem toNat_ofHalves {high low : Nat} (hhigh : isHighHalf high = true)
    (hlow : isLowHalf low = true) :
    (ofHalves high low).toNat = 0x10000 + (high - 0xD800) * 0x400 + (low - 0xDC00) := by
  simp only [isHighHalf, isLowHalf, Bool.and_eq_true, decide_eq_true_eq] at hhigh hlow
  rw [ofHalves, Char.toNat_ofNat, if_pos]
  unfold Nat.isValidChar
  omega

/-- Any two halves are those of a character. -/
theorem Spells.of_halves {high low : Nat} {ps : List Piece} {cs : List Char}
    (hhigh : isHighHalf high = true) (hlow : isLowHalf low = true) (h : Spells ps cs) :
    Spells (.unit high :: .unit low :: ps) (ofHalves high low :: cs) := by
  have hcode := toNat_ofHalves hhigh hlow
  have hspells := h.halves (c := ofHalves high low) (by omega)
  simp only [isHighHalf, isLowHalf, Bool.and_eq_true, decide_eq_true_eq] at hhigh hlow
  rwa [hcode, show 0xD800 + (0x10000 + (high - 0xD800) * 0x400 + (low - 0xDC00) - 0x10000) / 0x400 =
      high by omega,
    show 0xDC00 + (0x10000 + (high - 0xD800) * 0x400 + (low - 0xDC00) - 0x10000) % 0x400 =
      low by omega] at hspells

theorem Spells.of_unit {code : Nat} {ps : List Piece} {cs : List Char} (hcode : code < 0x10000)
    (hhigh : isHighHalf code = false) (hlow : isLowHalf code = false) (h : Spells ps cs) :
    Spells (.unit code :: ps) (Char.ofNat code :: cs) := by
  have hchar := toNat_ofNat_of_not_half hcode hhigh hlow
  have hspells := h.unit (c := Char.ofNat code) (by omega)
  rwa [hchar] at hspells

/-- Pieces are joined to the text that they spell. -/
theorem Spells.joinTo {ps : List Piece} {cs : List Char} (h : Spells ps cs) (done : List Char) :
    joinTo done ps = some (done.reverse ++ cs) := by
  induction h generalizing done with
  | nil => simp [Json.joinTo]
  | char _ ih => simp [Json.joinTo, ih]
  | @unit c _ _ hc _ ih =>
      obtain ⟨hhigh, hlow⟩ := not_half c
      rw [joinTo_unit hhigh hlow, Char.ofNat_toNat, ih]
      simp
  | @halves c _ _ hc _ ih =>
      have hvalid : c.toNat.isValidChar := c.valid
      unfold Nat.isValidChar at hvalid
      have hhigh : isHighHalf (0xD800 + (c.toNat - 0x10000) / 0x400) = true := by
        simp only [isHighHalf, Bool.and_eq_true, decide_eq_true_eq]
        omega
      have hlow : isLowHalf (0xDC00 + (c.toNat - 0x10000) % 0x400) = true := by
        simp only [isLowHalf, Bool.and_eq_true, decide_eq_true_eq]
        omega
      rw [Json.joinTo, if_pos hhigh, if_pos hlow, ofHalves_halves hc, ih]
      simp

/-- Pieces that are joined do spell a text. -/
theorem spells_of_joinTo {ps : List Piece} {done cs : List Char}
    (hps : ∀ code, .unit code ∈ ps → code < 0x10000) (h : joinTo done ps = some cs) :
    ∃ ds, Spells ps ds := by
  fun_induction joinTo done ps with
  | case1 => exact ⟨[], .nil⟩
  | case2 done c ps ih =>
      obtain ⟨ds, hds⟩ := ih (fun code hcode => hps code (List.mem_cons_of_mem _ hcode)) h
      exact ⟨_, hds.char⟩
  | case3 done high low ps hhigh hlow ih =>
      obtain ⟨ds, hds⟩ := ih (fun code hcode => hps code (by simp [hcode])) h
      exact ⟨_, .of_halves hhigh hlow hds⟩
  | case4 => cases h
  | case5 => cases h
  | case6 done high low ps hhigh hlow ih =>
      obtain ⟨ds, hds⟩ := ih (fun code hcode => hps code (List.mem_cons_of_mem _ hcode)) h
      exact ⟨_, .of_unit (hps high List.mem_cons_self) (by simpa using hhigh)
        (by simpa using hlow) hds⟩
  | case7 => cases h
  | case8 done code ps _ hhalf ih =>
      obtain ⟨ds, hds⟩ := ih (fun code hcode => hps code (List.mem_cons_of_mem _ hcode)) h
      rw [Bool.or_eq_true, not_or] at hhalf
      exact ⟨_, .of_unit (hps code List.mem_cons_self) (by simpa using hhalf.1)
        (by simpa using hhalf.2) hds⟩

/-- **A string is read as what it spells**, and what comes behind it is left. -/
theorem unquote_body {body : List Char} {ps : List Piece} {content : Option String}
    (hbody : Body body ps) (hps : HasContent ps content) (rest : List Char) :
    unquote (body ++ '"' :: rest) = some (content, rest) := by
  have hpieces := hbody.piecesTo [] rest
  rw [List.reverse_nil, List.nil_append] at hpieces
  unfold unquote
  rw [hpieces]
  cases content with
  | some content => simp [Spells.joinTo hps]
  | none =>
      have hjoined : joinTo [] ps = none := by
        rw [Option.eq_none_iff_forall_ne_some]
        intro cs hcs
        obtain ⟨ds, hds⟩ := spells_of_joinTo hbody.unit_lt hcs
        exact hps ds hds
      simp [hjoined]

theorem length_of_unquote {cs rest : List Char} {content : Option String}
    (h : unquote cs = some (content, rest)) : rest.length < cs.length := by
  obtain ⟨⟨pieces, behind⟩, hpieces, hjoined⟩ := Option.map_eq_some_iff.1 h
  cases hjoined
  exact length_of_piecesTo hpieces

/-! ## The written form -/

/-- The three written forms: a short escape, the code of a control character, and the
character itself. -/
theorem escape_cases (c : Char) :
    (∃ letter, escape c = ['\\', letter] ∧ unescape? letter = some c) ∨
    (escape c = hexEscape c ∧ c.toNat < 0x20) ∨
    (escape c = [c] ∧ c ≠ '"' ∧ c ≠ '\\' ∧ ¬ c.toNat < 0x20) := by
  unfold escape
  split
  case h_8 hquote hslash _ _ _ _ _ =>
    split
    · next hcontrol => exact Or.inr (Or.inl ⟨rfl, hcontrol⟩)
    · next hcontrol => exact Or.inr (Or.inr ⟨rfl, hquote, hslash, hcontrol⟩)
  all_goals exact Or.inl ⟨_, rfl, rfl⟩

/-- The digits of a control character spell its code. -/
theorem hexUnit?_hexEscape {n : Nat} (h : n < 0x20) :
    hexUnit? '0' '0' (Nat.digitChar (n / 16)) (Nat.digitChar (n % 16)) = some n := by
  have hall : ∀ n < 0x20,
      hexUnit? '0' '0' (Nat.digitChar (n / 16)) (Nat.digitChar (n % 16)) = some n := by decide
  exact hall n h

/-- The written form of a text is cut into pieces that spell it. -/
theorem exists_body_flatMap (text : List Char) :
    ∃ ps, Body (text.flatMap escape) ps ∧ Spells ps text := by
  induction text with
  | nil => exact ⟨[], .nil, .nil⟩
  | cons c text ih =>
      obtain ⟨ps, hbody, hspells⟩ := ih
      rw [List.flatMap_cons]
      rcases escape_cases c with ⟨letter, hescape, hletter⟩ | ⟨hescape, hcontrol⟩ |
        ⟨hescape, hquote, hslash, hcontrol⟩
      · rw [hescape]
        exact ⟨_, .letter hletter hbody, .char hspells⟩
      · rw [hescape]
        exact ⟨_, .unit (hexUnit?_hexEscape hcontrol) hbody,
          .unit (hcontrol.trans (by decide)) hspells⟩
      · rw [hescape]
        exact ⟨_, .bare hquote hslash hcontrol hbody, .char hspells⟩

/-- **A quoted text is read as that text.** -/
theorem unquote_quoted (text rest : List Char) :
    unquote (text.flatMap escape ++ '"' :: rest) = some (some (String.ofList text), rest) := by
  obtain ⟨ps, hbody, hspells⟩ := exists_body_flatMap text
  apply unquote_body hbody
  rwa [HasContent, String.toList_ofList]

end Json
end Sexpr
