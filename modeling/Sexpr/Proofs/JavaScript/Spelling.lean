import Mathlib
import Sexpr.Proofs.JavaScript.Reader

/-!
# Texts of expressions

A text `Spells` an expression if it is made of symbols that yield it. The texts of
operands are told apart: they may stand between operators, with which they do not grow
together. For each way to put texts together there is a lemma that says what the whole
spells.
-/

namespace Sexpr
namespace JavaScript

variable {letters : Letters}

/-- The text is read as the expression. -/
def Spells (letters : Letters) (cs : List Char) (e : Expression) : Prop :=
  ∃ ss, Lexes letters cs ss ∧ Yields ss e

/-- No operator in front of the text grows together with it. -/
def Bare (cs : List Char) : Prop :=
  ∃ c tail, cs = c :: tail ∧ ∀ operator, (Mark.op operator).joins c = false

/-- The text is read as the expression, between operators as well. -/
def SpellsOperand (letters : Letters) (cs : List Char) (e : Expression) : Prop :=
  Bare cs ∧ ∃ ss, Lexes letters cs ss ∧ YieldsOperand ss e

theorem SpellsOperand.spells {cs : List Char} {e : Expression} (h : SpellsOperand letters cs e) :
    Spells letters cs e := by
  obtain ⟨-, ss, hlexes, hyields⟩ := h
  exact ⟨ss, hlexes, hyields.yields⟩

/-- What a punctuator goes on with is neither a digit nor part of a word. -/
theorem not_word_of_joins {m : Mark} {c : Char} (h : m.joins c = true) :
    c.isDigit = false ∧ c.isAlpha = false ∧ c ≠ '$' ∧ c ≠ '_' ∧ c.toNat < 0x80 := by
  have hall : punctuators.all (·.1.all fun d =>
      !d.isDigit && !d.isAlpha && d != '$' && d != '_' && d.toNat < 0x80) = true := by rfl
  obtain ⟨q, hq, hprefix⟩ := List.any_eq_true.1 h
  have hc : c ∈ q.1 := (List.isPrefixOf_iff_prefix.1 hprefix).subset (by simp)
  simpa [and_assoc] using List.all_eq_true.1 (List.all_eq_true.1 hall q hq) c hc

theorem joins_digit {c : Char} (h : c.isDigit = true) (m : Mark) : m.joins c = false := by
  rw [Bool.eq_false_iff]
  intro hjoins
  rw [(not_word_of_joins hjoins).1] at h
  cases h

theorem joins_start {c : Char} (h : letters.isStart c = true) (m : Mark) : m.joins c = false := by
  rw [Bool.eq_false_iff]
  intro hjoins
  obtain ⟨-, halpha, hdollar, hline, hsmall⟩ := not_word_of_joins hjoins
  simp [Letters.isStart, halpha, hdollar, hline] at h
  omega

/-! ### Words and literals -/

theorem SpellsOperand.name {name : String} (h : letters.isName name = true) :
    SpellsOperand letters name.toList (.name name) := by
  obtain ⟨hword, hreserved⟩ := Letters.isName_iff.1 h
  refine ⟨?_, _, Lexes.word hword, YieldsOperand.name hreserved⟩
  cases hname : name.toList with
  | nil =>
      rw [hname] at hword
      cases hword
  | cons c cs =>
      rw [hname, Letters.isWord, Bool.and_eq_true] at hword
      exact ⟨c, cs, rfl, fun _ => joins_start hword.1 _⟩

theorem SpellsOperand.null : SpellsOperand letters "null".toList .null := by
  have hstart : letters.isStart 'n' = true := rfl
  exact ⟨⟨'n', ['u', 'l', 'l'], rfl, fun _ => joins_start hstart _⟩, _, Lexes.word rfl,
    YieldsOperand.null⟩

theorem SpellsOperand.text (content : String) :
    SpellsOperand letters (Json.quote content).toList (.text content) := by
  refine ⟨?_, _, Lexes.text content, YieldsOperand.text content⟩
  refine ⟨'"', content.toList.flatMap Json.escape ++ ['"'], Json.toList_quoteTo "" content, ?_⟩
  intro operator
  cases operator <;> rfl

theorem bare_text (m : Magnitude) : Bare (Binary64.text (.finite false m)).toList := by
  obtain ⟨c, cs, hchars, hc⟩ := Binary64.exists_digit_text m
  exact ⟨c, cs, hchars, fun _ => joins_digit hc _⟩

theorem SpellsOperand.number (m : Magnitude) :
    SpellsOperand letters (Binary64.text (.finite false m)).toList (.number (.finite false m)) :=
  ⟨bare_text m, _, Lexes.number m, YieldsOperand.number _⟩

theorem Bare.joins {cs : List Char} (h : Bare cs) (operator : Operator) (rest : List Char) :
    ∀ c ∈ (cs ++ rest).head?, (Mark.op operator).joins c = false := by
  obtain ⟨c, tail, rfl, hjoins⟩ := h
  rintro d ⟨⟩
  exact hjoins operator

theorem Spells.negative (m : Magnitude) :
    Spells letters (Binary64.text (.finite true m)).toList
      (.negative (.number (.finite false m))) := by
  rw [Binary64.text_negative]
  exact ⟨_, Lexes.mark (.op .minus) (Lexes.number m) ((bare_text m).joins .minus),
    Yields.negative (YieldsOperand.number _)⟩

/-! ### Lists -/

variable {cs : List Char} {e : Expression} {texts : List (List Char)} {es : List Expression}

theorem bare_bracket (cs : List Char) : Bare ('(' :: cs) := by
  refine ⟨'(', cs, rfl, ?_⟩
  intro operator
  cases operator <;> rfl

theorem Spells.bracketed (h : Spells letters cs e) :
    SpellsOperand letters ('(' :: cs ++ [')']) e := by
  obtain ⟨ss, hlexes, hyields⟩ := h
  exact ⟨bare_bracket _, _, hlexes.bracketed, hyields.bracketed⟩

/-- The symbols of a row of texts. -/
theorem exists_rows {R : List Symbol → Expression → Prop}
    (h : List.Forall₂ (fun cs e => ∃ ss, Lexes letters cs ss ∧ R ss e) texts es) :
    ∃ rows, List.Forall₂ (Lexes letters) texts rows ∧ List.Forall₂ R rows es := by
  induction h with
  | nil => exact ⟨[], .nil, .nil⟩
  | cons hfirst _ ih =>
      obtain ⟨ss, hlexes, hR⟩ := hfirst
      obtain ⟨rows, hrows, hRs⟩ := ih
      exact ⟨ss :: rows, .cons hlexes hrows, .cons hR hRs⟩

theorem SpellsOperand.call (h : SpellsOperand letters cs e)
    (htexts : List.Forall₂ (Spells letters) texts es) :
    SpellsOperand letters (cs ++ ('(' :: [','].intercalate texts ++ [')'])) (.call e es) := by
  obtain ⟨⟨c, tail, rfl, hjoins⟩, ss, hlexes, hyields⟩ := h
  obtain ⟨rows, hrows, hyieldss⟩ := exists_rows htexts
  have hcommas : Lexes letters ([','].intercalate texts) (commas rows) :=
    Lexes.intercalate .comma hrows (fun _ _ _ _ _ => rfl)
  exact ⟨⟨c, _, rfl, hjoins⟩, _, hlexes.append_mark .opening hcommas.bracketed,
    hyields.call hyieldss⟩

theorem SpellsOperand.operation (h : SpellsOperand letters cs e)
    (htexts : List.Forall₂ (SpellsOperand letters) texts es) (hne : texts ≠ [])
    (operator : Operator) :
    Spells letters (operator.chars.intercalate (cs :: texts))
      (es.foldl (.operation operator) e) := by
  have hall : List.Forall₂ (fun cs e => Bare cs ∧ ∃ ss, Lexes letters cs ss ∧ YieldsOperand ss e)
      (cs :: texts) (e :: es) := .cons h htexts
  obtain ⟨hbare, hspells⟩ := (List.forall₂_and_left _ _).1 hall
  obtain ⟨rows, hrows, hyields⟩ := exists_rows hspells
  have hlexes := Lexes.intercalate (.op operator) hrows
    (fun text htext => (hbare text htext).joins operator)
  cases hyields with
  | @cons row _ rows _ hfirst hmore =>
      have hrowsNe : rows ≠ [] := by
        rintro rfl
        have hlength := hrows.length_eq
        simp [hne] at hlength
      exact ⟨_, hlexes, Yields.operation hfirst hmore hrowsNe operator⟩

theorem Spells.conditional {ds us : List Char} {yes no : Expression}
    (htest : SpellsOperand letters cs e) (hyes : SpellsOperand letters ds yes)
    (hno : SpellsOperand letters us no) :
    Spells letters (cs ++ ' ' :: '?' :: ' ' :: (ds ++ ' ' :: ':' :: ' ' :: us))
      (.conditional e yes no) := by
  obtain ⟨-, ss, hlexes, hyields⟩ := htest
  obtain ⟨-, ts, hlexesYes, hyieldsYes⟩ := hyes
  obtain ⟨-, vs, hlexesNo, hyieldsNo⟩ := hno
  have hcolon : Lexes letters (ds ++ ' ' :: ':' :: ' ' :: us) (ts ++ .mark .colon :: vs) :=
    hlexesYes.append_space (hlexesNo.spaced .colon rfl)
  exact ⟨_, hlexes.append_space (hcolon.spaced .question rfl),
    Yields.conditional hyields hyieldsYes hyieldsNo⟩

theorem Spells.function {names : List String} (hnames : ∀ name ∈ names, letters.isName name = true)
    (h : Spells letters cs e) :
    Spells letters ('(' :: [','].intercalate (names.map String.toList) ++ [')'] ++
      ' ' :: '=' :: '>' :: ' ' :: cs) (.function names e) := by
  obtain ⟨ss, hlexes, hyields⟩ := h
  have hrows : List.Forall₂ (Lexes letters) (names.map String.toList)
      (names.map fun name => [Symbol.word name]) := by
    rw [List.forall₂_map_left_iff, List.forall₂_map_right_iff, List.forall₂_same]
    intro name hname
    exact Lexes.word (Letters.isName_iff.1 (hnames name hname)).1
  have hcommas : Lexes letters ([','].intercalate (names.map String.toList))
      (commas (names.map fun name => [Symbol.word name])) :=
    Lexes.intercalate .comma hrows (fun _ _ _ _ _ => rfl)
  refine ⟨_, hcommas.bracketed.append_space (hlexes.spaced .arrow rfl), hyields.function ?_⟩
  intro name hname
  exact (Letters.isName_iff.1 (hnames name hname)).2

/-! ### Statements -/

theorem Spells.read? {text : String} (h : Spells letters text.toList e) :
    read? letters text = some (.expression e) := by
  obtain ⟨ss, hlexes, hyields⟩ := h
  rw [JavaScript.read?, hlexes.symbols?, Option.bind_some, hyields.statement?]

theorem Spells.read?_declaration {name text : String} (hname : letters.isName name = true)
    (h : Spells letters text.toList e) :
    JavaScript.read? letters ("const " ++ name ++ " = " ++ text ++ ";") =
      some (.declaration name e) := by
  obtain ⟨ss, hlexes, hyields⟩ := h
  obtain ⟨hword, hreserved⟩ := Letters.isName_iff.1 hname
  have hvalue : Lexes letters (text.toList ++ [';']) (ss ++ [.mark .semicolon]) :=
    hlexes.concat_mark .semicolon (fun _ => rfl)
  have hnamed := (Lexes.word hword).append_space (hvalue.spaced .assign rfl)
  have hconst : Lexes letters "const".toList [.word "const"] := Lexes.word rfl
  have hall := hconst.append_space hnamed.space
  have hchars : ("const " ++ name ++ " = " ++ text ++ ";").toList =
      "const".toList ++ ' ' :: (name.toList ++
        ' ' :: (Mark.assign.chars ++ ' ' :: (text.toList ++ [';']))) := by
    simp [Mark.chars]
  rw [JavaScript.read?, hchars, hall.symbols?, Option.bind_some]
  exact hyields.declaration hreserved

end JavaScript
end Sexpr
