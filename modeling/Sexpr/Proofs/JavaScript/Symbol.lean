import Mathlib
import Sexpr.Json.Quoted
import Sexpr.Json.Symbol
import Sexpr.Proofs.Binary64.Literal
import Sexpr.Proofs.Json.Quoted
import Sexpr.Proofs.JavaScript.Syntax

/-!
# Symbols of JavaScript

A program is cut into words, literals and punctuators, the longest punctuator first,
with blanks between them where need be (`symbols?`). A text `Lexes` as a row of
symbols if it does so in front of everything that may follow an expression; such
texts are put together symbol by symbol.
-/

namespace Sexpr
namespace JavaScript

/-- The punctuators that programs are made of here. -/
inductive Mark where
  | opening
  | closing
  | comma
  | semicolon
  | question
  | colon
  | assign
  | arrow
  | op (operator : Operator)
deriving DecidableEq, Repr

inductive Symbol where
  | word (name : String)
  | number (value : Binary64)
  | text (content : String)
  | mark (mark : Mark)
deriving DecidableEq, Repr

def Operator.chars : Operator → List Char
  | .times => ['*']
  | .over => ['/']
  | .plus => ['+']
  | .minus => ['-']
  | .atMost => ['<', '=']
  | .atLeast => ['>', '=']
  | .same => ['=', '=', '=']

def Mark.chars : Mark → List Char
  | .opening => ['(']
  | .closing => [')']
  | .comma => [',']
  | .semicolon => [';']
  | .question => ['?']
  | .colon => [':']
  | .assign => ['=']
  | .arrow => ['=', '>']
  | .op operator => operator.chars

/-! ## Cutting a program into symbols -/

/-- The punctuators, and the beginnings of comments, that begin like one used here;
longer ones come first. Those that are used nowhere here have no mark. -/
def punctuators : List (List Char × Option Mark) :=
  [(['>', '>', '>', '='], none), (['<', '!', '-', '-'], none),
    (['=', '=', '='], some (.op .same)), (['*', '*', '='], none),
    (['<', '<', '='], none), (['>', '>', '='], none), (['>', '>', '>'], none),
    (['?', '?', '='], none), (['-', '-', '>'], none),
    (['=', '>'], some .arrow), (['<', '='], some (.op .atMost)),
    (['>', '='], some (.op .atLeast)), (['=', '='], none), (['+', '+'], none),
    (['-', '-'], none), (['+', '='], none), (['-', '='], none), (['*', '='], none),
    (['/', '='], none), (['*', '*'], none), (['<', '<'], none), (['>', '>'], none),
    (['?', '?'], none), (['?', '.'], none), (['/', '/'], none), (['/', '*'], none),
    (['('], some .opening), ([')'], some .closing), ([','], some .comma),
    ([';'], some .semicolon), (['?'], some .question), ([':'], some .colon),
    (['='], some .assign), (['*'], some (.op .times)), (['/'], some (.op .over)),
    (['+'], some (.op .plus)), (['-'], some (.op .minus)), (['<'], none),
    (['>'], none)]

def markFrom (cs : List Char) : Option (Symbol × List Char) :=
  match punctuators.find? (·.1.isPrefixOf cs) with
  | some (chars, some mark) => some (.mark mark, cs.drop chars.length)
  | _ => none

variable (letters : Letters)

/-- Reads the first symbol of a text that does not begin with a blank. Texts and
numbers are those of JSON, which are literals here too; no word may touch a number. -/
def symbolFrom (c : Char) (cs : List Char) : Option (Symbol × List Char) :=
  if c = '"' then
    match Json.unquote cs with
    | some (some content, rest) => some (.text content, rest)
    | _ => none
  else if c.isDigit then
    match Json.numberFrom (c :: cs) with
    | some (.number numeral, rest) =>
        if rest.head?.any letters.isPart then none
        else some (.number (Binary64.ofNumeral numeral), rest)
    | _ => none
  else if letters.isStart c then
    some (.word (String.ofList (c :: cs.takeWhile letters.isPart)), cs.dropWhile letters.isPart)
  else markFrom (c :: cs)

theorem length_of_markFrom {cs rest : List Char} {s : Symbol} (h : markFrom cs = some (s, rest)) :
    rest.length < cs.length := by
  have hnonempty : ∀ q ∈ punctuators, q.1 ≠ [] := by decide
  unfold markFrom at h
  split at h
  · next chars mark hfind =>
    cases h
    have hpos := List.length_pos_iff.2 (hnonempty _ (List.mem_of_find?_eq_some hfind))
    have hfound : chars.isPrefixOf cs = true := by simpa using List.find?_some hfind
    have hlength := (List.isPrefixOf_iff_prefix.1 hfound).length_le
    dsimp only at hpos
    rw [List.length_drop]
    omega
  · cases h

theorem length_of_symbolFrom {c : Char} {cs rest : List Char} {s : Symbol}
    (h : symbolFrom letters c cs = some (s, rest)) : rest.length < (c :: cs).length := by
  unfold symbolFrom at h
  split at h
  · split at h
    · next hread =>
      cases h
      exact Nat.lt_succ_of_lt (Json.length_of_unquote hread)
    · cases h
  · split at h
    · split at h
      · next hread =>
        split at h
        · cases h
        · cases h
          exact Json.length_of_numberFrom hread
      · cases h
    · split at h
      · cases h
        exact Nat.lt_succ_of_le (Json.length_dropWhile_le letters.isPart cs)
      · exact length_of_markFrom h

def isSpace (c : Char) : Bool := c = ' ' || c = '\t'

/-- The symbols of a text, if it is made of symbols and blanks. -/
def symbols? (cs : List Char) : Option (List Symbol) :=
  match cs with
  | [] => some []
  | c :: cs =>
      if isSpace c then symbols? cs
      else
        match _ : symbolFrom letters c cs with
        | some (s, rest) => (symbols? rest).map (s :: ·)
        | none => none
termination_by cs.length
decreasing_by
  · simp
  · next h => exact length_of_symbolFrom letters h

/-! ## One symbol -/

variable {letters : Letters}

theorem symbols?_space (cs : List Char) : symbols? letters (' ' :: cs) = symbols? letters cs := by
  rw [symbols?, if_pos (by rfl)]

theorem symbols?_cons {c : Char} {cs rest : List Char} {s : Symbol} (hc : isSpace c = false)
    (h : symbolFrom letters c cs = some (s, rest)) :
    symbols? letters (c :: cs) = (symbols? letters rest).map (s :: ·) := by
  rw [symbols?, if_neg (by simp [hc])]
  split
  · next hsome =>
    rw [h] at hsome
    cases hsome
    rfl
  · next hnone =>
    rw [h] at hnone
    cases hnone

/-- No mark begins like a blank, a word or a literal. -/
theorem Mark.exists_head (letters : Letters) (m : Mark) : ∃ c cs, m.chars = c :: cs ∧
    isSpace c = false ∧ c ≠ '"' ∧ c ≠ '.' ∧ letters.isPart c = false := by
  cases m with
  | op operator => cases operator <;> exact ⟨_, _, rfl, rfl, by decide, by decide, rfl⟩
  | _ => exact ⟨_, _, rfl, rfl, by decide, by decide, rfl⟩

/-- `c` would make a longer punctuator of the mark. -/
def Mark.joins (m : Mark) (c : Char) : Bool :=
  punctuators.any fun q => (m.chars ++ [c]).isPrefixOf q.1

/-- Before what does not make it longer, a mark is the longest punctuator. -/
theorem find?_mark {m : Mark} {rest : List Char} (hrest : ∀ c ∈ rest.head?, m.joins c = false) :
    punctuators.find? (·.1.isPrefixOf (m.chars ++ rest)) = some (m.chars, some m) := by
  have hsame : ∀ q ∈ punctuators, q.1.isPrefixOf (m.chars ++ rest) = q.1.isPrefixOf m.chars := by
    intro q hq
    rw [Bool.eq_iff_iff, List.isPrefixOf_iff_prefix, List.isPrefixOf_iff_prefix]
    constructor
    · intro hprefix
      rcases List.prefix_or_prefix_of_prefix hprefix (List.prefix_append _ _) with h | h
      · exact h
      · obtain ⟨more, hmore⟩ := h
        cases more with
        | nil => exact ⟨[], by rw [← hmore, List.append_nil, List.append_nil]⟩
        | cons c more =>
            -- the mark would go on with `c`
            rw [← hmore, List.prefix_append_right_inj] at hprefix
            have hhead : c ∈ rest.head? := by
              obtain ⟨tail, rfl⟩ := hprefix
              rfl
            have hjoins : m.joins c = true := by
              refine List.any_eq_true.2 ⟨q, hq, ?_⟩
              rw [List.isPrefixOf_iff_prefix, ← hmore]
              exact ⟨more, by simp⟩
            rw [hrest c hhead] at hjoins
            cases hjoins
    · intro hprefix
      exact hprefix.trans (List.prefix_append _ _)
  rw [List.find?_congr hsame]
  cases m with
  | op operator => cases operator <;> decide
  | _ => decide

theorem symbols?_mark {m : Mark} {rest : List Char} (hrest : ∀ c ∈ rest.head?, m.joins c = false) :
    symbols? letters (m.chars ++ rest) = (symbols? letters rest).map (.mark m :: ·) := by
  have hfrom : markFrom (m.chars ++ rest) = some (.mark m, rest) := by
    unfold markFrom
    rw [find?_mark hrest]
    simp
  obtain ⟨c, cs, hchars, hspace, hquote, -, hpart⟩ := m.exists_head letters
  simp only [Letters.isPart, Bool.or_eq_false_iff] at hpart
  rw [hchars, List.cons_append] at hfrom ⊢
  refine symbols?_cons hspace ?_
  unfold symbolFrom
  rw [if_neg hquote, if_neg (by simp [hpart]), if_neg (by simp [hpart]), hfrom]

/-! ## What may follow an expression -/

/-- No word or number goes on here. -/
def Apart (letters : Letters) (rest : List Char) : Prop :=
  ∀ c ∈ rest.head?, letters.isPart c = false ∧ c ≠ '.'

theorem apart_space (cs : List Char) : Apart letters (' ' :: cs) := by
  rintro c ⟨⟩
  exact ⟨rfl, by decide⟩

theorem Mark.apart (m : Mark) (cs : List Char) : Apart letters (m.chars ++ cs) := by
  obtain ⟨c, tail, hchars, -, -, hpoint, hpart⟩ := m.exists_head letters
  rw [hchars]
  rintro d ⟨⟩
  exact ⟨hpart, hpoint⟩

theorem Apart.endsNumeral {rest : List Char} (h : Apart letters rest) : EndsNumeral rest := by
  intro c hc
  obtain ⟨hpart, hpoint⟩ := h c hc
  simp only [Letters.isPart, Bool.or_eq_false_iff] at hpart
  refine ⟨hpart.1.2, hpoint, ?_, ?_⟩
  · rintro rfl
    cases hpart.1.1
  · rintro rfl
    cases hpart.1.1

theorem not_space_of {p : Char → Bool} {c : Char} (hblank : p ' ' = false) (htab : p '\t' = false)
    (hquote : p '"' = false) (h : p c = true) : isSpace c = false ∧ c ≠ '"' := by
  have hne : ∀ d, p d = false → c ≠ d := by
    rintro d hd rfl
    rw [h] at hd
    cases hd
  refine ⟨?_, hne _ hquote⟩
  simp [isSpace, hne _ hblank, hne _ htab]

/-- What begins a word is no digit. -/
theorem Letters.not_isDigit {c : Char} (h : letters.isStart c = true) : c.isDigit = false := by
  rw [Bool.eq_false_iff]
  intro hdigit
  have hrange : 48 ≤ c.toNat ∧ c.toNat ≤ 57 := by
    simpa [Char.isDigit, UInt32.le_iff_toNat_le] using hdigit
  simp only [isStart, Bool.or_eq_true, Bool.and_eq_true, decide_eq_true_eq, Char.isAlpha,
    Char.isUpper, Char.isLower, UInt32.le_iff_toNat_le] at h
  change ((((65 ≤ c.toNat ∧ c.toNat ≤ 90) ∨ (97 ≤ c.toNat ∧ c.toNat ≤ 122)) ∨ _) ∨ _) ∨ _ at h
  rcases h with (((h | h) | rfl) | rfl) | h
  · omega
  · omega
  · cases hdigit
  · cases hdigit
  · omega

theorem Apart.takeWhile {word rest : List Char} (h : Apart letters rest)
    (hword : word.all letters.isPart) : (word ++ rest).takeWhile letters.isPart = word ∧
      (word ++ rest).dropWhile letters.isPart = rest := by
  have hall : ∀ c ∈ word, letters.isPart c = true := List.all_eq_true.1 hword
  rw [List.takeWhile_append_of_pos hall, List.dropWhile_append_of_pos hall]
  cases rest with
  | nil => simp
  | cons c rest => simp [(h c rfl).1]

/-! ## Texts in front of what may follow an expression -/

/-- The text is made of these symbols. -/
def Lexes (letters : Letters) (cs : List Char) (ss : List Symbol) : Prop :=
  ∀ rest, Apart letters rest →
    symbols? letters (cs ++ rest) = (symbols? letters rest).map (ss ++ ·)

namespace Lexes

theorem word {name : String} (h : letters.isWord name.toList) :
    Lexes letters name.toList [.word name] := by
  intro rest hrest
  obtain ⟨c, cs, hname⟩ : ∃ c cs, name.toList = c :: cs := by
    cases hname : name.toList with
    | nil => rw [hname] at h; cases h
    | cons c cs => exact ⟨c, cs, rfl⟩
  rw [hname, Letters.isWord, Bool.and_eq_true] at h
  obtain ⟨htake, hdrop⟩ := hrest.takeWhile h.2
  obtain ⟨hspace, hquote⟩ := not_space_of rfl rfl rfl h.1
  have hdigit := Letters.not_isDigit h.1
  rw [hname, List.cons_append]
  refine symbols?_cons hspace ?_
  unfold symbolFrom
  rw [if_neg hquote, if_neg (by simp [hdigit]), if_pos h.1, htake, hdrop, ← hname,
    String.ofList_toList]

theorem text (content : String) : Lexes letters (Json.quote content).toList [.text content] := by
  intro rest _
  have hquoted : (Json.quote content).toList = Json.quoted content.toList :=
    Json.toList_quoteTo "" content
  rw [hquoted, Json.quoted, List.cons_append, List.cons_append, List.append_assoc]
  refine symbols?_cons rfl ?_
  unfold symbolFrom
  rw [if_pos rfl, List.singleton_append, Json.unquote_quoted]
  simp

theorem number (m : Magnitude) :
    Lexes letters (Binary64.text (.finite false m)).toList [.number (.finite false m)] := by
  intro rest hrest
  have hread := Binary64.numberFrom_printed m hrest.endsNumeral
  obtain ⟨c, cs, hchars, hc⟩ := Binary64.exists_digit_text m
  obtain ⟨hspace, hquote⟩ := not_space_of rfl rfl rfl hc
  have hapart : rest.head?.any letters.isPart = false := by
    cases rest with
    | nil => rfl
    | cons d ds => exact (hrest d rfl).1
  rw [hchars, List.cons_append] at hread ⊢
  refine symbols?_cons hspace ?_
  unfold symbolFrom
  rw [if_neg hquote, if_pos hc, hread]
  simp [hapart, Binary64.ofNumeral_printed]

theorem nil : Lexes letters [] [] := by
  intro rest _
  simp

theorem space {cs : List Char} {ss : List Symbol} (h : Lexes letters cs ss) :
    Lexes letters (' ' :: cs) ss := by
  intro rest hrest
  rw [List.cons_append, symbols?_space, h _ hrest]

/-- A mark in front of a text that does not make it longer. -/
theorem mark {cs : List Char} {ss : List Symbol} (m : Mark) (h : Lexes letters cs ss)
    (hjoins : ∀ rest, ∀ c ∈ (cs ++ rest).head?, m.joins c = false) :
    Lexes letters (m.chars ++ cs) (.mark m :: ss) := by
  intro rest hrest
  rw [List.append_assoc, symbols?_mark (hjoins rest), h _ hrest, Option.map_map]
  simp [Function.comp_def]

/-- A mark between blanks. -/
theorem spaced {cs : List Char} {ss : List Symbol} (m : Mark) (hm : m.joins ' ' = false)
    (h : Lexes letters cs ss) : Lexes letters (' ' :: (m.chars ++ ' ' :: cs)) (.mark m :: ss) := by
  refine (mark m h.space ?_).space
  rintro _ _ ⟨⟩
  exact hm

/-- A text behind another one, which ends where it begins. -/
theorem append {cs ds : List Char} {ss ts : List Symbol} (hcs : Lexes letters cs ss)
    (hds : Lexes letters ds ts) (hapart : ∀ rest, Apart letters (ds ++ rest)) :
    Lexes letters (cs ++ ds) (ss ++ ts) := by
  intro rest hrest
  rw [List.append_assoc, hcs _ (hapart rest), hds _ hrest, Option.map_map]
  simp [Function.comp_def]

/-- A mark ends the text in front of it. -/
theorem append_mark {cs ds : List Char} {ss ts : List Symbol} (m : Mark)
    (hcs : Lexes letters cs ss) (hds : Lexes letters (m.chars ++ ds) ts) :
    Lexes letters (cs ++ (m.chars ++ ds)) (ss ++ ts) := by
  refine hcs.append hds ?_
  intro rest
  rw [List.append_assoc]
  exact m.apart _

/-- A blank ends the text in front of it. -/
theorem append_space {cs ds : List Char} {ss ts : List Symbol} (hcs : Lexes letters cs ss)
    (hds : Lexes letters (' ' :: ds) ts) : Lexes letters (cs ++ ' ' :: ds) (ss ++ ts) :=
  hcs.append hds (fun _ => apart_space _)

/-- Texts with a mark between them that does not go on with any of them. -/
theorem intercalate {texts : List (List Char)} {rows : List (List Symbol)} (m : Mark)
    (h : List.Forall₂ (Lexes letters) texts rows)
    (hjoins : ∀ text ∈ texts, ∀ rest, ∀ c ∈ (text ++ rest).head?, m.joins c = false) :
    Lexes letters (m.chars.intercalate texts) ([Symbol.mark m].intercalate rows) := by
  induction h with
  | nil => exact nil
  | @cons text row texts rows htext htexts ih =>
      obtain ⟨-, hjoins⟩ := List.forall_mem_cons.1 hjoins
      cases htexts with
      | nil =>
          rw [List.intercalate_singleton, List.intercalate_singleton]
          exact htext
      | @cons next row' texts rows' hnext htexts =>
          obtain ⟨more, hmore⟩ : ∃ more, m.chars.intercalate (next :: texts) = next ++ more := by
            cases texts with
            | nil => exact ⟨[], by rw [List.intercalate_singleton, List.append_nil]⟩
            | cons => exact ⟨_, by rw [List.intercalate_cons_cons, List.append_assoc]⟩
          have hrest : Lexes letters (m.chars ++ m.chars.intercalate (next :: texts))
              (.mark m :: [Symbol.mark m].intercalate (row' :: rows')) := by
            refine mark m (ih hjoins) ?_
            intro rest
            rw [hmore, List.append_assoc]
            exact hjoins next List.mem_cons_self _
          rw [List.intercalate_cons_cons, List.intercalate_cons_cons, List.append_assoc,
            List.append_assoc, List.singleton_append]
          exact htext.append_mark m hrest

/-- A bracket or a semicolon behind a text. -/
theorem concat_mark {cs : List Char} {ss : List Symbol} (m : Mark) (hm : ∀ c, m.joins c = false)
    (h : Lexes letters cs ss) : Lexes letters (cs ++ m.chars) (ss ++ [.mark m]) := by
  have hmark : Lexes letters (m.chars ++ []) [.mark m] := mark m nil (fun _ c _ => hm c)
  have hboth := h.append_mark m hmark
  rwa [List.append_nil] at hboth

theorem bracketed {cs : List Char} {ss : List Symbol} (h : Lexes letters cs ss) :
    Lexes letters ('(' :: cs ++ [')']) (.mark .opening :: ss ++ [.mark .closing]) :=
  mark .opening (h.concat_mark .closing (fun _ => rfl)) (fun _ _ _ => rfl)

/-- The symbols of a whole text. -/
theorem symbols? {cs : List Char} {ss : List Symbol} (h : Lexes letters cs ss) :
    symbols? letters cs = some ss := by
  have hall := h [] (by simp [Apart])
  rw [List.append_nil, JavaScript.symbols?] at hall
  rw [hall, Option.map_some, List.append_nil]

end Lexes

end JavaScript
end Sexpr
