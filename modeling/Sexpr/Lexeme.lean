import Sexpr.Position

/-!
# Lexemes

A source is a row of lexemes, each with its characters: the blanks, the pieces
that become tokens, and two kinds of broken pieces. `Lexeme.first` takes the
first lexeme off a source. Every character of the source is in it or behind it
(`Lexeme.chars_first`), so a source has just one row of lexemes.
-/

namespace Sexpr

/-- Blanks separate tokens: space, tab, line feed and carriage return. -/
def isBlank (c : Char) : Bool :=
  c = ' ' || c = '\t' || c = '\n' || c = '\r'

/-- A word ends before a blank or a bracket. -/
def endsWord (c : Char) : Bool := isBlank c || c = '(' || c = ')'

/-- A number, or the name of an operator, starts with a digit or a sign. -/
def startsNumber (c : Char) : Bool := c.isDigit || c = '+' || c = '-'

inductive Lexeme where
  | blank (c : Char)
  | opening
  | closing
  /-- A text with its closing quote; `body` is what stands between. -/
  | text (body : List Char)
  /-- A text whose closing quote is missing: the rest of the source. -/
  | openText (body : List Char)
  | number (digits : List Char)
  /-- The part of a number that stands before a misplaced point. -/
  | brokenNumber (digits : List Char)
  | word (name : List Char)
deriving DecidableEq, Repr

namespace Lexeme

/-- The characters of a lexeme. -/
def chars : Lexeme → List Char
  | .blank c => [c]
  | .opening => ['(']
  | .closing => [')']
  | .text body => '"' :: body ++ ['"']
  | .openText body => '"' :: body
  | .number digits => digits
  | .brokenNumber digits => digits
  | .word name => name

/-- A quote has been read: the text runs to the next quote. -/
def textFrom (cs : List Char) : Lexeme × List Char :=
  match cs.dropWhile (· != '"') with
  | '"' :: rest => (.text (cs.takeWhile (· != '"')), rest)
  | _ => (.openText cs, [])

/-- The digits and a point of a number have been read: more digits may follow,
but no other point. -/
def fractionFrom (digits cs : List Char) : Lexeme × List Char :=
  let number := digits ++ cs.takeWhile Char.isDigit
  match cs.dropWhile Char.isDigit with
  | '.' :: rest => (.brokenNumber number, '.' :: rest)
  | rest => (.number number, rest)

/-- A digit or sign `c` has been read: digits may follow, and after the first
digit a point. A sign with no digit is a word. -/
def numberFrom (c : Char) (cs : List Char) : Lexeme × List Char :=
  let number := c :: cs.takeWhile Char.isDigit
  let rest := cs.dropWhile Char.isDigit
  if number.any Char.isDigit then
    match rest with
    | '.' :: tail => fractionFrom (number ++ ['.']) tail
    | rest => (.number number, rest)
  else
    match rest with
    | '.' :: tail => (.brokenNumber number, '.' :: tail)
    | rest => (.word number, rest)

/-- Some other character `c` has been read: the word runs to the next blank or
bracket. -/
def wordFrom (c : Char) (cs : List Char) : Lexeme × List Char :=
  (.word (c :: cs.takeWhile (!endsWord ·)), cs.dropWhile (!endsWord ·))

/-- The first lexeme of the source `c :: cs`, and what comes behind it. -/
def first (c : Char) (cs : List Char) : Lexeme × List Char :=
  if isBlank c then (.blank c, cs)
  else if c = '(' then (.opening, cs)
  else if c = ')' then (.closing, cs)
  else if c = '"' then textFrom cs
  else if startsNumber c then numberFrom c cs
  else wordFrom c cs

/-! ## Nothing is lost -/

theorem chars_textFrom (cs : List Char) :
    (textFrom cs).1.chars ++ (textFrom cs).2 = '"' :: cs := by
  unfold textFrom
  split
  · next rest h =>
    have whole := List.takeWhile_append_dropWhile (p := (· != '"')) (l := cs)
    rw [h] at whole
    simp [chars, whole]
  · simp [chars]

theorem chars_fractionFrom (digits cs : List Char) :
    (fractionFrom digits cs).1.chars ++ (fractionFrom digits cs).2 = digits ++ cs := by
  have whole := List.takeWhile_append_dropWhile (p := Char.isDigit) (l := cs)
  unfold fractionFrom
  dsimp only
  split <;> simp_all [chars]

theorem chars_numberFrom (c : Char) (cs : List Char) :
    (numberFrom c cs).1.chars ++ (numberFrom c cs).2 = c :: cs := by
  have whole := List.takeWhile_append_dropWhile (p := Char.isDigit) (l := cs)
  unfold numberFrom
  dsimp only
  split
  · split
    · next tail h => rw [h] at whole; simp [chars_fractionFrom, whole]
    · simp [chars, whole]
  · split
    · next tail h => rw [h] at whole; simp [chars, whole]
    · simp [chars, whole]

theorem chars_wordFrom (c : Char) (cs : List Char) :
    (wordFrom c cs).1.chars ++ (wordFrom c cs).2 = c :: cs := by
  simp [wordFrom, chars]

/-- The first lexeme and what is behind it make up the source. -/
theorem chars_first (c : Char) (cs : List Char) :
    (first c cs).1.chars ++ (first c cs).2 = c :: cs := by
  unfold first
  split
  · rfl
  split
  · next h => simp [chars, h]
  split
  · next h => simp [chars, h]
  split
  · next h => rw [chars_textFrom, h]
  split
  · exact chars_numberFrom c cs
  · exact chars_wordFrom c cs

theorem chars_first_ne_nil (c : Char) (cs : List Char) :
    (first c cs).1.chars ≠ [] := by
  unfold first
  split
  · simp [chars]
  split
  · simp [chars]
  split
  · simp [chars]
  split
  · unfold textFrom; split <;> simp [chars]
  split
  · unfold numberFrom fractionFrom
    dsimp only
    split <;> split <;> (try split) <;> simp [chars]
  · simp [wordFrom, chars]

end Lexeme
end Sexpr
