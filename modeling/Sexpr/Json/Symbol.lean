import Sexpr.Json.Basic
import Sexpr.Json.Quoted

/-!
# Symbols of JSON

A JSON text is a row of symbols with blanks between them. `Json.symbols` is the
row of a value, `Symbol.chars` the text of a symbol and `symbols?` the row of a
text.
-/

namespace Sexpr
namespace Json

inductive Symbol where
  | openArray
  | closeArray
  | openObject
  | closeObject
  | comma
  | colon
  | null
  | bool (value : Bool)
  | number (numeral : Numeral)
  | text (content : Option String)
deriving DecidableEq, Repr

/-! ## The symbols of a value -/

mutual

/-- The symbols of a value, in front of `rest`. -/
def symbolsT (j : Json) (rest : List Symbol) : List Symbol :=
  match j with
  | .null => .null :: rest
  | .bool value => .bool value :: rest
  | .number numeral => .number numeral :: rest
  | .text content => .text content :: rest
  | .array items => .openArray :: symbolsF items (.closeArray :: rest)
  | .object members => .openObject :: symbolsM members (.closeObject :: rest)

/-- The symbols of the items of an array. -/
def symbolsF (items : List Json) (rest : List Symbol) : List Symbol :=
  match items with
  | [] => rest
  | [j] => symbolsT j rest
  | j :: js => symbolsT j (.comma :: symbolsF js rest)

/-- The symbols of the members of an object. -/
def symbolsM (members : List (Option String × Json)) (rest : List Symbol) :
    List Symbol :=
  match members with
  | [] => rest
  | [(key, j)] => .text key :: .colon :: symbolsT j rest
  | (key, j) :: ms => .text key :: .colon :: symbolsT j (.comma :: symbolsM ms rest)

end

def symbols (j : Json) : List Symbol := symbolsT j []

/-! ## The text of a symbol -/

def Symbol.chars : Symbol → List Char
  | .openArray => ['[']
  | .closeArray => [']']
  | .openObject => ['{']
  | .closeObject => ['}']
  | .comma => [',']
  | .colon => [':']
  | .null => ['n', 'u', 'l', 'l']
  | .bool true => ['t', 'r', 'u', 'e']
  | .bool false => ['f', 'a', 'l', 's', 'e']
  | .number numeral => numeral.chars
  | .text (some content) => quoted content.toList
  | .text none => ['"', '\\', 'u', 'd', '8', '0', '0', '"']

/-- Writes a symbol behind `out`. -/
def Symbol.writeTo (out : String) : Symbol → String
  | .text (some content) => quoteTo out content
  | s => out ++ String.ofList s.chars

theorem Symbol.toList_writeTo (out : String) (s : Symbol) :
    (s.writeTo out).toList = out.toList ++ s.chars := by
  unfold writeTo
  split
  · simp [toList_quoteTo, chars]
  · simp

/-! ## The symbols of a text -/

def isBlank (c : Char) : Bool := c = ' ' || c = '\t' || c = '\n' || c = '\r'

/-- Reads the end of a number: nothing, or a power of ten. -/
def exponentFrom (cs : List Char) : Option (Option Int × List Char) :=
  match cs with
  | [] => some (none, [])
  | c :: rest =>
      if c = 'e' || c = 'E' then
        let sign := Numeral.takeSign rest
        match sign.2.takeWhile Char.isDigit with
        | [] => none
        | digits =>
            some (some (Numeral.signed sign.1 (Nat.ofDigitChars 10 digits 0)),
              sign.2.dropWhile Char.isDigit)
      else some (none, cs)

/-- Reads the digits behind the point of a number, if it has one. -/
def fractionFrom (cs : List Char) : Option (List Char × List Char) :=
  match cs with
  | '.' :: rest =>
      match rest.takeWhile Char.isDigit with
      | [] => none
      | digits => some (digits, rest.dropWhile Char.isDigit)
  | _ => some ([], cs)

/-- Reads the digits before the point of a number. A zero in front stands alone. -/
def wholeFrom (cs : List Char) : Option (List Char × List Char) :=
  match cs.takeWhile Char.isDigit with
  | [] => none
  | '0' :: _ :: _ => none
  | digits => some (digits, cs.dropWhile Char.isDigit)

/-- Reads a number. Only a minus may stand in front of it. -/
def numberFrom (cs : List Char) : Option (Symbol × List Char) := do
  let (negative, cs) :=
    match cs with
    | '-' :: rest => (true, rest)
    | _ => (false, cs)
  let (whole, cs) ← wholeFrom cs
  let (fraction, cs) ← fractionFrom cs
  let (exponent, cs) ← exponentFrom cs
  return (.number ⟨negative, whole, fraction, exponent⟩, cs)

/-- Reads the first symbol of a text that does not begin with a blank. -/
def symbolFrom (cs : List Char) : Option (Symbol × List Char) :=
  match cs with
  | '[' :: rest => some (.openArray, rest)
  | ']' :: rest => some (.closeArray, rest)
  | '{' :: rest => some (.openObject, rest)
  | '}' :: rest => some (.closeObject, rest)
  | ',' :: rest => some (.comma, rest)
  | ':' :: rest => some (.colon, rest)
  | '"' :: rest => (unquote rest).map fun (content, rest) => (.text content, rest)
  | 'n' :: 'u' :: 'l' :: 'l' :: rest => some (.null, rest)
  | 't' :: 'r' :: 'u' :: 'e' :: rest => some (.bool true, rest)
  | 'f' :: 'a' :: 'l' :: 's' :: 'e' :: rest => some (.bool false, rest)
  | _ => numberFrom cs

/-! ### Each symbol takes something off the text -/

theorem length_dropWhile_le (p : Char → Bool) (cs : List Char) :
    (cs.dropWhile p).length ≤ cs.length :=
  (List.dropWhile_sublist p).length_le

theorem length_takeSign_le (cs : List Char) :
    (Numeral.takeSign cs).2.length ≤ cs.length := by
  unfold Numeral.takeSign; split <;> simp

theorem length_of_exponentFrom {cs : List Char} {e : Option Int} {rest : List Char}
    (h : exponentFrom cs = some (e, rest)) : rest.length ≤ cs.length := by
  unfold exponentFrom at h
  split at h
  · simp_all
  · next c tail =>
    split at h
    · have sign := length_takeSign_le tail
      have digits := length_dropWhile_le Char.isDigit (Numeral.takeSign tail).2
      dsimp only at h
      split at h <;> simp at h
      rw [← h.2, List.length_cons]; omega
    · simp at h; exact Nat.le_of_eq (congrArg List.length h.2.symm)

theorem length_of_fractionFrom {cs digits rest : List Char}
    (h : fractionFrom cs = some (digits, rest)) : rest.length ≤ cs.length := by
  unfold fractionFrom at h
  split at h
  · next tail =>
    have digits := length_dropWhile_le Char.isDigit tail
    split at h <;> simp at h
    rw [← h.2, List.length_cons]; omega
  · simp at h; exact Nat.le_of_eq (congrArg List.length h.2.symm)

theorem length_of_wholeFrom {cs digits rest : List Char}
    (h : wholeFrom cs = some (digits, rest)) : rest.length < cs.length := by
  unfold wholeFrom at h
  have whole := congrArg List.length
    (List.takeWhile_append_dropWhile (p := Char.isDigit) (l := cs))
  rw [List.length_append] at whole
  split at h <;> simp at h
  next nonempty _ =>
    have := List.length_pos_iff.2 nonempty
    rw [← h.2]; omega

theorem length_of_numberFrom {cs : List Char} {s : Symbol} {rest : List Char}
    (h : numberFrom cs = some (s, rest)) : rest.length < cs.length := by
  unfold numberFrom at h
  simp only [Option.bind_eq_bind, Option.bind_eq_some_iff, Prod.exists] at h
  obtain ⟨whole, cs₁, h₁, fraction, cs₂, h₂, exponent, cs₃, h₃, h₄⟩ := h
  have := length_of_wholeFrom h₁
  have := length_of_fractionFrom h₂
  have := length_of_exponentFrom h₃
  simp at h₄
  rw [← h₄.2]
  split at * <;> simp at * <;> omega

theorem length_of_piecesTo {done pieces : List Piece} {cs rest : List Char}
    (h : piecesTo done cs = some (pieces, rest)) : rest.length < cs.length := by
  fun_induction piecesTo done cs <;> simp_all <;> omega

theorem length_of_symbolFrom {cs : List Char} {s : Symbol} {rest : List Char}
    (h : symbolFrom cs = some (s, rest)) : rest.length < cs.length := by
  unfold symbolFrom at h
  split at h
  case h_7 tail =>
    simp only [unquote, Option.map_map, Option.map_eq_some_iff, Prod.exists] at h
    obtain ⟨pieces, behind, found, same⟩ := h
    have := length_of_piecesTo found
    simp at same
    rw [← same.2, List.length_cons]; omega
  case h_11 => exact length_of_numberFrom h
  all_goals simp at h; rw [← h.2]; simp only [List.length_cons]; omega

/-! ### All symbols -/

/-- Reads the symbols of a text behind `done`, newest first. -/
def symbolsTo (done : List Symbol) (cs : List Char) : Option (List Symbol) :=
  match cs with
  | [] => some done.reverse
  | c :: rest =>
      if isBlank c then symbolsTo done rest
      else
        match _ : symbolFrom (c :: rest) with
        | some (s, behind) => symbolsTo (s :: done) behind
        | none => none
termination_by cs.length
decreasing_by
  · simp
  · next h => exact length_of_symbolFrom h

/-- The symbols of a text, if it is made of symbols and blanks. -/
def symbols? (text : String) : Option (List Symbol) := symbolsTo [] text.toList

end Json
end Sexpr
