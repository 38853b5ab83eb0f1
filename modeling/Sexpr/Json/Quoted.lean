/-!
# Quoted strings

The written form of a string in JSON. Only the quote, the backslash and control
characters are escaped when a text is written; when one is read, each character
may be escaped, those beyond 16 bits by the two halves of a surrogate pair.
-/

namespace Sexpr
namespace Json

/-! ## Writing -/

/-- A control character without an escape of its own: four hexadecimal digits. -/
def hexEscape (c : Char) : List Char :=
  ['\\', 'u', '0', '0', Nat.digitChar (c.toNat / 16), Nat.digitChar (c.toNat % 16)]

def escape (c : Char) : List Char :=
  match c with
  | '"' => ['\\', '"']
  | '\\' => ['\\', '\\']
  | '\x08' => ['\\', 'b']
  | '\t' => ['\\', 't']
  | '\n' => ['\\', 'n']
  | '\x0c' => ['\\', 'f']
  | '\r' => ['\\', 'r']
  | c => if c.toNat < 0x20 then hexEscape c else [c]

/-- A text in quotes. -/
def quoted (text : List Char) : List Char := '"' :: text.flatMap escape ++ ['"']

/-- Writes a text in quotes behind `out`. -/
def quoteTo (out text : String) : String :=
  (text.foldl (fun out c => (escape c).foldl String.push out) (out.push '"')).push '"'

/-- A text in quotes, as a string. -/
def quote (text : String) : String := quoteTo "" text

theorem toList_foldl_push (out : String) (cs : List Char) :
    (cs.foldl String.push out).toList = out.toList ++ cs := by
  induction cs generalizing out with
  | nil => simp
  | cons c cs ih => simp [ih]

theorem toList_foldl_escape (out : String) (cs : List Char) :
    (cs.foldl (fun out c => (escape c).foldl String.push out) out).toList =
      out.toList ++ cs.flatMap escape := by
  induction cs generalizing out with
  | nil => simp
  | cons c cs ih => simp [ih, toList_foldl_push]

theorem toList_quoteTo (out text : String) :
    (quoteTo out text).toList = out.toList ++ quoted text.toList := by
  simp [quoteTo, quoted, String.foldl_eq_foldl_toList, toList_foldl_escape]

/-! ## Reading -/

/-- What one piece of a quoted string stands for: a character, or one unit of 16
bits. -/
inductive Piece where
  | char (c : Char)
  | unit (code : Nat)
deriving DecidableEq, Repr

/-- The value of a hexadecimal digit. -/
def hexDigit? (c : Char) : Option Nat :=
  if c.isDigit then some (c.toNat - '0'.toNat)
  else if 'a' ≤ c ∧ c ≤ 'f' then some (c.toNat - 'a'.toNat + 10)
  else if 'A' ≤ c ∧ c ≤ 'F' then some (c.toNat - 'A'.toNat + 10)
  else none

/-- The value of four hexadecimal digits. -/
def hexUnit? (a b c d : Char) : Option Nat := do
  let a ← hexDigit? a
  let b ← hexDigit? b
  let c ← hexDigit? c
  let d ← hexDigit? d
  return ((a * 16 + b) * 16 + c) * 16 + d

/-- The character that a backslash and a letter stand for. -/
def unescape? : Char → Option Char
  | '"' => some '"'
  | '\\' => some '\\'
  | '/' => some '/'
  | 'b' => some '\x08'
  | 'f' => some '\x0c'
  | 'n' => some '\n'
  | 'r' => some '\r'
  | 't' => some '\t'
  | _ => none

/-- Reads the pieces up to the closing quote, in front of which `done` have been
read, newest first. A bare control character is refused. -/
def piecesTo (done : List Piece) : List Char → Option (List Piece × List Char)
  | '"' :: cs => some (done.reverse, cs)
  | '\\' :: 'u' :: a :: b :: c :: d :: cs =>
      match hexUnit? a b c d with
      | some code => piecesTo (.unit code :: done) cs
      | none => none
  | '\\' :: c :: cs =>
      match unescape? c with
      | some c => piecesTo (.char c :: done) cs
      | none => none
  | c :: cs =>
      if c = '\\' || c.toNat < 0x20 then none else piecesTo (.char c :: done) cs
  | [] => none

def isHighHalf (code : Nat) : Bool := 0xD800 ≤ code && code < 0xDC00

def isLowHalf (code : Nat) : Bool := 0xDC00 ≤ code && code < 0xE000

/-- The character of a surrogate pair. -/
def ofHalves (high low : Nat) : Char :=
  Char.ofNat (0x10000 + (high - 0xD800) * 0x400 + (low - 0xDC00))

/-- Joins the pieces of a text behind `done`, newest first. A half without its
partner makes the whole no text. -/
def joinTo (done : List Char) : List Piece → Option (List Char)
  | [] => some done.reverse
  | .char c :: ps => joinTo (c :: done) ps
  | .unit high :: .unit low :: ps =>
      if isHighHalf high then
        if isLowHalf low then joinTo (ofHalves high low :: done) ps else none
      else if isLowHalf high then none
      else joinTo (Char.ofNat high :: done) (.unit low :: ps)
  | .unit code :: ps =>
      if isHighHalf code || isLowHalf code then none
      else joinTo (Char.ofNat code :: done) ps

/-- Reads a string whose opening quote has been read: its text, if it spells one,
and what comes behind it. -/
def unquote (cs : List Char) : Option (Option String × List Char) :=
  (piecesTo [] cs).map fun (pieces, rest) =>
    ((joinTo [] pieces).map String.ofList, rest)

end Json
end Sexpr
