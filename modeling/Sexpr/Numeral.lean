/-!
# Numerals

A numeral is a number as it is written: a sign, digits before and behind the
point, and a power of ten. It knows nothing of the numbers that it can be
rounded to.
-/

namespace Sexpr

structure Numeral where
  negative : Bool
  /-- The digits before the point. -/
  whole : List Char
  /-- The digits behind the point; if there are none, there is no point. -/
  fraction : List Char
  /-- The power of ten, if one is written. -/
  exponent : Option Int
deriving DecidableEq, Inhabited, Repr

namespace Numeral

/-! ## Writing -/

/-- A power of ten is written with its sign. -/
def exponentChars : Option Int → List Char
  | none => []
  | some e => 'e' :: (if e < 0 then '-' else '+') :: Nat.toDigits 10 e.natAbs

def fractionChars : List Char → List Char
  | [] => []
  | digits => '.' :: digits

def signChars (negative : Bool) : List Char := if negative then ['-'] else []

def chars (n : Numeral) : List Char :=
  signChars n.negative ++ n.whole ++ fractionChars n.fraction ++ exponentChars n.exponent

/-! ## Reading -/

/-- Takes a sign off, if there is one: whether it is a minus, and the rest. -/
def takeSign : List Char → Bool × List Char
  | '-' :: cs => (true, cs)
  | '+' :: cs => (false, cs)
  | cs => (false, cs)

def signed (negative : Bool) (n : Nat) : Int := if negative then -n else n

/-- The value of the digits of a power of ten. Once it has passed `2 ^ 16`,
further digits no longer count. -/
def exponentValue (digits : List Char) : Nat :=
  digits.foldl (fun e c => if e < Nat.pow 2 16 then 10 * e + (c.toNat - '0'.toNat) else e) 0

/-- Reads the end of a numeral: nothing, or a power of ten. -/
def exponentOf? : List Char → Option (Option Int)
  | [] => some none
  | c :: cs =>
      let (negative, digits) := takeSign cs
      if (c = 'e' || c = 'E') && digits.all Char.isDigit && !digits.isEmpty then
        some (some (signed negative (exponentValue digits)))
      else none

/-- Reads a whole text as a numeral. It may begin with a sign and needs one
digit, before or behind the point. -/
def ofChars? (cs : List Char) : Option Numeral :=
  let (negative, body) := takeSign cs
  let whole := body.takeWhile Char.isDigit
  let (fraction, rest) :=
    match body.dropWhile Char.isDigit with
    | '.' :: tail => (tail.takeWhile Char.isDigit, tail.dropWhile Char.isDigit)
    | rest => ([], rest)
  if whole.isEmpty && fraction.isEmpty then none
  else (exponentOf? rest).map fun exponent => ⟨negative, whole, fraction, exponent⟩

/-! ## The value -/

/-- All the digits, read as one number. -/
def digits (n : Numeral) : Nat := Nat.ofDigitChars 10 (n.whole ++ n.fraction) 0

/-- The power of ten that goes with `Numeral.digits`. -/
def scale (n : Numeral) : Int := n.exponent.getD 0 - n.fraction.length

end Numeral
end Sexpr
