import Sexpr.Binary64.Basic
import Sexpr.Binary64.Shortest
import Sexpr.Json.Basic

/-!
# Numbers in JSON

A number is written with the fewest digits that read back, positionally from
`1e-5` up to `1e16` and with a power of ten elsewhere. It is read in a faster
and coarser way than a numeral elsewhere: the leading digits are gathered in 64
bits, and the power of ten is applied with a rounding of its own.
-/

namespace Sexpr
namespace Binary64

/-! ## Writing -/

/-- A decimal is written positionally if its leading digit stands here. -/
def positionalAt (leading : Int) : Bool := -5 ≤ leading && leading < 16

/-- The positional form has a digit behind the point. -/
def positionalNumeral (negative : Bool) (d : Decimal) : Numeral :=
  let (whole, fraction) := d.positional
  ⟨negative, whole, if fraction.isEmpty then ['0'] else fraction, none⟩

/-- The form with a power of ten has one digit before the point. -/
def scientificNumeral (negative : Bool) (d : Decimal) : Numeral :=
  let digits := Nat.toDigits 10 d.digits
  ⟨negative, digits.take 1, digits.drop 1, some d.leading⟩

/-- A number as it is written in JSON; what is not finite is null. Of two shortest
decimals that are equally near, the even one is written. -/
def toJson : Binary64 → Json
  | .finite negative m =>
      let d := m.shortest .even
      if positionalAt d.leading then .number (positionalNumeral negative d)
      else .number (scientificNumeral negative d)
  | .infinite _ | .nan _ => .null

/-! ## Reading -/

/-- Gathers digits behind `n` as long as the number stays below `2 ^ 64`; also the
digits that are left over. -/
def gather (n : Nat) : List Char → Nat × List Char
  | [] => (n, [])
  | c :: cs =>
      let next := 10 * n + (c.toNat - '0'.toNat)
      if next < Nat.pow 2 64 then gather next cs else (n, c :: cs)

/-- The largest power of ten that is applied in one step. -/
def largestPower : Nat := 308

/-- The magnitude of a power of ten up to the largest. -/
def powerOfTen (e : Nat) : Magnitude := (Magnitude.ofDecimal 1 e).getD .zero

/-- `m * 10 ^ e`, rounded at each step. A result beyond the largest magnitude is
refused, and so is a large power of ten, of zero alone excepted. -/
def scaled (m : Magnitude) (e : Int) : Option Magnitude :=
  if largestPower < e then if m = .zero then some m else none
  else if 0 ≤ e then m.mul (powerOfTen e.toNat)
  else if -largestPower ≤ e then m.div (powerOfTen (-e).toNat)
  else if m = .zero then some m
  else (m.div (powerOfTen largestPower)).bind fun quotient =>
    scaled quotient (e + largestPower)
termination_by (-e).toNat
decreasing_by unfold largestPower at *; omega

/-- The number that a numeral of JSON stands for. Digits that no longer fit into
64 bits are left out: before the point they count as zeros, behind it not at
all. -/
def ofJsonNumeral? (n : Numeral) : Option Binary64 := do
  let (gathered, zeros) := gather 0 n.whole
  let (gathered, ignored) := gather gathered n.fraction
  let places := (n.fraction.length - ignored.length : Nat)
  let m ← Magnitude.nearest gathered 1
  let m ← scaled m (n.exponent.getD 0 + zeros.length - places)
  return .finite n.negative m

end Binary64
end Sexpr
