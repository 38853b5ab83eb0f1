/-!
# Decimals

Exact decimal numbers without a sign, and their positional form.
-/

namespace Sexpr

/-- The number `digits * 10 ^ exponent`. -/
structure Decimal where
  digits : Nat
  exponent : Int
deriving DecidableEq, Inhabited, Repr

namespace Decimal

/-- The same number with no trailing zero among its digits. -/
def trimmed (d : Decimal) : Decimal :=
  if d.digits = 0 then ⟨0, 0⟩
  else if d.digits % 10 = 0 then trimmed ⟨d.digits / 10, d.exponent + 1⟩
  else d
termination_by d.digits
decreasing_by omega

/-- The exponent of the leading digit. -/
def leading (d : Decimal) : Int :=
  d.exponent + (Nat.toDigits 10 d.digits).length - 1

/-- The positional form: the digits before the point, of which there is at least
one, and those behind it. -/
def positional (d : Decimal) : List Char × List Char :=
  let digits := Nat.toDigits 10 d.digits
  if 0 ≤ d.exponent then (digits ++ List.replicate d.exponent.toNat '0', [])
  else
    let places := (-d.exponent).toNat
    let padded := digits.leftpad (places + 1) '0'
    padded.splitAt (padded.length - places)

end Decimal
end Sexpr
