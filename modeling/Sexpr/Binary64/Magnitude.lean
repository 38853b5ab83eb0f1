/-!
# Magnitudes of binary floating point

The finite numbers of 64-bit binary floating point without their signs, and the
rounding of a quotient of natural numbers to the nearest of them. All arithmetic
is on natural numbers: a magnitude is a multiple of the smallest one.
-/

namespace Sexpr

/-- The natural number nearest to `num / den`; a half goes to the even one. -/
def roundHalfEven (num den : Nat) : Nat :=
  if 2 * (num % den) < den ∨ (2 * (num % den) = den ∧ num / den % 2 = 0) then
    num / den
  else num / den + 1

theorem div_le_roundHalfEven (num den : Nat) : num / den ≤ roundHalfEven num den := by
  unfold roundHalfEven; split <;> omega

/-- The number `significand * 2 ^ scale / 2 ^ 1074`. The significand has 53 bits,
and fewer only at the smallest scale, so each number has one such form. -/
structure Magnitude where
  significand : Nat
  scale : Nat
  significand_lt : significand < Nat.pow 2 53
  scale_le : scale ≤ 2045
  full : scale = 0 ∨ Nat.pow 2 52 ≤ significand
deriving DecidableEq, Repr

namespace Magnitude

/-- The exponent of the smallest positive magnitude, `1 / 2 ^ 1074`. -/
def fineness : Nat := 1074

/-- The magnitude as a multiple of the smallest one. -/
def units (m : Magnitude) : Nat := m.significand * Nat.pow 2 m.scale

def zero : Magnitude := ⟨0, 0, by decide, by decide, .inl rfl⟩

instance : Inhabited Magnitude := ⟨zero⟩

/-- How far the multiple `units` of the smallest magnitude has to be scaled down
to fit into 53 bits. -/
def scaleOf (units : Nat) : Nat := units.log2 - 52

theorem le_div_of_scaleOf_pos {units : Nat} (h : scaleOf units ≠ 0) :
    Nat.pow 2 52 ≤ units / Nat.pow 2 (scaleOf units) := by
  have positive : units ≠ 0 := by
    intro zero; simp [scaleOf, zero] at h
  have size : Nat.pow 2 units.log2 ≤ units := Nat.log2_self_le positive
  have split : units.log2 = 52 + scaleOf units := by unfold scaleOf at *; omega
  have product : Nat.pow 2 52 * Nat.pow 2 (scaleOf units) = Nat.pow 2 units.log2 := by
    rw [split]; exact (Nat.pow_add 2 52 _).symm
  exact (Nat.le_div_iff_mul_le (Nat.two_pow_pos _)).2 (Nat.le_trans (Nat.le_of_eq product) size)

/-- The magnitude nearest to `num / den`; a half goes to the even significand.
A quotient that rounds beyond the largest magnitude has none. -/
def nearest (num den : Nat) : Option Magnitude :=
  let units := num * Nat.pow 2 fineness
  let scale := scaleOf (units / den)
  let significand := roundHalfEven units (den * Nat.pow 2 scale)
  if fits : significand < Nat.pow 2 53 then
    if bounded : scale ≤ 2045 then
      some ⟨significand, scale, fits, bounded, by
        by_cases h : scale = 0
        · exact .inl h
        · refine .inr (Nat.le_trans (le_div_of_scaleOf_pos h) ?_)
          rw [Nat.div_div_eq_div_mul]
          exact div_le_roundHalfEven _ _⟩
    else none
  else if bounded : scale + 1 ≤ 2045 then
    some ⟨Nat.pow 2 52, scale + 1, by decide, bounded, .inr (Nat.le_refl _)⟩
  else none

/-- The magnitude nearest to `digits * 10 ^ exponent`. The bounds keep a far too
large or far too small exponent from being multiplied out. -/
def ofDecimal (digits : Nat) (exponent : Int) : Option Magnitude :=
  if digits = 0 then some zero
  else if 0 ≤ exponent then
    let e := exponent.toNat
    if 1024 ≤ digits.log2 + 3 * e then none else nearest (digits * Nat.pow 10 e) 1
  else
    let e := (-exponent).toNat
    if digits.log2 + 1076 ≤ 3 * e then some zero else nearest digits (Nat.pow 10 e)

/-- The magnitude nearest to a product. -/
def mul (a b : Magnitude) : Option Magnitude :=
  nearest (a.units * b.units) (Nat.pow 2 fineness * Nat.pow 2 fineness)

/-- The magnitude nearest to a quotient. -/
def div (a b : Magnitude) : Option Magnitude := nearest a.units b.units

end Magnitude
end Sexpr
