import Sexpr.Binary64.Magnitude
import Sexpr.Decimal

/-!
# The shortest decimal that reads back

`Magnitude.shortest` searches the decimals with 1, 2, ... 17 digits for one that
rounds to a given magnitude. With each number of digits only the two neighbours
of the magnitude can be the answer. The first number of digits with a hit wins,
and of two hits the nearer one.
-/

namespace Sexpr

/-- Which of two equally near decimals is taken. -/
inductive Tie where
  | even
  | up
deriving DecidableEq, Inhabited, Repr

namespace Magnitude

/-- The magnitude written out in full, as a decimal: a half is five tenths. -/
def exact (m : Magnitude) : Decimal :=
  ⟨m.significand * Nat.pow 2 (m.scale - fineness) * Nat.pow 5 (fineness - m.scale),
    -(fineness - m.scale : Nat)⟩

/-- Whether the magnitude is the nearest one to the decimal `d`. -/
def ReadsBack (m : Magnitude) (d : Decimal) : Prop :=
  ofDecimal d.digits d.exponent = some m

instance (m : Magnitude) (d : Decimal) : Decidable (m.ReadsBack d) :=
  inferInstanceAs (Decidable (_ = _))

/-- Of the two neighbours of `d` whose digits stop `drop` places earlier, the one
that reads back, or the nearer if both do. -/
def neighbour (tie : Tie) (m : Magnitude) (d : Decimal) (drop : Nat) : Option Decimal :=
  let grid := Nat.pow 10 drop
  let below : Decimal := ⟨d.digits / grid, d.exponent + drop⟩
  let above : Decimal := ⟨d.digits / grid + 1, d.exponent + drop⟩
  let nearer :=
    match compare (2 * (d.digits % grid)) grid, tie with
    | .lt, _ => below
    | .gt, _ => above
    | .eq, .up => above
    | .eq, .even => if below.digits % 2 = 0 then below else above
  if m.ReadsBack below then
    if m.ReadsBack above then some nearer else some below
  else if m.ReadsBack above then some above
  else none

/-- The decimal with the fewest digits that reads back, as near as can be. -/
def shortest (tie : Tie) (m : Magnitude) : Decimal :=
  let exact := m.exact
  let length := (Nat.toDigits 10 exact.digits).length
  match (List.range' 1 17).findSome? fun n => m.neighbour tie exact (length - n) with
  | some d => d.trimmed
  | none => exact.trimmed

end Magnitude
end Sexpr
