import Sexpr.Binary64.Basic
import Sexpr.Binary64.Shortest
import Sexpr.Numeral

/-!
# The text of a number

Numbers are read with correct rounding and written with the fewest digits that
read back. The printed form is always positional, however long it gets.
-/

namespace Sexpr
namespace Binary64

/-! ## Reading -/

/-- The number nearest to a numeral. -/
def ofNumeral (n : Numeral) : Binary64 :=
  ofRounded n.negative (Magnitude.ofDecimal n.digits n.scale)

/-- Values that are no numerals are spelled with letters, small or large. -/
def ofWord? (negative : Bool) (letters : List Char) : Option Binary64 :=
  match String.ofList (letters.map Char.toLower) with
  | "inf" | "infinity" => some (.infinite negative)
  | "nan" => some (.nan negative)
  | _ => none

/-- Reads the text of a number. -/
def ofText? (text : String) : Option Binary64 :=
  let (negative, letters) := Numeral.takeSign text.toList
  match ofWord? negative letters with
  | some value => some value
  | none => (Numeral.ofChars? text.toList).map ofNumeral

/-! ## Writing -/

/-- The positional numeral of a finite number. Of two shortest decimals that are
equally near, the larger is printed. -/
def printedNumeral (negative : Bool) (m : Magnitude) : Numeral :=
  let (whole, fraction) := (m.shortest .up).positional
  ⟨negative, whole, fraction, none⟩

/-- The printed form of a number. -/
def text : Binary64 → String
  | .finite negative m => String.ofList (printedNumeral negative m).chars
  | .infinite negative => if negative then "-inf" else "inf"
  | .nan _ => "NaN"

end Binary64
end Sexpr
