import Sexpr.Binary64.Magnitude

/-!
# 64-bit binary floating point

The numbers of the format as data: finite ones with their sign, the infinities,
and values that are no number. Nothing here depends on machine floats.
-/

namespace Sexpr

inductive Binary64 where
  | finite (negative : Bool) (magnitude : Magnitude)
  | infinite (negative : Bool)
  | nan (negative : Bool)
deriving DecidableEq, Repr

namespace Binary64

instance : Inhabited Binary64 := ⟨.finite false .zero⟩

def isFinite : Binary64 → Bool
  | .finite _ _ => true
  | _ => false

/-- Whether the sign is a minus; a zero has a sign too. -/
def isNegative : Binary64 → Bool
  | .finite negative _ | .infinite negative | .nan negative => negative

/-- Equality of numbers: the two zeros are equal, and what is no number equals
nothing. -/
def same : Binary64 → Binary64 → Bool
  | .finite s m, .finite t n => m = n && (s = t || m = .zero)
  | .infinite s, .infinite t => s = t
  | _, _ => false

/-- The number with the sign `negative` and the rounded magnitude `m`; a
magnitude beyond the largest one is infinite. -/
def ofRounded (negative : Bool) : Option Magnitude → Binary64
  | some m => .finite negative m
  | none => .infinite negative

end Binary64
end Sexpr
