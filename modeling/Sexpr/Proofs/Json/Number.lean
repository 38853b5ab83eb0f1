import Mathlib
import Sexpr.Json.Number
import Sexpr.Proofs.Binary64.Literal

/-!
# Numbers as they are written in JSON

A finite number is written as a numeral of JSON, positionally or with a power of ten
(`toJson_cases`). Whether a reader finds the number again is a matter of its own
rounding (`readBack?`).
-/

namespace Sexpr
namespace Binary64

/-- A positional numeral has digits on both sides of the point. -/
theorem isJson_positionalNumeral (negative : Bool) {d : Decimal}
    (h : d.digits = 0 → d.exponent = 0) : (positionalNumeral negative d).IsJson := by
  obtain ⟨hne, hwhole, hfraction, -⟩ := d.positional_spec
  refine ⟨hne, hwhole, Decimal.positional_whole h, ?_⟩
  show AllDigits (if d.positional.2.isEmpty then ['0'] else d.positional.2)
  split
  · intro c hc
    rw [List.mem_singleton.1 hc]
    rfl
  · exact hfraction

/-- One digit stands before the point, so no zero is in front of another digit. -/
theorem isJson_scientificNumeral (negative : Bool) (d : Decimal) :
    (scientificNumeral negative d).IsJson := by
  have hdigits := allDigits_toDigits d.digits
  have hne : Nat.toDigits 10 d.digits ≠ [] := Nat.toDigits_ne_nil
  obtain ⟨c, cs, hchars⟩ := List.exists_cons_of_ne_nil hne
  unfold scientificNumeral
  rw [hchars] at hdigits ⊢
  obtain ⟨hc, hcs⟩ := List.forall_mem_cons.1 hdigits
  refine ⟨nofun, ?_, ?_, hcs⟩
  · intro e he
    rw [List.mem_singleton.1 he]
    exact hc
  · by_cases hzero : c = '0'
    · exact Or.inl (by rw [hzero]; rfl)
    · exact Or.inr (by simpa using hzero)

/-- A finite number is written as a numeral of JSON, and any other as null. -/
theorem toJson_cases (value : Binary64) :
    (value.isFinite = true ∧ ∃ n : Numeral, n.IsJson ∧ value.toJson = .number n) ∨
      (value.isFinite = false ∧ value.toJson = .null) := by
  cases value with
  | infinite | nan => exact Or.inr ⟨rfl, rfl⟩
  | finite negative m =>
      left
      refine ⟨rfl, ?_⟩
      unfold toJson
      dsimp only
      split
      · exact ⟨_, isJson_positionalNumeral negative (m.shortest_eq_zero .even), rfl⟩
      · exact ⟨_, isJson_scientificNumeral negative _, rfl⟩

/-- The number that is read where a number has been written. -/
def readBack? (value : Binary64) : Option Binary64 :=
  match value.toJson with
  | .number n => ofJsonNumeral? n
  | _ => none

/-- If the number is finite, it is read where it has been written. -/
def KeptByJson (value : Binary64) : Prop :=
  value.isFinite = true → value.readBack? = some value

/-- In place of a number that is not finite, none is read. -/
theorem readBack?_eq_some_iff {value result : Binary64} (h : value.KeptByJson) :
    value.readBack? = some result ↔ result = value ∧ value.isFinite = true := by
  rcases value.toJson_cases with ⟨hfinite, -⟩ | ⟨hfinite, hnull⟩
  · rw [h hfinite, Option.some.injEq, eq_comm]
    exact (and_iff_left hfinite).symm
  · simp [readBack?, hnull, hfinite]

end Binary64
end Sexpr
