import Mathlib
import Sexpr.Binary64.Shortest
import Sexpr.Proofs.Binary64.Nearest

/-!
# Decimals and their nearest magnitudes

Reading a decimal rounds its exact value (`ofDecimal_eq_nearest`), so decimals of
equal value read alike. The shortest decimal of a magnitude reads back
(`readsBack_shortest`).
-/

namespace Sexpr
namespace Magnitude

theorem nearest_zero {den : Nat} (hd : 0 < den) : nearest 0 den = some zero :=
  nearest_eq_zero (by rwa [Nat.zero_mul, Nat.mul_zero])

/-- Below `2 ^ 1024`, a power of two is a lower bound for a decimal of the same
size, as `8 ^ e ≤ 10 ^ e`. -/
theorem two_pow_le_mul_ten_pow {digits : Nat} (e : Nat) (hpos : digits ≠ 0) :
    2 ^ (digits.log2 + 3 * e) ≤ digits * 10 ^ e := by
  rw [pow_add, pow_mul]
  exact Nat.mul_le_mul (Nat.log2_self_le hpos) (Nat.pow_le_pow_left (by decide) e)

theorem overflow_le : overflow ≤ 2 ^ 1024 := Nat.sub_le _ _

/-- Reading a decimal rounds its value. The two bounds of `ofDecimal` only save
work. -/
theorem ofDecimal_eq_nearest (digits : Nat) (e : Int) :
    ofDecimal digits e = nearest (digits * 10 ^ e.toNat) (10 ^ (-e).toNat) := by
  have hten : ∀ k : Nat, 0 < 10 ^ k := fun k => Nat.pow_pos (by decide)
  unfold ofDecimal
  simp only [Nat.pow_eq]
  by_cases hzero : digits = 0
  · rw [if_pos hzero, hzero, Nat.zero_mul, nearest_zero (hten _)]
  rw [if_neg hzero]
  by_cases hsign : 0 ≤ e
  · rw [if_pos hsign, show (-e).toNat = 0 by omega, pow_zero]
    split
    · next hlarge =>
      -- so many digits that the value is beyond every magnitude
      symm
      rw [nearest_eq_none_iff Nat.one_pos, Nat.mul_one]
      calc overflow ≤ 2 ^ 1024 := overflow_le
        _ ≤ 2 ^ (digits.log2 + 3 * e.toNat) := pow_le_pow_right₀ one_le_two hlarge
        _ ≤ digits * 10 ^ e.toNat := two_pow_le_mul_ten_pow _ hzero
    · rfl
  · rw [if_neg hsign, show e.toNat = 0 by omega, pow_zero, Nat.mul_one]
    split
    · next hsmall =>
      -- so many places that the value is below half of the least step
      symm
      apply nearest_eq_zero
      calc 2 * (digits * 2 ^ fineness) < 2 * (2 ^ (digits.log2 + 1) * 2 ^ fineness) := by
            have := Nat.mul_lt_mul_of_pos_right (Nat.lt_log2_self (n := digits))
              (Nat.two_pow_pos fineness)
            omega
        _ = 2 ^ (digits.log2 + 1076) := by
            rw [← pow_add, ← pow_succ']
            rfl
        _ ≤ 2 ^ (3 * (-e).toNat) := Nat.pow_le_pow_right (by decide) hsmall
        _ ≤ 10 ^ (-e).toNat := by
            rw [pow_mul]
            exact Nat.pow_le_pow_left (by decide) _
    · rfl

theorem ofDecimal_mul_ten (digits : Nat) (e : Int) :
    ofDecimal (digits * 10) e = ofDecimal digits (e + 1) := by
  rw [ofDecimal_eq_nearest, ofDecimal_eq_nearest]
  apply nearest_eq_of_cross (Nat.pow_pos (by decide)) (Nat.pow_pos (by decide))
  by_cases hsign : 0 ≤ e
  · rw [show (-e).toNat = 0 by omega, show (-(e + 1)).toNat = 0 by omega,
      show (e + 1).toNat = e.toNat + 1 by omega]
    ring
  · rw [show e.toNat = 0 by omega, show (e + 1).toNat = 0 by omega,
      show (-e).toNat = (-(e + 1)).toNat + 1 by omega]
    ring

end Magnitude

namespace Decimal

/-- Dropping zeros at the end does not change what a decimal reads as. -/
theorem ofDecimal_trimmed (d : Decimal) :
    Magnitude.ofDecimal d.trimmed.digits d.trimmed.exponent =
      Magnitude.ofDecimal d.digits d.exponent := by
  fun_induction trimmed d with
  | case1 d hzero => simp [hzero, Magnitude.ofDecimal]
  | case2 d hzero htail ih =>
      have hdigits : d.digits = d.digits / 10 * 10 := by omega
      rw [ih, ← Magnitude.ofDecimal_mul_ten, ← hdigits]
  | case3 d hzero htail => rfl

end Decimal

namespace Magnitude

/-- The decimal written out in full reads back. -/
theorem readsBack_exact (m : Magnitude) : m.ReadsBack m.exact := by
  unfold ReadsBack exact
  rw [ofDecimal_eq_nearest, ← nearest_units m]
  apply nearest_eq_of_cross (Nat.pow_pos (by decide)) (Nat.two_pow_pos _)
  simp only [Nat.pow_eq, units, neg_neg, Int.toNat_neg_natCast, Int.toNat_natCast, pow_zero]
  generalize fineness = f
  rcases Nat.le_total m.scale f with h | h
  · obtain ⟨k, rfl⟩ := Nat.exists_eq_add_of_le h
    rw [Nat.sub_eq_zero_of_le h, Nat.add_sub_cancel_left, pow_add,
      show 10 ^ k = 2 ^ k * 5 ^ k from Nat.mul_pow 2 5 k]
    ring
  · obtain ⟨k, hk⟩ := Nat.exists_eq_add_of_le h
    rw [Nat.sub_eq_zero_of_le h, hk, Nat.add_sub_cancel_left]
    ring

theorem readsBack_of_neighbour {tie : Tie} {m : Magnitude} {d d' : Decimal} {drop : Nat}
    (h : m.neighbour tie d drop = some d') : m.ReadsBack d' := by
  unfold neighbour at h
  dsimp only at h
  split at h
  · next hbelow =>
    split at h
    · next habove =>
      have heither := Option.some.inj h
      split at heither
      · exact heither ▸ hbelow
      · exact heither ▸ habove
      · exact heither ▸ habove
      · split at heither
        · exact heither ▸ hbelow
        · exact heither ▸ habove
    · exact Option.some.inj h ▸ hbelow
  · split at h
    · next habove => exact Option.some.inj h ▸ habove
    · cases h

/-- The shortest decimal reads back. -/
theorem readsBack_shortest (tie : Tie) (m : Magnitude) : m.ReadsBack (m.shortest tie) := by
  unfold shortest
  dsimp only
  split
  · next d h =>
    -- only decimals that were read back are candidates
    obtain ⟨n, -, hn⟩ := List.exists_of_findSome?_eq_some h
    exact (Decimal.ofDecimal_trimmed d).trans (readsBack_of_neighbour hn)
  · exact (Decimal.ofDecimal_trimmed _).trans (readsBack_exact m)

end Magnitude
end Sexpr
