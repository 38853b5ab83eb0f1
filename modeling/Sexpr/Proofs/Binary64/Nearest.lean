import Mathlib
import Sexpr.Binary64.Magnitude

/-!
# Rounding to the nearest magnitude

`Magnitude.nearest` depends on its quotient alone (`nearest_eq_of_cross`), gives
every magnitude back (`nearest_units`), and has no answer exactly from half a
step above the largest magnitude on (`nearest_eq_none_iff`).
-/

namespace Sexpr

/-! ## Rounding a quotient to a natural number -/

theorem roundHalfEven_mul_right (num den : Nat) {k : Nat} (hk : 0 < k) :
    roundHalfEven (num * k) (den * k) = roundHalfEven num den := by
  have hlt : 2 * (num % den * k) < den * k ↔ 2 * (num % den) < den := by
    rw [← Nat.mul_assoc]; exact Nat.mul_lt_mul_right hk
  have heq : 2 * (num % den * k) = den * k ↔ 2 * (num % den) = den := by
    rw [← Nat.mul_assoc]; exact Nat.mul_left_inj hk.ne'
  unfold roundHalfEven
  rw [Nat.mul_mod_mul_right, Nat.mul_div_mul_right _ _ hk]
  simp only [hlt, heq]

theorem roundHalfEven_mul_self (q : Nat) {den : Nat} (hd : 0 < den) :
    roundHalfEven (q * den) den = q := by
  unfold roundHalfEven
  rw [Nat.mul_mod_left, Nat.mul_div_cancel _ hd]
  simp [hd]

theorem roundHalfEven_eq_zero {num den : Nat} (h : 2 * num < den) :
    roundHalfEven num den = 0 := by
  have hlt : num < den := by omega
  simp [roundHalfEven, Nat.mod_eq_of_lt hlt, Nat.div_eq_of_lt hlt, h]

/-- The quotient has to come within a half of an even number to be rounded up to it. -/
theorem le_roundHalfEven_iff {n num den : Nat} (hn : n % 2 = 0) (hpos : 0 < n) (hd : 0 < den) :
    n ≤ roundHalfEven num den ↔ (2 * n - 1) * den ≤ 2 * num := by
  have whole : den * (num / den) + num % den = num := Nat.div_add_mod num den
  have hr : num % den < den := Nat.mod_lt _ hd
  unfold roundHalfEven
  generalize num / den = q at *
  generalize num % den = r at *
  subst whole
  obtain ⟨m, rfl⟩ : ∃ m, n = m + 1 := ⟨n - 1, by omega⟩
  have hleft : (2 * (m + 1) - 1) * den = 2 * (den * m) + den := by
    rw [show 2 * (m + 1) - 1 = 2 * m + 1 by omega]; ring
  rw [hleft]
  -- only at `q = m` does the remainder matter: elsewhere a whole step decides
  rcases lt_trichotomy q m with h | rfl | h
  · have := Nat.mul_le_mul_left den (show q + 1 ≤ m from h)
    rw [Nat.mul_add, Nat.mul_one] at this
    split <;> omega
  · split <;> omega
  · have := Nat.mul_le_mul_left den (show m + 1 ≤ q from h)
    rw [Nat.mul_add, Nat.mul_one] at this
    split <;> omega

namespace Magnitude

/-! ## Quotients that have a nearest magnitude -/

theorem nearest_mul_right (num den : Nat) {k : Nat} (hk : 0 < k) :
    nearest (num * k) (den * k) = nearest num den := by
  have hunits : num * k * Nat.pow 2 fineness = num * Nat.pow 2 fineness * k := by ring
  have hden : ∀ scale, den * k * Nat.pow 2 scale = den * Nat.pow 2 scale * k := fun _ => by ring
  unfold nearest
  simp only [hunits, hden, Nat.mul_div_mul_right _ _ hk, roundHalfEven_mul_right _ _ hk]

/-- Equal quotients have the same nearest magnitude. -/
theorem nearest_eq_of_cross {num den num' den' : Nat} (hd : 0 < den) (hd' : 0 < den')
    (h : num * den' = num' * den) : nearest num den = nearest num' den' := by
  calc nearest num den = nearest (num * den') (den * den') := (nearest_mul_right _ _ hd').symm
    _ = nearest (num' * den) (den' * den) := by rw [h, Nat.mul_comm den]
    _ = nearest num' den' := nearest_mul_right _ _ hd

theorem scaleOf_units (m : Magnitude) : scaleOf m.units = m.scale := by
  have hlt : m.significand < 2 ^ 53 := m.significand_lt
  unfold scaleOf units
  change (m.significand * 2 ^ m.scale).log2 - 52 = m.scale
  -- a significand that is not full has the least scale
  rcases m.full with hzero | hfull
  · rw [hzero, pow_zero, Nat.mul_one]
    by_cases hs : m.significand = 0
    · simp [hs]
    · have := (Nat.log2_lt hs).2 hlt
      omega
  · have hfull : 2 ^ 52 ≤ m.significand := hfull
    have hpos : m.significand * 2 ^ m.scale ≠ 0 :=
      Nat.mul_ne_zero (by omega) (by positivity)
    have hlow : 52 + m.scale ≤ (m.significand * 2 ^ m.scale).log2 := by
      rw [Nat.le_log2 hpos, pow_add]
      exact Nat.mul_le_mul_right _ hfull
    have hhigh : (m.significand * 2 ^ m.scale).log2 < 53 + m.scale := by
      rw [Nat.log2_lt hpos, pow_add]
      exact Nat.mul_lt_mul_of_pos_right hlt (by positivity)
    omega

/-- A magnitude is the nearest one to itself. -/
theorem nearest_units (m : Magnitude) : nearest m.units (2 ^ fineness) = some m := by
  have hpos : 0 < 2 ^ fineness := Nat.two_pow_pos fineness
  have hround : roundHalfEven (m.units * 2 ^ fineness) (2 ^ fineness * 2 ^ m.scale)
      = m.significand := by
    have whole : m.units * 2 ^ fineness = m.significand * (2 ^ fineness * 2 ^ m.scale) := by
      rw [Nat.mul_comm (2 ^ fineness), ← Nat.mul_assoc]
      rfl
    rw [whole]
    exact roundHalfEven_mul_self _ (Nat.mul_pos hpos (Nat.two_pow_pos _))
  unfold nearest
  simp only [Nat.pow_eq, Nat.mul_div_cancel _ hpos, scaleOf_units, hround]
  rw [dif_pos m.significand_lt, dif_pos m.scale_le]

theorem nearest_eq_zero {num den : Nat} (h : 2 * (num * 2 ^ fineness) < den) :
    nearest num den = some zero := by
  have hquot : num * 2 ^ fineness / den = 0 := Nat.div_eq_of_lt (by omega)
  have hround : roundHalfEven (num * 2 ^ fineness) (den * 2 ^ 0) = 0 :=
    roundHalfEven_eq_zero (by rwa [pow_zero, Nat.mul_one])
  have hscale : scaleOf 0 = 0 := rfl
  unfold nearest
  simp only [Nat.pow_eq, hquot, hscale, hround]
  rfl

/-! ## Quotients that are too large -/

/-- The first number that is too large: half a step above the largest magnitude. -/
def overflow : Nat := 2 ^ 1024 - 2 ^ 970

theorem overflow_eq : overflow = (2 ^ 54 - 1) * 2 ^ 970 := by
  unfold overflow
  rw [Nat.sub_mul, ← pow_add, Nat.one_mul]

theorem nearest_eq_none {num den : Nat} : nearest num den = none ↔
    let scale := scaleOf (num * 2 ^ fineness / den)
    2045 < scale ∨ (scale = 2045 ∧
      2 ^ 53 ≤ roundHalfEven (num * 2 ^ fineness) (den * 2 ^ scale)) := by
  unfold nearest
  simp only [Nat.pow_eq]
  split <;> split <;> simp only [reduceCtorEq, true_iff, false_iff] <;>
    generalize roundHalfEven (num * 2 ^ fineness) _ = significand at * <;>
    generalize scaleOf _ = scale at * <;> omega

/-- A quotient is scaled down by `scale` from `2 ^ (52 + scale)` units on. -/
theorem le_scaleOf_iff {units den scale : Nat} (hd : 0 < den) (hs : 0 < scale) :
    scale ≤ scaleOf (units / den) ↔ 2 ^ (52 + scale) * den ≤ units := by
  rw [← Nat.le_div_iff_mul_le hd]
  by_cases h : units / den = 0
  · have := Nat.two_pow_pos (52 + scale)
    rw [h, show scaleOf 0 = 0 from rfl]
    omega
  · rw [← Nat.le_log2 h]
    unfold scaleOf
    omega

theorem two_pow_mul_eq_units (a den : Nat) :
    2 ^ (a + 970 + fineness) * den = 2 ^ a * (den * 2 ^ 970) * 2 ^ fineness := by
  rw [pow_add, pow_add]
  generalize 2 ^ 970 = p
  generalize 2 ^ fineness = unit
  ring

/-- Quotients are rounded to infinity from `overflow` on, and no others. -/
theorem nearest_eq_none_iff {num den : Nat} (hd : 0 < den) :
    nearest num den = none ↔ overflow * den ≤ num := by
  have hunit : ∀ {a b : Nat}, a * 2 ^ fineness ≤ b * 2 ^ fineness ↔ a ≤ b := by
    intro a b
    exact Nat.mul_le_mul_right_iff (Nat.two_pow_pos fineness)
  -- the scale and the rounding are bounded by multiples of the same `den * 2 ^ 970`
  have habove : 2046 ≤ scaleOf (num * 2 ^ fineness / den) ↔ 2 ^ 54 * (den * 2 ^ 970) ≤ num := by
    rw [le_scaleOf_iff hd (by decide), show 52 + 2046 = 54 + 970 + fineness from rfl,
      two_pow_mul_eq_units, hunit]
  have hbelow : 2045 ≤ scaleOf (num * 2 ^ fineness / den) ↔ 2 ^ 53 * (den * 2 ^ 970) ≤ num := by
    rw [le_scaleOf_iff hd (by decide), show 52 + 2045 = 53 + 970 + fineness from rfl,
      two_pow_mul_eq_units, hunit]
  have hround : 2 ^ 53 ≤ roundHalfEven (num * 2 ^ fineness) (den * 2 ^ 2045) ↔
      (2 ^ 54 - 1) * (den * 2 ^ 970) ≤ num := by
    rw [le_roundHalfEven_iff (by decide) (by decide) (Nat.mul_pos hd (Nat.two_pow_pos _)),
      Nat.mul_comm den, show 2045 = 1 + 970 + fineness from rfl, two_pow_mul_eq_units,
      ← hunit (b := num)]
    generalize den * 2 ^ 970 = p
    generalize num * 2 ^ fineness = units
    rw [Nat.mul_assoc (2 ^ 1), Nat.mul_assoc]
    omega
  rw [nearest_eq_none, overflow_eq, Nat.mul_assoc, Nat.mul_comm (2 ^ 970)]
  generalize den * 2 ^ 970 = p at *
  dsimp only
  generalize scaleOf (num * 2 ^ fineness / den) = scale at *
  constructor
  · rintro (h | ⟨rfl, h⟩)
    · have := habove.1 h
      omega
    · exact hround.1 h
  · intro h
    have := hbelow.2 (by omega)
    by_cases hscale : scale = 2045
    · exact Or.inr ⟨hscale, hscale ▸ hround.2 h⟩
    · exact Or.inl (by omega)

end Magnitude
end Sexpr
