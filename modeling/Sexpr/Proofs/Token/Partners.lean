import Mathlib
import Sexpr.Proofs.Token

/-!
# Brackets and their partners

A left bracket is closed by its partner: the right bracket with balanced tokens
between the two. The places that the tokens leave open are those of the left
brackets without a partner (`openedBy_eq_some`, `unclosed_eq`).
-/

namespace Sexpr
namespace Token

/-! ## Partners -/

/-- The tokens close a bracket inside which `n` others are open: balanced tokens,
but for these, and then a right bracket. -/
def ClosesOver (n : Nat) (ts : List Token) : Prop :=
  ∃ inner r rest, ts = inner ++ r :: rest ∧ r.kind = .rightBracket ∧ BalancedFrom n inner

/-- Behind a left bracket, the tokens hold its partner. -/
def Partnered (ts : List Token) : Prop := ClosesOver 0 ts

theorem not_closesOver_nil {n : Nat} : ¬ ClosesOver n [] := by
  rintro ⟨inner, r, rest, h, -⟩
  cases inner <;> cases h

/-- A token in front that is not the bracket looked for. -/
theorem closesOver_cons {n m : Nat} {t : Token} {ts : List Token}
    (hbalanced : ∀ inner, BalancedFrom n (t :: inner) ↔ BalancedFrom m inner)
    (hfirst : t.kind = .rightBracket → n ≠ 0) : ClosesOver n (t :: ts) ↔ ClosesOver m ts := by
  constructor
  · rintro ⟨inner, r, rest, h, hr, hinner⟩
    cases inner with
    | nil =>
        obtain ⟨rfl, rfl⟩ := List.cons.inj h
        exact absurd (balancedFrom_nil.1 hinner) (hfirst hr)
    | cons u inner =>
        obtain ⟨rfl, rfl⟩ := List.cons.inj h
        exact ⟨inner, r, rest, rfl, hr, (hbalanced inner).1 hinner⟩
  · rintro ⟨inner, r, rest, rfl, hr, hinner⟩
    exact ⟨t :: inner, r, rest, rfl, hr, (hbalanced inner).2 hinner⟩

variable {n : Nat} {t : Token} {ts : List Token}

theorem closesOver_left (h : t.kind = .leftBracket) :
    ClosesOver n (t :: ts) ↔ ClosesOver (n + 1) ts :=
  closesOver_cons (fun _ => balancedFrom_left h) (by simp [h])

theorem closesOver_right_zero (h : t.kind = .rightBracket) : ClosesOver 0 (t :: ts) :=
  ⟨[], t, ts, rfl, h, balancedFrom_nil.2 rfl⟩

theorem closesOver_right_succ (h : t.kind = .rightBracket) :
    ClosesOver (n + 1) (t :: ts) ↔ ClosesOver n ts := by
  apply closesOver_cons
  · intro inner
    rw [balancedFrom_right h]
    simp
  · simp

theorem closesOver_other (hl : t.kind ≠ .leftBracket) (hr : t.kind ≠ .rightBracket) :
    ClosesOver n (t :: ts) ↔ ClosesOver n ts :=
  closesOver_cons (fun _ => balancedFrom_other hl hr) (fun h => absurd h hr)

/-! ## Looking for the partner -/

/-- Whether the tokens close a bracket inside which `n` others are open. -/
def closes : Nat → List Token → Bool
  | _, [] => false
  | n, t :: ts =>
      match t.kind with
      | .leftBracket => closes (n + 1) ts
      | .rightBracket =>
          match n with
          | 0 => true
          | n + 1 => closes n ts
      | _ => closes n ts

theorem closes_iff : closes n ts = true ↔ ClosesOver n ts := by
  induction ts generalizing n with
  | nil => simp [closes, not_closesOver_nil]
  | cons t ts ih =>
      cases hkind : t.kind with
      | leftBracket => simp only [closes, hkind, ih, closesOver_left hkind]
      | rightBracket =>
          cases n with
          | zero => simp only [closes, hkind, closesOver_right_zero hkind]
          | succ n => simp only [closes, hkind, ih, closesOver_right_succ hkind]
      | text | number | identifier =>
          simp only [closes, hkind, ih]
          exact (closesOver_other (by simp [hkind]) (by simp [hkind])).symm

instance (ts : List Token) : Decidable (Partnered ts) :=
  decidable_of_iff (closes 0 ts = true) closes_iff

/-! ## Brackets without a partner -/

/-- The places of the left brackets without a partner, in the order of the tokens. -/
def unclosed : List Token → List Position
  | [] => []
  | t :: ts =>
      if t.kind = .leftBracket ∧ ¬ Partnered ts then t.position :: unclosed ts else unclosed ts

/-- **What is left open are the brackets without a partner.** Of the brackets that were
open before, the tokens close the innermost `m`. -/
theorem openedBy_eq_some {qs ps : List Position} (h : openedBy qs ts = some ps) :
    ∃ m ≤ qs.length, ps = (unclosed ts).reverse ++ qs.drop m ∧
      ∀ n, ClosesOver n ts ↔ n < m := by
  induction ts generalizing qs with
  | nil =>
      cases h
      exact ⟨0, Nat.zero_le _, rfl, by simp [not_closesOver_nil]⟩
  | cons t ts ih =>
      obtain ⟨rs, hopened, h⟩ := Option.bind_eq_some_iff.1 h
      obtain ⟨m, hm, rfl, hcloses⟩ := ih h
      cases hkind : t.kind with
      | leftBracket =>
          simp only [opened, hkind, Option.some.injEq] at hopened
          subst hopened
          cases m with
          | zero =>
              -- nothing behind the bracket closes it, so it stays
              have halone : ¬ Partnered ts := by simp [Partnered, hcloses]
              exact ⟨0, Nat.zero_le _, by simp [unclosed, hkind, halone], by
                simp [closesOver_left hkind, hcloses]⟩
          | succ m =>
              have hpartner : Partnered ts := by simp [Partnered, hcloses]
              exact ⟨m, Nat.le_of_succ_le_succ hm, by simp [unclosed, hpartner], by
                simp [closesOver_left hkind, hcloses]⟩
      | rightBracket =>
          cases qs with
          | nil => simp [opened, hkind] at hopened
          | cons q qs =>
              simp only [opened, hkind, Option.some.injEq] at hopened
              subst hopened
              refine ⟨m + 1, Nat.succ_le_succ hm, by simp [unclosed, hkind], ?_⟩
              intro n
              cases n with
              | zero => simp [closesOver_right_zero hkind]
              | succ n => simp [closesOver_right_succ hkind, hcloses]
      | text | number | identifier =>
          simp only [opened, hkind, Option.some.injEq] at hopened
          subst hopened
          refine ⟨m, hm, by simp [unclosed, hkind], ?_⟩
          intro n
          rw [closesOver_other (by simp [hkind]) (by simp [hkind]), hcloses]

/-- If no bracket was open before, those without a partner are open behind the tokens. -/
theorem unclosed_eq {ps : List Position} (h : openedBy [] ts = some ps) :
    unclosed ts = ps.reverse := by
  obtain ⟨m, -, rfl, -⟩ := openedBy_eq_some h
  simp

end Token
end Sexpr
