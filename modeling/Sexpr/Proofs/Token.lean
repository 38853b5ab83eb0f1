import Mathlib
import Sexpr.Proofs.Lexeme
import Sexpr.Token

/-!
# The grammar of tokens

Which tokens a source can hold (`Token.Fits`), and the discipline of their
brackets, said twice: by counting (`Token.BalancedFrom`) and by a stack of places
(`Token.openedBy`). A row closes all its brackets in the one sense exactly if it
does in the other (`openedBy_eq_nil_iff`).
-/

namespace Sexpr
namespace Token

/-- The token is spelled as its kind wants it, and `rest` may stand behind it. -/
def Fits (t : Token) (rest : List Char) : Prop :=
  match t.kind with
  | .leftBracket => t.text = "("
  | .rightBracket => t.text = ")"
  | .text => '"' ∉ t.text.toList
  | .number => IsNumber t.text.toList ∧ EndsNumber rest
  | .identifier =>
      IsSign t.text.toList ∧ EndsNumber rest ∨ IsName t.text.toList ∧ EndsName rest

/-- The lexeme of a token. -/
def lexeme (t : Token) : Lexeme :=
  match t.kind with
  | .leftBracket => .opening
  | .rightBracket => .closing
  | .text => .text t.text.toList
  | .number => .number t.text.toList
  | .identifier => .word t.text.toList

theorem Fits.lexeme_fits {t : Token} {rest : List Char} (h : t.Fits rest) :
    t.lexeme.Fits rest := by
  obtain ⟨kind, text, place⟩ := t
  cases kind with
  | leftBracket | rightBracket => trivial
  | text | number | identifier => exact h

theorem Fits.lexeme_chars {t : Token} {rest : List Char} (h : t.Fits rest) :
    t.lexeme.chars = t.spelling := by
  obtain ⟨kind, text, place⟩ := t
  cases kind with
  | leftBracket => cases h; simp [lexeme, spelling, Lexeme.chars]
  | rightBracket => cases h; simp [lexeme, spelling, Lexeme.chars]
  | text | number | identifier => rfl

theorem Fits.spelling_ne_nil {t : Token} {rest : List Char} (h : t.Fits rest) :
    t.spelling ≠ [] := by
  obtain ⟨kind, text, place⟩ := t
  cases kind with
  | leftBracket => cases h; simp [spelling]
  | rightBracket => cases h; simp [spelling]
  | text => exact List.cons_ne_nil _ _
  | number =>
      intro hnil
      obtain ⟨sign, digits, point, fraction, heq, -, hne, -⟩ := h.1.parts
      have hparts : sign ++ digits ++ point = [] := heq.symm.trans hnil
      simp_all
  | identifier =>
      intro hnil
      rcases h with ⟨hs | hs, -⟩ | ⟨⟨c, tail, hs, -⟩, -⟩ <;>
        exact List.cons_ne_nil _ _ (hs.symm.trans hnil)

/-! ## Open brackets -/

/-- The places of the open brackets behind a token, innermost first, with `ps`
those before it. A right bracket has to close one. -/
def opened (ps : List Position) (t : Token) : Option (List Position) :=
  match t.kind with
  | .leftBracket => some (t.position :: ps)
  | .rightBracket =>
      match ps with
      | [] => none
      | _ :: ps => some ps
  | _ => some ps

/-- The places of the open brackets behind a row of tokens. -/
def openedBy (ps : List Position) (ts : List Token) : Option (List Position) :=
  ts.foldlM opened ps

@[simp] theorem openedBy_nil (ps : List Position) : openedBy ps [] = some ps := rfl

@[simp] theorem openedBy_cons (ps : List Position) (t : Token) (ts : List Token) :
    openedBy ps (t :: ts) = (opened ps t).bind (openedBy · ts) := rfl

theorem openedBy_append (ps : List Position) (ts us : List Token) :
    openedBy ps (ts ++ us) = (openedBy ps ts).bind (openedBy · us) :=
  List.foldlM_append

/-! ## Counting brackets -/

def lefts (ts : List Token) : Nat := ts.countP (·.kind = .leftBracket)

def rights (ts : List Token) : Nat := ts.countP (·.kind = .rightBracket)

/-- With `n` brackets open before them, the tokens never close more brackets than
are open, and all are closed behind them. -/
def BalancedFrom (n : Nat) (ts : List Token) : Prop :=
  (∀ pre, pre <+: ts → rights pre ≤ n + lefts pre) ∧ rights ts = n + lefts ts

theorem balancedFrom_nil {n : Nat} : BalancedFrom n [] ↔ n = 0 := by
  simp [BalancedFrom, lefts, rights]
  omega

/-- Prefixes of a row with a token in front. -/
theorem balancedFrom_cons {n : Nat} {t : Token} {ts : List Token} :
    BalancedFrom n (t :: ts) ↔
      (∀ pre, pre <+: ts → rights [t] + rights pre ≤ n + (lefts [t] + lefts pre)) ∧
        rights [t] + rights ts = n + (lefts [t] + lefts ts) := by
  have hlefts : ∀ us, lefts (t :: us) = lefts [t] + lefts us := by
    intro us
    show lefts ([t] ++ us) = _
    exact List.countP_append
  have hrights : ∀ us, rights (t :: us) = rights [t] + rights us := by
    intro us
    show rights ([t] ++ us) = _
    exact List.countP_append
  unfold BalancedFrom
  rw [hlefts, hrights]
  apply and_congr_left
  intro _
  constructor
  · intro h pre hpre
    rw [← hlefts, ← hrights]
    exact h _ (List.cons_prefix_cons.2 ⟨rfl, hpre⟩)
  · intro h pre hpre
    rcases List.prefix_cons_iff.1 hpre with rfl | ⟨us, rfl, hus⟩
    · simp [rights]
    · rw [hlefts, hrights]
      exact h us hus

theorem balancedFrom_left {n : Nat} {t : Token} {ts : List Token} (h : t.kind = .leftBracket) :
    BalancedFrom n (t :: ts) ↔ BalancedFrom (n + 1) ts := by
  have hcounts : lefts [t] = 1 ∧ rights [t] = 0 := by simp [lefts, rights, h]
  rw [balancedFrom_cons, hcounts.1, hcounts.2]
  simp only [BalancedFrom, Nat.zero_add, Nat.add_assoc]

theorem balancedFrom_right {n : Nat} {t : Token} {ts : List Token} (h : t.kind = .rightBracket) :
    BalancedFrom n (t :: ts) ↔ ∃ m, n = m + 1 ∧ BalancedFrom m ts := by
  have hcounts : lefts [t] = 0 ∧ rights [t] = 1 := by simp [lefts, rights, h]
  rw [balancedFrom_cons, hcounts.1, hcounts.2]
  constructor
  · rintro ⟨hpre, hall⟩
    have hempty := hpre [] List.nil_prefix
    simp only [lefts, rights, List.countP_nil] at hempty
    refine ⟨n - 1, by omega, ?_, by omega⟩
    intro pre h
    have := hpre pre h
    omega
  · rintro ⟨m, rfl, hpre, hall⟩
    refine ⟨?_, by omega⟩
    intro pre h
    have := hpre pre h
    omega

theorem balancedFrom_other {n : Nat} {t : Token} {ts : List Token} (hl : t.kind ≠ .leftBracket)
    (hr : t.kind ≠ .rightBracket) : BalancedFrom n (t :: ts) ↔ BalancedFrom n ts := by
  have hcounts : lefts [t] = 0 ∧ rights [t] = 0 := by simp [lefts, rights, hl, hr]
  rw [balancedFrom_cons, hcounts.1, hcounts.2]
  simp only [BalancedFrom, Nat.zero_add]

/-- The stack of places runs empty on balanced rows and no others. -/
theorem openedBy_eq_nil_iff {ps : List Position} {ts : List Token} :
    openedBy ps ts = some [] ↔ BalancedFrom ps.length ts := by
  induction ts generalizing ps with
  | nil => rw [openedBy_nil, balancedFrom_nil, Option.some.injEq, List.length_eq_zero_iff]
  | cons t ts ih =>
      obtain ⟨kind, text, place⟩ := t
      cases kind with
      | leftBracket =>
          rw [balancedFrom_left rfl]
          exact ih
      | rightBracket =>
          rw [balancedFrom_right rfl]
          cases ps with
          | nil => simp [opened]
          | cons p ps => simpa [opened] using ih
      | text | number | identifier =>
          rw [balancedFrom_other (by simp) (by simp)]
          exact ih

end Token
end Sexpr
