import Mathlib
import Sexpr.Proofs.Binary64.Text
import Sexpr.Proofs.Form.Linear

/-!
# Building by descent

The builder keeps all finished forms in one row. A reader by descent needs no row and no
marks: for each left bracket it calls itself for the items, and goes on behind the right
bracket that ended them. Both read the same tokens as the same forms, which are those
that the tokens write out (`ofTokens_inverse`).
-/

namespace Sexpr

/-! ## One token -/

/-- The form of a token that is no bracket. -/
def Token.scalar? (t : Token) : Option Form :=
  match t.kind with
  | .leftBracket | .rightBracket => none
  | .identifier => some (.atom t.text)
  | .text => some (.text t.text)
  | .number =>
      match Binary64.ofText? t.text with
      | some (.finite negative m) => some (.number (.finite negative m))
      | _ => none

/-- Two tokens of one kind that are read as the same form, unless they are brackets. -/
def Token.Alike (t u : Token) : Prop := t.kind = u.kind ∧ t.scalar? = u.scalar?

theorem Token.alike_of_scalar {t u : Token} {f : Form} (ht : t.scalar? = some f)
    (hu : u.scalar? = some f) : t.Alike u := by
  refine ⟨?_, ht.trans hu.symm⟩
  grind [Token.scalar?]

theorem Token.alike_of_brackets {t u : Token} (hkind : t.kind = u.kind)
    (h : t.kind = .leftBracket ∨ t.kind = .rightBracket) : t.Alike u := by
  refine ⟨hkind, ?_⟩
  rcases h with h | h <;> simp only [scalar?, ← hkind, h]

namespace Form

theorem Linear.of_scalar {t : Token} {f : Form} {fs : List Form} {ts : List Token}
    (h : t.scalar? = some f) (hfs : Linear fs ts) : Linear (f :: fs) (t :: ts) := by
  unfold Token.scalar? at h
  split at h
  · cases h
  · cases h
  · next hkind =>
    cases h
    exact .atom hkind hfs
  · next hkind =>
    cases h
    exact .text hkind hfs
  · next hkind =>
    split at h
    · next hread =>
      cases h
      exact .number hkind hread hfs
    · cases h

/-- What holds for no forms, and for a form in front of others if it holds for these and
for the items of the form, holds for all that is written out. -/
theorem Linear.scalarInduction
    {motive : (fs : List Form) → (ts : List Token) → Linear fs ts → Prop}
    (nil : motive [] [] .nil)
    (scalar : ∀ {t : Token} {f : Form} {fs : List Form} {ts : List Token}
      (hf : t.scalar? = some f) (hfs : Linear fs ts), motive fs ts hfs →
      motive (f :: fs) (t :: ts) (.of_scalar hf hfs))
    (list : ∀ {l r : Token} {items fs : List Form} {us ts : List Token}
      (hl : l.kind = .leftBracket) (hr : r.kind = .rightBracket) (hitems : Linear items us)
      (hfs : Linear fs ts), motive items us hitems → motive fs ts hfs →
      motive (.list items :: fs) (l :: us ++ r :: ts) (.list hl hr hitems hfs))
    {fs : List Form} {ts : List Token} (h : Linear fs ts) : motive fs ts h := by
  induction h with
  | nil => exact nil
  | atom hkind hfs ih => exact scalar (by simp only [Token.scalar?, hkind]) hfs ih
  | text hkind hfs ih => exact scalar (by simp only [Token.scalar?, hkind]) hfs ih
  | number hkind hread hfs ih =>
      exact scalar (by simp only [Token.scalar?, hkind, hread]) hfs ih
  | list hl hr hitems hfs ihitems ih => exact list hl hr hitems hfs ihitems ih

/-! ## The reader -/

/-- Forms read from the front of a row of tokens, and the tokens left behind them. -/
structure Descent (ts : List Token) where
  forms : List Form
  rest : List Token
  le : rest.length ≤ ts.length

/-- Reads forms up to the end of the tokens or to a right bracket that none of the
brackets read before it has opened. -/
def descend (ts : List Token) : Option (Descent ts) :=
  match ts with
  | [] => some ⟨[], [], Nat.le_refl _⟩
  | t :: ts =>
      match t.kind with
      | .rightBracket => some ⟨[], t :: ts, Nat.le_refl _⟩
      | .leftBracket =>
          match descend ts with
          | some ⟨items, _ :: us, hus⟩ =>
              match descend us with
              | some ⟨fs, rest, hrest⟩ =>
                  some ⟨.list items :: fs, rest, by simp only [List.length_cons] at *; omega⟩
              | none => none
          | _ => none
      | _ =>
          match t.scalar?, descend ts with
          | some f, some ⟨fs, rest, hrest⟩ => some ⟨f :: fs, rest, Nat.le_succ_of_le hrest⟩
          | _, _ => none
termination_by ts.length
decreasing_by all_goals simp only [List.length_cons] at *; omega

/-- The forms of a whole row of tokens, by descent. -/
def byDescent? (ts : List Token) : Option (List Form) :=
  match descend ts with
  | some ⟨fs, [], _⟩ => some fs
  | _ => none

/-! ## What is read -/

/-- The reader takes the forms from the front of the tokens and leaves `rest`. -/
def Reads (ts : List Token) (fs : List Form) (rest : List Token) : Prop :=
  ∃ h, descend ts = some ⟨fs, rest, h⟩

/-- No form begins here: the tokens are at their end, or at a right bracket. -/
def AtClose (ts : List Token) : Prop := ∀ t us, ts = t :: us → t.kind = .rightBracket

section

variable {t : Token} {ts us rest : List Token} {f : Form} {fs items : List Form}

theorem atClose_right (h : t.kind = .rightBracket) (ts : List Token) : AtClose (t :: ts) := by
  rintro _ _ ⟨⟩
  exact h

theorem reads_nil (h : AtClose ts) : Reads ts [] ts := by
  cases ts with
  | nil => exact ⟨Nat.le_refl _, by rw [descend]⟩
  | cons t ts =>
      refine ⟨Nat.le_refl _, ?_⟩
      rw [descend]
      simp only [h t ts rfl]

theorem Reads.scalar (h : Reads ts fs rest) (hf : t.scalar? = some f) :
    Reads (t :: ts) (f :: fs) rest := by
  obtain ⟨hle, hread⟩ := h
  refine ⟨Nat.le_succ_of_le hle, ?_⟩
  rw [descend]
  split
  · next hkind => simp [Token.scalar?, hkind] at hf
  · next hkind => simp [Token.scalar?, hkind] at hf
  · rw [hf, hread]

theorem Reads.list (hitems : Reads ts items (t :: us)) (h : Reads us fs rest) {l : Token}
    (hl : l.kind = .leftBracket) : Reads (l :: ts) (.list items :: fs) rest := by
  obtain ⟨hinner, hreadItems⟩ := hitems
  obtain ⟨hle, hread⟩ := h
  have hshorter : us.length ≤ ts.length := Nat.le_of_succ_le hinner
  refine ⟨Nat.le_succ_of_le (hle.trans hshorter), ?_⟩
  rw [descend]
  simp only [hl, hreadItems, hread]

/-- What is written out is read, up to a right bracket or to the end. -/
theorem reads_of_linear (h : Linear fs us) (hrest : AtClose rest) :
    Reads (us ++ rest) fs rest := by
  induction h using Linear.scalarInduction generalizing rest with
  | nil => exact reads_nil hrest
  | scalar hf _ ih => exact (ih hrest).scalar hf
  | @list l r items fs us ts hl hr _ _ ihitems ih =>
      rw [List.append_assoc, List.cons_append, List.cons_append]
      exact (ihitems (atClose_right hr _)).list (ih hrest) hl

/-- What is read is written out by the tokens in front of what is left. -/
theorem Reads.linear (h : Reads ts fs rest) :
    AtClose rest ∧ ∃ us, ts = us ++ rest ∧ Linear fs us := by
  obtain ⟨hle, hread⟩ := h
  fun_induction descend ts generalizing fs rest with
  | case1 =>
      cases hread
      exact ⟨nofun, [], rfl, .nil⟩
  | case2 t ts hkind =>
      cases hread
      exact ⟨atClose_right hkind ts, [], rfl, .nil⟩
  | case3 l ts hl items r us _ hitems gs rest _ hgs ihitems ih =>
      cases hread
      obtain ⟨hclose, ws, rfl, hinner⟩ := ihitems _ hitems
      obtain ⟨hend, vs, rfl, houter⟩ := ih _ hgs
      refine ⟨hend, l :: ws ++ r :: vs, by simp, ?_⟩
      exact .list hl (hclose r _ rfl) hinner houter
  | case6 t ts f gs rest _ hgs hscalar _ _ ih =>
      cases hread
      obtain ⟨hend, vs, rfl, hmore⟩ := ih _ hgs
      exact ⟨hend, t :: vs, rfl, .of_scalar hscalar hmore⟩
  | case4 | case5 | case7 => cases hread

end

/-- The reader by descent reads what is written out. -/
theorem byDescent?_eq_some_iff {ts : List Token} {fs : List Form} :
    byDescent? ts = some fs ↔ Linear fs ts := by
  constructor
  · intro h
    unfold byDescent? at h
    split at h
    · next gs hle hread =>
      obtain rfl := Option.some.inj h
      obtain ⟨-, us, rfl, hlinear⟩ := Reads.linear ⟨hle, hread⟩
      rwa [List.append_nil]
    · cases h
  · intro h
    have hall : Reads (ts ++ []) fs [] := reads_of_linear h nofun
    rw [List.append_nil] at hall
    obtain ⟨hle, hread⟩ := hall
    unfold byDescent?
    rw [hread]

/-! ## What is free in the tokens -/

theorem exists_append_of_forall₂ {α β : Type} {R : α → β → Prop} {xs ys : List α} {zs : List β}
    (h : List.Forall₂ R (xs ++ ys) zs) :
    ∃ us vs, zs = us ++ vs ∧ List.Forall₂ R xs us ∧ List.Forall₂ R ys vs := by
  induction xs generalizing zs with
  | nil => exact ⟨[], zs, rfl, .nil, h⟩
  | cons x xs ih =>
      obtain ⟨z, rest, hz, hrest, rfl⟩ := List.forall₂_cons_left_iff.1 h
      obtain ⟨us, vs, rfl, hus, hvs⟩ := ih hrest
      exact ⟨z :: us, vs, rfl, .cons hz hus, hvs⟩

section

variable {t : Token} {f : Form} {fs : List Form} {ts us : List Token}

/-- What begins with the form of one token is written out with such a token in front. -/
theorem Linear.exists_scalar (hf : t.scalar? = some f) (h : Linear (f :: fs) us) :
    ∃ u vs, us = u :: vs ∧ u.scalar? = some f ∧ Linear fs vs := by
  cases h with
  | atom hkind hfs => exact ⟨_, _, rfl, by simp only [Token.scalar?, hkind], hfs⟩
  | text hkind hfs => exact ⟨_, _, rfl, by simp only [Token.scalar?, hkind], hfs⟩
  | number hkind hread hfs =>
      exact ⟨_, _, rfl, by simp only [Token.scalar?, hkind, hread], hfs⟩
  | list => grind [Token.scalar?]

/-- Tokens that write out the same forms are alike, one by one. -/
theorem Linear.alike (h : Linear fs ts) (hus : Linear fs us) :
    List.Forall₂ Token.Alike ts us := by
  induction h using Linear.scalarInduction generalizing us with
  | nil =>
      cases hus
      exact .nil
  | scalar hf _ ih =>
      obtain ⟨u, vs, rfl, hu, hvs⟩ := hus.exists_scalar hf
      exact .cons (Token.alike_of_scalar hf hu) (ih hvs)
  | list hl hr _ _ ihitems ih =>
      cases hus with
      | list hl' hr' hitems hfs =>
          have hleft := Token.alike_of_brackets (hl.trans hl'.symm) (Or.inl hl)
          have hright := Token.alike_of_brackets (hr.trans hr'.symm) (Or.inr hr)
          exact List.rel_append (.cons hleft (ihitems hitems)) (.cons hright (ih hfs))

/-- Tokens that are alike, one by one, write out the same forms. -/
theorem Linear.of_alike (h : Linear fs ts) (hus : List.Forall₂ Token.Alike ts us) :
    Linear fs us := by
  induction h using Linear.scalarInduction generalizing us with
  | nil =>
      cases hus
      exact .nil
  | scalar hf _ ih =>
      obtain ⟨u, vs, ⟨-, hu⟩, hvs, rfl⟩ := List.forall₂_cons_left_iff.1 hus
      exact .of_scalar (hu.symm.trans hf) (ih hvs)
  | list hl hr _ _ ihitems ih =>
      obtain ⟨ws, vs, rfl, hws, hvs⟩ := exists_append_of_forall₂ hus
      obtain ⟨l, ws, ⟨hleft, -⟩, hitems, rfl⟩ := List.forall₂_cons_left_iff.1 hws
      obtain ⟨r, vs, ⟨hright, -⟩, hmore, rfl⟩ := List.forall₂_cons_left_iff.1 hvs
      exact .list (hleft.symm.trans hl) (hright.symm.trans hr) (ihitems hitems) (ih hmore)

end

/-! ## Which forms are written out -/

theorem forall_numbersF {p : Binary64 → Prop} {fs : List Form} :
    (∀ v ∈ numbersF fs, p v) ↔ ∀ f ∈ fs, ∀ v ∈ numbersT f, p v := by
  induction fs with
  | nil => simp [numbersF]
  | cons f fs ih => rw [numbersF, List.forall_mem_append, ih, List.forall_mem_cons]

theorem exists_linear_row {fs : List Form} (h : ∀ f ∈ fs, ∃ ts, Linear [f] ts) :
    ∃ ts, Linear fs ts := by
  induction fs with
  | nil => exact ⟨[], .nil⟩
  | cons f fs ih =>
      obtain ⟨⟨ts, hf⟩, hfs⟩ := List.forall_mem_cons.1 h
      obtain ⟨us, hus⟩ := ih hfs
      exact ⟨ts ++ us, hf.append hus⟩

theorem exists_linear (f : Form) (h : ∀ v ∈ numbersT f, v.isFinite = true) :
    ∃ ts, Linear [f] ts := by
  induction f using Form.itemsInduction with
  | number value =>
      cases value with
      | finite negative m =>
          have hread := Binary64.ofText?_text negative m
          exact ⟨[⟨.number, (Binary64.finite negative m).text, .start⟩], .number rfl hread .nil⟩
      | infinite | nan => simp [numbersT, Binary64.isFinite] at h
  | text content => exact ⟨[⟨.text, content, .start⟩], .of_scalar rfl .nil⟩
  | atom name => exact ⟨[⟨.identifier, name, .start⟩], .of_scalar rfl .nil⟩
  | list items ih =>
      have hitems := forall_numbersF.1 h
      obtain ⟨ts, hts⟩ := exists_linear_row fun f hf => ih f hf (hitems f hf)
      exact ⟨⟨.leftBracket, "(", .start⟩ :: ts ++ [⟨.rightBracket, ")", .start⟩],
        .list rfl rfl hts .nil⟩

theorem Linear.isFinite {fs : List Form} {ts : List Token} (h : Linear fs ts) :
    ∀ v ∈ numbersF fs, v.isFinite = true := by
  induction h with
  | nil => exact List.forall_mem_nil _
  | atom _ _ ih | text _ _ ih => exact ih
  | number _ _ _ ih => exact List.forall_mem_cons.2 ⟨rfl, ih⟩
  | list _ _ _ _ ihitems ih => exact List.forall_mem_append.2 ⟨ihitems, ih⟩

/-- **Building and writing out are inverse to each other.** Forms are written out by
tokens just when their numbers are finite; free in these tokens are their places, the texts
of brackets and the spelling of numbers. What is built from them is the forms again, and
what is built from any tokens is written out by these; a reader by descent finds the same
forms. -/
theorem ofTokens_inverse :
    (∀ fs, (∃ ts, Linear fs ts) ↔ ∀ v ∈ numbersF fs, v.isFinite = true) ∧
    (∀ fs ts, Linear fs ts → ∀ us, Linear fs us ↔ List.Forall₂ Token.Alike ts us) ∧
    (∀ fs ts, Linear fs ts → ofTokens ts = .ok fs) ∧
    (∀ fs ts, ofTokens ts = .ok fs → Linear fs ts) ∧
    ∀ fs ts, ofTokens ts = .ok fs ↔ byDescent? ts = some fs := by
  refine ⟨?_, ?_, ?_, ?_, ?_⟩
  · intro fs
    constructor
    · rintro ⟨ts, hts⟩
      exact hts.isFinite
    · intro h
      exact exists_linear_row fun f hf => exists_linear f (forall_numbersF.1 h f hf)
  · intro fs ts hts us
    exact ⟨hts.alike, hts.of_alike⟩
  · intro fs ts hts
    exact hts.ofTokens
  · intro fs ts h
    exact linear_of_ofTokens h
  · intro fs ts
    rw [byDescent?_eq_some_iff]
    exact ⟨linear_of_ofTokens, Linear.ofTokens⟩

end Form
end Sexpr
