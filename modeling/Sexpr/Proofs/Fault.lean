import Mathlib

/-!
# Results and their faults

A stage gives a result or a fault. Stages one behind the other give a result if each of
them does (`exists_of_bind`), and otherwise the fault of the first one that gives none
(`faultOf?_bind`); the same goes for a stage that is run on a row (`faultOf?_mapM`).
-/

namespace Sexpr

variable {ε α β : Type}

/-! ## Results -/

theorem exists_of_bind {x : Except ε α} {f : α → Except ε β} {b : β}
    (h : (do let a ← x; f a) = .ok b) : ∃ a, x = .ok a ∧ f a = .ok b := by
  cases x with
  | error fault => cases h
  | ok a => exact ⟨a, rfl, h⟩

/-- The results of a row are those of its members. -/
theorem forall₂_of_mapM {f : α → Except ε β} {as : List α} {bs : List β}
    (h : as.mapM f = .ok bs) : List.Forall₂ (fun a b => f a = .ok b) as bs := by
  induction as generalizing bs with
  | nil =>
      cases h
      exact .nil
  | cons a as ih =>
      rw [List.mapM_cons] at h
      obtain ⟨b, hb, h⟩ := exists_of_bind h
      obtain ⟨more, hmore, h⟩ := exists_of_bind h
      cases h
      exact .cons hb (ih hmore)

/-- Each result of a row is that of a member. -/
theorem exists_mem_of_mapM {f : α → Except ε β} {as : List α} {bs : List β}
    (h : as.mapM f = .ok bs) {b : β} (hb : b ∈ bs) : ∃ a ∈ as, f a = .ok b := by
  have hrow := forall₂_of_mapM h
  clear h
  induction hrow with
  | nil => cases hb
  | @cons a _ as _ hfirst _ ih =>
      rcases List.mem_cons.1 hb with rfl | hb
      · exact ⟨a, List.mem_cons_self, hfirst⟩
      · obtain ⟨a', ha', hresult⟩ := ih hb
        exact ⟨a', List.mem_cons_of_mem _ ha', hresult⟩

/-! ## Faults -/

/-- The fault of a result. -/
def faultOf? : Except ε α → Option ε
  | .ok _ => none
  | .error e => some e

theorem faultOf?_eq_none_iff {x : Except ε α} : faultOf? x = none ↔ ∃ a, x = .ok a := by
  cases x <;> simp [faultOf?]

theorem faultOf?_eq_some_iff {x : Except ε α} {e : ε} :
    faultOf? x = some e ↔ x = .error e := by
  cases x <;> simp [faultOf?]

/-- What comes later can only be at fault if what comes first is not. -/
theorem faultOf?_bind {x : Except ε α} {k : α → Except ε β} {later : Option ε}
    (h : ∀ a, faultOf? (k a) = later) :
    faultOf? (do let a ← x; k a) = (faultOf? x).or later := by
  cases x with
  | error e => rfl
  | ok a => exact h a

/-- What is made of a result is at fault as the result is. -/
theorem faultOf?_map (x : Except ε α) (k : α → β) :
    faultOf? (do return k (← x)) = faultOf? x := by
  cases x <;> rfl

/-- A row is at fault as the first of its members that is. -/
theorem faultOf?_mapM (f : α → Except ε β) (as : List α) :
    faultOf? (as.mapM f) = as.findSome? fun a => faultOf? (f a) := by
  induction as with
  | nil => rfl
  | cons a as ih =>
      rw [List.mapM_cons, List.findSome?_cons, ← ih,
        faultOf?_bind fun b => faultOf?_map (as.mapM f) (b :: ·)]
      cases faultOf? (f a) <;> rfl

end Sexpr
