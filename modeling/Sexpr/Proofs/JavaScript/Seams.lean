import Mathlib

/-!
# Where texts meet

What stands twice in a row in texts that are put together stands so in one of them, or where
two of them meet (`doubled_append`). Texts with a separator between them do not meet, unless
the separator is what is looked for (`doubled_intercalate`, `doubled_intercalate_self`).
-/

namespace Sexpr
namespace JavaScript

/-! ## First and last characters -/

def BeginsWith (c : Char) (text : String) : Prop := text.toList.head? = some c

def EndsWith (c : Char) (text : String) : Prop := text.toList.getLast? = some c

section Texts

variable {c : Char} {a b text separator : String} {texts : List String}

theorem toList_ne_nil (h : text ≠ "") : text.toList ≠ [] := by
  simpa using h

theorem beginsWith_append (ha : a ≠ "") : BeginsWith c (a ++ b) ↔ BeginsWith c a := by
  rw [BeginsWith, String.toList_append, List.head?_append_of_ne_nil _ (toList_ne_nil ha),
    BeginsWith]

theorem endsWith_append (hb : b ≠ "") : EndsWith c (a ++ b) ↔ EndsWith c b := by
  rw [EndsWith, String.toList_append, List.getLast?_append_of_ne_nil _ (toList_ne_nil hb),
    EndsWith]

theorem not_beginsWith (h : c ∉ text.toList) : ¬ BeginsWith c text := by
  intro hbegins
  exact h (List.mem_of_head? hbegins)

theorem not_endsWith (h : c ∉ text.toList) : ¬ EndsWith c text := by
  intro hends
  exact h (List.mem_of_getLast? hends)

theorem beginsWith_intercalate (separator : String) (rest : List String) (h : text ≠ "") :
    BeginsWith c (separator.intercalate (text :: rest)) ↔ BeginsWith c text := by
  cases rest with
  | nil => rw [String.intercalate_singleton]
  | cons next rest =>
      rw [String.intercalate_cons_of_ne_nil (List.cons_ne_nil _ _), String.append_assoc,
        beginsWith_append h]

/-! ## Doubled characters -/

/-- The character stands twice in a row. -/
def Doubled (c : Char) (text : String) : Prop := [c, c] <:+: text.toList

instance (c : Char) (text : String) : Decidable (Doubled c text) :=
  inferInstanceAs (Decidable (_ <:+: _))

theorem not_doubled (h : c ∉ text.toList) : ¬ Doubled c text := by
  intro hdoubled
  exact h (hdoubled.subset List.mem_cons_self)

theorem not_doubled_of_length (h : text.toList.length < 2) : ¬ Doubled c text := by
  intro hdoubled
  exact absurd hdoubled.length_le (Nat.not_le.2 h)

/-- Two characters stand in one of the texts or at their seam. -/
theorem doubled_append : Doubled c (a ++ b) ↔
    Doubled c a ∨ Doubled c b ∨ EndsWith c a ∧ BeginsWith c b := by
  rw [Doubled, String.toList_append, List.infix_append_iff, ← Doubled, ← Doubled]
  constructor
  · rintro (ha | hb | ⟨before, behind, heq, hends, hbegins⟩)
    · exact .inl ha
    · exact .inr (.inl hb)
    · rcases List.append_eq_cons_iff.1 heq.symm with ⟨rfl, rfl⟩ | ⟨rest, rfl, hrest⟩
      · exact .inr (.inl hbegins.isInfix)
      · rcases List.append_eq_cons_iff.1 hrest.symm with ⟨rfl, rfl⟩ | ⟨more, rfl, hmore⟩
        · obtain ⟨front, hfront⟩ := hends
          obtain ⟨back, hback⟩ := hbegins
          refine .inr (.inr ⟨?_, ?_⟩)
          · rw [EndsWith, ← hfront, List.getLast?_concat]
          · rw [BeginsWith, ← hback]
            rfl
        · obtain ⟨rfl, rfl⟩ := List.append_eq_nil_iff.1 hmore.symm
          exact .inl hends.isInfix
  · rintro (ha | hb | ⟨hends, hbegins⟩)
    · exact .inl ha
    · exact .inr (.inl hb)
    · obtain ⟨front, hfront⟩ := List.getLast?_eq_some_iff.1 hends
      obtain ⟨back, hback⟩ := List.head?_eq_some_iff.1 hbegins
      exact .inr (.inr ⟨[c], [c], rfl, ⟨front, hfront.symm⟩, ⟨back, hback.symm⟩⟩)

theorem doubled_append_of_notMem_left (ha : c ∉ a.toList) :
    Doubled c (a ++ b) ↔ Doubled c b := by
  simp [doubled_append, not_doubled ha, not_endsWith ha]

theorem doubled_append_of_notMem_right (hb : c ∉ b.toList) :
    Doubled c (a ++ b) ↔ Doubled c a := by
  simp [doubled_append, not_doubled hb, not_beginsWith hb]

/-- Something else keeps two texts apart. -/
theorem doubled_between (hne : separator ≠ "") (hseparator : c ∉ separator.toList) :
    Doubled c (a ++ separator ++ b) ↔ Doubled c a ∨ Doubled c b := by
  rw [doubled_append, doubled_append_of_notMem_right hseparator, endsWith_append hne]
  simp [not_endsWith hseparator]

theorem doubled_intercalate (hne : separator ≠ "") (hseparator : c ∉ separator.toList) :
    Doubled c (separator.intercalate texts) ↔ ∃ text ∈ texts, Doubled c text := by
  induction texts with
  | nil => simp [Doubled]
  | cons first rest ih =>
      rw [List.exists_mem_cons_iff, ← ih]
      by_cases hrest : rest = []
      · subst hrest
        simp [Doubled]
      · rw [String.intercalate_cons_of_ne_nil hrest, doubled_between hne hseparator]

/-- Between texts that stand with the character between them, it is doubled where a text begins
with it. -/
theorem doubled_intercalate_self (hseparator : separator.toList = [c])
    (htexts : ∀ text ∈ texts, text ≠ "" ∧ ¬ EndsWith c text) :
    Doubled c (separator.intercalate texts) ↔
      (∃ text ∈ texts, Doubled c text) ∨ ∃ text ∈ texts.tail, BeginsWith c text := by
  have hsingle : ¬ Doubled c separator := by
    apply not_doubled_of_length
    rw [hseparator]
    exact Nat.lt_succ_self 1
  have hbegins : BeginsWith c separator := by
    rw [BeginsWith, hseparator]
    rfl
  have hends : EndsWith c separator := by
    rw [EndsWith, hseparator]
    rfl
  have hne : separator ≠ "" := by
    rintro rfl
    cases hseparator
  induction texts with
  | nil => simp [Doubled]
  | cons first rest ih =>
      obtain ⟨⟨hfirst, hlast⟩, hmore⟩ := List.forall_mem_cons.1 htexts
      cases rest with
      | nil => simp [String.intercalate_singleton]
      | cons second rest =>
          have hsecond := beginsWith_intercalate (c := c) separator rest (hmore second (by simp)).1
          have hrest : Doubled c (separator.intercalate (second :: rest)) ↔
              (∃ text ∈ second :: rest, Doubled c text) ∨ ∃ text ∈ rest, BeginsWith c text :=
            ih hmore
          rw [String.intercalate_cons_of_ne_nil (List.cons_ne_nil _ _), doubled_append,
            doubled_append, endsWith_append hne, hsecond, hrest, List.tail_cons,
            List.exists_mem_cons_iff _ first, List.exists_mem_cons_iff (BeginsWith c)]
          simp only [hsingle, hends, hlast, false_and, true_and, or_false]
          rw [or_assoc, or_assoc, or_comm (a := BeginsWith c second)]

end Texts

end JavaScript
end Sexpr
