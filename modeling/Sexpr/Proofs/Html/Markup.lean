import Mathlib

/-!
# Markup as it is read

A markup text is cut at its tags: what stands between `<` and the next `>` is a tag, and all
else is read character by character (`pieces?`). The pieces are nested if every start tag has
an end tag of the same name and what stands between the two is nested as well (`Nested`). A
text `Splits` into pieces if it does so whatever comes behind it; such texts are put together
one behind the other.
-/

namespace Sexpr
namespace Html

inductive Piece where
  | char (c : Char)
  | start (name : String) (attributes : Option String)
  | stop (name : String)
deriving DecidableEq, Repr

/-! ## Cutting a markup text -/

/-- The name of a tag ends at a blank. -/
def isTagName (name : List Char) : Bool :=
  !name.isEmpty && name.all fun c => c != '<' && c != '>' && c != '/' && !c.isWhitespace

/-- Reads the inside of a tag. In front of the name of an end tag there is a slash; behind
that of a start tag there may be a space and attributes. -/
def tagOf? : List Char → Option Piece
  | '/' :: name => if isTagName name then some (.stop (String.ofList name)) else none
  | inside =>
      let name := inside.takeWhile (!·.isWhitespace)
      if isTagName name then
        match inside.dropWhile (!·.isWhitespace) with
        | [] => some (.start (String.ofList name) none)
        | ' ' :: attributes => some (.start (String.ofList name) (some (String.ofList attributes)))
        | _ => none
      else none

/-- Reads a tag behind its `<`: the tag, and what comes behind the `>`. -/
def tagFrom (cs : List Char) : Option (Piece × List Char) :=
  match cs.dropWhile (· != '>') with
  | [] => none
  | _ :: rest => (tagOf? (cs.takeWhile (· != '>'))).map (·, rest)

theorem length_of_tagFrom {cs rest : List Char} {tag : Piece}
    (h : tagFrom cs = some (tag, rest)) : rest.length < cs.length := by
  have hlength := List.length_dropWhile_le (· != '>') cs
  unfold tagFrom at h
  split at h
  · cases h
  · next hbehind =>
    obtain ⟨_, -, htag⟩ := Option.map_eq_some_iff.1 h
    cases htag
    rw [hbehind, List.length_cons] at hlength
    omega

/-- The pieces of a markup text. -/
def pieces? (cs : List Char) : Option (List Piece) :=
  match cs with
  | [] => some []
  | c :: cs =>
      if c = '<' then
        match _ : tagFrom cs with
        | some (tag, rest) => (pieces? rest).map (tag :: ·)
        | none => none
      else (pieces? cs).map (.char c :: ·)
termination_by cs.length
decreasing_by
  · next h => exact Nat.lt_succ_of_lt (length_of_tagFrom h)
  · simp

/-! ## Tags one inside the other -/

/-- Every start tag has an end tag of its name, with nested pieces in between. -/
inductive Nested : List Piece → Prop
  | nil : Nested []
  | char (c : Char) {rest : List Piece} : Nested rest → Nested (.char c :: rest)
  | element (name : String) (attributes : Option String) {body rest : List Piece} :
      Nested body → Nested rest → Nested (.start name attributes :: body ++ .stop name :: rest)

namespace Nested

theorem append {ps qs : List Piece} (hps : Nested ps) (hqs : Nested qs) : Nested (ps ++ qs) := by
  induction hps with
  | nil => exact hqs
  | char c _ ih => exact .char c ih
  | element name attributes hbody _ _ ih =>
      rw [List.append_assoc, List.cons_append]
      exact .element name attributes hbody ih

theorem chars (cs : List Char) : Nested (cs.map .char) := by
  induction cs with
  | nil => exact .nil
  | cons c _ ih => exact .char c ih

theorem intercalate {separator : List Piece} {rows : List (List Piece)}
    (hseparator : Nested separator) (h : ∀ row ∈ rows, Nested row) :
    Nested (separator.intercalate rows) := by
  induction rows with
  | nil => exact .nil
  | cons row rows ih =>
      obtain ⟨hrow, hrows⟩ := List.forall_mem_cons.1 h
      cases rows with
      | nil =>
          rw [List.intercalate_singleton]
          exact hrow
      | cons next rows =>
          rw [List.intercalate_cons_cons]
          exact (hrow.append hseparator).append (ih hrows)

end Nested

/-! ## Reading one tag -/

theorem isTagName_iff {name : List Char} : isTagName name = true ↔
    name ≠ [] ∧ ∀ c ∈ name, c ≠ '<' ∧ c ≠ '>' ∧ c ≠ '/' ∧ c.isWhitespace = false := by
  simp [isTagName, and_assoc]

theorem tagOf?_stop {name : List Char} (h : isTagName name = true) :
    tagOf? ('/' :: name) = some (.stop (String.ofList name)) := by
  rw [tagOf?, if_pos h]

/-- A name ends where a blank or nothing comes behind it. -/
theorem takeWhile_name {name behind : List Char} (h : isTagName name = true)
    (hbehind : ∀ c ∈ behind.head?, c.isWhitespace = true) :
    (name ++ behind).takeWhile (!·.isWhitespace) = name ∧
      (name ++ behind).dropWhile (!·.isWhitespace) = behind := by
  have hall : ∀ c ∈ name, (!c.isWhitespace) = true := by
    intro c hc
    rw [((isTagName_iff.1 h).2 c hc).2.2.2]
    rfl
  rw [List.takeWhile_append_of_pos hall, List.dropWhile_append_of_pos hall]
  cases behind with
  | nil => simp
  | cons c behind => simp [hbehind c rfl]

theorem tagOf?_start {name : List Char} (h : isTagName name = true) (behind : List Char)
    (hbehind : ∀ c ∈ behind.head?, c = ' ') :
    tagOf? (name ++ behind) =
      some (.start (String.ofList name) (behind.tail?.map String.ofList)) := by
  have hblank : ∀ c ∈ behind.head?, c.isWhitespace = true := by
    intro c hc
    rw [hbehind c hc]
    rfl
  obtain ⟨htake, hdrop⟩ := takeWhile_name h hblank
  unfold tagOf?
  split
  · next heq =>
    -- no name begins with a slash
    exfalso
    obtain ⟨hne, hall⟩ := isTagName_iff.1 h
    cases name with
    | nil => exact hne rfl
    | cons c cs =>
        cases heq
        exact (hall '/' List.mem_cons_self).2.2.1 rfl
  · simp only [htake, hdrop, if_pos h]
    cases behind with
    | nil => rfl
    | cons c behind =>
        obtain rfl := hbehind c rfl
        rfl

/-- A tag ends at the first `>`. -/
theorem tagFrom_append {inside : List Char} {tag : Piece} (h : '>' ∉ inside)
    (htag : tagOf? inside = some tag) (rest : List Char) :
    tagFrom (inside ++ '>' :: rest) = some (tag, rest) := by
  have hall : ∀ c ∈ inside, (c != '>') = true := by
    intro c hc
    rw [bne_iff_ne]
    rintro rfl
    exact h hc
  unfold tagFrom
  rw [List.dropWhile_append_of_pos hall, List.takeWhile_append_of_pos hall]
  simp [htag]

/-! ## Texts in front of any other text -/

/-- The text is cut into these pieces. -/
def Splits (cs : List Char) (ps : List Piece) : Prop :=
  ∀ rest, pieces? (cs ++ rest) = (pieces? rest).map (ps ++ ·)

namespace Splits

variable {cs ds : List Char} {ps qs : List Piece}

theorem nil : Splits [] [] := by
  intro rest
  simp

theorem append (hcs : Splits cs ps) (hds : Splits ds qs) : Splits (cs ++ ds) (ps ++ qs) := by
  intro rest
  rw [List.append_assoc, hcs, hds, Option.map_map]
  simp [Function.comp_def]

theorem chars (h : '<' ∉ cs) : Splits cs (cs.map .char) := by
  induction cs with
  | nil => exact nil
  | cons c cs ih =>
      rw [List.mem_cons, not_or] at h
      obtain ⟨hc, hcs⟩ := h
      intro rest
      rw [List.cons_append, pieces?, if_neg (Ne.symm hc), ih hcs rest, Option.map_map]
      rfl

theorem tag {inside : List Char} {tag : Piece} (h : '>' ∉ inside)
    (htag : tagOf? inside = some tag) : Splits ('<' :: inside ++ ['>']) [tag] := by
  intro rest
  have hread := tagFrom_append h htag rest
  rw [List.cons_append, List.cons_append, List.append_assoc, List.singleton_append, pieces?,
    if_pos rfl]
  split
  · next hsome =>
    rw [hread] at hsome
    cases hsome
    rfl
  · next hnone =>
    rw [hread] at hnone
    cases hnone

theorem intercalate {separator : List Char} {between : List Piece} {texts : List (List Char)}
    {rows : List (List Piece)} (hseparator : Splits separator between)
    (h : List.Forall₂ Splits texts rows) :
    Splits (separator.intercalate texts) (between.intercalate rows) := by
  induction h with
  | nil => exact nil
  | cons htext hrest ih =>
      cases hrest with
      | nil =>
          rw [List.intercalate_singleton, List.intercalate_singleton]
          exact htext
      | cons =>
          rw [List.intercalate_cons_cons, List.intercalate_cons_cons]
          exact (htext.append hseparator).append ih

/-- The pieces of a whole text. -/
theorem pieces? (h : Splits cs ps) : pieces? cs = some ps := by
  have hall := h []
  rw [List.append_nil, Html.pieces?] at hall
  rw [hall, Option.map_some, List.append_nil]

end Splits

end Html
end Sexpr
