import Mathlib
import Sexpr.Json.Written
import Sexpr.Proofs.Json.Grammar

/-!
# The layouts of JSON texts

The compact text of a value is written with its symbols and nothing else, the pretty text
with blanks between them (`goesOn_prettyTo`). So both are texts of the value
(`isTextOf_compact`, `isTextOf_pretty`), and like every text of it they are read as the
value (`read?_pretty`).
-/

namespace Sexpr
namespace Json

/-! ## The usual spellings -/

/-- Half of a surrogate pair spells no text. -/
theorem hasContent_half : HasContent [.unit 0xD800] none := by
  intro cs hcs
  have hjoined := hcs.joinTo []
  cases hjoined

/-- The text of a symbol is one of its spellings. -/
theorem Symbol.spelledBy_chars {s : Symbol} (hs : ∀ n, s = .number n → n.IsJson) :
    s.SpelledBy s.chars := by
  cases s with
  | number n => exact (hs n rfl).spelledBy_chars
  | text content =>
      cases content with
      | none => exact ⟨_, _, rfl, .unit rfl .nil, hasContent_half⟩
      | some content =>
          obtain ⟨pieces, hbody, hspells⟩ := exists_body_flatMap content.toList
          exact ⟨_, pieces, rfl, hbody, hspells⟩
  | bool value => cases value <;> rfl
  | _ => rfl

theorem Written.chars (s : Symbol) {cs : List Char} {ss : List Symbol}
    (hs : ∀ n, s = .number n → n.IsJson) (h : Written cs ss) : Written (s.chars ++ cs) (s :: ss) :=
  .symbol (Symbol.spelledBy_chars hs) h

/-- Each number among the symbols is one of JSON. -/
def Writable (ss : List Symbol) : Prop := ∀ n, .number n ∈ ss → n.IsJson

theorem Writable.head {s : Symbol} {ss : List Symbol} (h : Writable (s :: ss)) :
    ∀ n, s = .number n → n.IsJson := by
  rintro n rfl
  exact h n List.mem_cons_self

theorem Writable.tail {s : Symbol} {ss : List Symbol} (h : Writable (s :: ss)) : Writable ss :=
  fun n hn => h n (List.mem_cons_of_mem s hn)

theorem Written.blanks {blanks cs : List Char} {ss : List Symbol}
    (hblanks : ∀ c ∈ blanks, isBlank c = true) (h : Written cs ss) :
    Written (blanks ++ cs) ss := by
  induction blanks with
  | nil => exact h
  | cons c blanks ih =>
      obtain ⟨hc, hblanks⟩ := List.forall_mem_cons.1 hblanks
      exact .blank hc (ih hblanks)

/-! ## The compact text -/

theorem toList_foldl_writeTo (out : String) (ss : List Symbol) :
    (ss.foldl Symbol.writeTo out).toList = out.toList ++ ss.flatMap Symbol.chars := by
  induction ss generalizing out with
  | nil => simp
  | cons s ss ih => simp [ih, Symbol.toList_writeTo]

theorem written_flatMap {ss : List Symbol} (h : Writable ss) :
    Written (ss.flatMap Symbol.chars) ss := by
  induction ss with
  | nil => exact .nil
  | cons s ss ih => exact .chars s h.head (ih h.tail)

/-- The compact text of a value is a text of it. -/
theorem isTextOf_compact {j : Json} (hj : Writable j.symbols) :
    IsTextOf j.compact j := by
  rw [IsTextOf, compact, toList_foldl_writeTo, String.toList_empty, List.nil_append]
  exact written_flatMap hj

/-! ## The pretty text -/

/-- The text begins with `out` and goes on with the symbols. -/
def GoesOn (text out : String) (ss : List Symbol) : Prop :=
  ∃ cs, text.toList = out.toList ++ cs ∧ Written cs ss

namespace GoesOn

variable {text out : String} {s : Symbol} {ss : List Symbol}

theorem blanks {out' : String} (h : GoesOn text out' ss) (blanks : List Char)
    (hout : out'.toList = out.toList ++ blanks) (hblanks : ∀ c ∈ blanks, isBlank c = true) :
    GoesOn text out ss := by
  obtain ⟨cs, htext, hcs⟩ := h
  refine ⟨blanks ++ cs, ?_, hcs.blanks hblanks⟩
  rw [htext, hout, List.append_assoc]

theorem newline {depth : Nat} (h : GoesOn text (newlineTo out depth) ss) : GoesOn text out ss := by
  have hspaces : ∀ (out : String) (n : Nat),
      (out.pushn ' ' n).toList = out.toList ++ List.replicate n ' ' := by
    intro out n
    induction n with
    | zero => simp [String.pushn, Nat.repeat]
    | succ n ih => simp_all [String.pushn, Nat.repeat, List.replicate_succ']
  refine h.blanks ('\n' :: List.replicate (2 * depth) ' ') ?_ ?_
  · rw [newlineTo, hspaces]
    simp
  · rw [List.forall_mem_cons]
    refine ⟨rfl, ?_⟩
    intro c hc
    rw [List.eq_of_mem_replicate hc]
    rfl

theorem space (h : GoesOn text (out.push ' ') ss) : GoesOn text out ss := by
  refine h.blanks [' '] (by simp) ?_
  intro c hc
  rw [List.mem_singleton.1 hc]
  rfl

theorem symbol (h : GoesOn text (s.writeTo out) ss) (hs : Writable (s :: ss)) :
    GoesOn text out (s :: ss) := by
  obtain ⟨cs, htext, hcs⟩ := h
  refine ⟨s.chars ++ cs, ?_, .chars s hs.head hcs⟩
  rw [htext, Symbol.toList_writeTo, List.append_assoc]

end GoesOn

/-- Writing line by line puts blanks between the symbols. -/
theorem goesOn_prettyTo (out : String) (depth : Nat) (ss : List Symbol) (h : Writable ss) :
    GoesOn (prettyTo out depth ss) out ss := by
  fun_induction prettyTo out depth ss with
  | case1 => exact ⟨[], by simp, .nil⟩
  | case2 out depth ss ih =>
      have hpair : out ++ "[]" = Symbol.closeArray.writeTo (Symbol.openArray.writeTo out) := by
        rw [← String.toList_inj]
        simp [Symbol.writeTo, Symbol.chars]
      rw [hpair] at ih ⊢
      exact ((ih h.tail.tail).symbol h.tail).symbol h
  | case3 out depth ss ih =>
      have hpair : out ++ "\x7b\x7d" =
          Symbol.closeObject.writeTo (Symbol.openObject.writeTo out) := by
        rw [← String.toList_inj]
        simp [Symbol.writeTo, Symbol.chars]
      rw [hpair] at ih ⊢
      exact ((ih h.tail.tail).symbol h.tail).symbol h
  | case4 out depth ss _ _ ih => exact (ih h.tail).newline.symbol h
  | case5 out depth ss _ _ ih => exact (ih h.tail).newline.symbol h
  | case6 out depth ss _ _ ih => exact ((ih h.tail).symbol h).newline
  | case7 out depth ss _ _ ih => exact ((ih h.tail).symbol h).newline
  | case8 out depth ss _ _ ih => exact (ih h.tail).newline.symbol h
  | case9 out depth ss _ _ ih => exact (ih h.tail).space.symbol h
  | case10 out depth s ss _ _ _ _ _ _ _ _ ih => exact (ih h.tail).symbol h

/-- The pretty text of a value is a text of it. -/
theorem isTextOf_pretty {j : Json} (hj : Writable j.symbols) :
    IsTextOf j.pretty j := by
  obtain ⟨cs, htext, hcs⟩ := goesOn_prettyTo "" 0 j.symbols hj
  rw [String.toList_empty, List.nil_append] at htext
  rwa [IsTextOf, pretty, htext]

/-- **A value is read back from its pretty text**, if its numbers are numbers of JSON. -/
theorem read?_pretty {j : Json} (hj : Writable j.symbols) :
    read? j.pretty = some j :=
  read?_of_isTextOf (isTextOf_pretty hj)

end Json
end Sexpr
