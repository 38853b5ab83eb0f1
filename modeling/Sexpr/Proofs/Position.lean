import Mathlib
import Sexpr.Position

/-!
# Places by counting

`Position.behind` counts the place behind some characters of a text anew, without
going through them one by one. It agrees with walking over them (`behind_append`).
-/

namespace Sexpr
namespace Position

/-- The place behind the characters `cs` of a text: a new line for each line feed,
and a new column for each character since the last one. -/
def behind (cs : List Char) : Position :=
  ⟨cs.length, 1 + cs.count '\n', 1 + (cs.reverse.takeWhile (· ≠ '\n')).length⟩

theorem behind_concat (cs : List Char) (c : Char) : behind (cs ++ [c]) = (behind cs).next c := by
  by_cases hc : c = '\n'
  · subst hc
    simp [behind, next, Nat.add_assoc]
  · simp [behind, next, hc, Nat.add_comm]

theorem behind_append (xs ys : List Char) : behind (xs ++ ys) = (behind xs).after ys := by
  induction ys generalizing xs with
  | nil => rw [List.append_nil, after_nil]
  | cons c ys ih => rw [after_cons, ← behind_concat, ← ih, List.append_assoc, List.singleton_append]

@[simp] theorem offset_behind (cs : List Char) : (behind cs).offset = cs.length := rfl

end Position
end Sexpr
