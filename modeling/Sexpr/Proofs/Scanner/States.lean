import Mathlib
import Sexpr.Proofs.Scanner.Run

/-!
# The states of a scanner

`Reaches` follows a scanner through its calls and between them, past every fault
but the one of unclosed brackets. In each of its states the queued tokens fit the
grammar, and their brackets that are still open are those the scanner remembers
(`Reaches.sound`).
-/

namespace Sexpr
namespace Scanner

/-- The states through which the calls of a scanner lead on a source, until a call
finds brackets unclosed. A fault ends a call, and the next call goes on in the
state that the fault has left. -/
inductive Reaches (source : String) : Scanner → Prop
  | start : Reaches source (ofString source)
  | step {s : Scanner} {c : Char} {cs : List Char} :
      Reaches source s → s.rest = c :: cs → Reaches source (s.step c cs).1
  | deliver {s : Scanner} :
      Reaches source s → s.rest = [] → s.opens = [] → Reaches source s.finish.2

/-- The queue and the stack of a scanner agree. -/
structure Sound (s : Scanner) : Prop where
  placed : ∃ before, s.here = .behind before
  fits : ∀ t ∈ s.queued, ∃ rest, t.Fits rest
  opens : Token.openedBy [] s.queued.reverse = some s.opens

theorem Sound.takes {s s' : Scanner} {piece : Piece} (h : s.Sound) (ht : s.Takes piece s') :
    s'.Sound := by
  obtain ⟨before, hb⟩ := h.placed
  constructor
  · refine ⟨before ++ piece.chars, ?_⟩
    rw [ht.here, hb, Position.behind_append]
  · intro t hmem
    rw [ht.queued, List.mem_append] at hmem
    rcases hmem with hmem | hmem
    · cases piece with
      | token u =>
          obtain rfl : t = u := List.mem_singleton.1 hmem
          exact ⟨_, (ht.fits before hb).1⟩
      | blank | stray | brokenNumber | openText => cases hmem
    · exact h.fits t hmem
  · have hone : piece.token?.toList.reverse = piece.token?.toList := by cases piece <;> rfl
    rw [ht.queued, List.reverse_append, hone, Token.openedBy_append, h.opens]
    exact ht.opens

theorem Reaches.sound {source : String} {s : Scanner} (h : Reaches source s) : s.Sound := by
  induction h with
  | start => exact ⟨⟨[], rfl⟩, List.forall_mem_nil _, rfl⟩
  | step _ hrest ih =>
      obtain ⟨piece, htakes, -⟩ := step_takes hrest
      exact ih.takes htakes
  | @deliver s _ _ hclosed ih =>
      rw [finish_of_closed hclosed]
      exact ⟨ih.placed, List.forall_mem_nil _, congrArg some hclosed.symm⟩

/-- A call leads from state to state: to a fault that reports a piece, or to the end of
the source. -/
theorem Reaches.scan {source : String} {s : Scanner} (h : Reaches source s) :
    (∃ (piece : Piece) (fault : ScanFault), piece.fault? = some fault ∧ s.scan.1 = .error fault ∧
      Reaches source s.scan.2) ∨
    ∃ e : Scanner, Reaches source e ∧ e.rest = [] ∧ s.scan = e.finish := by
  cases hrest : s.rest with
  | nil => exact Or.inr ⟨s, h, hrest, scan_nil hrest⟩
  | cons c cs =>
      have hshorter := s.rest_step_length c cs
      obtain ⟨piece, -, hpiece⟩ := step_takes hrest
      cases hfault : (s.step c cs).2 with
      | some fault =>
          rw [scan_fault hrest hfault]
          exact Or.inl ⟨piece, fault, hpiece.symm.trans hfault, rfl, h.step hrest⟩
      | none =>
          rw [scan_step hrest hfault]
          exact (h.step hrest).scan
termination_by s.rest.length
decreasing_by simp_all

/-- A call that finds brackets unclosed names them all, forgets them and keeps the
tokens, so the next call hands these out. -/
theorem Reaches.scan_unclosed {source : String} {s : Scanner} {ps : List Position}
    (h : Reaches source s) (hscan : s.scan.1 = .error (.unclosed ps)) :
    ∃ e : Scanner, Reaches source e ∧ e.opens ≠ [] ∧ ps = e.opens.reverse ∧
      s.scan.2.scan.1 = .ok e.queued.reverse := by
  -- no piece is reported as unclosed brackets, so the call has come to the end
  rcases h.scan with ⟨piece, fault, hpiece, herror, -⟩ | ⟨e, he, hend, hfinish⟩
  · rw [hscan] at herror
    cases herror
    cases piece <;> cases hpiece
  · by_cases hclosed : e.opens = []
    · rw [hfinish, finish_of_closed hclosed] at hscan
      cases hscan
    · rw [hfinish, finish_of_open hclosed] at hscan ⊢
      refine ⟨e, he, hclosed, (ScanFault.unclosed.inj (Except.error.inj hscan)).symm, ?_⟩
      rw [scan_nil (s := { e with opens := [] }) hend, finish_of_closed rfl]

/-- A call leads to another such state, unless it finds brackets unclosed. -/
theorem Reaches.scan_reaches {source : String} {s : Scanner} (h : Reaches source s) :
    Reaches source s.scan.2 ∨
      ∃ ps, s.scan.1 = .error (.unclosed ps) ∧ s.scan.2.rest = [] ∧ s.scan.2.opens = [] := by
  rcases h.scan with ⟨_, _, -, -, hreaches⟩ | ⟨e, he, hend, hfinish⟩
  · exact Or.inl hreaches
  · rw [hfinish]
    by_cases hclosed : e.opens = []
    · exact Or.inl (he.deliver hend hclosed)
    · rw [finish_of_open hclosed]
      exact Or.inr ⟨_, rfl, hend, rfl⟩

/-- The calls up to a fault of unclosed brackets stay among these states. -/
theorem reaches_afterCalls {source : String} {n : Nat}
    (h : ∀ i < n, ∀ ps, ((ofString source).afterCalls i).scan.1 ≠ .error (.unclosed ps)) :
    Reaches source ((ofString source).afterCalls n) := by
  induction n with
  | zero => exact .start
  | succ n ih =>
      have hn : Reaches source ((ofString source).afterCalls n) := by
        apply ih
        intro i hi
        exact h i (Nat.lt_succ_of_lt hi)
      rcases hn.scan_reaches with hnext | ⟨ps, hps, -⟩
      · exact hnext
      · exact absurd hps (h n (Nat.lt_succ_self n) ps)

/-- Behind a fault of unclosed brackets, a scanner is at the end of its source with no
bracket open, and stays there. -/
theorem reaches_or_closed (source : String) (n : Nat) :
    Reaches source ((ofString source).afterCalls n) ∨
      ((ofString source).afterCalls n).rest = [] ∧ ((ofString source).afterCalls n).opens = [] := by
  induction n with
  | zero => exact Or.inl .start
  | succ n ih =>
      rcases ih with hn | ⟨hend, hclosed⟩
      · rcases hn.scan_reaches with hnext | ⟨_, -, hnext⟩
        · exact Or.inl hnext
        · exact Or.inr hnext
      · rw [afterCalls, scan_nil hend, finish_of_closed hclosed]
        exact Or.inr ⟨hend, hclosed⟩

/-- The call that finds brackets unclosed is the first one that does. -/
theorem reaches_of_unclosed {source : String} {n : Nat} {ps : List Position}
    (h : ((ofString source).afterCalls n).scan.1 = .error (.unclosed ps)) :
    Reaches source ((ofString source).afterCalls n) := by
  rcases reaches_or_closed source n with hn | ⟨hend, hclosed⟩
  · exact hn
  · rw [scan_nil hend, finish_of_closed hclosed] at h
    cases h

end Scanner
end Sexpr
