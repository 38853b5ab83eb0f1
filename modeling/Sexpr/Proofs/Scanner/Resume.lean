import Mathlib
import Sexpr.Proofs.Scanner.Run

/-!
# Calling a scanner again and again

A scanner that is called after its faults as well comes to an end: some faults,
then all tokens at once, then nothing more. `exists_account` says that on the way
no character of the source is lost and none is used twice.
-/

namespace Sexpr

/-! ## Pieces in a row -/

theorem Piece.Fits.chars_ne_nil {piece : Piece} {before rest : List Char}
    (h : piece.Fits before rest) : piece.chars ≠ [] := by
  cases piece with
  | blank c | stray p | openText body p => exact List.cons_ne_nil _ _
  | token t => exact h.1.spelling_ne_nil
  | brokenNumber digits p =>
      rintro rfl
      obtain ⟨⟨hs | ⟨whole, fraction, hp, -⟩, -⟩, -⟩ := h
      · rcases hs with hs | hs <;> cases hs
      · cases whole <;> cases hp

namespace Cut

variable {before rest : List Char} {pieces : List Piece}

/-- The pieces make up the source. -/
theorem flatMap_chars (h : Cut before rest pieces) : pieces.flatMap Piece.chars = rest := by
  induction h with
  | nil => rfl
  | cons _ _ ih => rw [List.flatMap_cons, ih]

theorem length_le (h : Cut before rest pieces) : pieces.length ≤ rest.length := by
  induction h with
  | nil => exact Nat.le_refl _
  | cons hfits _ ih =>
      have := List.length_pos_iff.2 hfits.chars_ne_nil
      rw [List.length_cons, List.length_append]
      omega

theorem length_faultsOf_le (h : Cut before rest pieces) :
    (faultsOf pieces).length ≤ rest.length :=
  (List.length_filterMap_le _ _).trans h.length_le

/-- Tokens stand behind `before`, each a slice of the source at its offset. -/
theorem spelling_slice (h : Cut before rest pieces) {t : Token} (ht : t ∈ tokensOf pieces) :
    before.length ≤ t.position.offset ∧ t.spelling ≠ [] ∧
      t.spelling <+: (before ++ rest).drop t.position.offset := by
  induction h with
  | nil => cases ht
  | @cons before rest piece pieces hfits _ ih =>
      rw [tokensOf_cons, List.mem_append] at ht
      rcases ht with ht | ht
      · cases piece with
        | token u =>
            obtain rfl : t = u := List.mem_singleton.1 ht
            rw [hfits.2, Position.offset_behind, List.drop_left]
            exact ⟨Nat.le_refl _, hfits.1.spelling_ne_nil, List.prefix_append _ _⟩
        | blank | stray | brokenNumber | openText => cases ht
      · obtain ⟨hle, hne, hslice⟩ := ih ht
        rw [List.length_append] at hle
        rw [List.append_assoc] at hslice
        exact ⟨by omega, hne, hslice⟩

/-- Each token ends before the next one begins. -/
theorem pairwise_tokensOf (h : Cut before rest pieces) :
    (tokensOf pieces).Pairwise fun t u =>
      t.position.offset + t.spelling.length ≤ u.position.offset := by
  induction h with
  | nil => exact List.Pairwise.nil
  | @cons before rest piece pieces hfits hcut ih =>
      rw [tokensOf_cons]
      cases piece with
      | token t =>
          refine List.pairwise_cons.2 ⟨?_, ih⟩
          intro u hu
          have hle := (hcut.spelling_slice hu).1
          rw [List.length_append] at hle
          rw [hfits.2, Position.offset_behind]
          exact hle
      | blank | stray | brokenNumber | openText => exact ih

end Cut

theorem unclosed_notMem_faultsOf (ps : List Position) (pieces : List Piece) :
    ScanFault.unclosed ps ∉ faultsOf pieces := by
  intro h
  obtain ⟨piece, -, hpiece⟩ := List.mem_filterMap.1 h
  cases piece <;> cases hpiece

namespace Scanner

/-! ## Calls at the end of the source -/

theorem take_answers (s : Scanner) (m n : Nat) : (s.answers (m + n)).take m = s.answers m := by
  induction m generalizing s with
  | zero => rfl
  | succ m ih => rw [Nat.add_right_comm, answers, answers, List.take_succ_cons, ih]

theorem answers_closed {s : Scanner} (hend : s.rest = []) (hclosed : s.opens = []) (n : Nat) :
    s.answers (n + 1) = .ok s.queued.reverse :: List.replicate n (.ok []) := by
  induction n generalizing s with
  | zero => rw [answers, scan_nil hend, finish_of_closed hclosed]; rfl
  | succ n ih =>
      rw [answers, scan_nil hend, finish_of_closed hclosed,
        ih (s := { s with queued := [] }) hend hclosed]
      rfl

theorem answers_open {s : Scanner} (hend : s.rest = []) (hopen : s.opens ≠ []) (n : Nat) :
    s.answers (n + 2) = .error (.unclosed s.opens.reverse) :: .ok s.queued.reverse ::
      List.replicate n (.ok []) := by
  rw [answers, scan_nil hend, finish_of_open hopen,
    answers_closed (s := { s with opens := [] }) hend rfl]

/-- A call that ends in a fault has read something, unless brackets are unclosed. -/
theorem scan_consumes (s : Scanner) {fault : ScanFault} (h : s.scan.1 = .error fault)
    (hf : ∀ ps, fault ≠ .unclosed ps) :
    ∃ consumed, consumed ≠ [] ∧ s.rest = consumed ++ s.scan.2.rest := by
  cases hrest : s.rest with
  | nil =>
      rw [scan_nil hrest] at h
      by_cases hclosed : s.opens = []
      · rw [finish_of_closed hclosed] at h
        cases h
      · rw [finish_of_open hclosed] at h
        cases h
        exact absurd rfl (hf _)
  | cons c cs =>
      have hshorter := s.rest_step_length c cs
      have hread := Lexeme.chars_first c cs
      have hne := Lexeme.chars_first_ne_nil c cs
      have hstep : (s.step c cs).1.rest = (Lexeme.first c cs).2 := s.rest_read _ _
      cases hfault : (s.step c cs).2 with
      | some fault' =>
          rw [scan_fault hrest hfault, hstep]
          exact ⟨_, hne, hread.symm⟩
      | none =>
          rw [scan_step hrest hfault] at h ⊢
          obtain ⟨consumed, -, hconsumed⟩ := scan_consumes (s.step c cs).1 h hf
          refine ⟨(Lexeme.first c cs).1.chars ++ consumed, by simp [hne], ?_⟩
          rw [List.append_assoc, ← hconsumed, hstep, hread]
termination_by s.rest.length
decreasing_by simp_all

/-! ## The account of a source -/

/-- All calls together report the faulty pieces, and unclosed brackets if there are
any. -/
def Reported (faults : List ScanFault) (pieces : List Piece) : Prop :=
  faults = faultsOf pieces ∨ ∃ ps, faults = faultsOf pieces ++ [.unclosed ps]

namespace Reported

variable {faults : List ScanFault} {pieces : List Piece}

theorem length_le (h : Reported faults pieces) :
    faults.length ≤ (faultsOf pieces).length + 1 := by
  rcases h with rfl | ⟨ps, rfl⟩
  · exact Nat.le_succ _
  · rw [List.length_append, List.length_singleton]

theorem unclosed_last (h : Reported faults pieces) {i : Nat} {ps : List Position}
    (hi : faults[i]? = some (.unclosed ps)) : i + 1 = faults.length := by
  rcases h with rfl | ⟨qs, rfl⟩
  · exact absurd (List.mem_of_getElem? hi) (unclosed_notMem_faultsOf ps pieces)
  · by_cases hlt : i < (faultsOf pieces).length
    · rw [List.getElem?_append_left hlt] at hi
      exact absurd (List.mem_of_getElem? hi) (unclosed_notMem_faultsOf ps pieces)
    · have hbound := (List.getElem?_eq_some_iff.1 hi).1
      rw [List.length_append, List.length_singleton] at hbound ⊢
      omega

end Reported

/-- What the calls of a scanner make of a source: the faults they report, the
tokens they hand out, and the pieces into which they cut it. -/
structure Account (source : String) (faults : List ScanFault) (ts : List Token)
    (pieces : List Piece) : Prop where
  /-- All faults come first, then all tokens at once, then nothing more. -/
  answers : ∀ n, (ofString source).answers n =
    (faults.map Except.error ++ Except.ok ts :: List.replicate n (Except.ok [])).take n
  /-- They are the answers of the calls, one after the other. -/
  calls : ∀ i n, i < n → ((ofString source).answers n)[i]? =
    some ((ofString source).afterCalls i).scan.1
  bound : faults.length ≤ source.length + 1
  /-- A fault of unclosed brackets is the last one. -/
  unclosed : ∀ i ps, faults[i]? = some (ScanFault.unclosed ps) → i + 1 = faults.length
  /-- Every other fault ends a call that has read something. -/
  consumes : ∀ n fault, ((ofString source).afterCalls n).scan.1 = Except.error fault →
    (∀ ps, fault ≠ ScanFault.unclosed ps) → ∃ consumed, consumed ≠ [] ∧
      ((ofString source).afterCalls n).rest =
        consumed ++ ((ofString source).afterCalls (n + 1)).rest
  /-- The pieces fit where they stand, side by side, and make up the source. -/
  cut : Cut [] source.toList pieces
  whole : pieces.flatMap Piece.chars = source.toList
  /-- The pieces that are tokens are those handed out. -/
  tokens : tokensOf pieces = ts
  /-- The pieces that are faulty are those reported, in the same order. -/
  faults : Reported faults pieces
  /-- Each token is a slice of the source at its offset. -/
  slices : ∀ t ∈ ts, t.spelling ≠ [] ∧ t.spelling <+: source.toList.drop t.position.offset
  /-- Each token ends before the next one begins. -/
  ordered : ts.Pairwise fun t u => t.position.offset + t.spelling.length ≤ u.position.offset

/-- Answers that are known for enough calls are known for every number of calls. -/
theorem answers_eq_take {s : Scanner} {faults : List ScanFault} {ts : List Token}
    (h : ∀ n, s.answers (faults.length + (n + 1)) =
      faults.map Except.error ++ Except.ok ts :: List.replicate n (Except.ok [])) (n : Nat) :
    s.answers n =
      (faults.map Except.error ++ Except.ok ts :: List.replicate n (Except.ok [])).take n := by
  rw [← h n, show faults.length + (n + 1) = n + (faults.length + 1) by omega, take_answers]

theorem Drains.account_of_answers {source : String} {faults : List ScanFault}
    {pieces : List Piece} {e : Scanner} (hd : (ofString source).Drains [] pieces e)
    (hfaults : Reported faults pieces)
    (hanswers : ∀ n, (ofString source).answers (faults.length + (n + 1)) =
      faults.map Except.error ++ Except.ok (tokensOf pieces) ::
        List.replicate n (Except.ok [])) :
    Account source faults (tokensOf pieces) pieces where
  answers := answers_eq_take hanswers
  calls := by
    intro i n
    exact getElem?_answers _
  bound := by
    have hpieces : (faultsOf pieces).length ≤ source.length := hd.cut.length_faultsOf_le
    exact hfaults.length_le.trans (Nat.succ_le_succ hpieces)
  unclosed := by
    intro i ps h
    exact hfaults.unclosed_last h
  consumes := by
    intro n fault h hf
    exact scan_consumes _ h hf
  cut := hd.cut
  whole := hd.cut.flatMap_chars
  tokens := rfl
  faults := hfaults
  slices := by
    intro t ht
    exact (hd.cut.spelling_slice ht).2
  ordered := hd.cut.pairwise_tokensOf

theorem Drains.account {source : String} {pieces : List Piece} {e : Scanner}
    (hd : (ofString source).Drains [] pieces e) :
    ∃ faults, Account source faults (tokensOf pieces) pieces := by
  have hqueued : e.queued.reverse = tokensOf pieces := by
    rw [hd.queued]
    simp [ofString]
  by_cases hclosed : e.opens = []
  · refine ⟨faultsOf pieces, hd.account_of_answers (Or.inl rfl) ?_⟩
    intro n
    rw [hd.answers, answers_closed hd.atEnd hclosed, hqueued]
  · refine ⟨_, hd.account_of_answers (Or.inr ⟨e.opens.reverse, rfl⟩) ?_⟩
    intro n
    have hlast : [ScanFault.unclosed e.opens.reverse].length + (n + 1) = n + 2 := by
      rw [List.length_singleton]
      omega
    rw [List.length_append, Nat.add_assoc, hd.answers, hlast, answers_open hd.atEnd hclosed,
      hqueued]
    simp

/-- **Nothing is lost, nothing is used twice, and the calls come to an end.** -/
theorem exists_account (source : String) :
    ∃ faults ts pieces, Account source faults ts pieces := by
  obtain ⟨pieces, e, hd⟩ := (ofString source).exists_drains [] rfl
  obtain ⟨faults, haccount⟩ := hd.account
  exact ⟨faults, tokensOf pieces, pieces, haccount⟩

end Scanner
end Sexpr
