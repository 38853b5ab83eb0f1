import Mathlib
import Sexpr.Form.Source
import Sexpr.Proofs.Form.Append
import Sexpr.Proofs.Message
import Sexpr.Proofs.Scanner.Run

/-!
# Every place that is named is the true one

A scanner keeps count of characters, lines and columns as it goes. In every state,
whatever calls and faults have led to it, the places that it holds are those of the
characters they stand for (`Scanner.Placed`), so all that it hands out and all that
the builder makes of it names true places (`every_place_true`).
-/

namespace Sexpr

/-! ## True places -/

/-- `p` is the place in the source of the character `c`: the characters before it, the
line feeds among these, and the characters since the last of them are counted anew. -/
structure Position.Marks (source : List Char) (c : Char) (p : Position) : Prop where
  inside : p.offset < source.length
  line : p.line = 1 + (source.take p.offset).count '\n'
  column : p.column = 1 + ((source.take p.offset).reverse.takeWhile (· ≠ '\n')).length
  char : source[p.offset]? = some c

theorem Position.marks_behind (before after : List Char) (c : Char) :
    (behind before).Marks (before ++ c :: after) c := by
  have htake : (before ++ c :: after).take before.length = before := List.take_left
  exact ⟨by simp, by simp [behind], by simp [behind], by simp⟩

/-- The token begins at its place. -/
def Token.Marked (source : List Char) (t : Token) : Prop :=
  ∃ c, t.spelling.head? = some c ∧ t.position.Marks source c

/-- The characters that a fault names. -/
def Fault.culprit? : Fault → Option Char
  | .scan (.unexpectedClose _) => some ')'
  | .scan (.unterminatedText _) => some '"'
  | .scan (.misplacedPoint _) => some '.'
  | .scan (.unclosed _) => some '('
  | .build (.unmatchedClose _) => some ')'
  | .build (.badNumber text _) => text.toList.head?
  | .build (.unclosed _) => some '('
  | .html _ | .script _ => none

/-- The fault names places of the characters it is about, and its message names the same
places in the same order. -/
structure Fault.Truthful (source : List Char) (fault : Fault) : Prop where
  places : ∀ p ∈ fault.positions, ∃ c, fault.culprit? = some c ∧ p.Marks source c
  message : Position.named fault.message.toList = fault.positions

theorem ScanFault.truthful {source : List Char} {fault : ScanFault}
    (h : ∀ p ∈ fault.positions, ∃ c, (Fault.scan fault).culprit? = some c ∧ p.Marks source c) :
    (Fault.scan fault).Truthful source :=
  ⟨h, fault.named_message⟩

/-! ## The scanner -/

/-- A token that fits stands where it is placed. -/
theorem Token.Fits.marked {t : Token} {before rest : List Char} (h : t.Fits rest)
    (hplace : t.position = .behind before) : t.Marked (before ++ (t.spelling ++ rest)) := by
  obtain ⟨c, cs, hspelling⟩ := List.exists_cons_of_ne_nil h.spelling_ne_nil
  rw [hspelling]
  refine ⟨c, by rw [hspelling]; rfl, ?_⟩
  rw [hplace]
  exact Position.marks_behind before (cs ++ rest) c

theorem Token.Fits.marks_left {source rest : List Char} {t : Token} (h : t.Fits rest)
    (hmarked : t.Marked source) (hkind : t.kind = .leftBracket) : t.position.Marks source '(' := by
  obtain ⟨c, hc, hmarks⟩ := hmarked
  rw [Fits, hkind] at h
  simp only [spelling, hkind, h, String.reduceToList, List.head?_cons, Option.some.injEq] at hc
  rwa [hc]

theorem Token.Fits.marks_right {source rest : List Char} {t : Token} (h : t.Fits rest)
    (hmarked : t.Marked source) (hkind : t.kind = .rightBracket) :
    t.position.Marks source ')' := by
  obtain ⟨c, hc, hmarks⟩ := hmarked
  rw [Fits, hkind] at h
  simp only [spelling, hkind, h, String.reduceToList, List.head?_cons, Option.some.injEq] at hc
  rwa [hc]

namespace Scanner

/-- All places that a scanner holds are true ones. -/
structure Placed (source : List Char) (s : Scanner) : Prop where
  here : ∃ before, source = before ++ s.rest ∧ s.here = .behind before
  queued : ∀ t ∈ s.queued, t.Marked source
  opens : ∀ p ∈ s.opens, p.Marks source '('

/-- What an answer says of places is true. -/
def Told (source : List Char) : Except ScanFault (List Token) → Prop
  | .ok ts => ∀ t ∈ ts, t.Marked source
  | .error fault => (Fault.scan fault).Truthful source

variable {source : List Char} {s s' : Scanner}

/-- The places of the open brackets behind a token that fits. -/
theorem marks_of_opened {rest : List Char} {t : Token} {ps qs : List Position}
    (hfits : t.Fits rest) (hmarked : t.Marked source) (hps : ∀ p ∈ ps, p.Marks source '(')
    (h : t.opened ps = some qs) : ∀ q ∈ qs, q.Marks source '(' := by
  cases hkind : t.kind with
  | leftBracket =>
      simp only [Token.opened, hkind, Option.some.injEq] at h
      rw [← h]
      exact List.forall_mem_cons.2 ⟨hfits.marks_left hmarked hkind, hps⟩
  | rightBracket =>
      cases ps with
      | nil => simp [Token.opened, hkind] at h
      | cons p ps =>
          simp only [Token.opened, hkind, Option.some.injEq] at h
          rw [← h]
          exact (List.forall_mem_cons.1 hps).2
  | text | number | identifier =>
      simp only [Token.opened, hkind, Option.some.injEq] at h
      rwa [← h]

/-- **A step keeps all places true.** -/
theorem Placed.takes {piece : Piece} (h : Placed source s) (ht : s.Takes piece s') :
    Placed source s' := by
  obtain ⟨before, hsource, hhere⟩ := h.here
  have hfits := ht.fits before hhere
  rw [ht.rest] at hsource
  have hnext : ∃ before', source = before' ++ s'.rest ∧ s'.here = .behind before' :=
    ⟨before ++ piece.chars, by rw [hsource, List.append_assoc], by
      rw [ht.here, hhere, Position.behind_append]⟩
  cases piece with
  | token t =>
      have hmarked : t.Marked source := by
        rw [hsource]
        exact hfits.1.marked hfits.2
      refine ⟨hnext, ?_, ?_⟩
      · rw [ht.queued]
        exact List.forall_mem_cons.2 ⟨hmarked, h.queued⟩
      · obtain ⟨qs, hqs, hopens⟩ := Option.bind_eq_some_iff.1 ht.opens
        rw [← Option.some.inj hopens]
        exact marks_of_opened hfits.1 hmarked h.opens hqs
  | blank | stray | brokenNumber | openText =>
      refine ⟨hnext, ?_, ?_⟩
      · rw [ht.queued]
        exact h.queued
      · rw [← Option.some.inj ht.opens]
        exact h.opens

/-- A piece that is reported is reported where it stands. -/
theorem Placed.truthful {piece : Piece} {fault : ScanFault} (h : Placed source s)
    (ht : s.Takes piece s') (hfault : piece.fault? = some fault) :
    (Fault.scan fault).Truthful source := by
  obtain ⟨before, hsource, hhere⟩ := h.here
  have hfits := ht.fits before hhere
  rw [ht.rest] at hsource
  apply ScanFault.truthful
  cases piece with
  | blank | token => cases hfault
  | stray p =>
      cases hfault
      rintro q hq
      obtain rfl : q = p := List.mem_singleton.1 hq
      refine ⟨')', rfl, ?_⟩
      rw [hsource, hfits]
      exact Position.marks_behind before s'.rest ')'
  | brokenNumber digits p =>
      cases hfault
      rintro q hq
      obtain rfl : q = p := List.mem_singleton.1 hq
      obtain ⟨⟨-, tail, htail⟩, hplace⟩ := hfits
      refine ⟨'.', rfl, ?_⟩
      rw [hsource, hplace, htail, ← List.append_assoc]
      exact Position.marks_behind _ tail '.'
  | openText body p =>
      cases hfault
      rintro q hq
      obtain rfl : q = p := List.mem_singleton.1 hq
      refine ⟨'"', rfl, ?_⟩
      rw [hsource, hfits.2]
      exact Position.marks_behind before (body ++ s'.rest) '"'

theorem Placed.finish (h : Placed source s) :
    Told source s.finish.1 ∧ Placed source s.finish.2 := by
  by_cases hclosed : s.opens = []
  · rw [finish_of_closed hclosed]
    refine ⟨?_, h.here, List.forall_mem_nil _, h.opens⟩
    intro t ht
    exact h.queued t (List.mem_reverse.1 ht)
  · rw [finish_of_open hclosed]
    refine ⟨?_, h.here, h.queued, List.forall_mem_nil _⟩
    apply ScanFault.truthful
    intro p hp
    exact ⟨'(', rfl, h.opens p (List.mem_reverse.1 hp)⟩

/-- A call tells true places and keeps all places true. -/
theorem Placed.scan {s : Scanner} (h : Placed source s) :
    Told source s.scan.1 ∧ Placed source s.scan.2 := by
  cases hrest : s.rest with
  | nil =>
      rw [scan_nil hrest]
      exact h.finish
  | cons c cs =>
      have hshorter := s.rest_step_length c cs
      obtain ⟨piece, htakes, hpiece⟩ := step_takes hrest
      cases hfault : (s.step c cs).2 with
      | some fault =>
          rw [scan_fault hrest hfault]
          exact ⟨h.truthful htakes (hpiece.symm.trans hfault), h.takes htakes⟩
      | none =>
          rw [scan_step hrest hfault]
          exact (h.takes htakes).scan
termination_by s.rest.length
decreasing_by simp_all

/-- All calls tell true places. -/
theorem Placed.answers (h : Placed source s) (n : Nat) : ∀ a ∈ s.answers n, Told source a := by
  induction n generalizing s with
  | zero => exact List.forall_mem_nil _
  | succ n ih => exact List.forall_mem_cons.2 ⟨h.scan.1, ih h.scan.2⟩

theorem placed_ofString (source : String) : Placed source.toList (ofString source) :=
  ⟨⟨[], rfl, rfl⟩, List.forall_mem_nil _, List.forall_mem_nil _⟩

end Scanner

/-! ## The builder -/

/-- The fault repeats what its tokens say. -/
def BuildFault.From (ts : List Token) : BuildFault → Prop
  | .unmatchedClose p => ∃ t ∈ ts, t.kind = .rightBracket ∧ t.position = p
  | .badNumber text p => ∃ t ∈ ts, t.kind = .number ∧ t.text = text ∧ t.position = p
  | .unclosed ps => ∀ p ∈ ps, ∃ t ∈ ts, t.kind = .leftBracket ∧ t.position = p

namespace Builder

/-- The marks of a builder are left brackets among some tokens. -/
def MarksFrom (ts : List Token) (b : Builder) : Prop :=
  ∀ m ∈ b.marks, ∃ t ∈ ts, t.kind = .leftBracket ∧ t.position = m.bracket

theorem MarksFrom.step {ts : List Token} {b b' : Builder} {t : Token} (h : MarksFrom ts b)
    (ht : t ∈ ts) (hstep : b.step t = .ok b') : MarksFrom ts b' := by
  rcases step_cases hstep with ⟨f, -, rfl⟩ | ⟨hkind, rfl⟩ | ⟨-, mark, marks, hmarks, rfl⟩
  · exact h
  · exact List.forall_mem_cons.2 ⟨⟨t, ht, hkind, rfl⟩, h⟩
  · intro m hm
    exact h m (hmarks ▸ List.mem_cons_of_mem _ hm)

theorem from_of_step {ts : List Token} {b : Builder} {t : Token} {fault : BuildFault}
    (ht : t ∈ ts) (hstep : b.step t = .error fault) : fault.From ts := by
  unfold Builder.step at hstep
  split at hstep
  · cases hstep
  · next hkind =>
    split at hstep
    · cases hstep
      exact ⟨t, ht, hkind, rfl⟩
    · cases hstep
  · cases hstep
  · cases hstep
  · next hkind =>
    split at hstep
    · cases hstep
    · cases hstep
      exact ⟨t, ht, hkind, rfl, rfl⟩

theorem from_of_steps {ts us : List Token} {b : Builder} (h : MarksFrom ts b) (hus : us ⊆ ts) :
    (∀ b', b.steps us = .ok b' → MarksFrom ts b') ∧
      ∀ fault, b.steps us = .error fault → fault.From ts := by
  induction us generalizing b with
  | nil =>
      refine ⟨?_, ?_⟩
      · rintro b' ⟨⟩
        exact h
      · rintro fault ⟨⟩
  | cons u us ih =>
      obtain ⟨hu, hus⟩ := List.cons_subset.1 hus
      rw [steps_cons]
      cases hstep : b.step u with
      | error fault =>
          refine ⟨?_, ?_⟩
          · rintro b' ⟨⟩
          · rintro _ ⟨⟩
            exact from_of_step hu hstep
      | ok next => exact ih (h.step hu hstep) hus

end Builder

/-- **The builder only passes places on.** -/
theorem Form.from_of_ofTokens {ts : List Token} {fault : BuildFault}
    (h : ofTokens ts = .error fault) : fault.From ts := by
  have hempty : Builder.MarksFrom ts .empty := List.forall_mem_nil _
  obtain ⟨hok, herror⟩ := Builder.from_of_steps hempty (List.Subset.refl ts)
  cases hsteps : Builder.empty.steps ts with
  | error fault' =>
      unfold ofTokens at h
      rw [hsteps] at h
      cases h
      exact herror _ hsteps
  | ok b =>
      rw [ofTokens_of_steps hsteps] at h
      unfold Builder.finish at h
      split at h
      · cases h
      · cases h
        intro p hp
        obtain ⟨m, hm, rfl⟩ := List.mem_map.1 hp
        exact hok b hsteps m (List.mem_reverse.1 hm)

/-! ## All answers -/

/-- A fault that repeats what tokens of a source say is found where it is said to be. -/
theorem BuildFault.From.truthful {source : List Char} {ts : List Token} {fault : BuildFault}
    (h : fault.From ts) (hfits : ∀ t ∈ ts, ∃ rest, t.Fits rest)
    (hmarked : ∀ t ∈ ts, t.Marked source) : (Fault.build fault).Truthful source := by
  cases fault with
  | unmatchedClose p =>
      obtain ⟨t, ht, hkind, rfl⟩ := h
      obtain ⟨rest, hfit⟩ := hfits t ht
      refine ⟨?_, named_message _ (by simp)⟩
      intro q hq
      rw [List.mem_singleton.1 hq]
      exact ⟨')', rfl, hfit.marks_right (hmarked t ht) hkind⟩
  | badNumber text p =>
      obtain ⟨t, ht, hkind, rfl, rfl⟩ := h
      obtain ⟨rest, hfit⟩ := hfits t ht
      obtain ⟨c, hc, hmarks⟩ := hmarked t ht
      rw [Token.Fits, hkind] at hfit
      simp only [Token.spelling, hkind] at hc
      refine ⟨?_, named_message _ ?_⟩
      · intro q hq
        rw [List.mem_singleton.1 hq]
        exact ⟨c, hc, hmarks⟩
      · rintro _ _ ⟨⟩
        exact hfit.1.notMem rfl (by decide)
  | unclosed ps =>
      refine ⟨?_, named_message _ (by simp)⟩
      intro p hp
      obtain ⟨t, ht, hkind, rfl⟩ := h p hp
      obtain ⟨rest, hfit⟩ := hfits t ht
      exact ⟨'(', rfl, hfit.marks_left (hmarked t ht) hkind⟩

/-- A fault of a source as a whole is found where it is said to be. -/
theorem Fault.truthful_of_parse {source : String} {fault : Fault}
    (h : parse source = .error fault) : fault.Truthful source.toList := by
  have htold := (Scanner.placed_ofString source).scan.1
  rcases parse_eq_error_iff.1 h with ⟨e, he, rfl⟩ | ⟨ts, e, hts, he, rfl⟩
  · rw [show (Scanner.ofString source).scan.1 = .error e from he] at htold
    exact htold
  · rw [show (Scanner.ofString source).scan.1 = .ok ts from hts] at htold
    exact (Form.from_of_ofTokens he).truthful (spelt_of_tokens hts).1.fits htold

/-- What a source and its faults say of places. -/
structure Truthful (source : String) : Prop where
  /-- Each token that is handed out, by any call, begins at its place. -/
  tokens : ∀ n ts, .ok ts ∈ (Scanner.ofString source).answers n →
    ∀ t ∈ ts, t.Marked source.toList
  /-- Each fault of a call is found where it is said to be. -/
  scans : ∀ n fault, .error fault ∈ (Scanner.ofString source).answers n →
    (Fault.scan fault).Truthful source.toList
  /-- So is each fault of the source as a whole. -/
  parses : ∀ fault, parse source = .error fault → fault.Truthful source.toList

/-- **Every place that is named is the true one.** -/
theorem every_place_true (source : String) : Truthful source where
  tokens := by
    intro n ts h
    exact (Scanner.placed_ofString source).answers n _ h
  scans := by
    intro n fault h
    exact (Scanner.placed_ofString source).answers n _ h
  parses := by
    intro fault h
    exact Fault.truthful_of_parse h

end Sexpr
