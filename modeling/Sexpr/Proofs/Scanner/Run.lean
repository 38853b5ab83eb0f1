import Mathlib
import Sexpr.Scanner
import Sexpr.Proofs.Position
import Sexpr.Proofs.Token

/-!
# Runs of the scanner

A source falls into pieces: blanks, tokens and the stretches that are reported
as faults (`Piece`). One step of the scanner takes one piece off the source
(`step_takes`), so all its calls together cut the whole source into pieces
(`exists_drains`).
-/

namespace Sexpr

/-- What becomes of a stretch of the source. -/
inductive Piece where
  | blank (c : Char)
  | token (t : Token)
  /-- A right bracket that closes nothing. -/
  | stray (bracket : Position)
  /-- The part of a number before a misplaced point. -/
  | brokenNumber (digits : List Char) (point : Position)
  /-- A text whose closing quote is missing. -/
  | openText (body : List Char) (quote : Position)
deriving DecidableEq, Repr

namespace Piece

/-- The characters of a piece. -/
def chars : Piece → List Char
  | .blank c => [c]
  | .token t => t.spelling
  | .stray _ => [')']
  | .brokenNumber digits _ => digits
  | .openText body _ => '"' :: body

def token? : Piece → Option Token
  | .token t => some t
  | _ => none

/-- The fault that reports a piece. -/
def fault? : Piece → Option ScanFault
  | .blank _ => none
  | .token _ => none
  | .stray p => some (.unexpectedClose p)
  | .brokenNumber _ p => some (.misplacedPoint p)
  | .openText _ p => some (.unterminatedText p)

/-- The piece may stand between `before` and `rest`, and names its place. -/
def Fits (before rest : List Char) : Piece → Prop
  | .blank c => isBlank c = true
  | .token t => t.Fits rest ∧ t.position = .behind before
  | .stray p => p = .behind before
  | .brokenNumber digits p =>
      (Lexeme.brokenNumber digits).Fits rest ∧ p = .behind (before ++ digits)
  | .openText body p => (Lexeme.openText body).Fits rest ∧ p = .behind before

end Piece

/-- Behind `before`, the rest of a source is cut into pieces that fit. -/
inductive Cut : List Char → List Char → List Piece → Prop
  | nil {before : List Char} : Cut before [] []
  | cons {before rest : List Char} {piece : Piece} {pieces : List Piece} :
      piece.Fits before rest → Cut (before ++ piece.chars) rest pieces →
      Cut before (piece.chars ++ rest) (piece :: pieces)

/-- The tokens among some pieces. -/
def tokensOf (pieces : List Piece) : List Token := pieces.filterMap Piece.token?

/-- The faults among some pieces. -/
def faultsOf (pieces : List Piece) : List ScanFault := pieces.filterMap Piece.fault?

@[simp] theorem tokensOf_nil : tokensOf [] = [] := rfl

@[simp] theorem faultsOf_nil : faultsOf [] = [] := rfl

@[simp] theorem tokensOf_cons (piece : Piece) (pieces : List Piece) :
    tokensOf (piece :: pieces) = piece.token?.toList ++ tokensOf pieces := by
  cases h : piece.token? <;> simp [tokensOf, h]

@[simp] theorem faultsOf_cons (piece : Piece) (pieces : List Piece) :
    faultsOf (piece :: pieces) = piece.fault?.toList ++ faultsOf pieces := by
  cases h : piece.fault? <;> simp [faultsOf, h]

namespace Scanner

/-! ## One step -/

/-- The scanner `s` takes a piece off its source and is `s'` afterwards. -/
structure Takes (s : Scanner) (piece : Piece) (s' : Scanner) : Prop where
  rest : s.rest = piece.chars ++ s'.rest
  here : s'.here = s.here.after piece.chars
  queued : s'.queued = piece.token?.toList ++ s.queued
  opens : Token.openedBy s.opens piece.token?.toList = some s'.opens
  fits : ∀ before, s.here = .behind before → piece.Fits before s'.rest

theorem takes_token {s : Scanner} {l : Lexeme} {rest : List Char} {t : Token}
    {opens : List Position} (hchars : l.chars ++ rest = s.rest) (hspelling : t.spelling = l.chars)
    (hfits : t.Fits rest) (hplace : t.position = s.here)
    (hopens : t.opened s.opens = some opens) :
    s.Takes (.token t) ⟨rest, s.here.after l.chars, t :: s.queued, opens⟩ where
  rest := by rw [← hchars, Piece.chars, hspelling]
  here := by rw [Piece.chars, hspelling]
  queued := rfl
  opens := by
    change (t.opened s.opens).bind some = _
    rw [hopens]
    rfl
  fits := fun _ hb => ⟨hfits, hplace.trans hb⟩

/-- What reading a lexeme does: it takes one piece, and reports it if it is faulty. -/
theorem read_takes {s : Scanner} {l : Lexeme} {rest : List Char} (hchars : l.chars ++ rest = s.rest)
    (hfits : l.Fits rest) :
    ∃ piece, s.Takes piece (s.read l rest).1 ∧ (s.read l rest).2 = piece.fault? := by
  cases l with
  | blank b =>
      exact ⟨.blank b, ⟨hchars.symm, rfl, rfl, rfl, fun _ _ => hfits⟩, rfl⟩
  | opening =>
      exact ⟨_, takes_token hchars (by simp [Token.spelling, Lexeme.chars]) rfl rfl rfl, rfl⟩
  | closing =>
      obtain ⟨rest', here, queued, opens⟩ := s
      cases opens with
      | nil => exact ⟨.stray here, ⟨hchars.symm, rfl, rfl, rfl, fun _ hb => hb⟩, rfl⟩
      | cons p opens =>
          exact ⟨_, takes_token hchars (by simp [Token.spelling, Lexeme.chars]) rfl rfl rfl, rfl⟩
  | text body =>
      refine ⟨_, takes_token hchars (by simp [Token.spelling, Lexeme.chars]) ?_ rfl rfl, rfl⟩
      simpa [Token.Fits, Lexeme.Fits] using hfits
  | openText body =>
      exact ⟨.openText body s.here, ⟨hchars.symm, rfl, rfl, rfl, fun _ hb => ⟨hfits, hb⟩⟩, rfl⟩
  | number digits =>
      refine ⟨_, takes_token hchars (by simp [Token.spelling, Lexeme.chars]) ?_ rfl rfl, rfl⟩
      simpa [Token.Fits, Lexeme.Fits] using hfits
  | brokenNumber digits =>
      refine ⟨.brokenNumber digits (s.here.after digits), ⟨hchars.symm, rfl, rfl, rfl, ?_⟩, rfl⟩
      intro before hb
      exact ⟨hfits, by rw [hb, Position.behind_append]⟩
  | word name =>
      refine ⟨_, takes_token hchars (by simp [Token.spelling, Lexeme.chars]) ?_ rfl rfl, rfl⟩
      simpa [Token.Fits, Lexeme.Fits] using hfits

/-- What a step does. -/
theorem step_takes {s : Scanner} {c : Char} {cs : List Char} (h : s.rest = c :: cs) :
    ∃ piece, s.Takes piece (s.step c cs).1 ∧ (s.step c cs).2 = piece.fault? :=
  read_takes ((Lexeme.chars_first c cs).trans h.symm) (Lexeme.fits_first c cs)

/-! ## One call -/

theorem scan_nil {s : Scanner} (h : s.rest = []) : s.scan = s.finish := by
  unfold scan
  split
  · rfl
  · next hcons => rw [h] at hcons; cases hcons

theorem scan_fault {s : Scanner} {c : Char} {cs : List Char} {fault : ScanFault}
    (h : s.rest = c :: cs) (hf : (s.step c cs).2 = some fault) :
    s.scan = (.error fault, (s.step c cs).1) := by
  unfold scan
  split
  · next hnil => rw [h] at hnil; cases hnil
  · next hcons =>
    rw [h] at hcons
    cases hcons
    split
    · next hstep => rw [hstep] at hf ⊢; cases hf; rfl
    · next hstep => rw [hstep] at hf; cases hf

theorem scan_step {s : Scanner} {c : Char} {cs : List Char} (h : s.rest = c :: cs)
    (hf : (s.step c cs).2 = none) : s.scan = (s.step c cs).1.scan := by
  rw [scan]
  split
  · next hnil => rw [h] at hnil; cases hnil
  · next hcons =>
    rw [h] at hcons
    cases hcons
    split
    · next hstep => rw [hstep] at hf; cases hf
    · next hstep => rw [hstep]

theorem finish_of_closed {s : Scanner} (h : s.opens = []) :
    s.finish = (.ok s.queued.reverse, { s with queued := [] }) := by
  simp [finish, h]

theorem finish_of_open {s : Scanner} (h : s.opens ≠ []) :
    s.finish = (.error (.unclosed s.opens.reverse), { s with opens := [] }) := by
  obtain ⟨p, ps, hps⟩ := List.exists_cons_of_ne_nil h
  simp [finish, hps]

/-! ## All calls -/

/-- The scanner after `n` calls. -/
def afterCalls (s : Scanner) : Nat → Scanner
  | 0 => s
  | n + 1 => (s.afterCalls n).scan.2

theorem afterCalls_succ (s : Scanner) (n : Nat) : s.afterCalls (n + 1) = s.scan.2.afterCalls n := by
  induction n with
  | zero => rfl
  | succ n ih => exact congrArg (fun t : Scanner => t.scan.2) ih

/-- The answer of each call is that of the scanner the calls before have left. -/
theorem getElem?_answers (s : Scanner) {i n : Nat} (h : i < n) :
    (s.answers n)[i]? = some (s.afterCalls i).scan.1 := by
  induction n generalizing s i with
  | zero => cases h
  | succ n ih =>
      cases i with
      | zero => rfl
      | succ i =>
          have hi : i < n := Nat.lt_of_succ_lt_succ h
          rw [answers, List.getElem?_cons_succ, ih _ hi, afterCalls_succ]

theorem answers_fault {s : Scanner} {c : Char} {cs : List Char} {fault : ScanFault}
    (h : s.rest = c :: cs) (hf : (s.step c cs).2 = some fault) (n : Nat) :
    s.answers (n + 1) = .error fault :: (s.step c cs).1.answers n := by
  rw [answers, scan_fault h hf]

theorem answers_step {s : Scanner} {c : Char} {cs : List Char} (h : s.rest = c :: cs)
    (hf : (s.step c cs).2 = none) (n : Nat) : s.answers n = (s.step c cs).1.answers n := by
  cases n with
  | zero => rfl
  | succ n => rw [answers, answers, scan_step h hf]

/-- The scanner `s` comes to the end of its source as `e`. On the way its calls cut
the rest of the source into pieces, queue the tokens among them, and answer with
the faults among them. -/
structure Drains (s : Scanner) (before : List Char) (pieces : List Piece) (e : Scanner) :
    Prop where
  cut : Cut before s.rest pieces
  atEnd : e.rest = []
  queued : e.queued = (tokensOf pieces).reverse ++ s.queued
  opens : Token.openedBy s.opens (tokensOf pieces) = some e.opens
  answers : ∀ n, s.answers ((faultsOf pieces).length + n) =
    (faultsOf pieces).map .error ++ e.answers n

theorem Drains.of_takes {s e : Scanner} {before cs : List Char} {c : Char} {piece : Piece}
    {pieces : List Piece} (hrest : s.rest = c :: cs) (hb : s.here = .behind before)
    (htakes : s.Takes piece (s.step c cs).1) (hfault : (s.step c cs).2 = piece.fault?)
    (hd : (s.step c cs).1.Drains (before ++ piece.chars) pieces e) :
    s.Drains before (piece :: pieces) e where
  cut := by
    rw [htakes.rest]
    exact .cons (htakes.fits before hb) hd.cut
  atEnd := hd.atEnd
  queued := by
    rw [hd.queued, htakes.queued, tokensOf_cons]
    cases piece <;> simp [Piece.token?]
  opens := by
    rw [tokensOf_cons, Token.openedBy_append, htakes.opens]
    exact hd.opens
  answers := by
    intro n
    rw [faultsOf_cons]
    cases hpiece : piece.fault? with
    | none => exact (answers_step hrest (hfault.trans hpiece) _).trans (hd.answers n)
    | some fault =>
        -- a fault ends a call, so there is one answer more
        have hcount : ([fault] ++ faultsOf pieces).length + n =
            ((faultsOf pieces).length + n) + 1 := by
          rw [List.length_append, List.length_singleton]
          omega
        change s.answers (([fault] ++ faultsOf pieces).length + n) = _
        rw [hcount, answers_fault hrest (hfault.trans hpiece), hd.answers n]
        rfl

theorem Drains.scan_eq {s e : Scanner} {before : List Char} {pieces : List Piece}
    (hd : s.Drains before pieces e) :
    s.scan.1 = match faultsOf pieces with
      | [] => e.finish.1
      | fault :: _ => .error fault := by
  have hanswers := hd.answers 1
  cases hfaults : faultsOf pieces with
  | nil =>
      rw [hfaults] at hanswers
      have hscan : [s.scan.1] = [e.scan.1] := hanswers
      rw [List.cons.inj hscan |>.1, scan_nil hd.atEnd]
  | cons fault faults =>
      rw [hfaults, List.length_cons, Nat.add_right_comm] at hanswers
      exact (List.cons.inj hanswers).1

/-- Every scanner comes to the end of its source. -/
theorem exists_drains (s : Scanner) (before : List Char) (hb : s.here = .behind before) :
    ∃ pieces e, s.Drains before pieces e := by
  cases hrest : s.rest with
  | nil => exact ⟨[], s, hrest ▸ .nil, hrest, rfl, rfl, fun n => by simp⟩
  | cons c cs =>
      have hshorter := s.rest_step_length c cs
      obtain ⟨piece, htakes, hfault⟩ := step_takes hrest
      have hhere : (s.step c cs).1.here = .behind (before ++ piece.chars) := by
        rw [htakes.here, hb, Position.behind_append]
      obtain ⟨pieces, e, hd⟩ := exists_drains (s.step c cs).1 (before ++ piece.chars) hhere
      exact ⟨piece :: pieces, e, .of_takes hrest hb htakes hfault hd⟩
termination_by s.rest.length
decreasing_by simp_all

end Scanner
end Sexpr
