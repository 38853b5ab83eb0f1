import Sexpr.Fault
import Sexpr.Lexeme
import Sexpr.Token

/-!
# The scanner

A scanner walks over a source lexeme by lexeme, queues a token for each lexeme
that spells one, and keeps the places of the brackets that are still open. One
call of `Scanner.scan` runs to the end of the source or to the first fault. The
scanner it leaves behind can be called again: a call after a fault goes on
behind the characters that were read.
-/

namespace Sexpr

structure Scanner where
  /-- The characters not yet read. -/
  rest : List Char
  /-- The place of the first of them. -/
  here : Position
  /-- Tokens scanned and not yet handed out, newest first. -/
  queued : List Token
  /-- The places of the open brackets, innermost first. -/
  opens : List Position
deriving DecidableEq, Repr

namespace Scanner

/-- A scanner at the start of a source. -/
def ofString (source : String) : Scanner := ⟨source.toList, .start, [], []⟩

/-- Queues a token that begins at `place`. -/
def queue (s : Scanner) (kind : TokenKind) (chars : List Char) (place : Position) :
    Scanner :=
  { s with queued := ⟨kind, String.ofList chars, place⟩ :: s.queued }

/-- Reads the lexeme `l`, with `rest` behind it. A fault leaves the scanner
behind the lexeme as well. -/
def read (s : Scanner) (l : Lexeme) (rest : List Char) : Scanner × Option ScanFault :=
  let next := { s with rest, here := s.here.after l.chars }
  match l with
  | .blank _ => (next, none)
  | .opening =>
      ({ next with opens := s.here :: s.opens }.queue .leftBracket ['('] s.here, none)
  | .closing =>
      match s.opens with
      | [] => (next, some (.unexpectedClose s.here))
      | _ :: opens => ({ next with opens }.queue .rightBracket [')'] s.here, none)
  | .text body => (next.queue .text body s.here, none)
  | .openText _ => (next, some (.unterminatedText s.here))
  | .number digits => (next.queue .number digits s.here, none)
  | .brokenNumber _ => (next, some (.misplacedPoint next.here))
  | .word name => (next.queue .identifier name s.here, none)

/-- Reads the first lexeme of a source that is not at its end. -/
def step (s : Scanner) (c : Char) (cs : List Char) : Scanner × Option ScanFault :=
  s.read (Lexeme.first c cs).1 (Lexeme.first c cs).2

@[simp] theorem rest_read (s : Scanner) (l : Lexeme) (rest : List Char) :
    (s.read l rest).1.rest = rest := by
  unfold read; dsimp only; split <;> (try split) <;> rfl

theorem rest_step_length (s : Scanner) (c : Char) (cs : List Char) :
    (s.step c cs).1.rest.length < (c :: cs).length := by
  have whole := congrArg List.length (Lexeme.chars_first c cs)
  have read := List.length_pos_iff.2 (Lexeme.chars_first_ne_nil c cs)
  simp only [List.length_append] at whole
  simp only [step, rest_read]
  omega

/-- The end of the source: brackets still open are a fault and are forgotten;
otherwise all queued tokens are handed out, oldest first. -/
def finish (s : Scanner) : Except ScanFault (List Token) × Scanner :=
  match s.opens with
  | [] => (.ok s.queued.reverse, { s with queued := [] })
  | opens => (.error (.unclosed opens.reverse), { s with opens := [] })

/-- Scans to the end of the source or to the first fault. -/
def scan (s : Scanner) : Except ScanFault (List Token) × Scanner :=
  match _ : s.rest with
  | [] => s.finish
  | c :: cs =>
      match _ : s.step c cs with
      | (next, some fault) => (.error fault, next)
      | (next, none) => scan next
termination_by s.rest.length
decreasing_by
  have shorter := s.rest_step_length c cs
  simp_all

/-- The answers of `n` calls in a row. -/
def answers (s : Scanner) : Nat → List (Except ScanFault (List Token))
  | 0 => []
  | n + 1 => s.scan.1 :: s.scan.2.answers n

end Scanner

/-- The tokens of a source. -/
def tokens (source : String) : Except ScanFault (List Token) :=
  (Scanner.ofString source).scan.1

end Sexpr
