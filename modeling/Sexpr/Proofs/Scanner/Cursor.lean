import Mathlib
import Sexpr.Scanner

/-!
# A scanner that walks by index

The same scanner, with the whole source in an array and two indices into it. Each
character and each slice is fetched by index, and fetching outside of the source gives
nothing at all: `none` is handed on to the end, so a call that gives an answer has
fetched inside of the source only. `Cursor.trace` keeps every value that the two indices
have had.
-/

namespace Sexpr

structure Cursor where
  source : Array Char
  /-- Where the lexeme that is being read begins. -/
  start : Nat
  /-- The place of `start`. -/
  startedAt : Position
  /-- The next character to be read. -/
  current : Nat
  line : Nat
  column : Nat
  /-- Tokens scanned and not yet handed out, newest first. -/
  queued : List Token
  /-- The places of the open brackets, innermost first. -/
  opens : List Position
  /-- The values that `start` and `current` have had, newest first. -/
  trace : List (Nat × Nat)
deriving DecidableEq, Repr

namespace Cursor

/-- A cursor at the start of a source. -/
def ofString (source : String) : Cursor :=
  ⟨source.toList.toArray, 0, .start, 0, 1, 1, [], [], [(0, 0)]⟩

/-! ## One character, one slice -/

/-- The place of the next character. -/
def here (c : Cursor) : Position := ⟨c.current, c.line, c.column⟩

def atEnd (c : Cursor) : Bool := c.source.size ≤ c.current

/-- Begins a lexeme at the next character. -/
def mark (c : Cursor) : Cursor :=
  { c with start := c.current, startedAt := c.here, trace := (c.current, c.current) :: c.trace }

/-- Goes on behind the character `x`. -/
def move (c : Cursor) (x : Char) : Cursor :=
  { c with
    current := c.current + 1
    line := if x = '\n' then c.line + 1 else c.line
    column := if x = '\n' then 1 else c.column + 1
    trace := (c.start, c.current + 1) :: c.trace }

/-- Reads the next character. -/
def advance? (c : Cursor) : Option (Char × Cursor) :=
  c.source[c.current]?.map fun x => (x, c.move x)

/-- Looks at the next character; at the end of the source it is taken to be NUL. -/
def peek? (c : Cursor) : Option Char :=
  if c.atEnd then some '\x00' else c.source[c.current]?

/-- The characters from the index `first` up to the index `last`. -/
def slice? (c : Cursor) (first last : Nat) : Option (List Char) :=
  if first ≤ last ∧ last ≤ c.source.size then some (c.source.extract first last).toList else none

/-- Queues a token for the lexeme that has been read. -/
def queue (c : Cursor) (kind : TokenKind) (chars : List Char) : Cursor :=
  { c with queued := ⟨kind, String.ofList chars, c.startedAt⟩ :: c.queued }

theorem advance?_eq_some {c d : Cursor} {x : Char} (h : c.advance? = some (x, d)) :
    c.current < c.source.size ∧ d = c.move x := by
  obtain ⟨y, hy, heq⟩ := Option.map_eq_some_iff.1 h
  cases heq
  exact ⟨(Array.getElem?_eq_some_iff.1 hy).1, rfl⟩

/-! ## Loops -/

/-- Moves on to the next character that `stop` holds of, or to the end. -/
def skipTo? (stop : Char → Bool) (c : Cursor) : Option Cursor :=
  if c.atEnd then some c
  else
    match c.peek? with
    | none => none
    | some x =>
        if stop x then some c
        else
          match _ : c.advance? with
          | none => none
          | some (_, next) => next.skipTo? stop
termination_by c.source.size - c.current
decreasing_by
  next h =>
    obtain ⟨hlt, rfl⟩ := advance?_eq_some h
    simp only [move]
    omega

/-- Moves on over the digits of a number and its point. -/
def skipDigits? (c : Cursor) (digit point : Bool) : Option (Cursor × Option ScanFault) :=
  match c.peek? with
  | none => none
  | some x =>
      if x.isDigit then
        match _ : c.advance? with
        | none => none
        | some (_, next) => next.skipDigits? true point
      else if x = '.' then
        if point || !digit then some (c, some (.misplacedPoint c.here))
        else
          match _ : c.advance? with
          | none => none
          | some (_, next) => next.skipDigits? digit true
      else some (c, none)
termination_by c.source.size - c.current
decreasing_by
  all_goals
    next h =>
      obtain ⟨hlt, rfl⟩ := advance?_eq_some h
      simp only [move]
      omega

/-! ## Lexemes -/

/-- Reads a text whose opening quote has been read. -/
def text? (c : Cursor) : Option (Cursor × Option ScanFault) := do
  let c ← c.skipTo? (· = '"')
  if c.atEnd then
    return (c, some (.unterminatedText c.startedAt))
  let body ← c.slice? (c.start + 1) c.current
  let (_, c) ← c.advance?
  return (c.queue .text body, none)

/-- Reads a number, or the name of an operator, that begins with `x`. -/
def number? (c : Cursor) (x : Char) : Option (Cursor × Option ScanFault) := do
  match ← c.skipDigits? x.isDigit false with
  | (c, some fault) => return (c, some fault)
  | (c, none) =>
      let chars ← c.slice? c.start c.current
      let kind : TokenKind := if chars = ['+'] ∨ chars = ['-'] then .identifier else .number
      return (c.queue kind chars, none)

/-- Reads a word whose first character has been read. -/
def word? (c : Cursor) : Option (Cursor × Option ScanFault) := do
  let c ← c.skipTo? endsWord
  let name ← c.slice? c.start c.current
  return (c.queue .identifier name, none)

/-- Reads one lexeme. -/
def lexeme? (c : Cursor) : Option (Cursor × Option ScanFault) := do
  let (x, c) ← c.advance?
  if isBlank x then return (c, none)
  else if x = '(' then
    return ({ c with opens := c.startedAt :: c.opens }.queue .leftBracket ['('], none)
  else if x = ')' then
    match c.opens with
    | [] => return (c, some (.unexpectedClose c.startedAt))
    | _ :: opens => return ({ c with opens }.queue .rightBracket [')'], none)
  else if x = '"' then c.text?
  else if startsNumber x then c.number? x
  else c.word?

/-! ## Every lexeme is a step onward -/

/-- The cursor `d` reads the same source as `c` and has not gone back. -/
structure Onward (c d : Cursor) : Prop where
  source : d.source = c.source
  current : c.current ≤ d.current

namespace Onward

variable {c d e : Cursor}

theorem refl (c : Cursor) : Onward c c := ⟨rfl, Nat.le_refl _⟩

theorem trans (h : Onward c d) (hd : Onward d e) : Onward c e :=
  ⟨hd.source.trans h.source, h.current.trans hd.current⟩

theorem move (c : Cursor) (x : Char) : Onward c (c.move x) := ⟨rfl, Nat.le_succ _⟩

theorem advance? {x : Char} (h : c.advance? = some (x, d)) : Onward c d := by
  rw [(advance?_eq_some h).2]
  exact move c x

theorem skipTo? {stop : Char → Bool} (h : c.skipTo? stop = some d) : Onward c d := by
  fun_induction Cursor.skipTo? stop c with
  | case1 => cases h; exact refl _
  | case2 => cases h
  | case3 => cases h; exact refl _
  | case4 => cases h
  | case5 c _ x _ _ y next hnext ih => exact (advance? hnext).trans (ih h)

theorem skipDigits? {digit point : Bool} {fault : Option ScanFault}
    (h : c.skipDigits? digit point = some (d, fault)) : Onward c d := by
  fun_induction Cursor.skipDigits? c digit point with
  | case1 => cases h
  | case2 => cases h
  | case3 c digit point x _ _ y next hnext ih => exact (advance? hnext).trans (ih h)
  | case4 => cases h; exact refl _
  | case5 => cases h
  | case6 c digit point _ y next hnext _ _ ih => exact (advance? hnext).trans (ih h)
  | case7 => cases h; exact refl _

theorem text? {fault : Option ScanFault} (h : c.text? = some (d, fault)) : Onward c d := by
  obtain ⟨e, he, h⟩ := Option.bind_eq_some_iff.1 h
  refine (skipTo? he).trans ?_
  split at h
  · cases h
    exact refl _
  · obtain ⟨body, -, h⟩ := Option.bind_eq_some_iff.1 h
    obtain ⟨⟨x, f⟩, hf, h⟩ := Option.bind_eq_some_iff.1 h
    cases h
    exact ⟨(advance? hf).source, (advance? hf).current⟩

theorem number? {x : Char} {fault : Option ScanFault} (h : c.number? x = some (d, fault)) :
    Onward c d := by
  obtain ⟨⟨e, found⟩, he, h⟩ := Option.bind_eq_some_iff.1 h
  refine (skipDigits? he).trans ?_
  cases found with
  | some fault' =>
      cases h
      exact refl _
  | none =>
      obtain ⟨chars, -, h⟩ := Option.bind_eq_some_iff.1 h
      cases h
      exact ⟨rfl, Nat.le_refl _⟩

theorem word? {fault : Option ScanFault} (h : c.word? = some (d, fault)) : Onward c d := by
  obtain ⟨e, he, h⟩ := Option.bind_eq_some_iff.1 h
  obtain ⟨name, -, h⟩ := Option.bind_eq_some_iff.1 h
  cases h
  exact ⟨(skipTo? he).source, (skipTo? he).current⟩

end Onward

/-- Reading a lexeme reads its first character at least. -/
theorem lexeme?_onward {c d : Cursor} {fault : Option ScanFault}
    (h : c.lexeme? = some (d, fault)) : d.source = c.source ∧ c.current < d.current := by
  obtain ⟨⟨x, e⟩, he, h⟩ := Option.bind_eq_some_iff.1 h
  obtain ⟨-, rfl⟩ := advance?_eq_some he
  have honward : Onward (c.move x) d := by
    dsimp only at h
    split at h
    · cases h; exact .refl _
    split at h
    · cases h; exact ⟨rfl, Nat.le_refl _⟩
    split at h
    · split at h
      · cases h; exact .refl _
      · cases h; exact ⟨rfl, Nat.le_refl _⟩
    split at h
    · exact .text? h
    split at h
    · exact .number? h
    · exact .word? h
  exact ⟨honward.source, honward.current⟩

/-! ## Calls -/

/-- The end of the source. -/
def finish (c : Cursor) : Except ScanFault (List Token) × Cursor :=
  match c.opens with
  | [] => (.ok c.queued.reverse, { c with queued := [] })
  | opens => (.error (.unclosed opens.reverse), { c with opens := [] })

/-- Scans to the end of the source or to the first fault. -/
def scan? (c : Cursor) : Option (Except ScanFault (List Token) × Cursor) :=
  if c.atEnd then some c.finish
  else
    match _ : c.mark.lexeme? with
    | none => none
    | some (next, some fault) => some (.error fault, next)
    | some (next, none) => next.scan?
termination_by c.source.size - c.current
decreasing_by
  next hend h =>
    obtain ⟨hsource, hcurrent⟩ := lexeme?_onward h
    simp only [mark] at hsource hcurrent
    simp only [atEnd, decide_eq_true_eq, Nat.not_le] at hend
    rw [hsource]
    omega

/-- The answers of `n` calls in a row, and the cursor they leave behind. -/
def calls? (c : Cursor) : Nat → Option (List (Except ScanFault (List Token)) × Cursor)
  | 0 => some ([], c)
  | n + 1 => do
      let (answer, c) ← c.scan?
      let (answers, c) ← c.calls? n
      return (answer :: answers, c)

theorem finish_source (c : Cursor) : c.finish.2.source = c.source := by
  unfold finish
  split <;> rfl

theorem scan?_source {c d : Cursor} {answer : Except ScanFault (List Token)}
    (h : c.scan? = some (answer, d)) : d.source = c.source := by
  fun_induction scan? c with
  | case1 c =>
      have hd : c.finish.2 = d := congrArg Prod.snd (Option.some.inj h)
      rw [← hd]
      exact c.finish_source
  | case2 => cases h
  | case3 c _ next fault hnext =>
      cases h
      exact (lexeme?_onward hnext).1
  | case4 c _ next hnext ih => exact (ih h).trans (lexeme?_onward hnext).1

theorem calls?_source {c d : Cursor} {n : Nat} {answers : List (Except ScanFault (List Token))}
    (h : c.calls? n = some (answers, d)) : d.source = c.source := by
  induction n generalizing c answers with
  | zero =>
      cases h
      rfl
  | succ n ih =>
      obtain ⟨⟨answer, e⟩, hscan, h⟩ := Option.bind_eq_some_iff.1 h
      obtain ⟨⟨answers, d⟩, hcalls, h⟩ := Option.bind_eq_some_iff.1 h
      cases h
      exact (ih hcalls).trans (scan?_source hscan)

end Cursor
end Sexpr
