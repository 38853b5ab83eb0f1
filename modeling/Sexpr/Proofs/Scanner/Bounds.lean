import Mathlib
import Sexpr.Proofs.Lexeme
import Sexpr.Proofs.Scanner.Cursor
import Sexpr.Proofs.Scanner.Run

/-!
# Every access is inside of the source

A cursor that stands between what has been read and what has not (`Cursor.At`) reads the
lexeme that comes next, and fetches nothing outside of the source on the way
(`Cursor.Begins.lexeme?`). So the calls of a cursor give the answers of the scanner,
however many there are and whatever faults come between them (`Cursor.calls?_eq`).
-/

namespace Sexpr
namespace Cursor

/-! ## Moving on -/

/-- The cursor behind the characters `cs`. -/
def moved (c : Cursor) (cs : List Char) : Cursor := cs.foldl move c

@[simp] theorem moved_nil (c : Cursor) : c.moved [] = c := rfl

@[simp] theorem moved_cons (c : Cursor) (x : Char) (cs : List Char) :
    c.moved (x :: cs) = (c.move x).moved cs := rfl

theorem moved_append (c : Cursor) (cs ds : List Char) :
    c.moved (cs ++ ds) = (c.moved cs).moved ds :=
  List.foldl_append

@[simp] theorem here_move (c : Cursor) (x : Char) : (c.move x).here = c.here.next x := by
  unfold move here Position.next
  split <;> rfl

@[simp] theorem here_moved (c : Cursor) (cs : List Char) :
    (c.moved cs).here = c.here.after cs := by
  induction cs generalizing c with
  | nil => rfl
  | cons x cs ih => rw [moved_cons, ih, here_move, Position.after_cons]

/-- Moving on leaves everything but the place alone. -/
structure Same (c d : Cursor) : Prop where
  source : d.source = c.source
  start : d.start = c.start
  startedAt : d.startedAt = c.startedAt
  queued : d.queued = c.queued
  opens : d.opens = c.opens

theorem same_moved (c : Cursor) (cs : List Char) : Same c (c.moved cs) := by
  induction cs generalizing c with
  | nil => exact ⟨rfl, rfl, rfl, rfl, rfl⟩
  | cons x cs ih =>
      obtain ⟨hsource, hstart, hplace, hqueued, hopens⟩ := ih (c.move x)
      exact ⟨hsource, hstart, hplace, hqueued, hopens⟩

/-! ## Where a cursor stands -/

/-- The two indices are in order and inside of the source, and have always been. -/
structure Inside (c : Cursor) : Prop where
  start : c.start ≤ c.current
  current : c.current ≤ c.source.size
  trace : ∀ m ∈ c.trace, m.1 ≤ m.2 ∧ m.2 ≤ c.source.size

/-- The characters before the cursor are `before`, and those behind it are `rest`. -/
structure At (c : Cursor) (before rest : List Char) : Prop where
  source : c.source.toList = before ++ rest
  current : c.current = before.length
  inside : c.Inside

namespace At

variable {c : Cursor} {before rest cs : List Char} {x : Char}

theorem getElem? (h : c.At before rest) : c.source[c.current]? = rest.head? := by
  rw [← Array.getElem?_toList, h.source, h.current, List.getElem?_append_right (Nat.le_refl _),
    Nat.sub_self, List.head?_eq_getElem?]

theorem size (h : c.At before rest) : c.source.size = before.length + rest.length := by
  rw [← Array.length_toList, h.source, List.length_append]

theorem atEnd (h : c.At before rest) : c.atEnd = rest.isEmpty := by
  unfold Cursor.atEnd
  rw [h.size, h.current]
  cases rest <;> simp

theorem peek? (h : c.At before rest) : c.peek? = some (rest.headD '\x00') := by
  unfold Cursor.peek?
  rw [h.atEnd, h.getElem?]
  cases rest <;> rfl

theorem advance? (h : c.At before (x :: rest)) : c.advance? = some (x, c.move x) := by
  unfold Cursor.advance?
  rw [h.getElem?]
  rfl

theorem move (h : c.At before (x :: rest)) : (c.move x).At (before ++ [x]) rest := by
  have hsize := h.size
  have hcurrent := h.current
  have hstart := h.inside.start
  rw [List.length_cons] at hsize
  have hnext : c.current + 1 ≤ c.source.size := by omega
  refine ⟨?_, ?_, Nat.le_succ_of_le hstart, hnext, ?_⟩
  · rw [List.append_assoc]
    exact h.source
  · simp [Cursor.move, hcurrent]
  · exact List.forall_mem_cons.2 ⟨⟨Nat.le_succ_of_le hstart, hnext⟩, h.inside.trace⟩

theorem moved (h : c.At before (cs ++ rest)) : (c.moved cs).At (before ++ cs) rest := by
  induction cs generalizing c before with
  | nil => rwa [List.append_nil]
  | cons x cs ih =>
      have hnext := ih h.move
      rwa [List.append_assoc, List.singleton_append] at hnext

theorem mark (h : c.At before rest) : c.mark.At before rest := by
  have hcurrent := h.inside.current
  exact ⟨h.source, h.current, Nat.le_refl _, hcurrent,
    List.forall_mem_cons.2 ⟨⟨Nat.le_refl _, hcurrent⟩, h.inside.trace⟩⟩

/-- What stands between an earlier place and the cursor is a slice of the source. -/
theorem slice? {first : Nat} (h : c.At (before ++ cs) rest) (hfirst : first = before.length) :
    c.slice? first c.current = some cs := by
  have hbounds : first ≤ c.current ∧ c.current ≤ c.source.size := by
    refine ⟨?_, h.inside.current⟩
    rw [hfirst, h.current, List.length_append]
    exact Nat.le_add_right _ _
  unfold Cursor.slice?
  rw [if_pos hbounds, Array.toList_extract, h.source, hfirst, h.current]
  simp [List.extract_eq_take_drop]

/-! ### Over characters -/

variable {stop : Char → Bool}

theorem skipTo?_of_stop (h : c.At before (x :: rest)) (hx : stop x = true) :
    c.skipTo? stop = some c := by
  rw [Cursor.skipTo?, if_neg (by rw [h.atEnd]; simp), h.peek?]
  exact if_pos hx

theorem skipTo?_of_not_stop (h : c.At before (x :: rest)) (hx : ¬ stop x = true) :
    c.skipTo? stop = (c.move x).skipTo? stop := by
  have hread := h.advance?
  rw [Cursor.skipTo?, if_neg (by rw [h.atEnd]; simp), h.peek?]
  dsimp only [List.headD_cons]
  rw [if_neg hx]
  split <;> simp_all

/-- The loop stops in front of the first character that `stop` holds of. -/
theorem skipTo? (h : c.At before rest) (stop : Char → Bool) :
    c.skipTo? stop = some (c.moved (rest.takeWhile (!stop ·))) := by
  induction rest generalizing c before with
  | nil =>
      rw [Cursor.skipTo?, if_pos (by rw [h.atEnd]; rfl)]
      rfl
  | cons x rest ih =>
      by_cases hx : stop x = true
      · rw [h.skipTo?_of_stop hx, List.takeWhile_cons_of_neg (by simp [hx]), moved_nil]
      · rw [h.skipTo?_of_not_stop hx, List.takeWhile_cons_of_pos (by simp [hx]), moved_cons]
        exact ih h.move

/-! ### Over digits -/

variable {digit point : Bool}

theorem skipDigits?_digit (h : c.At before (x :: rest)) (hx : x.isDigit = true) :
    c.skipDigits? digit point = (c.move x).skipDigits? true point := by
  have hread := h.advance?
  rw [Cursor.skipDigits?, h.peek?]
  dsimp only [List.headD_cons]
  rw [if_pos hx]
  split <;> simp_all

/-- The loop over digits reads all that come next. -/
theorem skipDigits?_append {ds : List Char} (h : c.At before (ds ++ rest)) (hds : AllDigits ds) :
    c.skipDigits? digit point = (c.moved ds).skipDigits? (digit || !ds.isEmpty) point := by
  induction ds generalizing c before digit with
  | nil => simp
  | cons d ds ih =>
      obtain ⟨hd, hds⟩ := List.forall_mem_cons.1 hds
      rw [skipDigits?_digit h hd, ih h.move hds]
      simp

/-- It stops where neither a digit nor a point comes next. -/
theorem skipDigits?_of_ends (h : c.At before rest) (hrest : EndsNumber rest) :
    c.skipDigits? digit point = some (c, none) := by
  rw [Cursor.skipDigits?, h.peek?]
  cases rest with
  | nil => rfl
  | cons x rest =>
      obtain ⟨hdigit, hpoint⟩ := hrest x rfl
      dsimp only [List.headD_cons]
      rw [if_neg (by simp [hdigit]), if_neg hpoint]

/-- A point behind digits is read, if it is the first one. -/
theorem skipDigits?_point (h : c.At before ('.' :: rest)) :
    c.skipDigits? true false = (c.move '.').skipDigits? true true := by
  have hread := h.advance?
  rw [Cursor.skipDigits?, h.peek?]
  dsimp only [List.headD_cons]
  rw [if_neg (by decide), if_pos rfl, if_neg (by decide)]
  split <;> simp_all

/-- Any other point is a fault, and is not read. -/
theorem skipDigits?_misplaced (h : c.At before ('.' :: rest))
    (hpoint : (point || !digit) = true) :
    c.skipDigits? digit point = some (c, some (.misplacedPoint c.here)) := by
  rw [Cursor.skipDigits?, h.peek?]
  dsimp only [List.headD_cons]
  rw [if_neg (by decide), if_pos rfl, if_pos hpoint]

end At

/-! ## Following the scanner -/

/-- The cursor and the scanner are in the same state. -/
structure Follows (c : Cursor) (s : Scanner) : Prop where
  stands : ∃ before, c.At before s.rest
  here : c.here = s.here
  queued : c.queued = s.queued
  opens : c.opens = s.opens

/-- The cursor has marked the place where the scanner is. -/
structure Begins (c : Cursor) (s : Scanner) (before : List Char) : Prop where
  stands : c.At before s.rest
  start : c.start = before.length
  startedAt : c.startedAt = s.here
  here : c.here = s.here
  queued : c.queued = s.queued
  opens : c.opens = s.opens

namespace Follows

variable {c : Cursor} {s : Scanner}

theorem mark (h : c.Follows s) : ∃ before, c.mark.Begins s before := by
  obtain ⟨before, hstands⟩ := h.stands
  exact ⟨before, hstands.mark, hstands.current, h.here, h.here, h.queued, h.opens⟩

theorem withOpens (h : c.Follows s) (opens : List Position) :
    Follows { c with opens } { s with opens } := by
  obtain ⟨⟨before, hsource, hcurrent, hstart, hinside, htrace⟩, hhere, hqueued, -⟩ := h
  exact ⟨⟨before, hsource, hcurrent, hstart, hinside, htrace⟩, hhere, hqueued, rfl⟩

theorem withQueued (h : c.Follows s) (queued : List Token) :
    Follows { c with queued } { s with queued } := by
  obtain ⟨⟨before, hsource, hcurrent, hstart, hinside, htrace⟩, hhere, -, hopens⟩ := h
  exact ⟨⟨before, hsource, hcurrent, hstart, hinside, htrace⟩, hhere, rfl, hopens⟩

theorem queue (h : c.Follows s) {place : Position} (hplace : c.startedAt = place)
    (kind : TokenKind) (chars : List Char) :
    (c.queue kind chars).Follows (s.queue kind chars place) := by
  subst hplace
  unfold Cursor.queue Scanner.queue
  rw [h.queued]
  exact h.withQueued _

end Follows

/-- What the cursor comes to is what the scanner comes to, with the same fault. -/
def Agrees (result : Option (Cursor × Option ScanFault)) (expected : Scanner × Option ScanFault) :
    Prop :=
  ∃ d, result = some (d, expected.2) ∧ d.Follows expected.1

theorem ne_quote_of_notMem {cs : List Char} (h : '"' ∉ cs) :
    ∀ x ∈ cs, (!decide (x = '"')) = true := by
  intro x hx
  rw [Bool.not_eq_true', decide_eq_false_iff_not]
  rintro rfl
  exact h hx

namespace Begins

variable {c : Cursor} {s : Scanner} {before cs rest : List Char} {x : Char}

/-- The cursor behind a lexeme. -/
theorem moved (h : c.Begins s before) (hrest : s.rest = cs ++ rest) :
    (c.moved cs).Follows { s with rest, here := s.here.after cs } := by
  have hsame := c.same_moved cs
  have hstands := h.stands
  rw [hrest] at hstands
  refine ⟨⟨_, hstands.moved⟩, ?_, hsame.queued.trans h.queued, hsame.opens.trans h.opens⟩
  rw [here_moved, h.here]

/-- Behind it, the place of its beginning is still known. -/
theorem place (h : c.Begins s before) (cs : List Char) : (c.moved cs).startedAt = s.here :=
  (c.same_moved cs).startedAt.trans h.startedAt

theorem queue (h : c.Begins s before) (hrest : s.rest = cs ++ rest) (kind : TokenKind)
    (chars : List Char) : ((c.moved cs).queue kind chars).Follows
      ({ s with rest, here := s.here.after cs }.queue kind chars s.here) :=
  (h.moved hrest).queue (h.place cs) kind chars

/-- The slice from the mark on is the lexeme. -/
theorem slice? (h : c.Begins s before) (hrest : s.rest = cs ++ rest) :
    (c.moved cs).slice? (c.moved cs).start (c.moved cs).current = some cs := by
  have hstands := h.stands
  rw [hrest] at hstands
  exact hstands.moved.slice? ((c.same_moved cs).start.trans h.start)

/-! ### Texts and words -/

theorem text? (h : c.Begins s before) (hrest : s.rest = '"' :: cs) :
    Agrees (c.move '"').text? (s.read (Lexeme.textFrom cs).1 (Lexeme.textFrom cs).2) := by
  have hstands := h.stands
  rw [hrest] at hstands
  have hskip := hstands.move.skipTo? (· = '"')
  by_cases hquote : '"' ∈ cs
  · -- the loop stops at the closing quote
    obtain ⟨body, tail, rfl, hbody⟩ := List.eq_append_cons_of_mem hquote
    rw [List.takeWhile_append_of_pos (ne_quote_of_notMem hbody),
      List.takeWhile_cons_of_neg (by simp), List.append_nil] at hskip
    rw [Lexeme.textFrom_append hbody]
    have hbehind : ((c.move '"').moved body).At (before ++ ['"'] ++ body) ('"' :: tail) :=
      hstands.move.moved
    have hstart : ((c.move '"').moved body).start + 1 = (before ++ ['"']).length := by
      rw [((c.move '"').same_moved body).start, List.length_append]
      exact congrArg (· + 1) h.start
    have hslice := hbehind.slice? hstart
    have htext : (c.move '"').text? =
        some ((c.moved ('"' :: body ++ ['"'])).queue .text body, none) := by
      simp [Cursor.text?, hskip, hbehind.atEnd, hslice, hbehind.advance?, moved_append]
    exact ⟨_, htext, h.queue (by simp [hrest]) .text body⟩
  · -- there is none, and the loop stops at the end
    rw [List.takeWhile_eq_self_iff.2 (ne_quote_of_notMem hquote)] at hskip
    rw [Lexeme.textFrom_of_notMem hquote]
    have hbehind : ((c.move '"').moved cs).At (before ++ ['"'] ++ cs) [] := by
      apply At.moved
      rw [List.append_nil]
      exact hstands.move
    have hplace := h.place ('"' :: cs)
    rw [moved_cons] at hplace
    have htext : (c.move '"').text? =
        some (c.moved ('"' :: cs), some (.unterminatedText s.here)) := by
      simp [Cursor.text?, hskip, hbehind.atEnd, hplace]
    exact ⟨_, htext, h.moved (by simp [hrest])⟩

theorem word? (h : c.Begins s before) (hrest : s.rest = x :: cs) :
    Agrees (c.move x).word? (s.read (Lexeme.wordFrom x cs).1 (Lexeme.wordFrom x cs).2) := by
  have hstands := h.stands
  rw [hrest] at hstands
  have hname : s.rest = (x :: cs.takeWhile (!endsWord ·)) ++ cs.dropWhile (!endsWord ·) := by
    rw [List.cons_append, List.takeWhile_append_dropWhile, hrest]
  have hskip := hstands.move.skipTo? endsWord
  have hslice := h.slice? hname
  rw [moved_cons] at hslice
  have hword : (c.move x).word? = some ((c.moved (x :: cs.takeWhile (!endsWord ·))).queue
      .identifier (x :: cs.takeWhile (!endsWord ·)), none) := by
    simp [Cursor.word?, hskip, hslice]
  exact ⟨_, hword, h.queue hname _ _⟩

/-! ### Numbers -/

variable {ds : List Char}

/-- What begins a number is read with the digits behind it. -/
theorem skipDigits? (h : c.Begins s before) (hrest : s.rest = (x :: ds) ++ rest)
    (hds : AllDigits ds) : (c.move x).skipDigits? x.isDigit false =
      (c.moved (x :: ds)).skipDigits? ((x :: ds).any Char.isDigit) false := by
  have hstands := h.stands
  rw [hrest] at hstands
  rw [hstands.move.skipDigits?_append hds, moved_cons, List.any_cons]
  have hany : ds.any Char.isDigit = !ds.isEmpty := by
    cases ds with
    | nil => rfl
    | cons d ds => simp [hds d List.mem_cons_self]
  rw [hany]

/-- The loop has come to the end of a number or of a sign. -/
theorem number?_of_skip (h : c.Begins s before) (hrest : s.rest = cs ++ rest)
    (hskip : (c.move x).skipDigits? x.isDigit false = some (c.moved cs, none)) :
    (c.move x).number? x = some ((c.moved cs).queue
      (if cs = ['+'] ∨ cs = ['-'] then .identifier else .number) cs, none) := by
  simp [Cursor.number?, hskip, h.slice? hrest]

/-- The loop has come to a point that is misplaced. -/
theorem number?_misplaced (h : c.Begins s before) (hrest : s.rest = cs ++ rest)
    (hskip : (c.move x).skipDigits? x.isDigit false =
      some (c.moved cs, some (.misplacedPoint (c.moved cs).here))) :
    Agrees ((c.move x).number? x) (s.read (.brokenNumber cs) rest) := by
  refine ⟨_, ?_, h.moved hrest⟩
  simp [Cursor.number?, hskip, Scanner.read, h.here, Lexeme.chars]

theorem number?_whole (h : c.Begins s before) (hrest : s.rest = cs ++ rest)
    (hdigit : cs.any Char.isDigit = true)
    (hskip : (c.move x).skipDigits? x.isDigit false = some (c.moved cs, none)) :
    Agrees ((c.move x).number? x) (s.read (.number cs) rest) := by
  have hsign : ¬ (cs = ['+'] ∨ cs = ['-']) := by
    rintro (rfl | rfl) <;> cases hdigit
  refine ⟨_, h.number?_of_skip hrest hskip, ?_⟩
  rw [if_neg hsign]
  exact h.queue hrest .number cs

/-- A point behind the first digits, and the digits behind it. -/
theorem number?_fraction {whole tail : List Char} (h : c.Begins s before)
    (hrest : s.rest = whole ++ '.' :: tail) (hdigit : whole.any Char.isDigit = true)
    (hskip : (c.move x).skipDigits? x.isDigit false = (c.moved whole).skipDigits? true false) :
    Agrees ((c.move x).number? x) (s.read (Lexeme.fractionFrom (whole ++ ['.']) tail).1
      (Lexeme.fractionFrom (whole ++ ['.']) tail).2) := by
  have hstands := h.stands
  rw [hrest] at hstands
  have hpoint := hstands.moved
  have hall := List.takeWhile_append_dropWhile (p := Char.isDigit) (l := tail)
  have hdigits := allDigits_takeWhile tail
  have hends := endsDigits_dropWhile tail
  unfold Lexeme.fractionFrom
  dsimp only
  generalize tail.takeWhile Char.isDigit = fraction at *
  generalize tail.dropWhile Char.isDigit = rest at *
  subst hall
  have hmoved : c.moved (whole ++ ['.'] ++ fraction) =
      ((c.moved whole).move '.').moved fraction := by
    rw [moved_append, moved_append, moved_cons, moved_nil]
  have hparts : s.rest = (whole ++ ['.'] ++ fraction) ++ rest := by
    rw [hrest, List.append_assoc, List.append_assoc, List.singleton_append]
  have hbehind := hpoint.move.moved
  rw [hpoint.skipDigits?_point, hpoint.move.skipDigits?_append hdigits, Bool.true_or,
    ← hmoved] at hskip
  rw [← hmoved] at hbehind
  split
  · exact h.number?_misplaced hparts (hskip.trans (hbehind.skipDigits?_misplaced rfl))
  · next hnone =>
    have hnumber := hends.endsNumber hnone
    refine h.number?_whole hparts ?_ (hskip.trans (hbehind.skipDigits?_of_ends hnumber))
    rw [List.any_append, List.any_append, hdigit, Bool.true_or, Bool.true_or]

theorem number? (h : c.Begins s before) (hrest : s.rest = x :: cs) (hx : startsNumber x = true) :
    Agrees ((c.move x).number? x)
      (s.read (Lexeme.numberFrom x cs).1 (Lexeme.numberFrom x cs).2) := by
  have hall : s.rest = (x :: cs.takeWhile Char.isDigit) ++ cs.dropWhile Char.isDigit := by
    rw [List.cons_append, List.takeWhile_append_dropWhile, hrest]
  have hskip := h.skipDigits? hall (allDigits_takeWhile cs)
  have hends := endsDigits_dropWhile cs
  have hkind := Lexeme.isSign_or_isWhole cs hx
  have hstands := h.stands
  rw [hall] at hstands
  have hbehind := hstands.moved
  unfold Lexeme.numberFrom
  dsimp only
  generalize x :: cs.takeWhile Char.isDigit = whole at *
  generalize cs.dropWhile Char.isDigit = rest at *
  rcases hkind with hsign | hwhole
  · -- a sign alone is a word, and no point may stand behind it
    rw [hsign.not_any] at hskip ⊢
    rw [if_neg (by decide)]
    split
    · exact h.number?_misplaced hall (hskip.trans (hbehind.skipDigits?_misplaced rfl))
    · next hnone =>
      have hnumber := hends.endsNumber hnone
      refine ⟨_, h.number?_of_skip hall (hskip.trans (hbehind.skipDigits?_of_ends hnumber)), ?_⟩
      rw [if_pos (show whole = ['+'] ∨ whole = ['-'] from hsign)]
      exact h.queue hall .identifier whole
  · have hdigit := hwhole.any
    rw [if_pos hdigit]
    rw [hdigit] at hskip
    split
    · exact h.number?_fraction hall hdigit hskip
    · next hnone =>
      have hnumber := hends.endsNumber hnone
      exact h.number?_whole hall hdigit (hskip.trans (hbehind.skipDigits?_of_ends hnumber))

/-! ### Any lexeme -/

/-- **The next lexeme is read as the scanner reads it**, and from inside of the source. -/
theorem lexeme? (h : c.Begins s before) (hrest : s.rest = x :: cs) :
    Agrees c.lexeme? (s.step x cs) := by
  have hstands := h.stands
  rw [hrest] at hstands
  have hone : s.rest = [x] ++ cs := hrest
  have hbegan : (c.move x).startedAt = s.here := h.place [x]
  have hkept : (c.move x).opens = s.opens := (c.same_moved [x]).opens.trans h.opens
  unfold Scanner.step Lexeme.first Cursor.lexeme?
  rw [hstands.advance?]
  dsimp only [Option.bind_eq_bind, Option.bind_some]
  -- both sides ask the same questions about `x`, in the same order
  split
  · exact ⟨_, rfl, h.moved hone⟩
  split
  · next hx =>
    subst hx
    have hopens : (c.move '(').startedAt :: (c.move '(').opens = s.here :: s.opens := by
      rw [hbegan, hkept]
    refine ⟨_, rfl, ?_⟩
    rw [hopens]
    exact ((h.moved hone).withOpens (s.here :: s.opens)).queue hbegan .leftBracket ['(']
  split
  · next hx =>
    subst hx
    have hnext := h.moved hone
    rw [hkept]
    unfold Scanner.read
    cases hopens : s.opens with
    | nil =>
        rw [hopens] at hnext
        exact ⟨_, by rw [hbegan]; rfl, hnext⟩
    | cons p opens =>
        exact ⟨_, rfl, (hnext.withOpens opens).queue hbegan .rightBracket [')']⟩
  split
  · next hx =>
    subst hx
    exact h.text? hrest
  split
  · next hx => exact h.number? hrest hx
  · exact h.word? hrest

end Begins

/-! ## Calls -/

theorem scan?_of_atEnd {c : Cursor} (h : c.atEnd = true) : c.scan? = some c.finish := by
  rw [scan?, if_pos h]

theorem scan?_fault {c d : Cursor} {fault : ScanFault} (h : c.atEnd = false)
    (hd : c.mark.lexeme? = some (d, some fault)) : c.scan? = some (.error fault, d) := by
  rw [scan?, if_neg (by rw [h]; decide)]
  split <;> simp_all

theorem scan?_step {c d : Cursor} (h : c.atEnd = false)
    (hd : c.mark.lexeme? = some (d, none)) : c.scan? = d.scan? := by
  rw [scan?, if_neg (by rw [h]; decide)]
  split <;> simp_all

namespace Follows

variable {c : Cursor} {s : Scanner}

theorem atEnd (h : c.Follows s) : c.atEnd = s.rest.isEmpty := by
  obtain ⟨before, hstands⟩ := h.stands
  exact hstands.atEnd

theorem finish (h : c.Follows s) :
    c.finish.1 = s.finish.1 ∧ c.finish.2.Follows s.finish.2 := by
  obtain ⟨source, start, startedAt, current, line, column, queued, opens, trace⟩ := c
  obtain ⟨rest, place, queued', opens'⟩ := s
  obtain rfl : queued = queued' := h.queued
  obtain rfl : opens = opens' := h.opens
  cases opens with
  | nil => exact ⟨rfl, h.withQueued []⟩
  | cons p opens => exact ⟨rfl, h.withOpens []⟩

/-- A call, whatever calls have come before it and whatever faults they found. -/
theorem scan? {c : Cursor} {s : Scanner} (h : c.Follows s) :
    ∃ d, c.scan? = some (s.scan.1, d) ∧ d.Follows s.scan.2 := by
  have hend := h.atEnd
  cases hrest : s.rest with
  | nil =>
      rw [hrest] at hend
      obtain ⟨hanswer, hfollows⟩ := h.finish
      rw [scan?_of_atEnd hend, Scanner.scan_nil hrest, ← hanswer]
      exact ⟨_, rfl, hfollows⟩
  | cons x cs =>
      rw [hrest] at hend
      have hshorter := s.rest_step_length x cs
      obtain ⟨before, hbegins⟩ := h.mark
      obtain ⟨next, hlexeme, hnext⟩ := hbegins.lexeme? hrest
      cases hfault : (s.step x cs).2 with
      | some fault =>
          rw [hfault] at hlexeme
          rw [scan?_fault hend hlexeme, Scanner.scan_fault hrest hfault]
          exact ⟨next, rfl, hnext⟩
      | none =>
          rw [hfault] at hlexeme
          rw [scan?_step hend hlexeme, Scanner.scan_step hrest hfault]
          exact scan? hnext
termination_by s.rest.length
decreasing_by simp_all

theorem calls? (h : c.Follows s) (n : Nat) :
    ∃ d, c.calls? n = some (s.answers n, d) ∧ d.Follows (s.afterCalls n) := by
  induction n generalizing c s with
  | zero => exact ⟨c, rfl, h⟩
  | succ n ih =>
      obtain ⟨next, hscan, hnext⟩ := h.scan?
      obtain ⟨d, hcalls, hd⟩ := ih hnext
      refine ⟨d, ?_, ?_⟩
      · simp [Cursor.calls?, hscan, hcalls, Scanner.answers]
      · rwa [Scanner.afterCalls_succ]

end Follows

theorem follows_ofString (source : String) :
    (ofString source).Follows (Scanner.ofString source) where
  stands := ⟨[], rfl, rfl, Nat.le_refl _, Nat.zero_le _,
    List.forall_mem_singleton.2 ⟨Nat.le_refl _, Nat.zero_le _⟩⟩
  here := rfl
  queued := rfl
  opens := rfl

/-- **No call fetches a character or a slice outside of the source.** Any number of
calls give the answers of the scanner, whatever faults come between them, and the two
indices are at all times in order and inside of the source. -/
theorem calls?_eq (source : String) (n : Nat) :
    ∃ c, (ofString source).calls? n = some ((Scanner.ofString source).answers n, c) ∧
      ∀ m ∈ c.trace, m.1 ≤ m.2 ∧ m.2 ≤ source.length := by
  obtain ⟨c, hcalls, hc⟩ := (follows_ofString source).calls? n
  obtain ⟨before, hstands⟩ := hc.stands
  have hsize : c.source.size = source.length := by
    rw [calls?_source hcalls]
    exact List.size_toArray.trans String.length_toList
  rw [← hsize]
  exact ⟨c, hcalls, hstands.inside.trace⟩

end Cursor
end Sexpr
