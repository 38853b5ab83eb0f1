import Mathlib
import Sexpr.Json.Reader
import Sexpr.Proofs.Binary64.Literal
import Sexpr.Proofs.Json.Quoted

/-!
# The grammar of JSON

A text is written with a row of symbols, each in any of its spellings, and with blanks
anywhere between them (`Written`). A text of a value is one that is written with the
symbols of that value (`IsTextOf`), and every text of a value is read as that value
(`read?_of_isTextOf`). How deep the value is does not matter.
-/

namespace Sexpr
namespace Json

/-! ## Texts -/

/-- The symbol is spelled like this: a number with any form of its power of ten, a text
with any escapes, and any other symbol in the one way it has. -/
def Symbol.SpelledBy (word : List Char) : Symbol → Prop
  | .number n => n.SpelledBy word
  | .text content =>
      ∃ body pieces, word = '"' :: body ++ ['"'] ∧ Body body pieces ∧ HasContent pieces content
  | s => word = s.chars

/-- The text is written with these symbols, and blanks. -/
inductive Written : List Char → List Symbol → Prop
  | nil : Written [] []
  | blank {c : Char} {cs : List Char} {ss : List Symbol} (hc : isBlank c = true)
      (h : Written cs ss) : Written (c :: cs) ss
  | symbol {s : Symbol} {word cs : List Char} {ss : List Symbol} (hs : s.SpelledBy word)
      (h : Written cs ss) : Written (word ++ cs) (s :: ss)

/-- The text is a JSON text of the value. -/
def IsTextOf (text : String) (j : Json) : Prop := Written text.toList j.symbols

/-! ## Where numbers end -/

/-- The row is at its end or goes on as it may behind a value. -/
def EndsValue : List Symbol → Prop
  | [] | .comma :: _ | .closeArray :: _ | .closeObject :: _ => True
  | _ => False

/-- Numbers stand only where a value ends. -/
def Separate : List Symbol → Prop
  | [] => True
  | .number _ :: ss => EndsValue ss ∧ Separate ss
  | _ :: ss => Separate ss

theorem Separate.tail {s : Symbol} {ss : List Symbol} (h : Separate (s :: ss)) : Separate ss := by
  cases s with
  | number n => exact h.2
  | _ => exact h

mutual

/-- The numbers of a value stand where a value ends. -/
theorem separate_symbolsT (j : Json) {rest : List Symbol} (hends : EndsValue rest)
    (hrest : Separate rest) : Separate (symbolsT j rest) := by
  cases j with
  | null | bool | text => exact hrest
  | number n => exact ⟨hends, hrest⟩
  | array items => exact separate_symbolsF items trivial hrest
  | object members => exact separate_symbolsM members trivial hrest

theorem separate_symbolsF (items : List Json) {rest : List Symbol} (hends : EndsValue rest)
    (hrest : Separate rest) : Separate (symbolsF items rest) := by
  match items with
  | [] => exact hrest
  | [j] => exact separate_symbolsT j hends hrest
  | j :: k :: items =>
      have hmore := separate_symbolsF (k :: items) hends hrest
      exact separate_symbolsT j trivial hmore

theorem separate_symbolsM (members : Members) {rest : List Symbol} (hends : EndsValue rest)
    (hrest : Separate rest) : Separate (symbolsM members rest) := by
  match members with
  | [] => exact hrest
  | [(key, j)] => exact separate_symbolsT j hends hrest
  | (key, j) :: m :: members =>
      have hmore := separate_symbolsM (m :: members) hends hrest
      exact separate_symbolsT j trivial hmore

end

theorem separate_symbols (j : Json) : Separate j.symbols := separate_symbolsT j trivial trivial

/-- Behind a value, no numeral goes on. -/
theorem Written.endsNumeral {cs : List Char} {ss : List Symbol} (h : Written cs ss)
    (hss : EndsValue ss) : EndsNumeral cs := by
  cases h with
  | nil => exact nofun
  | @blank c cs ss hc _ =>
      rintro d ⟨⟩
      simp only [isBlank, Bool.or_eq_true, decide_eq_true_eq] at hc
      rcases hc with ((rfl | rfl) | rfl) | rfl <;> decide
  | @symbol s word cs ss hs _ =>
      cases s with
      | comma | closeArray | closeObject =>
          obtain rfl : word = _ := hs
          rintro d ⟨⟩
          decide
      | _ => cases hss

/-! ## Reading the symbols -/

theorem not_blank_of_digit {c : Char} (hc : c.isDigit = true) : isBlank c = false := by
  have hne : ∀ d : Char, d.isDigit = false → c ≠ d := by
    rintro d hd rfl
    rw [hc] at hd
    cases hd
  simp [isBlank, hne ' ' rfl, hne '\t' rfl, hne '\n' rfl, hne '\r' rfl]

/-- No symbol begins with a blank. -/
theorem Symbol.SpelledBy.exists_head {s : Symbol} {word : List Char} (h : s.SpelledBy word) :
    ∃ c cs, word = c :: cs ∧ isBlank c = false := by
  cases s with
  | number n =>
      obtain ⟨c, cs, hword, hc⟩ := Numeral.SpelledBy.exists_head h
      refine ⟨c, cs, hword, ?_⟩
      rcases hc with rfl | hc
      · rfl
      · exact not_blank_of_digit hc
  | text content =>
      obtain ⟨body, pieces, rfl, -, -⟩ := h
      exact ⟨'"', _, rfl, rfl⟩
  | bool value => cases value <;> exact ⟨_, _, h, rfl⟩
  | _ => exact ⟨_, _, h, rfl⟩

theorem symbolFrom_number {n : Numeral} {word rest : List Char} (h : n.SpelledBy word)
    (hrest : EndsNumeral rest) : symbolFrom (word ++ rest) = some (.number n, rest) := by
  have hread := numberFrom_spelling h hrest
  obtain ⟨c, cs, rfl, hc⟩ := h.exists_head
  have hne : ∀ d : Char, d ≠ '-' → d.isDigit = false → c ≠ d := by
    rintro d hminus hdigit rfl
    rcases hc with hc | hc
    · exact hminus hc
    · rw [hc] at hdigit
      cases hdigit
  rw [List.cons_append] at hread ⊢
  unfold symbolFrom
  split
  case h_11 => exact hread
  all_goals
    next heq =>
    exact absurd (List.cons.inj heq).1 (hne _ (by decide) rfl)

/-- A symbol is read from any of its spellings. Only a number needs to know what comes
behind it. -/
theorem symbolFrom_spelling {s : Symbol} {word rest : List Char} (h : s.SpelledBy word)
    (hrest : ∀ n, s = .number n → EndsNumeral rest) :
    symbolFrom (word ++ rest) = some (s, rest) := by
  cases s with
  | number n => exact symbolFrom_number h (hrest n rfl)
  | text content =>
      obtain ⟨body, pieces, rfl, hbody, hpieces⟩ := h
      have hread := unquote_body hbody hpieces rest
      simp only [List.cons_append, List.append_assoc, List.nil_append, symbolFrom, hread,
        Option.map_some]
  | bool value =>
      obtain rfl : word = _ := h
      cases value <;> rfl
  | _ =>
      obtain rfl : word = _ := h
      rfl

theorem symbolsTo_blank {c : Char} (hc : isBlank c = true) (done : List Symbol) (cs : List Char) :
    symbolsTo done (c :: cs) = symbolsTo done cs := by
  rw [symbolsTo, if_pos hc]

theorem symbolsTo_spelling {s : Symbol} {word rest : List Char} (h : s.SpelledBy word)
    (hrest : ∀ n, s = .number n → EndsNumeral rest) (done : List Symbol) :
    symbolsTo done (word ++ rest) = symbolsTo (s :: done) rest := by
  have hread := symbolFrom_spelling h hrest
  obtain ⟨c, cs, rfl, hc⟩ := h.exists_head
  rw [List.cons_append] at hread ⊢
  rw [symbolsTo, if_neg (by simp [hc])]
  split
  · next hsome =>
    rw [hread] at hsome
    cases hsome
    rfl
  · next hnone =>
    rw [hread] at hnone
    cases hnone

theorem Written.symbolsTo {cs : List Char} {ss : List Symbol} (h : Written cs ss)
    (hss : Separate ss) (done : List Symbol) : symbolsTo done cs = some (done.reverse ++ ss) := by
  induction h generalizing done with
  | nil => rw [Json.symbolsTo, List.append_nil]
  | blank hc _ ih => rw [symbolsTo_blank hc, ih hss]
  | @symbol s word cs ss hs h ih =>
      have hrest : ∀ n, s = .number n → EndsNumeral cs := by
        rintro n rfl
        exact h.endsNumeral hss.1
      rw [symbolsTo_spelling hs hrest, ih hss.tail, List.reverse_cons, List.append_assoc,
        List.singleton_append]

/-! ## Reading a value -/

namespace Reading

/-- A value can begin where the first item of an array can. -/
theorem step?_arrayStart {s : Symbol} (hs : s ≠ .closeArray) (outer : List Frame) :
    step? (.arrayStart outer) s = step? (.needValue (.array [] :: outer)) s := by
  cases s with
  | closeArray => exact absurd rfl hs
  | _ => rfl

end Reading

open Reading

theorem foldlM_cons {r next : Reading} {s : Symbol} (h : step? r s = some next)
    (ss : List Symbol) : (s :: ss).foldlM step? r = ss.foldlM step? next := by
  rw [List.foldlM_cons, h]
  rfl

/-- No value begins with the end of an array. -/
theorem symbolsT_ne (j : Json) (rest : List Symbol) :
    ∃ s ss, symbolsT j rest = s :: ss ∧ s ≠ .closeArray := by
  cases j <;> exact ⟨_, _, rfl, nofun⟩

theorem symbolsF_cons (j : Json) {items : List Json} (hne : items ≠ []) (rest : List Symbol) :
    symbolsF (j :: items) rest = symbolsT j (.comma :: symbolsF items rest) := by
  cases items with
  | nil => exact absurd rfl hne
  | cons => rfl

theorem symbolsM_cons (key : Option String) (j : Json) {members : Members} (hne : members ≠ [])
    (rest : List Symbol) : symbolsM ((key, j) :: members) rest =
      .text key :: .colon :: symbolsT j (.comma :: symbolsM members rest) := by
  cases members with
  | nil => exact absurd rfl hne
  | cons => rfl

theorem symbolsF_ne {items : List Json} (hne : items ≠ []) (rest : List Symbol) :
    ∃ s ss, symbolsF items rest = s :: ss ∧ s ≠ .closeArray := by
  match items, hne with
  | [j], _ => exact symbolsT_ne j rest
  | j :: k :: items, _ => exact symbolsT_ne j (.comma :: symbolsF (k :: items) rest)

theorem symbolsM_ne {members : Members} (hne : members ≠ []) (rest : List Symbol) :
    ∃ key ss, symbolsM members rest = .text key :: ss := by
  match members, hne with
  | [(key, j)], _ => exact ⟨_, _, rfl⟩
  | (key, j) :: m :: members, _ => exact ⟨_, _, rfl⟩

mutual

/-- The symbols of a value are read as that value, inside of whatever is open. -/
theorem foldlM_symbolsT (j : Json) (outer : List Frame) (rest : List Symbol) :
    (symbolsT j rest).foldlM step? (.needValue outer) = rest.foldlM step? (deliver j outer) := by
  cases j with
  | null | bool | number | text => exact foldlM_cons rfl rest
  | array items =>
      rw [symbolsT, foldlM_cons rfl]
      by_cases hitems : items = []
      · rw [hitems, symbolsF]
        exact foldlM_cons rfl rest
      · have hread := foldlM_symbolsF items hitems [] outer rest
        obtain ⟨s, ss, hsymbols, hs⟩ := symbolsF_ne hitems (.closeArray :: rest)
        rw [hsymbols, List.foldlM_cons] at hread ⊢
        rw [step?_arrayStart hs]
        exact hread
  | object members =>
      rw [symbolsT, foldlM_cons rfl]
      by_cases hmembers : members = []
      · rw [hmembers, symbolsM]
        exact foldlM_cons rfl rest
      · have hread := foldlM_symbolsM members hmembers [] outer rest
        obtain ⟨key, ss, hsymbols⟩ := symbolsM_ne hmembers (.closeObject :: rest)
        rw [hsymbols] at hread ⊢
        exact hread

theorem foldlM_symbolsF (items : List Json) (hne : items ≠ []) (done : List Json)
    (outer : List Frame) (rest : List Symbol) :
    (symbolsF items (.closeArray :: rest)).foldlM step? (.needValue (.array done :: outer)) =
      rest.foldlM step? (deliver (.array (done.reverse ++ items)) outer) := by
  match items, hne with
  | [j], _ => rw [symbolsF, foldlM_symbolsT, foldlM_cons rfl, List.reverse_cons]
  | j :: k :: items, _ =>
      have hmore : k :: items ≠ [] := nofun
      rw [symbolsF_cons j hmore, foldlM_symbolsT, foldlM_cons rfl,
        foldlM_symbolsF (k :: items) hmore, List.reverse_cons, List.append_assoc,
        List.singleton_append]

theorem foldlM_symbolsM (members : Members) (hne : members ≠ []) (done : Members)
    (outer : List Frame) (rest : List Symbol) :
    (symbolsM members (.closeObject :: rest)).foldlM step? (.needKey done outer) =
      rest.foldlM step? (deliver (.object (done.reverse ++ members)) outer) := by
  match members, hne with
  | [(key, j)], _ =>
      rw [symbolsM, foldlM_cons rfl, foldlM_cons rfl, foldlM_symbolsT, foldlM_cons rfl,
        List.reverse_cons]
  | (key, j) :: m :: members, _ =>
      have hmore : m :: members ≠ [] := nofun
      rw [symbolsM_cons key j hmore, foldlM_cons rfl, foldlM_cons rfl, foldlM_symbolsT,
        foldlM_cons rfl, foldlM_symbolsM (m :: members) hmore, List.reverse_cons, List.append_assoc,
        List.singleton_append]

end

/-- The symbols of a value are read as that value. -/
theorem ofSymbols?_symbols (j : Json) : ofSymbols? j.symbols = some j := by
  unfold ofSymbols? symbols
  rw [foldlM_symbolsT]
  rfl

/-- **Every text of a value is read as that value.** -/
theorem read?_of_isTextOf {text : String} {j : Json} (h : IsTextOf text j) :
    read? text = some j := by
  rw [read?, symbols?, Written.symbolsTo h (separate_symbols j), List.reverse_nil, List.nil_append,
    Option.bind_some, ofSymbols?_symbols]

end Json
end Sexpr
