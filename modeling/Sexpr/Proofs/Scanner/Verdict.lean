import Mathlib
import Sexpr.Proofs.Scanner.Row

/-!
# What the first answer says of a source

A source is complete, or a few characters behind it would make it complete, or no
text behind it can mend it. The first answer of a scanner tells which
(`existsUnique_verdict`), and it tells that a source cannot be mended as soon as
this is so (`exists_seen`).
-/

namespace Sexpr

/-! ## Faults that no further text mends -/

/-- The place of a fault that stays whatever is written behind it. -/
def ScanFault.lasting? : ScanFault → Option Position
  | .unexpectedClose p | .misplacedPoint p => some p
  | .unterminatedText _ | .unclosed _ => none

/-- Such a fault is found in the characters up to its place. -/
theorem Stops.seen {before rest : List Char} {ps : List Position} {fault : ScanFault}
    {p : Position} (h : Stops before ps rest fault) (hp : fault.lasting? = some p) :
    ∃ seen tail, rest = seen ++ tail ∧ seen ≠ [] ∧ (before ++ seen).length = p.offset + 1 ∧
      ∀ tail', Stops before ps (seen ++ tail') fault := by
  cases h with
  | @stray rest hclosed =>
      cases hp
      exact ⟨[')'], rest, rfl, List.cons_ne_nil _ _, by simp, fun _ => .stray hclosed⟩
  | @point digits rest hdigits =>
      cases hp
      refine ⟨digits ++ ['.'], rest, by simp, by simp, by simp [Nat.add_assoc], ?_⟩
      intro tail'
      rw [List.append_assoc, List.singleton_append]
      exact .point hdigits
  | quote | atEnd => cases hp

/-- **Early faults.** What was read up to the place of such a fault decides about every
source that begins with it. -/
theorem exists_seen {source : String} {fault : ScanFault} {p : Position}
    (h : tokens source = .error fault) (hp : fault.lasting? = some p) :
    ∃ seen, seen.length = p.offset + 1 ∧ seen <+: source.toList ∧
      ∀ source' : String, seen <+: source'.toList → tokens source' = .error fault := by
  obtain ⟨mid, rest, ts, ps, hsource, hrow, hopens, hstops⟩ := tokens_eq_error_iff.1 h
  obtain ⟨seen, tail, rfl, hne, hlength, hstays⟩ := hstops.seen hp
  refine ⟨mid ++ seen, hlength, ⟨tail, by rw [hsource, List.append_assoc]⟩, ?_⟩
  rintro source' ⟨tail', hsource'⟩
  have hsame : (seen ++ tail').head? = (seen ++ tail).head? := by
    obtain ⟨c, cs, rfl⟩ := List.exists_cons_of_ne_nil hne
    rfl
  rw [List.append_assoc] at hsource'
  exact tokens_eq_error_iff.2
    ⟨mid, seen ++ tail', ts, ps, hsource'.symm, hrow.behind (Or.inl hsame), hopens, hstays tail'⟩

/-! ## Closing what is open -/

/-- So many right brackets. -/
def closers (n : Nat) : String := String.ofList (List.replicate n ')')

@[simp] theorem toList_closers (n : Nat) : (closers n).toList = List.replicate n ')' :=
  String.toList_ofList

theorem endsName_replicate (n : Nat) : EndsName (List.replicate n ')') := by
  cases n with
  | zero => simp [EndsName]
  | succ n => simp [EndsName, List.replicate_succ, endsWord]

/-- One right bracket for each open one closes them all. -/
theorem exists_row_closers (ps : List Position) (before : List Char) :
    ∃ us, Row [] before (List.replicate ps.length ')') us ∧ Token.openedBy ps us = some [] := by
  induction ps generalizing before with
  | nil => exact ⟨[], .nil, rfl⟩
  | cons p ps ih =>
      let r : Token := ⟨.rightBracket, ")", .behind before⟩
      obtain ⟨us, hrow, hopens⟩ := ih (before ++ r.spelling)
      have hfirst : Row [] before (r.spelling ++ List.replicate ps.length ')') (r :: us) :=
        .token rfl rfl hrow
      have hspelling : r.spelling = [')'] := by simp [r, Token.spelling]
      rw [hspelling] at hfirst
      exact ⟨r :: us, hfirst, hopens⟩

/-- A row that leaves brackets open is complete with as many right brackets behind it. -/
theorem tokens_of_row_closers {source : String} {mid : List Char} {ts : List Token}
    {ps : List Position} (hsource : source.toList = mid ++ List.replicate ps.length ')')
    (hrow : Row (List.replicate ps.length ')') [] mid ts)
    (hopens : Token.openedBy [] ts = some ps) : ∃ us, tokens source = .ok us := by
  obtain ⟨us, hclosers, hclosed⟩ := exists_row_closers ps mid
  have hall : Row [] [] source.toList (ts ++ us) := by
    rw [hsource]
    exact Row.append (by rwa [List.append_nil]) hclosers
  refine ⟨ts ++ us, tokens_of_spelt hall.spelt ?_⟩
  rw [Token.openedBy_append, hopens]
  exact hclosed

/-- A text that is closed stands in a row. -/
theorem Row.closeText {rest before mid body : List Char} {ts : List Token}
    (h : Row ('"' :: body) before mid ts) (hbody : '"' ∉ body) :
    ∃ t : Token, t.kind = .text ∧ Row rest before (mid ++ ('"' :: body ++ ['"'])) (ts ++ [t]) := by
  let t : Token := ⟨.text, String.ofList body, .behind (before ++ mid)⟩
  have hspelling : t.spelling = '"' :: body ++ ['"'] := by simp [t, Token.spelling]
  have hfits : t.Fits ([] ++ rest) := by simpa [t, Token.Fits] using hbody
  have ht : Row rest (before ++ mid) (t.spelling ++ []) [t] := .token rfl hfits .nil
  rw [List.append_nil, hspelling] at ht
  exact ⟨t, rfl, .append (h.behind (Or.inl rfl)) ht⟩

/-! ## Left brackets in a source -/

/-- The character at the offset `i` belongs to the token. -/
def Token.Covers (t : Token) (i : Nat) : Prop :=
  t.position.offset ≤ i ∧ i < t.position.offset + t.spelling.length

/-- The character at the offset `i` belongs to a text or to a name. -/
def Token.WordAt (ts : List Token) (i : Nat) : Prop :=
  ∃ t ∈ ts, (t.kind = .text ∨ t.kind = .identifier) ∧ t.Covers i

/-- Inside the characters of a token, a left bracket that belongs to no word is the
token itself. -/
theorem Token.Fits.bracket_iff {t : Token} {rest : List Char} {i : Nat} (h : t.Fits rest)
    (hi : i < t.spelling.length) : (t.kind = .leftBracket ∧ i = 0) ↔
      t.spelling[i]? = some '(' ∧ ¬ (t.kind = .text ∨ t.kind = .identifier) := by
  obtain ⟨kind, text, place⟩ := t
  cases kind with
  | leftBracket =>
      cases h
      simp_all [spelling]
  | rightBracket =>
      cases h
      obtain rfl : i = 0 := by simpa [spelling] using hi
      simp [spelling]
  | text | identifier => simp
  | number =>
      simp only [reduceCtorEq, false_and, false_iff, not_and]
      intro hc
      exact absurd (List.mem_of_getElem? hc) (h.1.notMem rfl (by decide))

namespace Row

variable {rest before mid : List Char} {ts : List Token}

theorem length_le_offset (h : Row rest before mid ts) :
    ∀ t ∈ ts, before.length ≤ t.position.offset := by
  induction h with
  | nil => exact List.forall_mem_nil _
  | blank _ _ ih =>
      intro t ht
      have := ih t ht
      rw [List.length_append] at this
      omega
  | token hplace _ _ ih =>
      rw [List.forall_mem_cons]
      refine ⟨by rw [hplace, Position.offset_behind], ?_⟩
      intro t ht
      have := ih t ht
      rw [List.length_append] at this
      omega

/-- The left-bracket tokens of a row are the left brackets outside its texts and names. -/
theorem leftBracket_iff (h : Row rest before mid ts) (i : Nat) :
    (∃ t ∈ ts, t.kind = .leftBracket ∧ t.position.offset = before.length + i) ↔
      mid[i]? = some '(' ∧ ¬ Token.WordAt ts (before.length + i) := by
  induction h generalizing i with
  | nil => simp
  | @blank before mid c ts hc hrow ih =>
      cases i with
      | zero =>
          have hnot : c ≠ '(' := by
            rintro rfl
            cases hc
          constructor
          · rintro ⟨t, ht, -, hoffset⟩
            have := hrow.length_le_offset t ht
            rw [List.length_append, List.length_singleton] at this
            omega
          · rintro ⟨hc', -⟩
            exact absurd (Option.some.inj hc') hnot
      | succ i =>
          have := ih i
          rw [List.length_append, List.length_singleton, Nat.add_assoc, Nat.add_comm 1 i] at this
          exact this
  | @token before mid t ts hplace hfits hrow ih =>
      have hoffset : t.position.offset = before.length := by rw [hplace, Position.offset_behind]
      have hlater : ∀ u ∈ ts, before.length + t.spelling.length ≤ u.position.offset := by
        intro u hu
        have := hrow.length_le_offset u hu
        rwa [List.length_append] at this
      by_cases hi : i < t.spelling.length
      · -- no later token reaches back to the character
        have hword : Token.WordAt (t :: ts) (before.length + i) ↔
            t.kind = .text ∨ t.kind = .identifier := by
          rw [Token.WordAt, List.exists_mem_cons_iff, or_iff_left]
          · exact and_iff_left ⟨by omega, by omega⟩
          · rintro ⟨u, hu, -, hle, -⟩
            have := hlater u hu
            omega
        rw [hword, List.getElem?_append_left hi, ← hfits.bracket_iff hi,
          List.exists_mem_cons_iff, or_iff_left, hoffset, Nat.left_eq_add]
        rintro ⟨u, hu, -, hplace'⟩
        have := hlater u hu
        omega
      · -- the first token ends before the character
        obtain ⟨j, rfl⟩ := Nat.exists_eq_add_of_le (Nat.not_lt.1 hi)
        have hne := List.length_pos_iff.2 hfits.spelling_ne_nil
        have hword : Token.WordAt (t :: ts) (before.length + (t.spelling.length + j)) ↔
            Token.WordAt ts (before.length + (t.spelling.length + j)) := by
          rw [Token.WordAt, List.exists_mem_cons_iff, or_iff_right]
          · rfl
          · rintro ⟨-, hle, hlt⟩
            omega
        have htail := ih j
        rw [List.length_append, Nat.add_assoc] at htail
        rw [hword, List.getElem?_append_right (Nat.le_add_right _ _), Nat.add_sub_cancel_left,
          ← htail, List.exists_mem_cons_iff, or_iff_right]
        rintro ⟨-, hplace'⟩
        omega

end Row

/-! ## The four verdicts -/

/-- What the first answer of a scanner can say of a source. -/
inductive Verdict where
  | complete
  /-- Only right brackets are missing. -/
  | openBrackets
  /-- A quote is missing, and perhaps right brackets behind it. -/
  | openText
  /-- Nothing that is written behind the source mends it. -/
  | broken
deriving DecidableEq, Repr

namespace Verdict

/-- What a verdict says of a source. -/
def Holds (source : String) : Verdict → Prop
  | .complete => ∃ ts, tokens source = .ok ts
  | .openBrackets => ∃ ts ps, tokens source = .error (.unclosed ps) ∧ ps ≠ [] ∧
      -- the tokens, whose left brackets are those outside texts and names
      Spelt [] source.toList ts ∧
      (∀ i, (∃ t ∈ ts, t.kind = .leftBracket ∧ t.position.offset = i) ↔
        source.toList[i]? = some '(' ∧ ¬ Token.WordAt ts i) ∧
      ps = Token.unclosed ts ∧
      ∃ us, tokens (source ++ closers ps.length) = .ok us
  | .openText => ∃ before body ts, source.toList = before ++ '"' :: body ∧ '"' ∉ body ∧
      -- the tokens in front of the quote
      Row ('"' :: body) [] before ts ∧
      tokens source = .error (.unterminatedText (.behind before)) ∧
      ∃ us, tokens (source ++ "\"" ++ closers (Token.unclosed ts).length) = .ok us
  | .broken => ∃ fault p, tokens source = .error fault ∧ fault.lasting? = some p ∧
      p.offset < source.length ∧
      (∀ more, tokens (source ++ more) = .error fault) ∧
      (∀ pre more, source = pre ++ more → p.offset + 1 ≤ pre.length →
        tokens pre = .error fault) ∧
      ∀ pre more fault', source = pre ++ more → pre.length < p.offset + 1 →
        tokens pre = .error fault' → fault'.lasting? = none

/-- The verdict that an answer can stand for. -/
def ofAnswer : Except ScanFault (List Token) → Verdict
  | .ok _ => .complete
  | .error (.unclosed _) => .openBrackets
  | .error (.unterminatedText _) => .openText
  | .error (.unexpectedClose _) | .error (.misplacedPoint _) => .broken

theorem Holds.eq {source : String} {v : Verdict} (h : v.Holds source) :
    v = ofAnswer (tokens source) := by
  cases v with
  | complete =>
      obtain ⟨ts, hanswer⟩ := h
      rw [hanswer, ofAnswer]
  | openBrackets =>
      obtain ⟨ts, ps, hanswer, -⟩ := h
      rw [hanswer, ofAnswer]
  | openText =>
      obtain ⟨before, body, ts, -, -, -, hanswer, -⟩ := h
      rw [hanswer, ofAnswer]
  | broken =>
      obtain ⟨fault, p, hanswer, hlasting, -⟩ := h
      rw [hanswer]
      cases fault with
      | unexpectedClose | misplacedPoint => rfl
      | unterminatedText | unclosed => cases hlasting

variable {source : String} {ts : List Token} {ps : List Position}

theorem openBrackets_holds (hrow : Row [] [] source.toList ts)
    (hopens : Token.openedBy [] ts = some ps) (hne : ps ≠ [])
    (hanswer : tokens source = .error (.unclosed ps.reverse)) : openBrackets.Holds source := by
  refine ⟨ts, ps.reverse, hanswer, by simpa using hne, hrow.spelt, ?_,
    (Token.unclosed_eq hopens).symm, ?_⟩
  · intro i
    simpa using hrow.leftBracket_iff i
  · rw [List.length_reverse]
    exact tokens_of_row_closers (by simp) (hrow.behind (Or.inr (endsName_replicate _))) hopens

theorem openText_holds {before body : List Char} (hsource : source.toList = before ++ '"' :: body)
    (hbody : '"' ∉ body) (hrow : Row ('"' :: body) [] before ts)
    (hopens : Token.openedBy [] ts = some ps)
    (hanswer : tokens source = .error (.unterminatedText (.behind before))) :
    openText.Holds source := by
  obtain ⟨t, ht, hclosed⟩ : ∃ t : Token, t.kind = .text ∧ Row (List.replicate ps.length ')') []
      (before ++ ('"' :: body ++ ['"'])) (ts ++ [t]) := hrow.closeText hbody
  refine ⟨before, body, ts, hsource, hbody, hrow, hanswer, ?_⟩
  rw [Token.unclosed_eq hopens, List.length_reverse]
  refine tokens_of_row_closers ?_ hclosed ?_
  · simp [hsource]
  · rw [Token.openedBy_append, hopens]
    simp [Token.opened, ht]

theorem broken_holds {fault : ScanFault} {p : Position} (hanswer : tokens source = .error fault)
    (hp : fault.lasting? = some p) : broken.Holds source := by
  obtain ⟨seen, hlength, hseen, hstays⟩ := exists_seen hanswer hp
  refine ⟨fault, p, hanswer, hp, ?_, ?_, ?_, ?_⟩
  · have := hseen.length_le
    rw [String.length_toList] at this
    omega
  · intro more
    refine hstays _ (hseen.trans ?_)
    rw [String.toList_append]
    exact List.prefix_append _ _
  · rintro pre more rfl hle
    apply hstays
    rw [String.toList_append] at hseen
    refine List.prefix_of_prefix_length_le hseen (List.prefix_append _ _) ?_
    rw [hlength, String.length_toList]
    exact hle
  · rintro pre more fault' rfl hlt hpre
    cases hq : fault'.lasting? with
    | none => rfl
    | some q =>
        -- a lasting fault of the shorter text would be the fault of the source as well
        obtain ⟨seen', hlength', hseen', hstays'⟩ := exists_seen hpre hq
        have hle := hseen'.length_le
        have hsame := hstays' (pre ++ more) (hseen'.trans (by simp))
        rw [hanswer, Except.error.injEq] at hsame
        rw [hsame, hq, Option.some.injEq] at hp
        rw [String.length_toList, hlength', hp] at hle
        omega

end Verdict

/-- **The first answer says what a source lacks**, and a source that nothing can mend is
refused as early as possible. -/
theorem existsUnique_verdict (source : String) : ∃! v : Verdict, v.Holds source := by
  have hunique : ∀ v w : Verdict, v.Holds source → w.Holds source → w = v := by
    intro v w hv hw
    rw [hv.eq, hw.eq]
  cases hanswer : tokens source with
  | ok ts => exact ⟨.complete, ⟨ts, hanswer⟩, fun w hw => hunique _ w ⟨ts, hanswer⟩ hw⟩
  | error fault =>
      obtain ⟨mid, rest, ts, ps, hsource, hrow, hopens, hstops⟩ := tokens_eq_error_iff.1 hanswer
      have hsome : ∃ v : Verdict, v.Holds source := by
        cases hstops with
        | stray | point => exact ⟨.broken, Verdict.broken_holds hanswer rfl⟩
        | quote hbody => exact ⟨.openText, Verdict.openText_holds hsource hbody hrow hopens hanswer⟩
        | atEnd hne =>
            rw [List.append_nil] at hsource
            rw [← hsource] at hrow
            exact ⟨.openBrackets, Verdict.openBrackets_holds hrow hopens hne hanswer⟩
      obtain ⟨v, hv⟩ := hsome
      exact ⟨v, hv, fun w hw => hunique v w hv hw⟩

end Sexpr
