import Mathlib
import Sexpr.Fault
import Sexpr.Proofs.Numeral

/-!
# The places that a message names

`Position.named` reads the positions out of any text. Read from the message of a
fault, they are the positions of the fault, in the same order
(`ScanFault.named_message`, `BuildFault.named_message`).
-/

namespace Sexpr
namespace Position

/-! ## Reading places back -/

/-- Takes a number off a text. -/
def number? (cs : List Char) : Option (Nat × List Char) :=
  if cs.takeWhile Char.isDigit = [] then none
  else some (Nat.ofDigitChars 10 (cs.takeWhile Char.isDigit) 0, cs.dropWhile Char.isDigit)

/-- Reads the written form of a position that stands at the beginning of a text. -/
def ofPrefix? (cs : List Char) : Option Position := do
  let (offset, cs) ← number? cs
  let (line, cs) ← number? (← " (line ".toList.isPrefixOf? cs)
  let (column, cs) ← number? (← ", column ".toList.isPrefixOf? cs)
  let _ ← ")".toList.isPrefixOf? cs
  return ⟨offset, line, column⟩

/-- The positions that a text names; a blank stands in front of each. -/
def named : List Char → List Position
  | [] => []
  | c :: cs => (if c = ' ' then (ofPrefix? cs).toList else []) ++ named cs

theorem number?_toDigits (n : Nat) {rest : List Char} (h : EndsDigits rest) :
    number? (Nat.toDigits 10 n ++ rest) = some (n, rest) := by
  have hdigits := allDigits_toDigits n
  unfold number?
  rw [takeWhile_digits hdigits h, dropWhile_digits hdigits h, if_neg Nat.toDigits_ne_nil,
    Nat.ofDigitChars_ten_toDigits]

theorem number?_of_endsDigits {cs : List Char} (h : EndsDigits cs) : number? cs = none := by
  have hnone := takeWhile_digits allDigits_nil h
  rw [List.nil_append] at hnone
  rw [number?, hnone, if_pos rfl]

theorem isPrefixOf?_append (xs ys : List Char) : xs.isPrefixOf? (xs ++ ys) = some ys := by
  induction xs with
  | nil => rfl
  | cons x xs ih => simp [List.isPrefixOf?, ih]

theorem toList_text (p : Position) : p.text.toList = Nat.toDigits 10 p.offset ++
    (" (line ".toList ++ (Nat.toDigits 10 p.line ++ (", column ".toList ++
      (Nat.toDigits 10 p.column ++ ")".toList)))) := by
  simp [text, toString, Nat.repr]

theorem ofPrefix?_text (p : Position) (rest : List Char) :
    ofPrefix? (p.text.toList ++ rest) = some p := by
  have hline : ∀ cs, EndsDigits (" (line ".toList ++ cs) := by
    rintro cs c ⟨⟩
    rfl
  have hcolumn : ∀ cs, EndsDigits (", column ".toList ++ cs) := by
    rintro cs c ⟨⟩
    rfl
  have hend : ∀ cs, EndsDigits (")".toList ++ cs) := by
    rintro cs c ⟨⟩
    rfl
  rw [toList_text]
  simp only [ofPrefix?, List.append_assoc, number?_toDigits _ (hline _),
    number?_toDigits _ (hcolumn _), number?_toDigits _ (hend _), isPrefixOf?_append,
    Option.bind_eq_bind, Option.bind_some, Option.pure_def]

/-! ## Texts that name nothing -/

/-- Whether a text names no position, whatever stands behind it. -/
def quiet : List Char → Bool
  | [] => true
  | [c] => c ≠ ' '
  | c :: d :: cs => (c ≠ ' ' || !d.isDigit) && quiet (d :: cs)

theorem named_cons_of_ne {c : Char} (h : c ≠ ' ') (cs : List Char) :
    named (c :: cs) = named cs := by
  rw [named, if_neg h, List.nil_append]

theorem named_blank {cs : List Char} (h : ofPrefix? cs = none) : named (' ' :: cs) = named cs := by
  rw [named, h]
  rfl

theorem named_append {lead : List Char} (h : quiet lead = true) (rest : List Char) :
    named (lead ++ rest) = named rest := by
  induction lead with
  | nil => rfl
  | cons c lead ih =>
      cases lead with
      | nil => exact named_cons_of_ne (by simpa [quiet] using h) rest
      | cons d lead =>
          rw [quiet, Bool.and_eq_true, Bool.or_eq_true] at h
          rw [← ih h.2]
          by_cases hc : c = ' '
          · have hd : d.isDigit = false := by simpa [hc] using h.1
            have hnumber : number? (d :: (lead ++ rest)) = none := by
              apply number?_of_endsDigits
              rintro e ⟨⟩
              exact hd
            subst hc
            apply named_blank
            show ofPrefix? (d :: (lead ++ rest)) = none
            rw [ofPrefix?, hnumber]
            rfl
          · exact named_cons_of_ne hc _

theorem quiet_of_notMem {cs : List Char} (h : ' ' ∉ cs) : quiet cs = true := by
  induction cs with
  | nil => rfl
  | cons c cs ih =>
      rw [List.mem_cons, not_or] at h
      cases cs with
      | nil => simpa [quiet] using Ne.symm h.1
      | cons d cs => simp [quiet, ih h.2, Ne.symm h.1]

theorem quiet_toDigits (n : Nat) : quiet (Nat.toDigits 10 n) = true := by
  apply quiet_of_notMem
  intro hmem
  cases allDigits_toDigits n _ hmem

theorem quiet_append {xs ys : List Char} (hx : quiet xs = true) (hy : quiet ys = true) :
    quiet (xs ++ ys) = true := by
  induction xs with
  | nil => exact hy
  | cons c xs ih =>
      cases xs with
      | nil =>
          have hc : c ≠ ' ' := by simpa [quiet] using hx
          cases ys with
          | nil => exact hx
          | cons d ys => simp [quiet, hc, hy]
      | cons d xs =>
          rw [quiet, Bool.and_eq_true] at hx
          exact Bool.and_eq_true_iff.2 ⟨hx.1, ih hx.2⟩

/-! ## Texts that name positions -/

/-- A number that is not the offset of a position names nothing. -/
theorem named_number (n : Nat) {c : Char} (hc : c ≠ ' ') (hdigit : c.isDigit = false)
    (rest : List Char) :
    named (' ' :: (Nat.toDigits 10 n ++ c :: rest)) = named (c :: rest) := by
  have hends : EndsDigits (c :: rest) := by
    rintro d ⟨⟩
    exact hdigit
  rw [named_blank, named_append (quiet_toDigits n)]
  rw [ofPrefix?, number?_toDigits n hends]
  simp [List.isPrefixOf?, Ne.symm hc]

theorem named_text (p : Position) (rest : List Char) :
    named (' ' :: (p.text.toList ++ rest)) = p :: named rest := by
  have hoffset : quiet (Nat.toDigits 10 p.offset ++ " (line".toList) = true :=
    quiet_append (quiet_toDigits _) rfl
  have hsplit : p.text.toList ++ rest = (Nat.toDigits 10 p.offset ++ " (line".toList) ++
      ' ' :: (Nat.toDigits 10 p.line ++ ',' :: (" column".toList ++
        ' ' :: (Nat.toDigits 10 p.column ++ ')' :: rest))) := by
    simp [toList_text]
  rw [named, if_pos rfl, ofPrefix?_text, hsplit, named_append hoffset,
    named_number _ (by decide) (by decide), named_cons_of_ne (by decide),
    named_append (by rfl), named_number _ (by decide) (by decide), named_cons_of_ne (by decide)]
  rfl

theorem named_listText (ps : List Position) (hne : ps ≠ []) :
    named (' ' :: (listText ps).toList) = ps := by
  induction ps with
  | nil => exact absurd rfl hne
  | cons p ps ih =>
      cases ps with
      | nil =>
          have htext : (listText [p]).toList = p.text.toList ++ [] := by simp [listText]
          rw [htext, named_text]
          rfl
      | cons q ps =>
          have htext : (listText (p :: q :: ps)).toList =
              p.text.toList ++ ',' :: ' ' :: (listText (q :: ps)).toList := by
            simp [listText, String.intercalate_cons_cons]
          rw [htext, named_text, named_cons_of_ne (by decide), ih (List.cons_ne_nil _ _)]

/-- The beginning of a message: it names nothing and ends in a blank. -/
def leads (lead : String) : Bool :=
  lead.toList.getLast? = some ' ' && quiet lead.toList.dropLast

theorem leads_iff {lead : String} :
    leads lead = true ↔ ∃ cs, lead.toList = cs ++ [' '] ∧ quiet cs = true := by
  rw [leads, Bool.and_eq_true, decide_eq_true_eq]
  constructor
  · rintro ⟨hlast, hquiet⟩
    exact ⟨_, (List.dropLast_append_getLast? _ hlast).symm, hquiet⟩
  · rintro ⟨cs, hlead, hquiet⟩
    simp [hlead, hquiet]

theorem leads_append {front lead : String} (hfront : quiet front.toList = true)
    (h : leads lead = true) : leads (front ++ lead) = true := by
  obtain ⟨cs, hlead, hquiet⟩ := leads_iff.1 h
  refine leads_iff.2 ⟨front.toList ++ cs, ?_, quiet_append hfront hquiet⟩
  rw [String.toList_append, hlead, List.append_assoc]

theorem named_of_leads {lead : String} (h : leads lead = true) (text : String) :
    named (lead ++ text).toList = named (' ' :: text.toList) := by
  obtain ⟨cs, hlead, hquiet⟩ := leads_iff.1 h
  rw [String.toList_append, hlead, List.append_assoc, named_append hquiet]
  rfl

/-- A message that ends in a position. -/
theorem named_single (lead : String) (h : leads lead = true) (p : Position) :
    named (lead ++ p.text).toList = [p] := by
  have htext := named_text p []
  rw [List.append_nil] at htext
  rw [named_of_leads h, htext]
  rfl

/-- A message that ends in several positions. -/
theorem named_several (lead : String) (h : leads lead = true) (ps : List Position) :
    named (lead ++ listText ps).toList = ps := by
  rw [named_of_leads h]
  cases ps with
  | nil => rfl
  | cons p ps => exact named_listText _ (List.cons_ne_nil _ _)

end Position

open Position

/-- A message of the scanner names the positions of its fault, in the same order. -/
theorem ScanFault.named_message (fault : ScanFault) :
    named fault.message.toList = fault.positions := by
  cases fault with
  | unexpectedClose p => exact named_single "unexpected ) at position " rfl p
  | unterminatedText p =>
      exact named_single "expected \" to end string starting at position " rfl p
  | misplacedPoint p =>
      exact named_single "invalid decimal point in number at position " rfl p
  | unclosed ps => exact named_several "unclosed brackets starting at positions " rfl ps

/-- A message of the builder names the positions of its fault, in the same order, if the
text of a bad number has no blank in it. -/
theorem BuildFault.named_message (fault : BuildFault)
    (h : ∀ text p, fault = .badNumber text p → ' ' ∉ text.toList) :
    named fault.message.toList = fault.positions := by
  cases fault with
  | unmatchedClose p =>
      have hmessage : message (.unmatchedClose p) =
          "unbalanced brackets: ) at position " ++ (p.text ++ " has no matching (") := rfl
      have hquiet : quiet " has no matching (".toList = true := rfl
      rw [hmessage, named_of_leads rfl, String.toList_append, named_text,
        ← List.append_nil " has no matching (".toList, named_append hquiet]
      rfl
  | badNumber text p =>
      have hmessage : message (.badNumber text p) =
          "invalid number \"" ++ text ++ "\" at position " ++ p.text := rfl
      have hquiet : quiet ("invalid number \"" ++ text).toList = true := by
        rw [String.toList_append]
        exact quiet_append rfl (quiet_of_notMem (h text p rfl))
      rw [hmessage]
      exact named_single _ (leads_append hquiet rfl) p
  | unclosed ps => exact named_several "unclosed brackets at positions " rfl ps

end Sexpr
