import Mathlib
import Sexpr.Render
import Sexpr.Proofs.Json.Layout
import Sexpr.Proofs.Json.Number

/-!
# Forms are read back from JSON

Forms are read back from their JSON text, all of them alike, unless a number is not
finite or too many arrays and objects are open at a time (`ofJsonText?_render`).
-/

namespace Sexpr
namespace Form

/-! ## Depth -/

mutual

/-- How many arrays and objects are open at the deepest place of a form in JSON. -/
def jsonDepthT : Form → Nat
  | .number _ | .text _ | .atom _ => 1
  | .list items => 2 + jsonDepthF items

def jsonDepthF : List Form → Nat
  | [] => 0
  | f :: fs => max (jsonDepthT f) (jsonDepthF fs)

end

/-- All numbers are finite, and no more than `room` arrays and objects are open. -/
def FitsJsonT (room : Nat) (f : Form) : Prop :=
  (∀ v ∈ numbersT f, v.isFinite = true) ∧ jsonDepthT f ≤ room

def FitsJsonF (room : Nat) (fs : List Form) : Prop :=
  (∀ v ∈ numbersF fs, v.isFinite = true) ∧ jsonDepthF fs ≤ room

theorem fitsJsonT_number {room : Nat} {value : Binary64} :
    FitsJsonT room (.number value) ↔ value.isFinite = true ∧ 1 ≤ room := by
  simp [FitsJsonT, numbersT, jsonDepthT]

theorem fitsJsonT_list {room : Nat} {items : List Form} :
    FitsJsonT (room + 2) (.list items) ↔ FitsJsonF room items := by
  simp [FitsJsonT, FitsJsonF, numbersT, jsonDepthT, Nat.add_comm room]

theorem fitsJsonF_cons {room : Nat} {f : Form} {fs : List Form} :
    FitsJsonF room (f :: fs) ↔ FitsJsonT room f ∧ FitsJsonF room fs := by
  simp only [FitsJsonF, FitsJsonT, numbersF, jsonDepthF, List.forall_mem_append, max_le_iff]
  tauto

/-! ## What is written is JSON -/

theorem isJson_of_mem_number {value : Binary64} {rest : List Json.Symbol} {n : Numeral}
    (h : .number n ∈ Json.symbolsT value.toJson rest) : n.IsJson ∨ .number n ∈ rest := by
  rcases value.toJson_cases with ⟨-, m, hm, hvalue⟩ | ⟨-, hvalue⟩
  · rw [hvalue, Json.symbolsT, List.mem_cons, Json.Symbol.number.injEq] at h
    rcases h with rfl | h
    · exact Or.inl hm
    · exact Or.inr h
  · right
    simpa [hvalue, Json.symbolsT] using h

mutual

/-- The numbers among the symbols of a form are numbers of JSON. -/
theorem isJson_of_mem_symbolsT (f : Form) {rest : List Json.Symbol} {n : Numeral}
    (h : .number n ∈ Json.symbolsT f.toJsonT rest) : n.IsJson ∨ .number n ∈ rest := by
  cases f with
  | text | atom =>
      right
      simpa [toJsonT, Json.record, Json.symbolsT, Json.symbolsM, Json.string] using h
  | number value =>
      simp only [toJsonT, Json.record, List.map_cons, List.map_nil, Json.symbolsT, Json.symbolsM,
        List.mem_cons, reduceCtorEq, false_or] at h
      simpa using isJson_of_mem_number h
  | list items =>
      simp only [toJsonT, Json.record, List.map_cons, List.map_nil, Json.symbolsT, Json.symbolsM,
        List.mem_cons, reduceCtorEq, false_or] at h
      simpa using isJson_of_mem_symbolsF items h

theorem isJson_of_mem_symbolsF (fs : List Form) {rest : List Json.Symbol} {n : Numeral}
    (h : .number n ∈ Json.symbolsF (toJsonF fs) rest) : n.IsJson ∨ .number n ∈ rest := by
  match fs with
  | [] => exact Or.inr h
  | [f] => exact isJson_of_mem_symbolsT f h
  | f :: g :: fs =>
      rcases isJson_of_mem_symbolsT f h with hn | h
      · exact Or.inl hn
      · simp only [List.mem_cons, reduceCtorEq, false_or] at h
        exact isJson_of_mem_symbolsF (g :: fs) h

end

/-! ## What is written is read -/

theorem ofJsonT?_number (room : Nat) (value : Binary64) :
    ofJsonT? (room + 1) (toJsonT (.number value)) = value.readBack?.map .number := by
  unfold Binary64.readBack?
  cases h : value.toJson <;> simp [toJsonT, Json.record, ofJsonT?, h]

theorem ofJsonT?_list (room : Nat) (items : List Form) :
    ofJsonT? (room + 2) (toJsonT (.list items)) = (ofJsonF? room (toJsonF items)).map .list := by
  simp [toJsonT, Json.record, ofJsonT?]

/-- Every form opens an object. -/
theorem ofJsonT?_zero (f : Form) : ofJsonT? 0 f.toJsonT = none := by
  cases f <;> simp [toJsonT, Json.record, ofJsonT?]

mutual

/-- A form is read back if it fits, and no other form is read in its place. -/
theorem ofJsonT?_toJsonT (f : Form) (h : ∀ v ∈ numbersT f, v.KeptByJson) {room : Nat} {g : Form} :
    ofJsonT? room f.toJsonT = some g ↔ g = f ∧ FitsJsonT room f := by
  cases room with
  | zero =>
      have hdeep : ¬ FitsJsonT 0 f := by
        rintro ⟨-, hdepth⟩
        cases f <;> simp [jsonDepthT] at hdepth
      simp [ofJsonT?_zero, hdeep]
  | succ room =>
      cases f with
      | number value =>
          have hvalue := h value List.mem_cons_self
          rw [ofJsonT?_number, fitsJsonT_number, Option.map_eq_some_iff]
          constructor
          · rintro ⟨result, hresult, rfl⟩
            obtain ⟨rfl, hfinite⟩ := (Binary64.readBack?_eq_some_iff hvalue).1 hresult
            exact ⟨rfl, hfinite, Nat.succ_pos room⟩
          · rintro ⟨rfl, hfinite, -⟩
            exact ⟨value, hvalue hfinite, rfl⟩
      | text content | atom content =>
          simp [toJsonT, Json.record, Json.string, ofJsonT?, FitsJsonT, numbersT, jsonDepthT,
            @eq_comm _ g]
      | list items =>
          cases room with
          | zero =>
              have hdeep : ¬ FitsJsonT 1 (.list items) := by
                rintro ⟨-, hdepth⟩
                simp [jsonDepthT] at hdepth
                omega
              simp [toJsonT, Json.record, ofJsonT?, hdeep]
          | succ room =>
              rw [ofJsonT?_list, fitsJsonT_list, Option.map_eq_some_iff]
              constructor
              · rintro ⟨gs, hgs, rfl⟩
                obtain ⟨rfl, hfits⟩ := (ofJsonF?_toJsonF items h).1 hgs
                exact ⟨rfl, hfits⟩
              · rintro ⟨rfl, hfits⟩
                exact ⟨items, (ofJsonF?_toJsonF items h).2 ⟨rfl, hfits⟩, rfl⟩

theorem ofJsonF?_toJsonF (fs : List Form) (h : ∀ v ∈ numbersF fs, v.KeptByJson) {room : Nat}
    {gs : List Form} : ofJsonF? room (toJsonF fs) = some gs ↔ gs = fs ∧ FitsJsonF room fs := by
  cases fs with
  | nil =>
      have hnothing : FitsJsonF room [] := ⟨List.forall_mem_nil _, Nat.zero_le _⟩
      rw [toJsonF, ofJsonF?, Option.some.injEq, eq_comm]
      exact (and_iff_left hnothing).symm
  | cons f fs =>
      obtain ⟨hf, hfs⟩ := List.forall_mem_append.1 h
      rw [fitsJsonF_cons, toJsonF, ofJsonF?]
      constructor
      · intro hread
        split at hread
        · next f' fs' hf' hfs' =>
          obtain ⟨rfl, hfits⟩ := (ofJsonT?_toJsonT f hf).1 hf'
          obtain ⟨rfl, hmore⟩ := (ofJsonF?_toJsonF fs hfs).1 hfs'
          exact ⟨(Option.some.inj hread).symm, hfits, hmore⟩
        · cases hread
      · rintro ⟨rfl, hfits, hmore⟩
        rw [(ofJsonT?_toJsonT f hf).2 ⟨rfl, hfits⟩, (ofJsonF?_toJsonF fs hfs).2 ⟨rfl, hmore⟩]

end

/-- The JSON text of forms is read as the JSON value of the forms. -/
theorem read?_prettyJson (fs : List Form) :
    Json.read? (prettyJson fs) = some (.array (toJsonF fs)) := by
  apply Json.read?_pretty
  intro n hn
  have hmem : .number n ∈ Json.symbolsF (toJsonF fs) [.closeArray] := by
    simpa [Json.symbols, Json.symbolsT] using hn
  rcases isJson_of_mem_symbolsF fs hmem with h | h
  · exact h
  · simp at h

/-- **Forms can be read back from JSON.** They are always written; and if each of their
numbers is kept, they are read back just when all numbers are finite and no more than 127
arrays and objects are open at a time, and then as the forms that they are. -/
theorem ofJsonText?_render (c : Config) (fs : List Form) :
    ∃ text, render { c with target := .json } fs = .ok text ∧
      ((∀ v ∈ numbersF fs, v.KeptByJson) →
        ((∃ gs, ofJsonText? text = some gs) ↔
          (∀ v ∈ numbersF fs, v.isFinite = true) ∧ 1 + jsonDepthF fs ≤ 127) ∧
        ∀ gs, ofJsonText? text = some gs → gs = fs) := by
  refine ⟨prettyJson fs, rfl, ?_⟩
  intro hkept
  have hread : ∀ gs, ofJsonText? (prettyJson fs) = some gs ↔ gs = fs ∧ FitsJsonF 126 fs := by
    intro gs
    rw [ofJsonText?, read?_prettyJson]
    exact ofJsonF?_toJsonF fs hkept
  have hfits : FitsJsonF 126 fs ↔
      (∀ v ∈ numbersF fs, v.isFinite = true) ∧ 1 + jsonDepthF fs ≤ 127 :=
    and_congr_right fun _ => by omega
  constructor
  · rw [← hfits]
    constructor
    · rintro ⟨gs, hgs⟩
      exact ((hread gs).1 hgs).2
    · intro h
      exact ⟨fs, (hread fs).2 ⟨rfl, h⟩⟩
  · intro gs hgs
    exact ((hread gs).1 hgs).1

/-- A list in a list, with a text of a quote, a backslash, a control character and a letter
beyond ASCII, and the number -1.5. -/
def sampleData : List Form :=
  [.list [.list [.atom "a", .text "\"\\\x01é"],
    .number (.finite true ⟨3 * Nat.pow 2 51, 1022, by decide, by decide, by decide⟩)]]

/-- At the deepest place five arrays and objects are open in the outer array, and the
sample is read back. -/
theorem ofJsonText?_sampleData :
    (∀ v ∈ numbersF sampleData, v.KeptByJson) ∧ jsonDepthF sampleData = 5 ∧
      ofJsonText? (prettyJson sampleData) = some sampleData := by
  have hnumbers : ∀ v ∈ numbersF sampleData, v.KeptByJson := by
    intro v hv
    rw [List.mem_singleton.1 hv]
    intro _
    decide +kernel
  obtain ⟨text, htext, hread⟩ := ofJsonText?_render {} sampleData
  obtain ⟨gs, hgs⟩ := (hread hnumbers).1.2 ⟨by decide, by decide⟩
  obtain rfl : prettyJson sampleData = text := Except.ok.inj htext
  refine ⟨hnumbers, by decide, ?_⟩
  rw [hgs, (hread hnumbers).2 gs hgs]

end Form
end Sexpr
