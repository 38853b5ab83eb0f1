import Mathlib
import Sexpr.Proofs.Html.Markup
import Sexpr.Proofs.Html.Shapes

/-!
# Markup mirrors the tree

Where no text holds an angle bracket, markup is cut into what the forms say: a start tag and
an end tag for each element, in the order in which the elements begin and end, each element
around its body, and between the tags the scalars and separators as they are
(`pieces?_of_render`).
-/

namespace Sexpr
namespace Html

/-! ## What the forms say -/

/-- The name of an element. -/
def tagName : Form → String
  | .list (tag :: _) => (scalar? tag).getD ""
  | _ => ""

def nonempty? (text : String) : Option String := if text.isEmpty then none else some text

/-- The attributes of an element, unless they are empty. -/
def attributeText? : Form → Option String
  | .list (_ :: part :: _) => (attributes part).toOption.bind nonempty?
  | _ => none

def startTag (f : Form) : Piece := .start (tagName f) (attributeText? f)

def stopTag (f : Form) : Piece := .stop (tagName f)

def chars (text : String) : List Piece := text.toList.map .char

mutual

/-- The pieces of a form: an element is its body between two tags, and a scalar is its
text. -/
def flowT (o : HtmlOptions) : Form → List Piece
  | .list (tag :: part :: body) =>
      startTag (.list (tag :: part :: body)) ::
        (chars o.bodySeparator).intercalate (flowF o body) ++
          [stopTag (.list (tag :: part :: body))]
  | .list items => [startTag (.list items), stopTag (.list items)]
  | .number value => chars value.text
  | .text content => chars content
  | .atom name => chars name

def flowF (o : HtmlOptions) : List Form → List (List Piece)
  | [] => []
  | f :: fs => flowT o f :: flowF o fs

end

/-- The pieces of a row of forms. -/
def flow (o : HtmlOptions) (fs : List Form) : List Piece :=
  (chars o.documentSeparator).intercalate (flowF o fs)

mutual

/-- The nodes of a form in the order in which they end: an element behind its body. -/
def endingsT : Form → List Form
  | .list (tag :: part :: body) => endingsF body ++ [.list (tag :: part :: body)]
  | f => [f]

def endingsF : List Form → List Form
  | [] => []
  | f :: fs => endingsT f ++ endingsF fs

end

def Piece.isStart : Piece → Bool
  | .start .. => true
  | _ => false

def Piece.isStop : Piece → Bool
  | .stop .. => true
  | _ => false

theorem flowF_eq_map (o : HtmlOptions) (fs : List Form) : flowF o fs = fs.map (flowT o) := by
  induction fs with
  | nil => rfl
  | cons f fs ih => rw [flowF, ih, List.map_cons]

theorem nodesF_eq_flatMap (fs : List Form) : nodesF fs = fs.flatMap nodesT := by
  induction fs with
  | nil => rfl
  | cons f fs ih => rw [nodesF, ih, List.flatMap_cons]

theorem endingsF_eq_flatMap (fs : List Form) : endingsF fs = fs.flatMap endingsT := by
  induction fs with
  | nil => rfl
  | cons f fs ih => rw [endingsF, ih, List.flatMap_cons]

/-! ## The tags of the pieces -/

/-- What is picked from pieces in a row, if nothing is from what stands between them. -/
theorem filter_intercalate {p : Piece → Bool} {between : List Piece}
    (hbetween : between.filter p = []) (rows : List (List Piece)) :
    (between.intercalate rows).filter p = rows.flatMap (List.filter p) := by
  induction rows with
  | nil => rfl
  | cons row rows ih =>
      cases rows with
      | nil => rw [List.intercalate_singleton, List.flatMap_singleton]
      | cons next rows =>
          rw [List.intercalate_cons_cons, List.filter_append, List.filter_append, hbetween, ih,
            List.append_nil]
          rfl

theorem filter_chars {p : Piece → Bool} (hp : ∀ c, p (.char c) = false) (text : String) :
    (chars text).filter p = [] := by
  simp [chars, hp]

/-- The tags of a row of forms, in an order that goes form by form. -/
theorem filter_row {p : Piece → Bool} (hp : ∀ c, p (.char c) = false) {o : HtmlOptions}
    {order : Form → List Form} {tag : Form → Piece} {fs : List Form}
    (h : ∀ f ∈ fs, (flowT o f).filter p = ((order f).filter Form.isList).map tag)
    (separator : String) :
    ((chars separator).intercalate (flowF o fs)).filter p =
      ((fs.flatMap order).filter Form.isList).map tag := by
  rw [filter_intercalate (filter_chars hp separator), flowF_eq_map, List.flatMap_map,
    List.filter_flatMap, List.map_flatMap]
  exact List.flatMap_congr h

/-- The elements of a form begin in the order of the document. -/
theorem filter_isStart (o : HtmlOptions) (f : Form) :
    (flowT o f).filter Piece.isStart = ((nodesT f).filter Form.isList).map startTag := by
  induction f using Form.itemsInduction with
  | number | text | atom => exact filter_chars (fun _ => rfl) _
  | list items ih =>
      match items with
      | [] => rfl
      | [_] => rfl
      | tag :: part :: body =>
          have hbody : ∀ f ∈ body, (flowT o f).filter Piece.isStart =
              ((nodesT f).filter Form.isList).map startTag := by
            intro f hf
            exact ih f (List.mem_cons_of_mem _ (List.mem_cons_of_mem _ hf))
          have hrow := filter_row (fun _ => rfl) hbody o.bodySeparator
          rw [flowT, nodesT, nodesF_eq_flatMap, List.filter_append,
            List.filter_cons_of_pos (by rfl), hrow]
          exact List.append_nil _

/-- The elements of a form end each behind its body. -/
theorem filter_isStop (o : HtmlOptions) (f : Form) :
    (flowT o f).filter Piece.isStop = ((endingsT f).filter Form.isList).map stopTag := by
  induction f using Form.itemsInduction with
  | number | text | atom => exact filter_chars (fun _ => rfl) _
  | list items ih =>
      match items with
      | [] => rfl
      | [_] => rfl
      | tag :: part :: body =>
          have hbody : ∀ f ∈ body, (flowT o f).filter Piece.isStop =
              ((endingsT f).filter Form.isList).map stopTag := by
            intro f hf
            exact ih f (List.mem_cons_of_mem _ (List.mem_cons_of_mem _ hf))
          have hrow := filter_row (fun _ => rfl) hbody o.bodySeparator
          rw [flowT, endingsT, endingsF_eq_flatMap, List.filter_append,
            List.filter_cons_of_neg (by exact Bool.false_ne_true), hrow, List.filter_append,
            List.map_append]
          rfl

/-- An element stands around its body. -/
theorem nested_row {o : HtmlOptions} {fs : List Form} (h : ∀ f ∈ fs, Nested (flowT o f))
    (separator : String) : Nested ((chars separator).intercalate (flowF o fs)) := by
  rw [flowF_eq_map]
  apply Nested.intercalate (.chars _)
  intro row hrow
  obtain ⟨f, hf, rfl⟩ := List.mem_map.1 hrow
  exact h f hf

theorem nested_flowT (o : HtmlOptions) (f : Form) : Nested (flowT o f) := by
  induction f using Form.itemsInduction with
  | number | text | atom => exact .chars _
  | list items ih =>
      match items with
      | [] => exact .element _ _ .nil .nil
      | [_] => exact .element _ _ .nil .nil
      | tag :: part :: body =>
          have hbody : ∀ f ∈ body, Nested (flowT o f) := by
            intro f hf
            exact ih f (List.mem_cons_of_mem _ (List.mem_cons_of_mem _ hf))
          rw [flowT]
          exact .element _ _ (nested_row hbody o.bodySeparator) .nil

/-! ## Texts without angle brackets -/

/-- The text is read as characters. -/
def isPlain (text : String) : Bool := text.toList.all fun c => c != '<' && c != '>'

theorem isPlain_iff {text : String} :
    isPlain text = true ↔ '<' ∉ text.toList ∧ '>' ∉ text.toList := by
  simp only [isPlain, List.all_eq_true, Bool.and_eq_true, bne_iff_ne]
  constructor
  · intro h
    exact ⟨fun hmem => (h _ hmem).1 rfl, fun hmem => (h _ hmem).2 rfl⟩
  · rintro ⟨hopen, hclose⟩ c hc
    constructor
    · rintro rfl
      exact hopen hc
    · rintro rfl
      exact hclose hc

theorem isPlain_append {a b : String} : isPlain (a ++ b) = (isPlain a && isPlain b) := by
  rw [isPlain, String.toList_append, List.all_append, isPlain, isPlain]

theorem isPlain_intercalate {separator : String} {texts : List String}
    (hseparator : isPlain separator = true) (h : ∀ text ∈ texts, isPlain text = true) :
    isPlain (separator.intercalate texts) = true := by
  induction texts with
  | nil => rfl
  | cons text texts ih =>
      obtain ⟨htext, htexts⟩ := List.forall_mem_cons.1 h
      by_cases hrest : texts = []
      · rw [hrest, String.intercalate_singleton, htext]
      · rw [String.intercalate_cons_of_ne_nil hrest, isPlain_append, isPlain_append, htext,
          hseparator, ih htexts]
        rfl

mutual

/-- The texts of the scalars in a form. -/
def scalarsT : Form → List String
  | .list items => scalarsF items
  | scalar => (scalar? scalar).toList

def scalarsF : List Form → List String
  | [] => []
  | f :: fs => scalarsT f ++ scalarsF fs

end

theorem mem_scalarsF {fs : List Form} {text : String} :
    text ∈ scalarsF fs ↔ ∃ f ∈ fs, text ∈ scalarsT f := by
  induction fs with
  | nil => simp [scalarsF]
  | cons f fs ih => simp [scalarsF, ih]

/-- What a node adds to the markup by itself can be told from tags: a scalar has a plain text,
and an element has a name and plain attributes. -/
def legible : Form → Bool
  | .list [] => true
  | .list (tag :: rest) =>
      (scalar? tag).all (isTagName ·.toList) && (scalarsF (rest.take 1)).all isPlain
  | scalar => (scalarsT scalar).all isPlain

/-! ### Attributes -/

theorem scalarOr_eq_ok_iff {e : HtmlFault} {f : Form} {text : String} :
    scalarOr e f = .ok text ↔ scalar? f = some text := by
  cases f <;> simp [scalarOr, scalar?]

theorem mem_scalarsT {f : Form} {text : String} (h : scalar? f = some text) :
    text ∈ scalarsT f := by
  cases f with
  | number | text | atom => simp [scalarsT, h]
  | list => cases h

theorem isPlain_scalarOr {e : HtmlFault} {f : Form} {text : String} {fs : List Form}
    (hf : f ∈ fs) (hfs : ∀ scalar ∈ scalarsF fs, isPlain scalar = true)
    (h : scalarOr e f = .ok text) : isPlain text = true :=
  hfs text (mem_scalarsF.2 ⟨f, hf, mem_scalarsT (scalarOr_eq_ok_iff.1 h)⟩)

theorem isPlain_entry {f : Form} {text : String} (hf : ∀ scalar ∈ scalarsT f, isPlain scalar = true)
    (h : entry f = .ok text) : isPlain text = true := by
  unfold entry at h
  split at h
  · cases h
  · next name values =>
    obtain ⟨first, hfirst, h⟩ := exists_of_bind h
    have hname := isPlain_scalarOr List.mem_cons_self hf hfirst
    split at h
    · cases h
      exact hname
    · obtain ⟨texts, htexts, h⟩ := exists_of_bind h
      cases h
      have hvalues : isPlain (" ".intercalate texts) = true := by
        apply isPlain_intercalate rfl
        intro text htext
        obtain ⟨value, hvalue, hresult⟩ := exists_mem_of_mapM htexts htext
        exact isPlain_scalarOr (List.mem_cons_of_mem _ hvalue) hf hresult
      rw [isPlain_append, isPlain_append, isPlain_append, hname, hvalues]
      rfl
  · exact hf text (mem_scalarsT (scalarOr_eq_ok_iff.1 h))

theorem isPlain_attributes {part : Form} {text : String}
    (hpart : ∀ scalar ∈ scalarsT part, isPlain scalar = true) (h : attributes part = .ok text) :
    isPlain text = true := by
  unfold attributes at h
  split at h
  · next entries =>
    obtain ⟨texts, htexts, h⟩ := exists_of_bind h
    cases h
    apply isPlain_intercalate rfl
    intro text htext
    obtain ⟨part, hmem, hresult⟩ := exists_mem_of_mapM htexts htext
    apply isPlain_entry _ hresult
    intro scalar hscalar
    exact hpart scalar (mem_scalarsF.2 ⟨part, hmem, hscalar⟩)
  · exact hpart text (mem_scalarsT (scalarOr_eq_ok_iff.1 h))

/-! ## Cutting what is rendered -/

/-- A start tag is its name, or its name, a space and attributes. -/
theorem splits_start {name text : String} (hname : isTagName name.toList = true)
    (htext : isPlain text = true) :
    Splits ("<" ++ name ++ (if text.isEmpty then "" else " ") ++ text ++ ">").toList
      [.start name (nonempty? text)] := by
  have hopen : '>' ∉ name.toList := fun hmem => ((isTagName_iff.1 hname).2 _ hmem).2.1 rfl
  by_cases hempty : text = ""
  · subst hempty
    have htag := tagOf?_start hname [] nofun
    rw [List.append_nil, String.ofList_toList] at htag
    simpa [nonempty?] using Splits.tag hopen htag
  · have htag := tagOf?_start hname (' ' :: text.toList) (by simp)
    have hinside : '>' ∉ name.toList ++ ' ' :: text.toList := by
      simp [hopen, (isPlain_iff.1 htext).2]
    simpa [nonempty?, hempty] using Splits.tag hinside htag

/-- An element is cut into its two tags and what its body is cut into. -/
theorem splits_element {name text body : String} {ps : List Piece}
    (hname : isTagName name.toList = true) (htext : isPlain text = true)
    (hbody : Splits body.toList ps) :
    Splits (element name text body).toList
      (.start name (nonempty? text) :: ps ++ [.stop name]) := by
  have hstop : Splits ("</" ++ name ++ ">").toList [.stop name] := by
    have htag := tagOf?_stop hname
    have hinside : '>' ∉ '/' :: name.toList := by
      rw [List.mem_cons, not_or]
      exact ⟨by decide, fun hmem => ((isTagName_iff.1 hname).2 _ hmem).2.1 rfl⟩
    rw [String.ofList_toList] at htag
    simpa using Splits.tag hinside htag
  have hall := ((splits_start hname htext).append hbody).append hstop
  simpa [element] using hall

theorem splits_chars {text : String} (h : isPlain text = true) : Splits text.toList (chars text) :=
  .chars (isPlain_iff.1 h).1

theorem splits_scalar {o : HtmlOptions} {f : Form} {text : String} (h : scalar? f = some text)
    (hf : legible f = true) : Splits text.toList (flowT o f) := by
  have hmem := mem_scalarsT h
  cases f with
  | number | text | atom =>
      obtain rfl := Option.some.inj h
      exact splits_chars (List.all_eq_true.1 hf _ hmem)
  | list => cases h

/-- The markup of an element is made of its tag, its attributes and its body. -/
theorem exists_element {o : HtmlOptions} {tag part : Form} {body : List Form} {text : String}
    (h : nodeT o (.list (tag :: part :: body)) = .ok text) :
    ∃ name attributesText texts, scalar? tag = some name ∧
      attributes part = .ok attributesText ∧ nodeF o body = .ok texts ∧
      text = element name attributesText (o.bodySeparator.intercalate texts) := by
  rw [nodeT] at h
  obtain ⟨name, hname, h⟩ := exists_of_bind h
  obtain ⟨attributesText, hattributes, h⟩ := exists_of_bind h
  obtain ⟨texts, htexts, h⟩ := exists_of_bind h
  cases h
  exact ⟨name, attributesText, texts, scalarOr_eq_ok_iff.1 hname, hattributes, htexts, rfl⟩

/-- Rendered forms in a row are cut into the pieces of the row. -/
theorem splits_nodeF {o : HtmlOptions} {fs : List Form} {texts : List String}
    (h : ∀ f ∈ fs, (∀ g ∈ nodesT f, legible g = true) → ∀ {text}, nodeT o f = .ok text →
      Splits text.toList (flowT o f))
    (hfs : ∀ g ∈ nodesF fs, legible g = true) (htexts : nodeF o fs = .ok texts)
    {separator : String} (hseparator : isPlain separator = true) :
    Splits (separator.intercalate texts).toList ((chars separator).intercalate (flowF o fs)) := by
  rw [String.toList_intercalate]
  apply Splits.intercalate (splits_chars hseparator)
  induction fs generalizing texts with
  | nil =>
      cases htexts
      exact .nil
  | cons f fs ih =>
      rw [nodeF] at htexts
      obtain ⟨text, htext, htexts⟩ := exists_of_bind htexts
      obtain ⟨more, hmore, htexts⟩ := exists_of_bind htexts
      cases htexts
      obtain ⟨hfirst, hrest⟩ := List.forall_mem_cons.1 h
      rw [nodesF, List.forall_mem_append] at hfs
      exact .cons (hfirst hfs.1 htext) (ih hrest hfs.2 hmore)

/-- A rendered form is cut into its pieces. -/
theorem splits_nodeT {o : HtmlOptions} (hseparator : isPlain o.bodySeparator = true) (f : Form)
    (hf : ∀ g ∈ nodesT f, legible g = true) {text : String} (h : nodeT o f = .ok text) :
    Splits text.toList (flowT o f) := by
  induction f using Form.itemsInduction generalizing text with
  | number | text | atom =>
      exact splits_scalar (scalarOr_eq_ok_iff.1 h) (hf _ (List.mem_singleton_self _))
  | list items ih =>
      match items with
      | [] => cases h
      | [tag] =>
          have hlegible := hf _ (List.mem_singleton_self _)
          rw [nodeT] at h
          obtain ⟨name, hname, h⟩ := exists_of_bind h
          cases h
          replace hname := scalarOr_eq_ok_iff.1 hname
          simp only [legible, hname, Option.all_some, Bool.and_eq_true] at hlegible
          have hsplits : Splits (element name "" "").toList _ :=
            splits_element hlegible.1 rfl .nil
          simpa [flowT, startTag, stopTag, tagName, attributeText?, nonempty?, hname] using hsplits
      | tag :: part :: body =>
          rw [nodesT, List.forall_mem_cons] at hf
          obtain ⟨hlegible, hbody⟩ := hf
          obtain ⟨name, attributesText, texts, hname, hattributes, htexts, rfl⟩ := exists_element h
          simp only [legible, hname, Option.all_some, Bool.and_eq_true,
            List.all_eq_true] at hlegible
          have hpart : isPlain attributesText = true := by
            apply isPlain_attributes _ hattributes
            intro scalar hscalar
            exact hlegible.2 scalar (mem_scalarsF.2 ⟨part, List.mem_singleton_self _, hscalar⟩)
          have hrow := splits_nodeF
            (fun f hf => ih f (List.mem_cons_of_mem _ (List.mem_cons_of_mem _ hf))) hbody htexts
            hseparator
          have hsplits := splits_element hlegible.1 hpart hrow
          simpa [flowT, startTag, stopTag, tagName, attributeText?, hname, hattributes,
            Except.toOption] using hsplits

/-- **Markup without stray angle brackets is cut into what the forms say.** Its tags are those
of the elements, and every element is around its body. -/
theorem pieces?_of_render {o : HtmlOptions} {fs : List Form} {out : String}
    (h : render o fs = .ok out) (hfs : ∀ f ∈ nodesF fs, legible f = true)
    (hbody : isPlain o.bodySeparator = true) (hdocument : isPlain o.documentSeparator = true) :
    ∃ ps, pieces? out.toList = some ps ∧ ps = flow o fs ∧
      ps.filter Piece.isStart = ((nodesF fs).filter Form.isList).map startTag ∧
      ps.filter Piece.isStop = ((endingsF fs).filter Form.isList).map stopTag ∧
      Nested ps := by
  obtain ⟨texts, htexts, hout⟩ := exists_of_bind h
  cases hout
  have hsplits := splits_nodeF (fun f _ hf => splits_nodeT hbody f hf) hfs htexts hdocument
  refine ⟨_, hsplits.pieces?, rfl, ?_, ?_, nested_row (fun f _ => nested_flowT o f) _⟩
  · rw [nodesF_eq_flatMap]
    exact filter_row (fun _ => rfl) (fun f _ => filter_isStart o f) _
  · rw [endingsF_eq_flatMap]
    exact filter_row (fun _ => rfl) (fun f _ => filter_isStop o f) _

/-- `(div ((class "a b") (hidden)) "hi" (br) (p "x=1" 2)) end` -/
def samplePage : List Form :=
  [.list [.atom "div", .list [.list [.atom "class", .text "a b"], .list [.atom "hidden"]],
      .text "hi", .list [.atom "br"], .list [.atom "p", .text "x=1", .text "2"]],
    .atom "end"]

/-- The page has three elements, one of them around the others. -/
theorem pieces?_samplePage :
    render {} samplePage =
        .ok "<div class=\"a b\" hidden>hi <br></br> <p x=1>2</p></div>end" ∧
      (∀ f ∈ nodesF samplePage, legible f = true) ∧ isPlain " " = true ∧ isPlain "" = true ∧
      ∃ ps,
        pieces? "<div class=\"a b\" hidden>hi <br></br> <p x=1>2</p></div>end".toList = some ps ∧
        ps = flow {} samplePage ∧
        ps.filter Piece.isStart = [.start "div" (some "class=\"a b\" hidden"), .start "br" none,
          .start "p" (some "x=1")] ∧
        ps.filter Piece.isStop = [.stop "br", .stop "p", .stop "div"] ∧
        Nested ps := by
  have hrender : render {} samplePage =
      .ok "<div class=\"a b\" hidden>hi <br></br> <p x=1>2</p></div>end" := by decide +kernel
  have hlegible : ∀ f ∈ nodesF samplePage, legible f = true := by decide +kernel
  obtain ⟨ps, hpieces, hflow, hstarts, hstops, hnested⟩ :=
    pieces?_of_render hrender hlegible rfl rfl
  have hbegin : ((nodesF samplePage).filter Form.isList).map startTag =
      [.start "div" (some "class=\"a b\" hidden"), .start "br" none, .start "p" (some "x=1")] := by
    decide +kernel
  have hend : ((endingsF samplePage).filter Form.isList).map stopTag =
      [.stop "br", .stop "p", .stop "div"] := by decide +kernel
  exact ⟨hrender, hlegible, rfl, rfl, ps, hpieces, hflow, hstarts.trans hbegin,
    hstops.trans hend, hnested⟩

end Html
end Sexpr
