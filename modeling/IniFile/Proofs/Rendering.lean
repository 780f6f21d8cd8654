/-
  Rendering sheets.

  A page is written line by line onto what other documents have left there, and looks back at its
  own length to see whether a blank line or the end of the last line is due.  None of that can be
  seen from outside: a document is written as the lines of its SHEET, joined by line endings.

  1. **Lines of a sheet** — `Sheet.lines`, in either style.
  2. **Pages** — writing a document puts `Sheet.render` behind what is on the page.
  3. **Several documents** — so the text on a page is that of its documents, one behind the other:
     no document has a say in how the next one is written.
-/
import IniFile.Proofs.Lines
import IniFile.Proofs.Sheet

namespace IniFile

/-! ## Lines of a sheet -/

/-- The lines of an entry. -/
def SheetEntry.render (d : Dialect) (style : Style) (e : SheetEntry) : List Text :=
  (slots e.comment e.values e.lines).flatMap (·.lines d style e.key)

namespace SheetSection

/-- The lines of a header; `written` says that something stands before it. -/
def headerLines (style : Style) (written : Bool) (s : SheetSection) : List Text :=
  let blank : List Text := if written then [[]] else []
  match s.header?, style with
  | none, _ => blank ++ [renderHeader s.name none]
  | some line, .roundTrip => line.leading ++ [line.raw]
  | some line, .canonical =>
    blank ++ standaloneComments line.leading ++ [renderHeader s.name line.comment]

/-- The lines of a section. -/
def render (d : Dialect) (style : Style) (written : Bool) (s : SheetSection) : List Text :=
  s.headerLines style written ++ s.entries.flatMap (SheetEntry.render d style)

/-- There is always a header. -/
theorem headerLines_ne_nil (style : Style) (written : Bool) (s : SheetSection) :
    s.headerLines style written ≠ [] := by
  unfold headerLines
  cases s.header? with
  | none => simp
  | some line => cases style <;> simp

theorem render_ne_nil (d : Dialect) (style : Style) (written : Bool) (s : SheetSection) :
    s.render d style written ≠ [] :=
  fun h => s.headerLines_ne_nil style written (List.append_eq_nil_iff.mp h).1

end SheetSection

namespace Sheet

/-- The lines of sections.  Something stands before every section but perhaps the first. -/
def sectionLines (d : Dialect) (style : Style) : Bool → List SheetSection → List Text
  | _, [] => []
  | written, s :: rest => s.render d style written ++ sectionLines d style true rest

/-- The lines of the global keys. -/
def globalLines (d : Dialect) (style : Style) (S : Sheet) : List Text :=
  S.global.flatMap (SheetEntry.render d style)

/-- The lines after the last entry. -/
def trailingLines (S : Sheet) : Style → List Text
  | .roundTrip => S.trailing
  | .canonical => standaloneComments S.trailing

/-- **The lines of a sheet.** -/
def lines (d : Dialect) (style : Style) (S : Sheet) : List Text :=
  S.globalLines d style ++ sectionLines d style (!(S.globalLines d style).isEmpty) S.sections ++
    S.trailingLines style

/-- Does the last line have an ending? -/
def isClosed (style : Style) (S : Sheet) : Bool :=
  match style with
  | .roundTrip => S.finalNewline
  | .canonical => true

/-- The byte order mark, if there was one and the style puts it back. -/
def mark (style : Style) (S : Sheet) : Text :=
  match style with
  | .roundTrip => if S.bom then [IniFile.bom] else []
  | .canonical => []

/-- **The text of a sheet.** -/
def render (d : Dialect) (r : Rendering) (S : Sheet) : Text :=
  S.mark r.style ++ r.ending.join (S.isClosed r.style) (S.lines d r.style)

end Sheet

/-! ## Pages -/

namespace Page

/-- The page with more text on it. -/
def add (p : Page) (t : Text) : Page := { p with output := p.output ++ t }

theorem add_add (p : Page) (s t : Text) : (p.add s).add t = p.add (s ++ t) := by
  rw [add, add, add, List.append_assoc]

theorem add_nil (p : Page) : p.add [] = p := by
  rw [add, List.append_nil]

theorem lines_eq (p : Page) (ls : List Text) : p.lines ls = p.add (p.rendering.ending.join true ls) := by
  induction ls generalizing p with
  | nil => exact p.add_nil.symm
  | cons l ls ih =>
    show (p.line l).lines ls = _
    rw [ih, LineEnding.join_cons_closed, line, add, add, List.append_assoc, List.append_assoc]

theorem text_ne_nil (e : LineEnding) : e.text ≠ [] := by
  cases e <;> simp [LineEnding.text]

theorem join_closed_eq_nil {e : LineEnding} {ls : List Text} (h : e.join true ls = []) : ls = [] := by
  cases ls with
  | nil => rfl
  | cons l ls =>
    rw [LineEnding.join_cons_closed, List.append_eq_nil_iff, List.append_eq_nil_iff] at h
    exact absurd h.1.2 (text_ne_nil e)

/-- Something was written since the page was `start` exactly when there were lines. -/
theorem written_eq (start : Page) (ls : List Text) :
    decide (start.output.length < (start.lines ls).output.length) = !ls.isEmpty := by
  rw [lines_eq]
  cases ls with
  | nil => simp [LineEnding.join, add]
  | cons l ls =>
    have hpos : 0 < (start.rendering.ending.join true (l :: ls)).length :=
      List.length_pos_iff.mpr fun h => List.cons_ne_nil l ls (join_closed_eq_nil h)
    rw [add, List.length_append]
    simp
    omega

theorem lines_append (p : Page) (ls ms : List Text) : p.lines (ls ++ ms) = (p.lines ls).lines ms :=
  List.foldl_append

/-- Writing a section writes its lines. -/
theorem putSection_eq (doc : Document) (start : Page) (front : List Text) (s : Section) :
    putSection doc start.output.length (start.lines front) s =
      start.lines (front ++ (doc.capture.sectionOf s).render doc.dialect start.rendering.style
        (!front.isEmpty)) := by
  have hrendering : (start.lines front).rendering = start.rendering := by rw [lines_eq]; rfl
  have hbody : doc.bodyLines start.rendering.style s =
      (doc.capture.entriesOf s).flatMap (SheetEntry.render doc.dialect start.rendering.style) := by
    rw [Document.bodyLines, Capture.entriesOf, List.flatMap_map]
    rfl
  rw [putSection, written_eq, hrendering, lines_append, Document.sectionLines, hbody]
  rfl

/-- Section after section. -/
theorem foldl_putSection (doc : Document) (start : Page) (ss : List Section) (front : List Text) :
    ss.foldl (putSection doc start.output.length) (start.lines front) =
      start.lines (front ++ Sheet.sectionLines doc.dialect start.rendering.style
        (!front.isEmpty) (ss.map doc.capture.sectionOf)) := by
  induction ss generalizing front with
  | nil => rw [List.foldl_nil, List.map_nil, Sheet.sectionLines, List.append_nil]
  | cons s ss ih =>
    -- a section always has a header line, so something stands before the next one
    have hwritten : (front ++ (doc.capture.sectionOf s).render doc.dialect start.rendering.style
        (!front.isEmpty)).isEmpty = false :=
      List.isEmpty_eq_false_iff.mpr fun h =>
        SheetSection.render_ne_nil _ _ _ _ (List.append_eq_nil_iff.mp h).2
    rw [List.foldl_cons, putSection_eq, ih, hwritten, List.append_assoc]
    rfl

/-- The end of the last line is taken back when there is a line. -/
theorem dropEnding_lines (start : Page) (ls : List Text) :
    (start.lines ls).dropEnding start.output.length =
      start.add (start.rendering.ending.join false ls) := by
  by_cases hls : ls = []
  · rw [hls, dropEnding, if_neg]
    · exact start.add_nil.symm
    · intro h
      exact Nat.lt_irrefl _ h.1
  · obtain ⟨body, hbody⟩ : ∃ body, body = start.output ++ start.rendering.ending.join false ls :=
      ⟨_, rfl⟩
    have hrendering : (start.lines ls).rendering = start.rendering := by
      rw [lines_eq]
      rfl
    have hoverall : (start.lines ls).output = body ++ start.rendering.ending.text := by
      rw [lines_eq, add, LineEnding.join_closed_eq start.rendering.ending hls, hbody,
        List.append_assoc]
    -- there is a line, so there is an ending to take back, and it is the last thing on the page
    have hdue : start.output.length < (start.lines ls).output.length ∧
        (start.lines ls).rendering.ending.text.isSuffixOf (start.lines ls).output = true := by
      rw [hrendering, hoverall, hbody]
      refine ⟨?_, List.isSuffixOf_iff_suffix.mpr (List.suffix_append _ _)⟩
      have hlength := List.length_pos_iff.mpr (text_ne_nil start.rendering.ending)
      rw [List.length_append, List.length_append]
      omega
    rw [dropEnding, if_pos hdue, hrendering, hoverall, List.length_append, Nat.add_sub_cancel,
      List.take_left, add, ← hbody]

/-- **Writing a document** puts the text of its sheet behind what is on the page. -/
theorem put_eq (p : Page) (doc : Document) :
    p.put doc = p.add (doc.sheet.render doc.dialect p.rendering) := by
  have hstart : p.putBom doc = p.add (doc.sheet.mark p.rendering.style) := by
    unfold putBom Sheet.mark
    cases hstyle : p.rendering.style with
    | roundTrip =>
      cases hbom : doc.capture.bom with
      | true => simp [add, Document.sheet, hbom]
      | false => simp [add, Document.sheet, hbom]
    | canonical => simp [add]
  obtain ⟨start, hs⟩ : ∃ start, start = p.putBom doc := ⟨_, rfl⟩
  have hrendering : start.rendering = p.rendering := by rw [hs, hstart]; rfl
  have hglobal : doc.bodyLines p.rendering.style doc.global =
      doc.sheet.globalLines doc.dialect p.rendering.style := by
    rw [Document.bodyLines, Sheet.globalLines, Document.sheet, Capture.entriesOf, List.flatMap_map]
    rfl
  have htrailing : doc.trailingLines p.rendering.style =
      doc.sheet.trailingLines p.rendering.style := by
    cases p.rendering.style <;> rfl
  have hwhole : ((doc.sections.values.foldl (putSection doc start.output.length)
      (start.lines (doc.bodyLines p.rendering.style doc.global))).lines
        (doc.trailingLines p.rendering.style)) =
      start.lines (doc.sheet.lines doc.dialect p.rendering.style) := by
    rw [foldl_putSection, ← lines_append, hrendering, hglobal, htrailing]
    rfl
  have hput : p.put doc =
      if p.rendering.style = .roundTrip ∧ !doc.capture.finalNewline then
        (start.lines (doc.sheet.lines doc.dialect p.rendering.style)).dropEnding start.output.length
      else start.lines (doc.sheet.lines doc.dialect p.rendering.style) := by
    rw [← hwhole, hs]
    rfl
  have hopen : (p.rendering.style = .roundTrip ∧ (!doc.capture.finalNewline) = true) ↔
      doc.sheet.isClosed p.rendering.style = false := by
    cases hstyle : p.rendering.style with
    | roundTrip => simp [Sheet.isClosed, Document.sheet]
    | canonical => simp [Sheet.isClosed]
  rw [hput, Sheet.render, ← add_add, ← hstart, ← hs]
  cases hclosed : doc.sheet.isClosed p.rendering.style with
  | false => rw [if_pos (hopen.mpr hclosed), dropEnding_lines, hrendering]
  | true =>
    rw [if_neg fun h => Bool.noConfusion ((hopen.mp h).symm.trans hclosed), lines_eq, hrendering]

end Page

/-- **The text of a document** is the text of its sheet. -/
theorem Document.render_eq (doc : Document) (r : Rendering) :
    doc.render r = doc.sheet.render doc.dialect r := by
  rw [Document.render, Page.put_eq]
  rfl

/-! ## Several documents -/

namespace Page

/-- A document is written as on a page of its own, whatever is on this one. -/
theorem put_eq_add_render (p : Page) (doc : Document) : p.put doc = p.add (doc.render p.rendering) := by
  rw [put_eq, Document.render_eq]

/-- Document after document. -/
theorem foldl_put (docs : List Document) (p : Page) :
    docs.foldl put p = p.add (docs.flatMap (·.render p.rendering)) := by
  induction docs generalizing p with
  | nil => exact p.add_nil.symm
  | cons doc docs ih =>
    have hrendering : (p.add (doc.render p.rendering)).rendering = p.rendering := rfl
    rw [List.foldl_cons, put_eq_add_render, ih, hrendering, add_add, List.flatMap_cons]

end Page

/-- **Documents on one page stand one behind the other**, each written as if it were alone: neither
    the blank lines between sections nor the ending that is taken back at the end of a document
    depend on what other documents have left on the page. -/
theorem renderAll_eq_flatMap (r : Rendering) (docs : List Document) :
    renderAll r docs = docs.flatMap (·.render r) := by
  rw [renderAll, Page.foldl_put]
  rfl

end IniFile
