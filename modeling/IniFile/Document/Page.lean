/-
  Writing documents.

  A page is the text written so far.  A document goes onto it in one of two styles:

  - ROUND TRIP puts every captured line back whose value and comment are unchanged, together with
    the lines in front of it; what changed or is new is written afresh in its place;
  - CANONICAL writes every header and entry afresh, keeps the comments between them, and has one
    blank line in front of each section but no other.

  Each value of an entry is paired with the captured line that it may put back and with the comment
  that belongs behind it: a `Slot`.  Several documents can go onto one page; whether a blank line or
  the end of the last line is due depends on what THIS document has written.

  Mathlib-free.
-/
import IniFile.Document.Basic
import IniFile.Line.Token
import IniFile.Text.Utf8

namespace IniFile

/-! ## Choices -/

/-- How much of the captured formatting is put back. -/
inductive Style where
  | roundTrip
  | canonical
deriving DecidableEq, Repr

/-- What ends a line. -/
inductive LineEnding where
  | lf
  | crlf
deriving DecidableEq, Repr

/-- The characters that end a line. -/
def LineEnding.text : LineEnding → Text
  | .lf => ['\n']
  | .crlf => ['\r', '\n']

/-- How documents are written. -/
structure Rendering where
  style : Style := .roundTrip
  ending : LineEnding := .lf
deriving DecidableEq, Repr

/-! ## Lines written afresh -/

/-- A comment behind a header or an entry, with a blank in front. -/
def commentSuffix : Option Comment → Text
  | none => []
  | some c => ' ' :: c.render

/-- A header line. -/
def renderHeader (name : Text) (comment : Option Comment) : Text :=
  ['['] ++ name ++ [']'] ++ commentSuffix comment

/-- An entry line; nothing follows the delimiter of an empty value. -/
def renderEntry (d : Dialect) (key value : Text) (comment : Option Comment) : Text :=
  key ++ [' ', d.delimiter.char] ++
    (if value.isEmpty then [] else ' ' :: Quoted.quoteIfNeeded d value) ++ commentSuffix comment

/-- The comments among captured lines, trimmed; blank lines are left out. -/
def standaloneComments (lines : List Text) : List Text :=
  (lines.map Text.trim).filter fun line => !line.isEmpty

/-! ## Lines of a document -/

/-- A value, the captured line in its place, and the comment behind it: the LAST value takes the
    entry's comment, an earlier one that of its captured line. -/
structure Slot where
  value : Text
  line? : Option EntryLine
  comment : Option Comment
deriving DecidableEq, Repr

/-- The slots of values that the given captured lines belong to. -/
def slots (comment : Option Comment) : List Text → List EntryLine → List Slot
  | [], _ => []
  | value :: more, lines =>
    let line? := lines.head?
    ⟨value, line?, if more.isEmpty then comment else line?.bind EntryLine.comment⟩ ::
      slots comment more lines.tail

/-- The lines of one value of a key. -/
def Slot.lines (d : Dialect) (style : Style) (key : Text) (slot : Slot) : List Text :=
  let afresh := renderEntry d key slot.value slot.comment
  match slot.line?, style with
  | none, _ => [afresh]
  | some line, .roundTrip =>
    let kept := line.value = slot.value ∧ line.comment = slot.comment
    line.leading ++ [if kept then line.raw else afresh]
  | some line, .canonical => standaloneComments line.leading ++ [afresh]

namespace Document

/-- The lines of an entry. -/
def entryLines (doc : Document) (style : Style) (e : Entry) : List Text :=
  (slots e.comment e.values (doc.capture.lines e.id)).flatMap (·.lines doc.dialect style e.key)

/-- The lines of all entries of a section. -/
def bodyLines (doc : Document) (style : Style) (s : Section) : List Text :=
  s.entries.values.flatMap (doc.entryLines style)

/-- The lines of a section's header.  A header that is not put back as captured is set off by a blank
    line if the document has written anything before. -/
def headerLines (doc : Document) (style : Style) (written : Bool) (s : Section) : List Text :=
  let blank : List Text := if written then [[]] else []
  match doc.capture.header? s.id, style with
  | none, _ => blank ++ [renderHeader s.name none]
  | some line, .roundTrip => line.leading ++ [line.raw]
  | some line, .canonical =>
    blank ++ standaloneComments line.leading ++ [renderHeader s.name line.comment]

/-- The lines of a section. -/
def sectionLines (doc : Document) (style : Style) (written : Bool) (s : Section) : List Text :=
  doc.headerLines style written s ++ doc.bodyLines style s

/-- The lines after the last entry. -/
def trailingLines (doc : Document) : Style → List Text
  | .roundTrip => doc.capture.trailing
  | .canonical => standaloneComments doc.capture.trailing

end Document

/-! ## Pages -/

/-- What has been written so far, and how the next documents are to be written. -/
structure Page where
  rendering : Rendering
  output : Text := []
deriving DecidableEq, Repr

namespace Page

/-- Writes a line and its ending. -/
def line (p : Page) (text : Text) : Page :=
  { p with output := p.output ++ text ++ p.rendering.ending.text }

/-- Writes lines one after the other. -/
def lines (p : Page) (texts : List Text) : Page := texts.foldl line p

/-- Writes a section; the document it is part of began where `body` characters were written. -/
def putSection (doc : Document) (body : Nat) (p : Page) (s : Section) : Page :=
  p.lines (doc.sectionLines p.rendering.style (body < p.output.length) s)

/-- Takes back the ending of the last line, if anything was written after the first `body`
    characters. -/
def dropEnding (p : Page) (body : Nat) : Page :=
  let ending := p.rendering.ending.text
  if body < p.output.length ∧ ending.isSuffixOf p.output then
    { p with output := p.output.take (p.output.length - ending.length) }
  else p

/-- Writes the byte order mark, if there was one and the style puts it back. -/
def putBom (p : Page) (doc : Document) : Page :=
  if p.rendering.style = .roundTrip ∧ doc.capture.bom then { p with output := p.output ++ [bom] }
  else p

/-- Writes a document. -/
def put (p : Page) (doc : Document) : Page :=
  let style := p.rendering.style
  let start := p.putBom doc
  let body := start.output.length
  let globals := start.lines (doc.bodyLines style doc.global)
  let sections := doc.sections.values.foldl (putSection doc body) globals
  let whole := sections.lines (doc.trailingLines style)
  if style = .roundTrip ∧ !doc.capture.finalNewline then whole.dropEnding body else whole

end Page

/-- The text of a document. -/
def Document.render (doc : Document) (r : Rendering) : Text :=
  (Page.put { rendering := r } doc).output

/-- Renders documents one after the other onto one page. -/
def renderAll (r : Rendering) (docs : List Document) : Text :=
  (docs.foldl Page.put { rendering := r }).output

/-! ## Delivery -/

/-- Hands a text to an output that takes `room` bytes in all (any number if there is no limit): the
    bytes that got there, and the failure if not all of them did. -/
def deliver (room : Option Nat) (failure text : Text) : List UInt8 × Except Error Unit :=
  let bytes := Utf8.encode text
  match room with
  | none => (bytes, .ok ())
  | some room =>
    if bytes.length ≤ room then (bytes, .ok ()) else (bytes.take room, .error (.outside failure))

end IniFile
