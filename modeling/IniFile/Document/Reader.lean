/-
  Reading documents.

  A reader goes through the tokens of a text and builds a document line by line.  It remembers

  - the section that keys now belong to, or that they are to be discarded, because the header above
    them was rejected;
  - the blank and comment lines that wait for the next header or entry line to be filed with.

  `Reader.accept` takes one token.  It may fail, and what it leaves is the state to go on from: a
  faulty line takes no waiting lines and makes no section.  Strict and lenient reading differ ONLY in
  what a failure does: it ends the reading, or it is noted as a diagnostic.

  Mathlib-free.
-/
import IniFile.Document.Basic
import IniFile.Line.Token
import IniFile.Text.Utf8

namespace IniFile

/-- Where entry lines go. -/
inductive Target where
  /-- To the section of this name; the empty name is the global section. -/
  | inSection (name : Text)
  /-- Nowhere, until the next header that is accepted. -/
  | discard
deriving DecidableEq, Repr

/-- A document in the making. -/
structure Reader where
  document : Document
  target : Target
  waiting : List Text
  diagnostics : List Diagnostic

/-- A document and the lines that were skipped in reading it. -/
structure Parsed where
  document : Document
  diagnostics : List Diagnostic

namespace Reader

/-- The reader before the first line. -/
def start (d : Dialect) : Reader := ⟨.empty d, .inSection [], [], []⟩

/-! ## One line -/

/-- A blank or comment line waits for the next header or entry. -/
def wait (r : Reader) (raw : Text) : Reader := { r with waiting := r.waiting ++ [raw] }

/-- A header that names a new section. -/
def openSection (r : Reader) (raw name : Text) (comment : Option Comment) : Reader :=
  let id : SectionId := ⟨r.document.nextSection⟩
  let grown := r.document.ensureSection name
  { r with
    document := { grown with capture := grown.capture.recordHeader id ⟨r.waiting, raw, comment⟩ }
    target := .inSection name
    waiting := [] }

/-- A header line. -/
def acceptHeader (r : Reader) (line : Nat) (raw name : Text) (comment : Option Comment) :
    Reader × Option Error :=
  if r.document.hasSection name then
    match r.document.dialect.sectionPolicy with
    | .merge => ({ r with target := .inSection name }, none)
    | .reject => ({ r with target := .discard }, some (.duplicateSection name (some line)))
  else (r.openSection raw name comment, none)

/-- Files an entry line: as the only one of a new key, or as the policy says for a repeated one. -/
def file (policy : KeyPolicy) (isNew : Bool) (c : Capture) (id : EntryId) (line : EntryLine) :
    Capture :=
  if isNew then c.recordLines id [line]
  else
    match policy with
    | .append => c.appendLine id line
    | _ => c.replaceLines id line

/-- An entry line that is accepted into the section `s` of the given name. -/
def putEntry (r : Reader) (name : Text) (s : Section) (raw key value : Text)
    (comment : Option Comment) : Reader :=
  let policy := r.document.dialect.keyPolicy
  let grown := (s.store policy key value).modify key (·.setComment comment)
  let doc := r.document.upsertSection name fun _ => grown
  let line : EntryLine := ⟨r.waiting, raw, value, comment⟩
  { r with
    document :=
      { doc with capture := file policy (!s.contains key) doc.capture (s.entryId key) line }
    waiting := [] }

/-- An entry line at the given position. -/
def acceptEntry (r : Reader) (line column : Nat) (raw key value : Text)
    (comment : Option Comment) : Reader × Option Error :=
  match r.target with
  | .discard => (r, some (.malformed line column (.rejectedSection key)))
  | .inSection name =>
    let s := (r.document.section? name).getD (r.document.newSection name)
    if s.contains key && r.document.dialect.keyPolicy = .reject then
      (r, some (.duplicateKey s.name key (some line)))
    else (r.putEntry name s raw key value comment, none)

/-- One line: the reader after it, and the error if the line is refused. -/
def accept (r : Reader) (token : Token) : Reader × Option Error :=
  match token.content with
  | .blank => (r.wait token.raw, none)
  | .comment _ => (r.wait token.raw, none)
  | .header name comment => r.acceptHeader token.line token.raw name comment
  | .entry key value comment =>
    r.acceptEntry token.line token.column token.raw key value comment
  | .malformed fault => (r, some (.malformed token.line token.column fault))

/-! ## All lines -/

/-- Notes that a line was skipped. -/
def skip (r : Reader) (token : Token) (e : Error) : Reader :=
  { r with diagnostics := r.diagnostics ++ [⟨token.line, token.column, e⟩] }

/-- Reads line after line.  Under strict reading the first error is the result. -/
def run (mode : Mode) (r : Reader) : List Token → Except Error Reader
  | [] => .ok r
  | token :: rest =>
    match r.accept token, mode with
    | (next, none), _ => run mode next rest
    | (_, some e), .strict => .error e
    | (next, some e), .lenient => run mode (next.skip token e) rest

/-- The document after the last line: what still waits trails it, and the capture notes how the text
    began and ended. -/
def finish (r : Reader) (text : Text) : Parsed :=
  { document :=
      { r.document with
        capture :=
          { r.document.capture with
            trailing := r.waiting
            finalNewline := text.isEmpty || text.getLast? = some '\n'
            bom := text.head? = some bom } }
    diagnostics := r.diagnostics }

end Reader

/-! ## Reading texts and bytes -/

/-- Reads a text in the given dialect. -/
def parse (d : Dialect) (text : Text) : Except Error Parsed :=
  ((Reader.start d).run d.mode (tokens d text)).map (·.finish text)

/-- The flaw of a byte sequence as an error. -/
def Utf8Flaw.toError : Utf8Flaw → Error
  | .incomplete index =>
    .outside ("Utf8: incomplete utf-8 byte sequence from index ".toList ++ Nat.toDigits 10 index)
  | .invalid length index =>
    .outside ("Utf8: invalid utf-8 sequence of ".toList ++ Nat.toDigits 10 length ++
      " bytes from index ".toList ++ Nat.toDigits 10 index)

/-- Reads bytes, which must be well-formed UTF-8. -/
def parseBytes (d : Dialect) (bytes : List UInt8) : Except Error Parsed := do
  parse d (← (Utf8.decode bytes).mapError Utf8Flaw.toError)

/-- Reads bytes that arrive in chunks.  A source that fails in the end is an error, whatever came
    before. -/
def parseStream (d : Dialect) (chunks : List (List UInt8)) (failure : Option Text) :
    Except Error Parsed :=
  match failure with
  | some reason => .error (.outside reason)
  | none => parseBytes d chunks.flatten

/-- Checks a text: every line that lenient reading would skip, in order. -/
def validate (d : Dialect) (text : Text) : List Diagnostic :=
  match parse { d with mode := .lenient } text with
  | .ok parsed => parsed.diagnostics
  | .error e => [.ofError e]

end IniFile
