/-
  Captured formatting.

  A document knows names, values and comments.  Everything else that was on the page — spacing,
  quoting, blank lines, comments on lines of their own — is captured here, filed under the identity
  of the section or entry that it belongs to.  Only rendering looks at it.

  The blank and comment lines in front of a header or an entry line are its LEADING lines; those
  after the last of them are the document's trailing lines.

  Mathlib-free.
-/
import IniFile.Document.Entry

namespace IniFile

/-! ## Tables by identity -/

/-- Values filed under identities; the order of the rows means nothing. -/
abbrev IdTable (κ α : Type) := List (κ × α)

namespace IdTable

variable {κ α : Type} [DecidableEq κ]

/-- What is filed under an identity. -/
def get? (t : IdTable κ α) (id : κ) : Option α := (t.find? fun row => row.1 = id).map Prod.snd

/-- The table without the identities that satisfy `p`. -/
def erase (t : IdTable κ α) (p : κ → Bool) : IdTable κ α := t.filter fun row => !p row.1

/-- Files a value under an identity, in place of what was there. -/
def insert (t : IdTable κ α) (id : κ) (value : α) : IdTable κ α :=
  (id, value) :: erase t fun other => other = id

end IdTable

/-! ## What is captured -/

/-- A header line as it was written, with the lines in front of it. -/
structure HeaderLine where
  leading : List Text
  raw : Text
  comment : Option Comment
deriving DecidableEq, Repr

/-- An entry line as it was written, with the lines in front of it and what it meant.  It can be
    used again for as long as the entry means the same. -/
structure EntryLine where
  leading : List Text
  raw : Text
  value : Text
  comment : Option Comment
deriving DecidableEq, Repr

/-- Everything captured from the text of a document.  An entry has one line for each value that it
    was read with. -/
structure Capture where
  headers : IdTable SectionId HeaderLine := []
  entries : IdTable EntryId (List EntryLine) := []
  trailing : List Text := []
  finalNewline : Bool := true
  bom : Bool := false
deriving DecidableEq, Repr

namespace Capture

/-- The captured header of a section. -/
def header? (c : Capture) (id : SectionId) : Option HeaderLine := IdTable.get? c.headers id

/-- The captured lines of an entry; none if it was never on the page. -/
def lines (c : Capture) (id : EntryId) : List EntryLine := (IdTable.get? c.entries id).getD []

/-- Files the header line of a section. -/
def recordHeader (c : Capture) (id : SectionId) (line : HeaderLine) : Capture :=
  { c with headers := IdTable.insert c.headers id line }

/-- Files the lines of an entry. -/
def recordLines (c : Capture) (id : EntryId) (lines : List EntryLine) : Capture :=
  { c with entries := IdTable.insert c.entries id lines }

/-- One more line of an entry. -/
def appendLine (c : Capture) (id : EntryId) (line : EntryLine) : Capture :=
  c.recordLines id (c.lines id ++ [line])

/-- A line in place of all that the entry had.  The leading lines of those go in FRONT of its own,
    so that no comment is lost. -/
def replaceLines (c : Capture) (id : EntryId) (line : EntryLine) : Capture :=
  let leading := (c.lines id).flatMap EntryLine.leading ++ line.leading
  c.recordLines id [{ line with leading := leading }]

/-- Drops what was captured for an entry. -/
def forgetEntry (c : Capture) (id : EntryId) : Capture :=
  { c with entries := IdTable.erase c.entries fun other => other = id }

/-- Drops what was captured for a section and for its entries. -/
def forgetSection (c : Capture) (id : SectionId) : Capture :=
  { c with
    headers := IdTable.erase c.headers fun other => other = id
    entries := IdTable.erase c.entries fun other => other.sectionId = id }

end Capture
end IniFile
