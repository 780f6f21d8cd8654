/-
  What can be seen of a document.

  Names, keys, values and comments, in order — without identities, dialect and captured formatting.
  Two documents with the same content answer every look-up alike.

  Mathlib-free.
-/
import IniFile.Document.Basic

namespace IniFile

/-- What can be seen of an entry. -/
structure EntryContent where
  key : Text
  values : List Text
  comment : Option Comment
deriving DecidableEq, Repr

/-- What can be seen of a section. -/
structure SectionContent where
  name : Text
  entries : List EntryContent
deriving DecidableEq, Repr

/-- What can be seen of a document. -/
structure DocumentContent where
  global : SectionContent
  sections : List SectionContent
deriving DecidableEq, Repr

/-- What can be seen of an entry. -/
def Entry.content (e : Entry) : EntryContent := ⟨e.key, e.values, e.comment⟩

/-- What can be seen of a section. -/
def Section.content (s : Section) : SectionContent := ⟨s.name, s.entries.values.map Entry.content⟩

/-- What can be seen of a document. -/
def Document.content (doc : Document) : DocumentContent :=
  ⟨doc.global.content, doc.sections.values.map Section.content⟩

end IniFile
