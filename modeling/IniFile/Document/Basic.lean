/-
  Documents.

  A document is a global section, a table of named sections in order of declaration, the dialect it
  was made with, and what was captured from its text.  The empty name addresses the global section
  wherever a section is named.

  Removing a key or a section THROUGH the document drops what was captured for it.  A section that is
  changed directly leaves its capture behind; that does no harm as long as identities are not reused,
  which takes 2^32 sections or entries of one section (`Document.Counters`).

  Mathlib-free.
-/
import IniFile.Document.Capture
import IniFile.Document.Section

namespace IniFile

/-- An ordered INI document. -/
structure Document where
  dialect : Dialect
  global : Section
  sections : NameTable Section
  nextSection : Nat
  capture : Capture

namespace Document

/-- The document without sections, keys and formatting. -/
def empty (d : Dialect) : Document :=
  ⟨d, .fresh .global [] d.caseSensitiveKeys, .empty d.caseSensitiveSections, 1, {}⟩

/-! ## Look-up -/

/-- The section of a name. -/
def section? (doc : Document) (name : Text) : Option Section :=
  if name.isEmpty then some doc.global else doc.sections.get? name

/-- The section of a name, or the error that there is none. -/
def getSection (doc : Document) (name : Text) : Except Error Section :=
  match doc.section? name with
  | some s => .ok s
  | none => .error (.sectionNotFound name)

/-- Is there a section of that name? -/
def hasSection (doc : Document) (name : Text) : Bool := name.isEmpty || doc.sections.contains name

/-- Does the section have the key? -/
def hasKey (doc : Document) (sectionName key : Text) : Bool :=
  (doc.section? sectionName).any (·.contains key)

/-- The entry of a key in a section, or the error that the one or the other is missing. -/
def getEntry (doc : Document) (sectionName key : Text) : Except Error Entry := do
  (← doc.getSection sectionName).get key

/-- The value of a key in a section. -/
def get (doc : Document) (sectionName key : Text) : Except Error Text := do
  return (← doc.getEntry sectionName key).value

/-- The value of a key in a section as one of a kind, under the document's boolean words. -/
def read (doc : Document) (sectionName key : Text) (kind : Kind) : Except Error Datum := do
  (← doc.getEntry sectionName key).read doc.dialect.literals kind

/-- The same, or `default` if the key is missing or its value is not of the kind. -/
def readD (doc : Document) (sectionName key : Text) (kind : Kind) (default : Datum) : Datum :=
  (doc.read sectionName key kind).toOption.getD default

/-- The names of the named sections, as first declared. -/
def sectionNames (doc : Document) : List Text := doc.sections.values.map Section.name

/-- The number of named sections. -/
def size (doc : Document) : Nat := doc.sections.size

/-- Are there neither named sections nor global keys? -/
def isEmpty (doc : Document) : Bool := doc.sections.isEmpty && doc.global.entries.isEmpty

/-! ## Change -/

/-- Changes the section of a name in its place; there must be one for anything to happen. -/
def modifySection (doc : Document) (name : Text) (change : Section → Section) : Document :=
  if name.isEmpty then { doc with global := change doc.global }
  else { doc with sections := doc.sections.modify name change }

/-- The section that is made next, under the given name. -/
def newSection (doc : Document) (name : Text) : Section :=
  .fresh ⟨doc.nextSection⟩ name doc.dialect.caseSensitiveKeys

/-- Changes the section of a name, which is made at the end if there is none.  The counter is brought
    back to a word when the step is over (`Document.settle`). -/
def upsertSection (doc : Document) (name : Text) (change : Section → Section) : Document :=
  if name.isEmpty then { doc with global := change doc.global }
  else
    { doc with
      sections := doc.sections.upsert name change (change (doc.newSection name))
      nextSection := if doc.sections.contains name then doc.nextSection else doc.nextSection + 1 }

/-- Makes sure that there is a section of that name. -/
def ensureSection (doc : Document) (name : Text) : Document := doc.upsertSection name id

/-- Adds a new section without entries. -/
def insertSection (doc : Document) (name : Text) : Except Error Document :=
  if doc.hasSection name then .error (.duplicateSection name none) else .ok (doc.ensureSection name)

/-- Gives a key of a section a single value; the section is made if there is none. -/
def set (doc : Document) (sectionName key value : Text) : Document :=
  doc.upsertSection sectionName (·.set key value)

/-- Takes a key out of a section: the entry it had, and the document without it. -/
def remove (doc : Document) (sectionName key : Text) : Except Error (Entry × Document) := do
  let s ← doc.getSection sectionName
  let e ← s.get key
  let rest := doc.modifySection sectionName (·.erase key)
  return (e, { rest with capture := rest.capture.forgetEntry e.id })

/-- Takes a section out.  The global section is emptied instead; its numbering goes on. -/
def removeSection (doc : Document) (name : Text) : Except Error (Section × Document) := do
  let s ← doc.getSection name
  let rest :=
    if name.isEmpty then { doc with global := doc.global.clear }
    else { doc with sections := doc.sections.erase name }
  return (s, { rest with capture := rest.capture.forgetSection s.id })

/-- Changes every named section in its place. -/
def mapSections (doc : Document) (change : Section → Section) : Document :=
  { doc with sections := doc.sections.mapValues change }

/-- Removes every section and key and all that was captured; numbering goes on. -/
def clear (doc : Document) : Document :=
  { doc with global := doc.global.clear, sections := doc.sections.clear, capture := {} }

/-! ## Listing -/

/-- The lines that list one section: a heading, its values, and a blank line. -/
def listSection (heading : Text) (s : Section) : Text :=
  ['['] ++ heading ++ [']', '\n'] ++
    s.entries.values.flatMap (fun e => e.values.flatMap fun value =>
      [' ', ' '] ++ e.key ++ " = ".toList ++ value ++ ['\n']) ++ ['\n']

/-- A plain listing for the eye: the global keys, if any, and then every section. -/
def listing (doc : Document) : Text :=
  (if doc.global.entries.isEmpty then [] else listSection "Global".toList doc.global) ++
    doc.sections.values.flatMap fun s => listSection s.name s

end Document
end IniFile
