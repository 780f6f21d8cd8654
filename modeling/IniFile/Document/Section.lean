/-
  Sections.

  A section is a name and a table of entries.  It numbers its entries as they are made, and goes on
  counting after it was emptied.  No number is used again before 2^32 entries were made; after that
  the counter no longer fits in its word (`Document.settle`).

  Mathlib-free.
-/
import IniFile.Document.Entry
import IniFile.NameTable

namespace IniFile

/-- A named, ordered group of entries.  The global section has the empty name. -/
structure Section where
  id : SectionId
  name : Text
  entries : NameTable Entry
  nextEntry : Nat

namespace Section

/-- A new section without entries. -/
def fresh (id : SectionId) (name : Text) (caseSensitiveKeys : Bool) : Section :=
  ⟨id, name, .empty caseSensitiveKeys, 0⟩

/-! ## Look-up -/

/-- Is this the section of the keys that precede every header? -/
def isGlobal (s : Section) : Bool := s.id = .global

/-- The entry of a key. -/
def find? (s : Section) (key : Text) : Option Entry := s.entries.get? key

/-- The entry of a key, or the error that there is none. -/
def get (s : Section) (key : Text) : Except Error Entry :=
  match s.find? key with
  | some e => .ok e
  | none => .error (.keyNotFound s.name key)

/-- Does the section have the key? -/
def contains (s : Section) (key : Text) : Bool := s.entries.contains key

/-- The keys in order, as first written. -/
def keys (s : Section) : List Text := s.entries.values.map Entry.key

/-! ## Change -/

/-- Changes the entry of a key in its place, or puts a new one at the end, which takes the next
    number.  The counter is brought back to a word when the step is over (`Document.settle`). -/
def upsert (s : Section) (key value : Text) (change : Entry → Entry) : Section :=
  { s with
    entries := s.entries.upsert key change (.fresh ⟨s.id, s.nextEntry⟩ key value)
    nextEntry := if s.contains key then s.nextEntry else s.nextEntry + 1 }

/-- Gives a key a single value.  An entry that was there keeps its place and comment. -/
def set (s : Section) (key value : Text) : Section := s.upsert key value (·.setValue value)

/-- Adds a value to a key. -/
def append (s : Section) (key value : Text) : Section := s.upsert key value (·.pushValue value)

/-- Gives a key a value that a line of text assigns to it, under the policy for repeated keys. -/
def store (s : Section) (policy : KeyPolicy) (key value : Text) : Section :=
  match policy with
  | .append => s.append key value
  | _ => s.set key value

/-- The identity of a key's entry: that of the one it has, or of the next one made. -/
def entryId (s : Section) (key : Text) : EntryId :=
  match s.find? key with
  | some e => e.id
  | none => ⟨s.id, s.nextEntry⟩

/-- Adds a new key. -/
def insert (s : Section) (key value : Text) : Except Error Section :=
  if s.contains key then .error (.duplicateKey s.name key none) else .ok (s.set key value)

/-- Changes the entry of a key in its place, if there is one. -/
def modify (s : Section) (key : Text) (change : Entry → Entry) : Section :=
  { s with entries := s.entries.modify key change }

/-- Changes every entry in its place. -/
def mapEntries (s : Section) (change : Entry → Entry) : Section :=
  { s with entries := s.entries.mapValues change }

/-- The section without a key. -/
def erase (s : Section) (key : Text) : Section := { s with entries := s.entries.erase key }

/-- Takes a key out: the entry it had, and the section without it. -/
def remove (s : Section) (key : Text) : Except Error (Entry × Section) :=
  (s.get key).map fun e => (e, s.erase key)

/-- The section without entries. -/
def clear (s : Section) : Section := { s with entries := s.entries.clear }

end Section
end IniFile
