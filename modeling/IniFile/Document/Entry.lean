/-
  Entries.

  An entry is a key with at least one value and perhaps a comment.  It keeps its LAST value apart
  from the earlier ones, because that is what readers of a single value see, and so that an entry
  without a value cannot be written down.

  Entries and sections carry an identity, which is what captured formatting is filed under.  It is
  made of numbers that are counted without end here: none is given out twice, so what was captured
  for one entry cannot turn up at another.  A program counts in words of 32 bits, and that is as good
  only below 2^32 sections and 2^32 entries of each (`Document.afterInWords`).

  Mathlib-free.
-/
import IniFile.Line.Comment
import IniFile.Scalar

namespace IniFile

/-! ## Identities -/

/-- The identity of a section within its document.  Its number is a word of 32 bits wherever counting
    is in words (`Document.settle`). -/
structure SectionId where
  index : Nat
deriving DecidableEq, Repr

/-- The section of the keys that precede every header. -/
def SectionId.global : SectionId := ⟨0⟩

/-- The identity of an entry: its section's and a number of its own there, which is such a word
    too. -/
structure EntryId where
  sectionId : SectionId
  index : Nat
deriving DecidableEq, Repr

/-! ## Entries -/

/-- A key, its values and its comment.  `value` is the last value, `earlier` the ones before it. -/
structure Entry where
  id : EntryId
  key : Text
  earlier : List Text
  value : Text
  comment : Option Comment
deriving DecidableEq, Repr

namespace Entry

/-- A new entry with one value. -/
def fresh (id : EntryId) (key value : Text) : Entry := ⟨id, key, [], value, none⟩

/-- All values in the order in which they were added. -/
def values (e : Entry) : List Text := e.earlier ++ [e.value]

/-- Does the entry have more than one value? -/
def isMultiValued (e : Entry) : Bool := !e.earlier.isEmpty

/-- The entry with a single value in place of all it had. -/
def setValue (e : Entry) (value : Text) : Entry := { e with earlier := [], value := value }

/-- The entry with one more value. -/
def pushValue (e : Entry) (value : Text) : Entry :=
  { e with earlier := e.values, value := value }

/-- The entry with another comment, or none. -/
def setComment (e : Entry) (comment : Option Comment) : Entry := { e with comment := comment }

@[simp] theorem values_fresh (id : EntryId) (key value : Text) :
    (fresh id key value).values = [value] := rfl

@[simp] theorem values_setValue (e : Entry) (value : Text) :
    (e.setValue value).values = [value] := rfl

@[simp] theorem values_pushValue (e : Entry) (value : Text) :
    (e.pushValue value).values = e.values ++ [value] := rfl

/-! ## Typed views -/

/-- The value as one of a kind. -/
def read (e : Entry) (words : Literals) (kind : Kind) : Except Error Datum :=
  kind.read words e.value

/-- Every value as one of a kind, or the first failure. -/
def readAll (e : Entry) (words : Literals) (kind : Kind) : Except Error (List Datum) :=
  e.values.mapM fun value => kind.read words value

/-- The most specific scalar that the value stands for. -/
def scalar (e : Entry) : Scalar := .infer e.value

end Entry
end IniFile
