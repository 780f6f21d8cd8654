/-
  Dialects.

  INI has no single grammar, so everything that varies is gathered in one record: which characters
  start a comment, what separates a key from its value, whether case counts in names, what a
  repeated key or section means, whether the first fault ends the reading, and which words are
  booleans.  A document keeps the dialect it was made with, so that later look-ups and renderings
  follow it.

  Mathlib-free.
-/
import IniFile.Text.Lowercase

namespace IniFile

/-- The character between a key and its value. -/
inductive Delimiter where
  | equals
  | colon
deriving DecidableEq, Repr

/-- The delimiter as it is written. -/
def Delimiter.char : Delimiter → Char
  | .equals => '='
  | .colon => ':'

/-- What a key means that its section already has. -/
inductive KeyPolicy where
  /-- The last value wins, at the place of the first. -/
  | overwrite
  /-- The repetition is an error. -/
  | reject
  /-- Every value is kept, in order. -/
  | append
deriving DecidableEq, Repr

/-- What a header means whose section already exists. -/
inductive SectionPolicy where
  /-- The lines below it join the existing section. -/
  | merge
  /-- The repetition is an error. -/
  | reject
deriving DecidableEq, Repr

/-- What a faulty line does to the reading. -/
inductive Mode where
  /-- The first fault ends it. -/
  | strict
  /-- The line is skipped and reported. -/
  | lenient
deriving DecidableEq, Repr

/-! ## Boolean words -/

/-- The words that stand for truth and falsehood, in lowercase. -/
structure Literals where
  truthy : List Text
  falsy : List Text
deriving DecidableEq, Repr

namespace Literals

/-- Words in any case, lowered. -/
def ofWords (truthy falsy : List Text) : Literals :=
  ⟨truthy.map Text.lowercase, falsy.map Text.lowercase⟩

/-- The words known without being told. -/
def standard : Literals :=
  ofWords ["true".toList, "yes".toList, "1".toList, "on".toList]
    ["false".toList, "no".toList, "0".toList, "off".toList]

/-- What a word stands for, whatever its case; truth is looked up FIRST. -/
def meaning? (words : Literals) (raw : Text) : Option Bool :=
  let lowered := Text.lowercase raw
  if words.truthy.contains lowered then some true
  else if words.falsy.contains lowered then some false
  else none

end Literals

/-! ## The dialect -/

/-- Everything that varies from one INI file to another. -/
structure Dialect where
  markers : List Char := [';', '#']
  delimiter : Delimiter := .equals
  keyPolicy : KeyPolicy := .overwrite
  sectionPolicy : SectionPolicy := .merge
  mode : Mode := .strict
  caseSensitiveKeys : Bool := true
  caseSensitiveSections : Bool := true
  literals : Literals := .standard
deriving DecidableEq, Repr

namespace Dialect

/-- The dialect that is used when none is named. -/
def standard : Dialect := {}

/-- The standard dialect, with faulty lines skipped. -/
def lenient : Dialect := { mode := .lenient }

/-- Does the character start a comment? -/
def isMarker (d : Dialect) (c : Char) : Bool := d.markers.contains c

end Dialect
end IniFile
