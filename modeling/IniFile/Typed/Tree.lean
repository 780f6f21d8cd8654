/-
  Trees of typed data.

  A program that writes its own types as a document describes them as a tree: scalars, optional and
  wrapped values, sequences, maps and records.  Some trees have no document — byte arrays, variants
  that carry data, tables within sections — and are here all the same, so that refusing them is
  part of the library.

  Mathlib-free.
-/
import IniFile.Number.Decimal
import IniFile.Number.Integer

namespace IniFile

/-- Data to be written. -/
inductive Tree where
  | bool (b : Bool)
  | integer (n : Int)
  | single (x : Single)
  | double (x : Double)
  | char (c : Char)
  | text (t : Text)
  | unit
  /-- A variant without data. -/
  | variant (name : Text)
  /-- A variant with data of any kind. -/
  | variantWithData (name : Text)
  | bytes
  | absent
  | present (content : Tree)
  | newtype (content : Tree)
  | seq (items : List Tree)
  | map (entries : List (Tree × Tree))
  /-- A map that is given a value before any key. -/
  | valueOnly (value : Tree)
  | record (fields : List (Text × Tree))

/-- The text of a boolean. -/
def boolText (b : Bool) : Text := (if b then "true" else "false").toList

/-- The text of a tree that is a scalar. -/
def Tree.scalarText? : Tree → Option Text
  | .bool b => some (boolText b)
  | .integer n => some (integerText n)
  | .single x => some x.fractionText
  | .double x => some x.fractionText
  | .char c => some [c]
  | .text t => some t
  | .unit => some []
  | .variant name => some name
  | _ => none

end IniFile
