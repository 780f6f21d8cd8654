/-
  Shapes of typed data.

  A program that fills its own types from a document asks for data of a certain SHAPE: scalars,
  optional values, sequences, tuples, maps, records and choices.  `Reading` is what such a request
  comes to when it is granted.

  Names of structs and choices are part of a shape only because messages mention them.

  Mathlib-free.
-/
import IniFile.Scalar

namespace IniFile

/-! ## Requests -/

/-- What a variant of a choice carries.  A document can only name a variant, so all but the first
    are refused. -/
inductive VariantForm where
  | unit
  | newtype
  | tuple
  | record
deriving DecidableEq, Repr

/-- A field of a record: its name, what is asked for, and whether it may be left out. -/
structure Field (α : Type) where
  name : Text
  content : α
  hasDefault : Bool

/-- The shape of the data asked for. -/
inductive Shape where
  | bool
  | integer (width : Width)
  | single
  | double
  | char
  | text
  /-- Text that is not copied out of the document. -/
  | borrowedText
  | bytes
  | unit
  | unitStruct (name : Text)
  | ignored
  | identifier
  /-- Whatever the document holds. -/
  | any
  | option (content : Shape)
  | newtype (name : Text) (content : Shape)
  | seq (item : Shape)
  | tuple (items : List Shape)
  | tupleStruct (name : Text) (items : List Shape)
  | map (key value : Shape)
  /-- A map of which a value is asked before any key. -/
  | valueFirst (value : Shape)
  | record (name : Text) (fields : List (Field Shape)) (denyUnknown : Bool)
  | choice (name : Text) (variants : List (Text × VariantForm))

/-- Is the shape an optional value? -/
def Shape.isOption : Shape → Bool
  | .option _ => true
  | _ => false

/-- How many elements there are, in words. -/
def elementCount (n : Nat) : Text :=
  Nat.toDigits 10 n ++ (if n = 1 then " element" else " elements").toList

/-- The shape as a message names it. -/
def Shape.message : Shape → Text
  | .bool => "a boolean".toList
  | .integer width => width.name
  | .single => "f32".toList
  | .double => "f64".toList
  | .char => "a character".toList
  | .text => "a string".toList
  | .borrowedText => "a borrowed string".toList
  | .bytes => "a byte array".toList
  | .unit => "unit".toList
  | .unitStruct name => "unit struct ".toList ++ name
  | .ignored => "anything".toList
  | .identifier => "identifier".toList
  | .any => "any value".toList
  | .option _ => "option".toList
  | .newtype name _ => "tuple struct ".toList ++ name
  | .seq _ => "a sequence".toList
  | .tuple items => "a tuple of size ".toList ++ Nat.toDigits 10 items.length
  | .tupleStruct name items =>
    "tuple struct ".toList ++ name ++ " with ".toList ++ elementCount items.length
  | .map _ _ => "a map".toList
  | .valueFirst _ => "a map".toList
  | .record name _ _ => "struct ".toList ++ name
  | .choice name _ => "enum ".toList ++ name

/-- The form of a variant as a message names it. -/
def VariantForm.message : VariantForm → Text
  | .unit => "unit variant".toList
  | .newtype => "newtype variant".toList
  | .tuple => "tuple variant".toList
  | .record => "struct variant".toList

/-! ## Granted requests -/

/-- Data that was read. -/
inductive Reading where
  | datum (x : Datum)
  | text (t : Text)
  | bytes (bytes : List UInt8)
  | unit
  | unitStruct
  | ignored
  | identifier (name : Text)
  /-- A scalar that described itself. -/
  | scalar (x : Scalar)
  /-- A sequence that described itself. -/
  | openSeq (items : List Reading)
  /-- A table that described itself. -/
  | openMap (entries : List (Text × Reading))
  | present (content : Reading)
  /-- An optional field that was not there. -/
  | absent
  /-- A field that was not there and has a default. -/
  | defaulted
  | newtype (content : Reading)
  | list (items : List Reading)
  | pairs (entries : List (Reading × Reading))
  | record (fields : List (Text × Reading))
  | variant (name : Text)

end IniFile
