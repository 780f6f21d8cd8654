/-
  Scalars and their text.

  INI stores every value as text; this file turns text into typed values and back.

  1. `Scalar` — a boolean, an integer, a float or a text.  `Scalar.raw` is its canonical text, and
     `Scalar.infer` the most specific scalar that a text stands for: integers come FIRST, then
     floats, then the standard boolean words.
  2. `Kind` — what a caller may ask a text to be, and `Kind.read`, which answers with a `Datum` or
     says why the text is none.

  Mathlib-free.
-/
import IniFile.Dialect
import IniFile.Error
import IniFile.Number.Numeral

namespace IniFile

/-! ## Reading text as one kind of value -/

/-- Names the text and the kind that was expected in a fault. -/
def expecting {α : Type} (raw expected : Text) (result : Except CoercionFault α) : Except Error α :=
  result.mapError (.coercion raw expected)

/-- The boolean that a word stands for. -/
def readBool (words : Literals) (raw : Text) : Except Error Bool :=
  match words.meaning? raw with
  | some b => .ok b
  | none => .error (.coercion raw "boolean".toList .notBoolean)

/-- The integer of sixty-four bits that a literal denotes. -/
def readPlainInteger (raw : Text) : Except Error Int :=
  expecting raw "integer".toList (Width.plain.read raw)

/-- The float of sixty-four bits that a literal denotes. -/
def readDouble (raw : Text) : Except Error Double :=
  expecting raw "float".toList (Numeral.read .double raw)

/-- The float of thirty-two bits that a literal denotes. -/
def readSingle (raw : Text) : Except Error Single :=
  expecting raw "f32".toList (Numeral.read .single raw)

/-- The one character of a text. -/
def readChar (raw : Text) : Except Error Char :=
  match raw with
  | [c] => .ok c
  | _ => .error (.coercion raw "char".toList .notOneCharacter)

/-! ## Scalars -/

/-- A typed value. -/
inductive Scalar where
  | bool (b : Bool)
  | integer (n : Int64)
  | float (x : Double)
  | text (t : Text)
deriving DecidableEq

namespace Scalar

/-- The **canonical text** of a scalar.  A float never looks like an integer; a text stands for
    itself. -/
def raw : Scalar → Text
  | .bool true => "true".toList
  | .bool false => "false".toList
  | .integer n => integerText n.toInt
  | .float x => x.fractionText
  | .text t => t

/-- The most specific scalar that a text stands for. -/
def infer (raw : Text) : Scalar :=
  match Width.plain.read raw with
  | .ok n => .integer (Int64.ofInt n)
  | .error _ =>
    match Numeral.read .double raw with
    | .ok x => .float x
    | .error _ =>
      match Literals.standard.meaning? raw with
      | some b => .bool b
      | none => .text raw

/-- The boolean of a boolean scalar. -/
def bool? : Scalar → Option Bool
  | .bool b => some b
  | _ => none

/-- The integer of an integer scalar. -/
def integer? : Scalar → Option Int64
  | .integer n => some n
  | _ => none

/-- The number of a float, or the nearest one to an integer. -/
def float? : Scalar → Option Double
  | .float x => some x
  | .integer n => some (.ofInt .double n.toInt)
  | _ => none

/-- The text of a text scalar. -/
def text? : Scalar → Option Text
  | .text t => some t
  | _ => none

/-- Is the scalar a boolean? -/
def isBool (x : Scalar) : Bool := x.bool?.isSome

/-- Is the scalar an integer? -/
def isInteger (x : Scalar) : Bool := x.integer?.isSome

/-- Is the scalar a float? -/
def isFloat : Scalar → Bool
  | .float _ => true
  | _ => false

/-- Is the scalar a text? -/
def isText (x : Scalar) : Bool := x.text?.isSome

end Scalar

/-! ## Kinds -/

/-- What a caller may ask a text to be.  `address` is the integer width of a machine address. -/
inductive Kind where
  | bool
  | integer (width : Width)
  | address (signed : Bool)
  | single
  | double
  | char
  | text
  | scalar
deriving DecidableEq, Repr

/-- A value of some kind. -/
inductive Datum where
  | bool (b : Bool)
  | integer (n : Int)
  | single (x : Single)
  | double (x : Double)
  | char (c : Char)
  | text (t : Text)
  | scalar (x : Scalar)
deriving DecidableEq

/-- The name of an integer width. -/
def Width.name (w : Width) : Text := (if w.signed then 'i' else 'u') :: Nat.toDigits 10 w.bits

namespace Kind

/-- The width of a machine address. -/
def addressWidth (signed : Bool) : Width := ⟨signed, 64⟩

/-- The value of the kind that a text stands for; `words` are the boolean words in use. -/
def read (words : Literals) (raw : Text) : Kind → Except Error Datum
  | .bool => (readBool words raw).map .bool
  | .integer width => (expecting raw width.name (width.read raw)).map .integer
  | .address signed =>
    let name := (if signed then "isize" else "usize").toList
    (expecting raw name ((addressWidth signed).read raw)).map .integer
  | .single => (readSingle raw).map .single
  | .double => (readDouble raw).map .double
  | .char => (readChar raw).map .char
  | .text => .ok (.text raw)
  | .scalar => .ok (.scalar (.infer raw))

end Kind

example : Scalar.infer "0x10".toList = .integer 16 := by decide +kernel
example : Scalar.infer "-0".toList = .integer 0 := by decide +kernel
example : (Scalar.infer "1e2".toList).raw = "100.0".toList := by decide +kernel
example : Scalar.infer "Off".toList = .bool false := by decide +kernel

end IniFile
