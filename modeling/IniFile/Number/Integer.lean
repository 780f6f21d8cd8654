/-
  Integer literals.

  A literal is an optional sign, an optional prefix `0x`, `0o` or `0b` in either letter case, and
  one or more digits of that radix (ten without a prefix).  The number it denotes must lie in the
  range of the width asked for; `-0` is fine for an unsigned width.

  Mathlib-free.
-/
import IniFile.Number.Fault

namespace IniFile

/-! ## Widths -/

/-- A fixed width of integers: signed or not, and the number of bits. -/
structure Width where
  signed : Bool
  bits : Nat
deriving DecidableEq, Repr

namespace Width

/-- The number of integers of a width that are not negative. -/
def half (w : Width) : Nat := Nat.pow 2 (if w.signed then w.bits - 1 else w.bits)

/-- The least integer of a width. -/
def least (w : Width) : Int := if w.signed then -(w.half : Int) else 0

/-- The greatest integer of a width. -/
def greatest (w : Width) : Int := (w.half : Int) - 1

/-- Is the integer in the range of the width? -/
def holds (w : Width) (n : Int) : Bool := w.least ≤ n && n ≤ w.greatest

/-- The width of plain integers: signed, sixty-four bits. -/
def plain : Width := ⟨true, 64⟩

end Width

/-! ## Digits -/

/-- The value of a digit in a radix of at most sixteen; letters count in either case. -/
def digitValue? (radix : Nat) (c : Char) : Option Nat :=
  let value? :=
    if c.isDigit then some (c.toNat - '0'.toNat)
    else if 'a' ≤ c ∧ c ≤ 'f' then some (c.toNat - 'a'.toNat + 10)
    else if 'A' ≤ c ∧ c ≤ 'F' then some (c.toNat - 'A'.toNat + 10)
    else none
  value?.filter (· < radix)

/-- The number that digits denote, the most significant digit first; other characters count as
    zero. -/
def ofDigits (radix : Nat) (digits : Text) : Nat :=
  digits.foldl (fun n c => n * radix + (digitValue? radix c).getD 0) 0

/-- The decimal text of an integer. -/
def integerText (n : Int) : Text :=
  (if n < 0 then ['-'] else []) ++ Nat.toDigits 10 n.natAbs

/-! ## Literals -/

/-- The sign that a text starts with, and the rest; no sign counts as plus. -/
def takeSign : Text → Bool × Text
  | '-' :: rest => (true, rest)
  | '+' :: rest => (false, rest)
  | t => (false, t)

/-- The radix that the prefix announces, and the digits after it. -/
def takeRadix : Text → Nat × Text
  | '0' :: c :: rest =>
    if c = 'x' ∨ c = 'X' then (16, rest)
    else if c = 'o' ∨ c = 'O' then (8, rest)
    else if c = 'b' ∨ c = 'B' then (2, rest)
    else (10, '0' :: c :: rest)
  | t => (10, t)

/-- The integer that a literal denotes, of any size. -/
def readInteger (raw : Text) : Except CoercionFault Int :=
  let (negative, unsigned) := takeSign raw
  let (radix, digits) := takeRadix unsigned
  if digits.isEmpty then .error .noDigits
  else
    match digits.find? fun c => (digitValue? radix c).isNone with
    | some bad => .error (.invalidDigit bad)
    | none =>
      let magnitude : Int := ofDigits radix digits
      .ok (if negative then -magnitude else magnitude)

/-- The integer of the given width that a literal denotes. -/
def Width.read (w : Width) (raw : Text) : Except CoercionFault Int := do
  let n ← readInteger raw
  if w.holds n then .ok n else .error .outOfRange

example : (Width.read ⟨true, 8⟩ "-0x80".toList).toOption = some (-128) := by decide +kernel
example : (Width.read ⟨false, 8⟩ "256".toList).toOption = none := by decide +kernel

end IniFile
