/-
  Float literals.

  A literal is an optional sign, digits with an optional point (at least one digit in all), and an
  optional exponent: `e` or `E`, an optional sign and one or more digits.  Words such as `inf` are
  no literals.  `Numeral.scan` decides the grammar and names the first thing that is wrong;
  `Numeral.read` gives the nearest number of a format and refuses what is too large to be finite.

  Whether there is a digit is asked of the digits that were taken.  A program that counts them in a
  word of 32 bits is right about that up to 2^31 digits (`Numeral.Scanner`).

  Mathlib-free.
-/
import IniFile.Number.Decimal
import IniFile.Number.Integer

namespace IniFile

/-- The parts of a float literal. -/
structure Numeral where
  negative : Bool
  whole : Text
  fraction : Text
  exponentNegative : Bool
  exponent : Text
deriving DecidableEq, Repr

namespace Numeral

/-- The digits that a text starts with, and the rest. -/
def takeDigits (t : Text) : Text × Text := (t.takeWhile Char.isDigit, t.dropWhile Char.isDigit)

/-- The digits after a point, if the text starts with one, and the rest. -/
def takeFraction : Text → Text × Text
  | '.' :: rest => takeDigits rest
  | t => ([], t)

/-- The parts of a literal, or the first thing that is wrong: no digit before the exponent, no digit
    in the exponent, or text after the end, in this order. -/
def scan (raw : Text) : Except CoercionFault Numeral :=
  let (negative, unsigned) := takeSign raw
  let (whole, afterWhole) := takeDigits unsigned
  let (fraction, afterFraction) := takeFraction afterWhole
  if whole.isEmpty && fraction.isEmpty then .error .noDigits
  else
    match afterFraction with
    | [] => .ok ⟨negative, whole, fraction, false, []⟩
    | mark :: afterMark =>
      if mark = 'e' ∨ mark = 'E' then
        let (exponentNegative, afterSign) := takeSign afterMark
        let (exponent, rest) := takeDigits afterSign
        if exponent.isEmpty then .error .emptyExponent
        else if rest.isEmpty then .ok ⟨negative, whole, fraction, exponentNegative, exponent⟩
        else .error .trailingCharacters
      else .error .trailingCharacters

/-- The decimal number that a literal denotes, without its sign. -/
def decimal (x : Numeral) : Decimal :=
  let shift : Int := ofDigits 10 x.exponent
  ⟨ofDigits 10 (x.whole ++ x.fraction),
    (if x.exponentNegative then -shift else shift) - x.fraction.length⟩

/-- The finite number of the format nearest to a literal. -/
def read (f : Format) (raw : Text) : Except CoercionFault (Binary f) := do
  let x ← scan raw
  let value := x.decimal.toBinary f x.negative
  if value.isFinite then .ok value else .error .outOfRange

end Numeral

example : ((Numeral.read .double "5.e-1".toList).toOption.map Binary.text)
    = some "0.5".toList := by decide +kernel
example : (Numeral.read .double "1e400".toList).toOption = none := by decide +kernel

end IniFile
