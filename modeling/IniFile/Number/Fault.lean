/-
  Why a text is not a value of the kind asked for.

  Mathlib-free.
-/
import IniFile.Text.Spelled

namespace IniFile

/-- The reason for which a text cannot be read as a value of some kind. -/
inductive CoercionFault where
  | noDigits
  | invalidDigit (digit : Char)
  | emptyExponent
  | trailingCharacters
  | outOfRange
  | notBoolean
  | notOneCharacter
  /-- A reason given in words. -/
  | stated (reason : Text)
deriving DecidableEq, Repr

/-- The reason in words. -/
def CoercionFault.message : CoercionFault → Text
  | .noDigits => "no digits".toList
  | .invalidDigit digit => "invalid digit ".toList ++ Text.quotedChar digit
  | .emptyExponent => "empty exponent".toList
  | .trailingCharacters => "unexpected characters after number".toList
  | .outOfRange => "out of range".toList
  | .notBoolean => "not a recognised boolean literal".toList
  | .notOneCharacter => "expected exactly one character".toList
  | .stated reason => reason

end IniFile
