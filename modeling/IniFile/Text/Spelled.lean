/-
  Characters and texts as a message shows them.

  A message that names a character puts it in single quotes, one that names a text in double
  quotes.  Inside, the usual escapes stand for NUL, tab, line feed, carriage return, the backslash
  and the quote in use; characters that would not show are spelled by their code point.

  Mathlib-free.
-/
import IniFile.Text.Basic
import IniFile.Text.PrintTable

namespace IniFile.Text

/-- The code point of a character in hexadecimal, as `\u`, an opening brace, the digits and a
    closing brace. -/
def codePoint (c : Char) : Text :=
  ['\\', 'u', '\x7b'] ++ Nat.toDigits 16 c.toNat ++ ['\x7d']

/-- Is the character one that does not show by itself? -/
def isHidden (c : Char) : Bool :=
  spelledRanges.any fun range => range.1 ≤ c.toNat && c.toNat ≤ range.2

/-- A character between quotes of the given kind. -/
def spellChar (quote c : Char) : Text :=
  if c = '\x00' then ['\\', '0']
  else if c = '\t' then ['\\', 't']
  else if c = '\n' then ['\\', 'n']
  else if c = '\r' then ['\\', 'r']
  else if c = '\\' || c = quote then ['\\', c]
  else if isHidden c then codePoint c
  else [c]

/-- A character as a message shows it: in single quotes. -/
def quotedChar (c : Char) : Text := ['\''] ++ spellChar '\'' c ++ ['\'']

/-- A text as a message shows it: in double quotes. -/
def quotedText (t : Text) : Text := ['"'] ++ t.flatMap (spellChar '"') ++ ['"']

example : quotedChar '\u0301' = "'\\u\x7b301\x7d'".toList := by decide +kernel
example : quotedChar '\u3164' = "'\\u\x7b3164\x7d'".toList := by decide +kernel
example : quotedChar '\uff9e' = "'\uff9e'".toList := by decide +kernel
example : quotedText "a'\"".toList = "\"a'\\\"\"".toList := by decide +kernel

end IniFile.Text
