/-
  Quoted values.

  A value that would not read back as it stands is written between double quotes:

  - `quoteIfNeeded` decides, and writes the value bare whenever it can;
  - `encode` writes a backslash in front of `"` and `\`, and `\n`, `\r`, `\t` for the three control
    characters that have a short form;
  - `scan` reads a quoted value back, in either kind of quote, up to the closing one.

  Mathlib-free.
-/
import IniFile.Dialect

namespace IniFile.Quoted

/-! ## Writing -/

/-- One character of a value between double quotes. -/
def encodeChar (c : Char) : Text :=
  if c = '"' then ['\\', '"']
  else if c = '\\' then ['\\', '\\']
  else if c = '\n' then ['\\', 'n']
  else if c = '\r' then ['\\', 'r']
  else if c = '\t' then ['\\', 't']
  else [c]

/-- The value between double quotes. -/
def encode (value : Text) : Text := ['"'] ++ value.flatMap encodeChar ++ ['"']

/-- Is the character one of the two quotes? -/
def isQuote (c : Char) : Bool := c = '"' || c = '\''

/-- Must the value be quoted?  Blanks at an end would be trimmed, a quote in front would open a
    quoted value, and a marker or a control character would end or break the bare one.  A delimiter
    is quoted for the reader's sake. -/
def needsQuotes (d : Dialect) (value : Text) : Bool :=
  value.trim != value ||
  value.head?.any isQuote ||
  value.any fun c => c = d.delimiter.char || d.isMarker c || isControl c

/-- The value as it must stand after the delimiter. -/
def quoteIfNeeded (d : Dialect) (value : Text) : Text :=
  if needsQuotes d value then encode value else value

/-! ## Reading -/

/-- The character that a backslash and the given character stand for. -/
def unescape? (c : Char) : Option Char :=
  if c = '"' then some '"'
  else if c = '\'' then some '\''
  else if c = '\\' then some '\\'
  else if c = 'n' then some '\n'
  else if c = 'r' then some '\r'
  else if c = 't' then some '\t'
  else none

/-- What comes of reading a quoted value. -/
inductive Outcome where
  /-- The decoded value, and the text after the closing quote. -/
  | closed (value rest : Text)
  /-- The text ends before the closing quote. -/
  | unterminated
  /-- A backslash, where `here` begins, stands before a character that it does not escape. -/
  | invalidEscape (here : Text) (escaped : Char)
deriving DecidableEq, Repr

/-- The outcome with one more character in front of the value. -/
def Outcome.push (c : Char) : Outcome → Outcome
  | .closed value rest => .closed (c :: value) rest
  | other => other

/-- Reads a value up to the closing quote; the opening one is already read. -/
def scan (quote : Char) : Text → Outcome
  | [] => .unterminated
  | ['\\'] => .unterminated
  | '\\' :: c :: rest =>
    match unescape? c with
    | some decoded => (scan quote rest).push decoded
    | none => .invalidEscape ('\\' :: c :: rest) c
  | c :: rest => if c = quote then .closed [] rest else (scan quote rest).push c

example : scan '"' "a\\n\" ; c".toList = .closed "a\n".toList " ; c".toList := by decide
example : quoteIfNeeded .standard "C:\\dir".toList = "C:\\dir".toList := by decide +kernel
example : quoteIfNeeded .standard "a;b".toList = "\"a;b\"".toList := by decide +kernel

end IniFile.Quoted
