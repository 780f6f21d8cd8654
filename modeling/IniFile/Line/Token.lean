/-
  From text to lines.

  Lines end at a line feed; ONE carriage return in front of it belongs to the ending, and so does one
  at the very end of the text.  Nothing after the last line feed is no line.  A byte order mark is
  dropped at the start of the text and only there.

  `tokens` numbers the lines from one and scans each of them on its own: a faulty line does not
  disturb the next.

  Mathlib-free.
-/
import IniFile.Line.Scan

namespace IniFile

/-- The byte order mark. -/
def bom : Char := '\ufeff'

namespace Text

/-- The text without a leading byte order mark. -/
def dropBom : Text → Text
  | [] => []
  | c :: rest => if c = bom then rest else c :: rest

/-- The pieces that end at a line feed, and what is left after the last one if there is anything. -/
def pieces : Text → List Text
  | [] => []
  | c :: rest =>
    if c = '\n' then [] :: pieces rest
    else
      match pieces rest with
      | [] => [[c]]
      | piece :: more => (c :: piece) :: more

/-- The piece without one carriage return at its end. -/
def dropReturn (piece : Text) : Text :=
  if piece.getLast? = some '\r' then piece.dropLast else piece

/-- The lines of a text, without their endings. -/
def lines (t : Text) : List Text := t.pieces.map dropReturn

end Text

/-- A line of a text: its number, the column it is about, the line as written and what it says. -/
structure Token where
  line : Nat
  column : Nat
  raw : Text
  content : Content
deriving DecidableEq, Repr

/-- The token of the line with the given number. -/
def Token.ofLine (d : Dialect) (line : Nat) (raw : Text) : Token :=
  let (content, column) := Line.scan d raw
  ⟨line, column, raw, content⟩

/-- The tokens of lines that are numbered from `first` on. -/
def tokensFrom (d : Dialect) (first : Nat) : List Text → List Token
  | [] => []
  | raw :: rest => .ofLine d first raw :: tokensFrom d (first + 1) rest

/-- The tokens of a text, one a line. -/
def tokens (d : Dialect) (t : Text) : List Token := tokensFrom d 1 t.dropBom.lines

end IniFile
