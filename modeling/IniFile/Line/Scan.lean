/-
  One line.

  A line is, in this order of precedence:

  1. blank, when nothing but blanks is on it;
  2. a comment, when its first other character is a comment marker;
  3. a section header, when that character is `[`; the name runs to the FIRST `]`;
  4. a key and a value otherwise, split at the first delimiter.

  A value that starts with a quote runs to the matching quote; any other value ends before the first
  comment marker.  Behind a header or a quoted value only blanks or a comment may stand.

  Each fault is placed where the text that it is about begins, and columns are counted from one:
  `columnAt line rest` is the column of the last part `rest` of the line.

  Mathlib-free.
-/
import IniFile.Line.Comment
import IniFile.Line.Quoted
import IniFile.Error

namespace IniFile

/-- What a line says. -/
inductive Content where
  | header (name : Text) (comment : Option Comment)
  | entry (key value : Text) (comment : Option Comment)
  | comment (comment : Comment)
  | blank
  | malformed (fault : LineFault)
deriving DecidableEq, Repr

/-- A fault and the part of the line that begins where it is. -/
structure Flaw where
  here : Text
  fault : LineFault
deriving DecidableEq, Repr

namespace Line

/-- The column at which the last part of a line begins. -/
def columnAt (line rest : Text) : Nat := line.length - rest.length + 1

/-! ## Behind the value -/

/-- What may follow a header or a quoted value: blanks, or blanks and a comment. -/
def scanTrailer (d : Dialect) (after : Closed) (rest : Text) : Except Flaw (Option Comment) :=
  match Text.trimStart rest with
  | [] => .ok none
  | c :: text =>
    if d.isMarker c then .ok (some (.of c text)) else .error ⟨c :: text, .stray after⟩

/-! ## Headers -/

/-- A section header; `body` is the line from the `[` on, which `inside` follows. -/
def scanHeader (d : Dialect) (body inside : Text) : Except Flaw Content :=
  match Text.cut (· = ']') inside with
  | none => .error ⟨body, .unterminatedHeader⟩
  | some (name, _, rest) =>
    if name.trim.isEmpty then .error ⟨body, .emptySectionName⟩
    else (scanTrailer d .header rest).map fun comment => .header name.trim comment

/-! ## Keys and values -/

/-- A value without quotes: it ends before the first comment marker. -/
def scanBare (d : Dialect) (text : Text) : Text × Option Comment :=
  match Text.cut d.isMarker text with
  | none => (text.trimEnd, none)
  | some (value, marker, rest) => (value.trimEnd, some (.of marker rest))

/-- A value and the comment behind it; the text starts with no blank. -/
def scanValue (d : Dialect) (text : Text) : Except Flaw (Text × Option Comment) :=
  match text with
  | [] => .ok ([], none)
  | c :: inside =>
    if Quoted.isQuote c then
      match Quoted.scan c inside with
      | .closed value rest =>
        (scanTrailer d .quotedValue rest).map fun comment => (value, comment)
      | .unterminated => .error ⟨c :: inside, .unterminatedValue⟩
      | .invalidEscape here escaped => .error ⟨here, .invalidEscape escaped⟩
    else .ok (scanBare d (c :: inside))

/-- A key and its value; `body` is the line without its leading blanks. -/
def scanEntry (d : Dialect) (body : Text) : Except Flaw Content :=
  match Text.cut (· = d.delimiter.char) body with
  | none => .error ⟨body, .missingDelimiter d.delimiter.char⟩
  | some (key, _, rest) =>
    if key.trim.isEmpty then .error ⟨body, .emptyKey⟩
    else (scanValue d rest.trimStart).map fun (value, comment) => .entry key.trim value comment

/-! ## The line -/

/-- What a line says, or the flaw in it; `body` is the line without its leading blanks. -/
def scanBody (d : Dialect) (body : Text) : Except Flaw Content :=
  match body with
  | [] => .ok .blank
  | c :: rest =>
    if d.isMarker c then .ok (.comment (.of c rest))
    else if c = '[' then scanHeader d body rest
    else scanEntry d body

/-- The content of a line and its column: that of the first character that is not blank, or that of
    the flaw.  A blank line is at column one. -/
def scan (d : Dialect) (line : Text) : Content × Nat :=
  match scanBody d line.trimStart with
  | .ok .blank => (.blank, 1)
  | .ok content => (content, columnAt line line.trimStart)
  | .error flaw => (.malformed flaw.fault, columnAt line flaw.here)

end Line
end IniFile
