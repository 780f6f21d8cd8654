/-
  Errors.

  Every failure is a CAUSE: a constructor with the names, characters and positions it is about.
  The wording is given once, in the `message` functions.

  1. `LineFault` — a line that does not follow the grammar.
  2. `ReadFault`, `WriteFault` — data that does not fit a document, or a document that does not fit
     the data asked for.
  3. `Error` — everything the library can report.
  4. `Diagnostic` — a line that was skipped, with the position and the error.

  Mathlib-free.
-/
import IniFile.Number.Fault

namespace IniFile

/-! ## Faulty lines -/

/-- What text may stand in front of a comment or the end of the line. -/
inductive Closed where
  | header
  | quotedValue
deriving DecidableEq, Repr

/-- What is wrong with a line. -/
inductive LineFault where
  | unterminatedHeader
  | emptySectionName
  | missingDelimiter (delimiter : Char)
  | emptyKey
  | unterminatedValue
  | invalidEscape (escaped : Char)
  | stray (after : Closed)
  /-- The line is below a header that was rejected. -/
  | rejectedSection (key : Text)
  /-- A fault described in words. -/
  | stated (reason : Text)
deriving DecidableEq, Repr

/-- What the text is called after which nothing may stand but a comment. -/
def Closed.message : Closed → Text
  | .header => "section header".toList
  | .quotedValue => "quoted value".toList

/-- The fault in words. -/
def LineFault.message : LineFault → Text
  | .unterminatedHeader => "unterminated section header".toList
  | .emptySectionName => "empty section name".toList
  | .missingDelimiter delimiter => "missing delimiter '".toList ++ [delimiter, '\'']
  | .emptyKey => "empty key".toList
  | .unterminatedValue => "unterminated quoted value".toList
  | .invalidEscape escaped => "invalid escape sequence '".toList ++ ['\\', escaped, '\'']
  | .stray after => "unexpected characters after ".toList ++ after.message
  | .rejectedSection key =>
    "key '".toList ++ key ++ "' belongs to a rejected duplicate section".toList
  | .stated reason => reason

/-! ## Data that does not fit -/

/-- What was found where something else was asked for. -/
inductive Found where
  | table
  | text (content : Text)
  | unitVariant
deriving DecidableEq, Repr

/-- What was found, in words. -/
def Found.message : Found → Text
  | .table => "map".toList
  | .text content => "string ".toList ++ Text.quotedText content
  | .unitVariant => "unit variant".toList

/-- Why a document does not fit the shape asked for. -/
inductive ReadFault where
  | unexpected (found : Found) (expected : Text)
  | unsuitable (found : Found) (expected : Text)
  | tooFew (count : Nat) (expected : Text)
  | unknownField (name : Text) (known : List Text)
  | unknownVariant (name : Text) (known : List Text)
  | duplicateField (name : Text)
  | missingField (name : Text)
  | notEmpty (value : Text)
  | nestedTable
  | valueBeforeKey
deriving DecidableEq, Repr

/-- Why data has no document. -/
inductive WriteFault where
  | notATable
  | byteArray
  | variantWithData (name : Text)
  | listOfLists
  | tooDeep
  | unusableKey
  | valueWithoutKey
deriving DecidableEq, Repr

/-- A name in backquotes. -/
def backquoted (name : Text) : Text := ['\x60'] ++ name ++ ['\x60']

/-- The names that would have been known: one, two, or a list of them. -/
def alternatives (noun : Text) : List Text → Text
  | [] => "there are no ".toList ++ noun
  | [a] => "expected ".toList ++ backquoted a
  | [a, b] => "expected ".toList ++ backquoted a ++ " or ".toList ++ backquoted b
  | names => "expected one of ".toList ++ List.intercalate ", ".toList (names.map backquoted)

/-- The fault in words. -/
def ReadFault.message : ReadFault → Text
  | .unexpected found expected =>
    "invalid type: ".toList ++ found.message ++ ", expected ".toList ++ expected
  | .unsuitable found expected =>
    "invalid value: ".toList ++ found.message ++ ", expected ".toList ++ expected
  | .tooFew count expected =>
    "invalid length ".toList ++ Nat.toDigits 10 count ++ ", expected ".toList ++ expected
  | .unknownField name known =>
    "unknown field ".toList ++ backquoted name ++ ", ".toList ++ alternatives "fields".toList known
  | .unknownVariant name known =>
    "unknown variant ".toList ++ backquoted name ++ ", ".toList ++
      alternatives "variants".toList known
  | .duplicateField name => "duplicate field ".toList ++ backquoted name
  | .missingField name => "missing field ".toList ++ backquoted name
  | .notEmpty value => "expected an empty value, found '".toList ++ value ++ ['\'']
  | .nestedTable =>
    "INI values cannot hold nested tables; only sections may contain keys".toList
  | .valueBeforeKey => "next_value_seed called before next_key_seed".toList

/-- The fault in words. -/
def WriteFault.message : WriteFault → Text
  | .notATable => "top-level value must serialize as a struct or map".toList
  | .byteArray => "byte arrays have no INI representation".toList
  | .variantWithData name =>
    "enum variant '".toList ++ name ++ "' carries data and has no INI representation".toList
  | .listOfLists => "multi-valued entries can only hold scalars".toList
  | .tooDeep =>
    "INI supports one level of sections; nested tables are not representable".toList
  | .unusableKey => "map keys must be non-empty scalars".toList
  | .valueWithoutKey => "serialize_value called without serialize_key".toList

/-! ## All errors -/

/-- Everything that can go wrong.  Lines are counted from one; a duplicate that no line caused has
    none. -/
inductive Error where
  /-- A reader or writer outside the library failed. -/
  | outside (reason : Text)
  | malformed (line column : Nat) (fault : LineFault)
  | duplicateKey (sectionName key : Text) (line : Option Nat)
  | duplicateSection (name : Text) (line : Option Nat)
  | sectionNotFound (name : Text)
  | keyNotFound (sectionName key : Text)
  | coercion (value expected : Text) (fault : CoercionFault)
  | reading (fault : ReadFault)
  | writing (fault : WriteFault)
  /-- An error described in words. -/
  | stated (reason : Text)
deriving DecidableEq, Repr

namespace Error

/-- The line at fault, when there is one. -/
def line? : Error → Option Nat
  | .malformed line _ _ => some line
  | .duplicateKey _ _ line => line
  | .duplicateSection _ line => line
  | _ => none

/-- The column at fault; errors about a whole line are at its first column. -/
def column : Error → Nat
  | .malformed _ column _ => column
  | _ => 1

/-- The end of a message about a line that may be unknown. -/
def atLine : Option Nat → Text
  | some line => " at line ".toList ++ Nat.toDigits 10 line
  | none => []

/-- The error in words. -/
def message : Error → Text
  | .outside reason => "IO error: ".toList ++ reason
  | .malformed line column fault =>
    "Syntax error at line ".toList ++ Nat.toDigits 10 line ++ ", column ".toList ++
      Nat.toDigits 10 column ++ ": ".toList ++ fault.message
  | .duplicateKey sectionName key line =>
    "Duplicate key '".toList ++ key ++ "' in section '".toList ++ sectionName ++ ['\''] ++
      atLine line
  | .duplicateSection name line => "Duplicate section '".toList ++ name ++ ['\''] ++ atLine line
  | .sectionNotFound name => "Section not found: '".toList ++ name ++ ['\'']
  | .keyNotFound sectionName key =>
    "Key '".toList ++ key ++ "' not found in section '".toList ++ sectionName ++ ['\'']
  | .coercion value expected fault =>
    "Cannot convert '".toList ++ value ++ "' to ".toList ++ expected ++ ": ".toList ++ fault.message
  | .reading fault => "Error: ".toList ++ fault.message
  | .writing fault => "Error: ".toList ++ fault.message
  | .stated reason => "Error: ".toList ++ reason

end Error

/-! ## Diagnostics -/

/-- A skipped line: where it is and what was wrong with it. -/
structure Diagnostic where
  line : Nat
  column : Nat
  error : Error
deriving DecidableEq, Repr

/-- The diagnostic of an error at the error's own position; an error without a line is at line
    zero. -/
def Diagnostic.ofError (e : Error) : Diagnostic := ⟨e.line?.getD 0, e.column, e⟩

end IniFile
