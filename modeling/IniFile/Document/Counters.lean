/-
  Counters in words.

  Sections are numbered by a counter of their document, and entries by one of their section.
  `Document` counts without end, but a program has words of 32 bits to count in, and after 2^32
  sections, or 2^32 entries of one section, the next number does not fit: the program stops, or it
  gives out numbers for the second time.

  Here the counters are brought back to words after every step and, in reading, after every line.
  That is as good as after every count.  No counter is moved twice by one step or one line, so the
  number that does not fit has not been given out when its counter is settled.

  Mathlib-free.
-/
import IniFile.Document.Reader
import IniFile.Document.Step
import IniFile.Overflow

namespace IniFile

/-! ## Words -/

/-- The section with what is left of its counter in a word. -/
def Section.wrapped (s : Section) : Section := { s with nextEntry := s.nextEntry % UInt32.size }

namespace Document

/-- Every counter of the document is below a bound. -/
structure Below (n : Nat) (doc : Document) : Prop where
  sections : doc.nextSection < n
  global : doc.global.nextEntry < n
  entries : ∀ s ∈ doc.sections.values, s.nextEntry < n

instance (n : Nat) (doc : Document) : Decidable (doc.Below n) :=
  decidable_of_iff (doc.nextSection < n ∧ doc.global.nextEntry < n ∧
      ∀ s ∈ doc.sections.values, s.nextEntry < n)
    ⟨fun ⟨hsections, hglobal, hentries⟩ => ⟨hsections, hglobal, hentries⟩,
      fun h => ⟨h.sections, h.global, h.entries⟩⟩

/-- The document with what is left of its counters in words. -/
def wrapped (doc : Document) : Document :=
  { doc with
    global := doc.global.wrapped
    sections := doc.sections.mapValues Section.wrapped
    nextSection := doc.nextSection % UInt32.size }

/-- The document with its counters in words, if the program goes on. -/
def settle (doc : Document) : Overflow → Option Document
  | .stops => if doc.Below UInt32.size then some doc else none
  | .wraps => some doc.wrapped

/-! ## Histories -/

/-- The document after a list of steps, with counters in words; none if the program stops. -/
def afterInWords (o : Overflow) (doc : Document) : List Step → Option Document
  | [] => some doc
  | step :: rest => do afterInWords o (← (step.run doc).2.settle o) rest

end Document

/-! ## Reading -/

namespace Reader

/-- The reader with the counters of its document in words, if the program goes on. -/
def settle (r : Reader) (o : Overflow) : Option Reader := do
  return { r with document := ← r.document.settle o }

/-- Reads line after line with counters in words; none if the program stops. -/
def runInWords (o : Overflow) (mode : Mode) (r : Reader) : List Token → Option (Except Error Reader)
  | [] => some (.ok r)
  | token :: rest =>
    match r.accept token, mode with
    | (next, none), _ => do runInWords o mode (← next.settle o) rest
    | (_, some e), .strict => some (.error e)
    | (next, some e), .lenient => do runInWords o mode (← (next.skip token e).settle o) rest

end Reader

/-- Reads a text with counters in words; none if the program stops. -/
def parseInWords (o : Overflow) (d : Dialect) (text : Text) : Option (Except Error Parsed) :=
  ((Reader.start d).runInWords o d.mode (tokens d text)).map (·.map (·.finish text))

end IniFile
