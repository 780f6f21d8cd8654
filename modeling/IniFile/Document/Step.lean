/-
  Steps on a document.

  Everything that can be done to a document, as data: look-ups, changes through the document, and
  changes made directly to a section or an entry in it.  A step gives an answer or an error, and a
  document to go on with; an error changes nothing, and neither does a look-up.

  A history is a list of steps, so that what holds after EVERY history is said by recursion on a
  list.

  Mathlib-free.
-/
import IniFile.Document.Content
import IniFile.Document.Page

namespace IniFile

/-! ## Answers -/

/-- A section in brief, and whether it has a certain key. -/
structure SectionSummary where
  name : Text
  isGlobal : Bool
  size : Nat
  isEmpty : Bool
  keys : List Text
  contains : Bool
deriving DecidableEq, Repr

/-- An entry under all its typed views.  `boolUnder` is read with the document's boolean words,
    `bool` with the standard ones. -/
structure EntrySummary where
  value : Text
  isMultiValued : Bool
  scalar : Scalar
  bool : Except Error Bool
  boolUnder : Except Error Bool
  integer : Except Error Datum
  double : Except Error Double

/-- What a step gives back. -/
inductive Answer where
  | done
  | flag (b : Bool)
  | count (n : Nat)
  | text (t : Text)
  | names (ts : List Text)
  | datum (x : Datum)
  | data (xs : List Datum)
  | entry (e : Option EntryContent)
  | sectionOf (s : Option SectionContent)
  | sectionSummary (s : SectionSummary)
  | entrySummary (e : EntrySummary)

/-- An entry as an answer. -/
def Answer.ofEntry (e : Entry) : Answer := .entry (some e.content)

/-- A section as an answer. -/
def Answer.ofSection (s : Section) : Answer := .sectionOf (some s.content)

/-! ## Look-ups -/

/-- A step that changes nothing. -/
inductive Query where
  | get (sectionName key : Text)
  | read (sectionName key : Text) (kind : Kind)
  | readD (sectionName key : Text) (kind : Kind) (default : Datum)
  | hasSection (name : Text)
  | hasKey (sectionName key : Text)
  | sectionNames
  | size
  | isEmpty
  | listing
  | render (rendering : Rendering)
  | getSection (name : Text)
  | findSection (name : Text)
  | getEntry (sectionName key : Text)
  | findEntry (sectionName key : Text)
  | summarizeSection (name key : Text)
  | summarizeEntry (sectionName key : Text)
  | readEntry (sectionName key : Text) (words : Literals) (kind : Kind)
  | readValues (sectionName key : Text) (kind : Kind)

/-- A section in brief. -/
def Section.summary (s : Section) (key : Text) : SectionSummary :=
  ⟨s.name, s.isGlobal, s.entries.size, s.entries.isEmpty, s.keys, s.contains key⟩

/-- An entry under all its typed views. -/
def Entry.summary (e : Entry) (words : Literals) : EntrySummary :=
  { value := e.value
    isMultiValued := e.isMultiValued
    scalar := e.scalar
    bool := readBool .standard e.value
    boolUnder := readBool words e.value
    integer := e.read .standard (.integer .plain)
    double := readDouble e.value }

/-- The answer to a look-up. -/
def Query.run (doc : Document) : Query → Except Error Answer
  | .get sectionName key => (doc.get sectionName key).map .text
  | .read sectionName key kind => (doc.read sectionName key kind).map .datum
  | .readD sectionName key kind default => .ok (.datum (doc.readD sectionName key kind default))
  | .hasSection name => .ok (.flag (doc.hasSection name))
  | .hasKey sectionName key => .ok (.flag (doc.hasKey sectionName key))
  | .sectionNames => .ok (.names doc.sectionNames)
  | .size => .ok (.count doc.size)
  | .isEmpty => .ok (.flag doc.isEmpty)
  | .listing => .ok (.text doc.listing)
  | .render rendering => .ok (.text (doc.render rendering))
  | .getSection name => (doc.getSection name).map .ofSection
  | .findSection name => .ok (.sectionOf ((doc.section? name).map Section.content))
  | .getEntry sectionName key => (doc.getEntry sectionName key).map .ofEntry
  | .findEntry sectionName key =>
    (doc.getSection sectionName).map fun s => .entry ((s.find? key).map Entry.content)
  | .summarizeSection name key =>
    (doc.getSection name).map fun s => .sectionSummary (s.summary key)
  | .summarizeEntry sectionName key =>
    (doc.getEntry sectionName key).map fun e => .entrySummary (e.summary doc.dialect.literals)
  | .readEntry sectionName key words kind => do
    return .datum (← (← doc.getEntry sectionName key).read words kind)
  | .readValues sectionName key kind => do
    return .data (← (← doc.getEntry sectionName key).readAll .standard kind)

/-! ## Changes of one section -/

/-- A change made directly to a section, of which the document is not told. -/
inductive SectionEdit where
  | insert (key value : Text)
  | set (key value : Text)
  | setScalar (key : Text) (x : Scalar)
  | append (key value : Text)
  | remove (key : Text)
  | clear
  | pushIfPresent (key value : Text)
  | pushAll (value : Text)
  | setValue (key value : Text)
  | setComment (key : Text) (comment : Option Comment)

namespace SectionEdit

/-- The entry of a key as an answer, or that there is none. -/
def answerEntry (s : Section) (key : Text) : Answer := .entry ((s.find? key).map Entry.content)

/-- Changes an entry that must be there. -/
def onEntry (s : Section) (key : Text) (change : Entry → Entry) :
    Except Error (Answer × Section) :=
  (s.get key).map fun _ => (answerEntry (s.modify key change) key, s.modify key change)

/-- The answer to a change, and the section after it. -/
def run (s : Section) : SectionEdit → Except Error (Answer × Section)
  | .insert key value => (s.insert key value).map fun next => (answerEntry next key, next)
  | .set key value => .ok (answerEntry (s.set key value) key, s.set key value)
  | .setScalar key x => .ok (answerEntry (s.set key x.raw) key, s.set key x.raw)
  | .append key value => .ok (answerEntry (s.append key value) key, s.append key value)
  | .remove key => (s.remove key).map fun (e, rest) => (.ofEntry e, rest)
  | .clear => .ok (.done, s.clear)
  | .pushIfPresent key value =>
    let next := s.modify key (·.pushValue value)
    .ok (answerEntry next key, next)
  | .pushAll value => .ok (.done, s.mapEntries (·.pushValue value))
  | .setValue key value => onEntry s key (·.setValue value)
  | .setComment key comment => onEntry s key (·.setComment comment)

end SectionEdit

/-! ## Changes of the document -/

/-- A change of a document. -/
inductive Edit where
  | set (sectionName key value : Text)
  | setScalar (sectionName key : Text) (x : Scalar)
  | remove (sectionName key : Text)
  | clear
  | insertSection (name : Text)
  | ensureSection (name : Text)
  | removeSection (name : Text)
  /-- The same key in every named section. -/
  | setEverywhere (key value : Text)
  /-- A change of a section that must be there. -/
  | inSection (name : Text) (edit : SectionEdit)
  /-- A key of a section, if that is there. -/
  | setIfSection (name key value : Text)

namespace Edit

/-- The section of a name as an answer, or that there is none. -/
def answerSection (doc : Document) (name : Text) : Answer :=
  .sectionOf ((doc.section? name).map Section.content)

/-- The entry of a key of a section as an answer, or that there is none. -/
def answerEntry (doc : Document) (sectionName key : Text) : Answer :=
  .entry (((doc.section? sectionName).bind (·.find? key)).map Entry.content)

/-- The answer to a change, and the document after it. -/
def run (doc : Document) : Edit → Except Error (Answer × Document)
  | .set sectionName key value =>
    let next := doc.set sectionName key value
    .ok (answerEntry next sectionName key, next)
  | .setScalar sectionName key x =>
    let next := doc.set sectionName key x.raw
    .ok (answerEntry next sectionName key, next)
  | .remove sectionName key => (doc.remove sectionName key).map fun (e, rest) => (.ofEntry e, rest)
  | .clear => .ok (.done, doc.clear)
  | .insertSection name => (doc.insertSection name).map fun next => (answerSection next name, next)
  | .ensureSection name => .ok (answerSection (doc.ensureSection name) name, doc.ensureSection name)
  | .removeSection name => (doc.removeSection name).map fun (s, rest) => (.ofSection s, rest)
  | .setEverywhere key value => .ok (.done, doc.mapSections (·.set key value))
  | .inSection name edit => do
    let (answer, next) ← edit.run (← doc.getSection name)
    return (answer, doc.modifySection name fun _ => next)
  | .setIfSection name key value =>
    if doc.hasSection name then
      let next := doc.set name key value
      .ok (answerEntry next name key, next)
    else .ok (.entry none, doc)

end Edit

/-! ## Steps and histories -/

/-- A look-up or a change. -/
inductive Step where
  | query (q : Query)
  | edit (e : Edit)

/-- The answer to a step, or its error, and the document to go on with. -/
def Step.run (doc : Document) : Step → Except Error Answer × Document
  | .query q => (q.run doc, doc)
  | .edit e =>
    match e.run doc with
    | .ok (answer, next) => (.ok answer, next)
    | .error e => (.error e, doc)

/-- The answers to a list of steps, each with the document after it. -/
def Document.runAll (doc : Document) : List Step → List (Except Error Answer × Document)
  | [] => []
  | step :: rest =>
    let (answer, next) := step.run doc
    (answer, next) :: next.runAll rest

/-- The document after a list of steps. -/
def Document.after (doc : Document) : List Step → Document
  | [] => doc
  | step :: rest => (step.run doc).2.after rest

end IniFile
