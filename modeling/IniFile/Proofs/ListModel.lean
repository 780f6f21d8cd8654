/-
  The list model of a document.

  Seen from outside, a document is lists within lists: a global section and named sections in order,
  each a list of keys with their values and comments.  Here every step is told on these lists alone,
  without identities, captured lines or tables by folded name: names are compared as the dialect
  folds them, each time anew.

  1. **Entries, sections and look-ups** — what is found in the lists, and the answers to look-ups.
  2. **Changes** — each is told by three things: when it is refused and with which error
     (`refusal?`), what it does to the lists (`onList`), and what it answers (`reply`).
  3. **Runs** — a step on the lists gives an answer and lists, and so does a list of steps.

  That documents answer as the lists do, and what a step leaves alone in the lists, is proved
  elsewhere.
-/
import IniFile.Proofs.Outline

namespace IniFile

/-! ## Entries -/

namespace EntryContent

/-- Is this the entry of the key? -/
def isOf (d : Dialect) (key : Text) (e : EntryContent) : Bool := d.sameKey e.key key

/-- A new entry with one value. -/
def fresh (key value : Text) : EntryContent := ⟨key, [value], none⟩

/-- The entry with a single value in place of all it had. -/
def setValue (value : Text) (e : EntryContent) : EntryContent := { e with values := [value] }

/-- The entry with one more value. -/
def pushValue (value : Text) (e : EntryContent) : EntryContent :=
  { e with values := e.values ++ [value] }

/-- The entry with another comment, or none. -/
def setComment (comment : Option Comment) (e : EntryContent) : EntryContent :=
  { e with comment := comment }

/-- The value that is read where one is asked for: the last. -/
def value (e : EntryContent) : Text := e.values.getLastD []

/-- An entry under all its typed views. -/
def summary (words : Literals) (e : EntryContent) : EntrySummary where
  value := e.value
  isMultiValued := decide (1 < e.values.length)
  scalar := .infer e.value
  bool := readBool .standard e.value
  boolUnder := readBool words e.value
  integer := Kind.read .standard e.value (.integer .plain)
  double := readDouble e.value

end EntryContent

/-! ## Sections -/

namespace SectionContent

/-- Is this the section of the name? -/
def isOf (d : Dialect) (name : Text) (s : SectionContent) : Bool := d.sameSection s.name name

/-- The keys in order. -/
def keys (s : SectionContent) : List Text := s.entries.map EntryContent.key

/-- The entry of a key. -/
def find? (d : Dialect) (key : Text) (s : SectionContent) : Option EntryContent :=
  s.entries.find? (EntryContent.isOf d key)

/-- The entry of a key, or the error that there is none, which spells the section as it is listed
    and the key as it was asked for. -/
def get (d : Dialect) (key : Text) (s : SectionContent) : Except Error EntryContent :=
  match s.find? d key with
  | some e => .ok e
  | none => .error (.keyNotFound s.name key)

/-- Does the section have the key? -/
def contains (d : Dialect) (key : Text) (s : SectionContent) : Bool :=
  s.entries.any (EntryContent.isOf d key)

/-- A section in brief; the one without a name is the global section. -/
def summary (d : Dialect) (key : Text) (s : SectionContent) : SectionSummary where
  name := s.name
  isGlobal := s.name.isEmpty
  size := s.entries.length
  isEmpty := s.entries.isEmpty
  keys := s.keys
  contains := s.contains d key

/-- The lines that list one section. -/
def listing (heading : Text) (s : SectionContent) : Text :=
  ['['] ++ heading ++ [']', '\n'] ++
    s.entries.flatMap (fun e => e.values.flatMap fun value =>
      [' ', ' '] ++ e.key ++ " = ".toList ++ value ++ ['\n']) ++ ['\n']

/-- Changes the entries. -/
def mapEntries (g : List EntryContent → List EntryContent) (s : SectionContent) : SectionContent :=
  { s with entries := g s.entries }

end SectionContent

/-! ## Documents -/

namespace DocumentContent

variable (d : Dialect)

/-- The names of the named sections, in order. -/
def names (c : DocumentContent) : List Text := c.sections.map SectionContent.name

/-- The section of a name; the empty name is that of the global section. -/
def section? (name : Text) (c : DocumentContent) : Option SectionContent :=
  if name.isEmpty then some c.global else c.sections.find? (SectionContent.isOf d name)

/-- The section of a name, or the error that there is none. -/
def getSection (name : Text) (c : DocumentContent) : Except Error SectionContent :=
  match c.section? d name with
  | some s => .ok s
  | none => .error (.sectionNotFound name)

/-- The entry of a key of a section, or the error that the one or the other is missing. -/
def getEntry (name key : Text) (c : DocumentContent) : Except Error EntryContent := do
  (← c.getSection d name).get d key

/-- The value of a key of a section as one of a kind, under the boolean words in use. -/
def read (name key : Text) (kind : Kind) (c : DocumentContent) : Except Error Datum := do
  kind.read d.literals (← c.getEntry d name key).value

/-- The entries of the section of a name; there are none if there is no such section. -/
def entriesOf (name : Text) (c : DocumentContent) : List EntryContent :=
  ((c.section? d name).map SectionContent.entries).getD []

/-- The entry of a key of a section, if both are there. -/
def cell (name key : Text) (c : DocumentContent) : Option EntryContent :=
  (c.entriesOf d name).find? (EntryContent.isOf d key)

/-- A plain listing: the global keys, if any, and then every section. -/
def listing (c : DocumentContent) : Text :=
  (if c.global.entries.isEmpty then [] else c.global.listing "Global".toList) ++
    c.sections.flatMap fun s => s.listing s.name

/-- Changes the entries of the section of a name; there must be one for anything to happen. -/
def changeSection (name : Text) (g : List EntryContent → List EntryContent) (c : DocumentContent) :
    DocumentContent :=
  if name.isEmpty then { c with global := c.global.mapEntries g }
  else { c with sections := Roster.change (SectionContent.isOf d name) (.mapEntries g) c.sections }

/-- Changes the entries of the section of a name, which is made at the end if there is none. -/
def upsertSection (name : Text) (g : List EntryContent → List EntryContent) (c : DocumentContent) :
    DocumentContent :=
  if name.isEmpty then { c with global := c.global.mapEntries g }
  else
    { c with
      sections := Roster.upsert (SectionContent.isOf d name) (.mapEntries g) ⟨name, g []⟩ c.sections }

/-- Takes the section of a name out; the global section is emptied instead. -/
def eraseSection (name : Text) (c : DocumentContent) : DocumentContent :=
  if name.isEmpty then { c with global := c.global.mapEntries fun _ => [] }
  else { c with sections := Roster.erase (SectionContent.isOf d name) c.sections }

end DocumentContent

/-! ## Look-ups -/

/-- The answer to a look-up.  Writing the document out takes captured lines, of which the lists know
    nothing. -/
def Query.onContent (d : Dialect) (c : DocumentContent) : Query → Except Error Answer
  | .get name key => (c.getEntry d name key).map fun e => .text e.value
  | .read name key kind => (c.read d name key kind).map .datum
  | .readD name key kind default => .ok (.datum ((c.read d name key kind).toOption.getD default))
  | .hasSection name => .ok (.flag (c.hasSection d name))
  | .hasKey name key => .ok (.flag (c.cell d name key).isSome)
  | .sectionNames => .ok (.names c.names)
  | .size => .ok (.count c.sections.length)
  | .isEmpty => .ok (.flag (c.sections.isEmpty && c.global.entries.isEmpty))
  | .listing => .ok (.text c.listing)
  | .render _ => .ok .done
  | .getSection name => (c.getSection d name).map fun s => .sectionOf (some s)
  | .findSection name => .ok (.sectionOf (c.section? d name))
  | .getEntry name key => (c.getEntry d name key).map fun e => .entry (some e)
  | .findEntry name key => (c.getSection d name).map fun s => .entry (s.find? d key)
  | .summarizeSection name key =>
    (c.getSection d name).map fun s => .sectionSummary (s.summary d key)
  | .summarizeEntry name key =>
    (c.getEntry d name key).map fun e => .entrySummary (e.summary d.literals)
  | .readEntry name key words kind => do
    return .datum (← kind.read words (← c.getEntry d name key).value)
  | .readValues name key kind => do
    return .data (← (← c.getEntry d name key).values.mapM fun value => kind.read .standard value)

/-! ## Changes of one section -/

/-- Gives a key a single value: the entry that is there, or a new one at the end. -/
def Dialect.setEntry (d : Dialect) (key value : Text) (es : List EntryContent) :
    List EntryContent :=
  Roster.upsert (EntryContent.isOf d key) (.setValue value) (.fresh key value) es

namespace SectionEdit

/-- The error with which a section refuses a change. -/
def refusal? (d : Dialect) (s : SectionContent) : SectionEdit → Option Error
  | .insert key _ => if s.contains d key then some (.duplicateKey s.name key none) else none
  | .remove key | .setValue key _ | .setComment key _ =>
    if s.contains d key then none else some (.keyNotFound s.name key)
  | .set _ _ | .setScalar _ _ | .append _ _ | .clear | .pushIfPresent _ _ | .pushAll _ => none

/-- What a change does to the entries of its section. -/
def onList (d : Dialect) (edit : SectionEdit) (es : List EntryContent) : List EntryContent :=
  match edit with
  | .insert key value => Roster.upsert (EntryContent.isOf d key) id (.fresh key value) es
  | .set key value => d.setEntry key value es
  | .setScalar key x => d.setEntry key x.raw es
  | .append key value =>
    Roster.upsert (EntryContent.isOf d key) (.pushValue value) (.fresh key value) es
  | .remove key => Roster.erase (EntryContent.isOf d key) es
  | .clear => []
  | .pushIfPresent key value => Roster.change (EntryContent.isOf d key) (.pushValue value) es
  | .pushAll value => es.map (.pushValue value)
  | .setValue key value => Roster.change (EntryContent.isOf d key) (.setValue value) es
  | .setComment key comment => Roster.change (EntryContent.isOf d key) (.setComment comment) es

/-- What a change answers, told from what is found under each key before it and after it. -/
def reply (before after : Text → Option EntryContent) : SectionEdit → Answer
  | .clear | .pushAll _ => .done
  | .remove key => .entry (before key)
  | .insert key _ | .set key _ | .setScalar key _ | .append key _ | .pushIfPresent key _
  | .setValue key _ | .setComment key _ => .entry (after key)

end SectionEdit

/-! ## Changes of the document -/

namespace Edit

variable (d : Dialect)

/-- The error with which a document refuses a change. -/
def refusal? (c : DocumentContent) : Edit → Option Error
  | .insertSection name => if c.hasSection d name then some (.duplicateSection name none) else none
  | .removeSection name => if c.hasSection d name then none else some (.sectionNotFound name)
  | .remove name key => refusalIn name (.remove key)
  | .inSection name edit => refusalIn name edit
  | .set _ _ _ | .setScalar _ _ _ | .clear | .ensureSection _ | .setEverywhere _ _
  | .setIfSection _ _ _ => none
where
  /-- A change of a section is refused if the section is missing or refuses it. -/
  refusalIn (name : Text) (edit : SectionEdit) : Option Error :=
    match c.section? d name with
    | some s => edit.refusal? d s
    | none => some (.sectionNotFound name)

/-- What a change does to the lists. -/
def onList (c : DocumentContent) : Edit → DocumentContent
  | .set name key value => c.upsertSection d name (d.setEntry key value)
  | .setScalar name key x => c.upsertSection d name (d.setEntry key x.raw)
  | .remove name key => c.changeSection d name ((SectionEdit.remove key).onList d)
  | .clear => ⟨⟨[], []⟩, []⟩
  | .insertSection name => c.upsertSection d name id
  | .ensureSection name => c.upsertSection d name id
  | .removeSection name => c.eraseSection d name
  | .setEverywhere key value =>
    { c with sections := c.sections.map (.mapEntries (d.setEntry key value)) }
  | .inSection name edit => c.changeSection d name (edit.onList d)
  | .setIfSection name key value => c.changeSection d name (d.setEntry key value)

/-- What a change answers, told from the lists before it and after it. -/
def reply (before after : DocumentContent) : Edit → Answer
  | .clear | .setEverywhere _ _ => .done
  | .removeSection name => .sectionOf (before.section? d name)
  | .insertSection name | .ensureSection name => .sectionOf (after.section? d name)
  | .remove name key => .entry (before.cell d name key)
  | .set name key _ | .setScalar name key _ | .setIfSection name key _ =>
    .entry (after.cell d name key)
  | .inSection name edit =>
    edit.reply (fun key => before.cell d name key) (fun key => after.cell d name key)

end Edit

/-! ## Runs -/

/-- The answer to a step, or its error, and the lists after it. -/
def Step.onContent (d : Dialect) (c : DocumentContent) : Step → Except Error Answer × DocumentContent
  | .query q => (q.onContent d c, c)
  | .edit e =>
    match e.refusal? d c with
    | some err => (.error err, c)
    | none => (.ok (e.reply d c (e.onList d c)), e.onList d c)

/-- The answers to a list of steps, each with the lists after it. -/
def DocumentContent.runAll (d : Dialect) (c : DocumentContent) :
    List Step → List (Except Error Answer × DocumentContent)
  | [] => []
  | step :: rest => step.onContent d c :: (step.onContent d c).2.runAll d rest

end IniFile
