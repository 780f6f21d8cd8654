/-
  Sheets: a document without identities.

  A document files captured lines under identities, so that editing a table never has to touch the
  lines.  What can be OBSERVED of it — content, and either way of writing it out — depends on less:
  on names, values and comments, and on the captured lines that stand beside each of them.  A
  `Sheet` is just that, as plain lists.

  1. **The sheet of a document** — `Document.sheet`.
  2. **Edits of sheets** — `SectionEdit.onEntries`, `Edit.onSheet` and `Step.onSheet` do to a sheet
     what a step does to a document.  An edit that fails leaves the sheet alone, so there is nothing
     to report here.
  3. **Folding** — names are compared as the dialect says, `Dialect.sameKey` and
     `Dialect.sameSection`.

  That a step on a document IS its step on the sheet is proved where identities are dealt with, and
  nowhere else are identities seen again.

  Mathlib-free.
-/
import IniFile.Document.Step
import IniFile.Proofs.Roster

namespace IniFile

/-! ## Folding -/

namespace Dialect

variable (d : Dialect)

/-- The form of a key under which it is compared. -/
def foldKey (key : Text) : Text := if d.caseSensitiveKeys then key else Text.lowercase key

/-- The form of a section name under which it is compared. -/
def foldSection (name : Text) : Text :=
  if d.caseSensitiveSections then name else Text.lowercase name

/-- Do two keys count as one? -/
def sameKey (a b : Text) : Bool := d.foldKey a == d.foldKey b

/-- Do two section names count as one? -/
def sameSection (a b : Text) : Bool := d.foldSection a == d.foldSection b

theorem sameKey_refl (a : Text) : d.sameKey a a = true := beq_self_eq_true _

theorem sameSection_refl (a : Text) : d.sameSection a a = true := beq_self_eq_true _

theorem sameSection_comm (a b : Text) : d.sameSection a b = d.sameSection b a := BEq.comm

variable {d}

theorem sameKey_iff {a b : Text} : d.sameKey a b = true ↔ d.foldKey a = d.foldKey b := beq_iff_eq

theorem sameSection_iff {a b : Text} :
    d.sameSection a b = true ↔ d.foldSection a = d.foldSection b := beq_iff_eq

theorem sameKey_symm {a b : Text} (h : d.sameKey a b = true) : d.sameKey b a = true :=
  sameKey_iff.mpr (sameKey_iff.mp h).symm

theorem sameKey_trans {a b c : Text} (hab : d.sameKey a b = true) (hbc : d.sameKey b c = true) :
    d.sameKey a c = true :=
  sameKey_iff.mpr ((sameKey_iff.mp hab).trans (sameKey_iff.mp hbc))

end Dialect

/-! ## Sheets -/

/-- What can be seen of an entry, and the captured lines beside it. -/
structure SheetEntry extends EntryContent where
  lines : List EntryLine
deriving DecidableEq, Repr

/-- A named section: its captured header, if there is one, and its entries. -/
structure SheetSection where
  name : Text
  header? : Option HeaderLine
  entries : List SheetEntry
deriving DecidableEq, Repr

/-- A document without identities. -/
structure Sheet where
  global : List SheetEntry
  sections : List SheetSection
  trailing : List Text
  finalNewline : Bool
  bom : Bool
deriving DecidableEq, Repr

/-- The sheet of an empty document. -/
def Sheet.blank : Sheet := ⟨[], [], [], true, false⟩

/-- An entry with the lines captured for it. -/
def Capture.entry (c : Capture) (e : Entry) : SheetEntry := ⟨e.content, c.lines e.id⟩

/-- The entries of a section with the lines captured for them. -/
def Capture.entriesOf (c : Capture) (s : Section) : List SheetEntry :=
  s.entries.values.map c.entry

/-- A section with all that was captured for it. -/
def Capture.sectionOf (c : Capture) (s : Section) : SheetSection :=
  ⟨s.name, c.header? s.id, c.entriesOf s⟩

/-- **The sheet of a document.** -/
def Document.sheet (doc : Document) : Sheet where
  global := doc.capture.entriesOf doc.global
  sections := doc.sections.values.map doc.capture.sectionOf
  trailing := doc.capture.trailing
  finalNewline := doc.capture.finalNewline
  bom := doc.capture.bom

/-- What can be seen of a sheet, its captured lines apart. -/
def Sheet.content (S : Sheet) : DocumentContent where
  global := ⟨[], S.global.map SheetEntry.toEntryContent⟩
  sections := S.sections.map fun s => ⟨s.name, s.entries.map SheetEntry.toEntryContent⟩

/-! ## Edits of entries -/

namespace SheetEntry

/-- A new entry; nothing was captured for it. -/
def fresh (key value : Text) : SheetEntry := ⟨⟨key, [value], none⟩, []⟩

/-- The entry with a single value in place of all it had. -/
def setValue (value : Text) (e : SheetEntry) : SheetEntry := { e with values := [value] }

/-- The entry with one more value. -/
def pushValue (value : Text) (e : SheetEntry) : SheetEntry :=
  { e with values := e.values ++ [value] }

/-- The entry with another comment, or none. -/
def setComment (comment : Option Comment) (e : SheetEntry) : SheetEntry :=
  { e with comment := comment }

end SheetEntry

/-- Is this the entry of the key? -/
def Dialect.isKey (d : Dialect) (key : Text) (e : SheetEntry) : Bool := d.sameKey e.key key

/-- Is this the section of the name? -/
def Dialect.isSection (d : Dialect) (name : Text) (s : SheetSection) : Bool :=
  d.sameSection s.name name

/-- Gives a key a single value. -/
def Dialect.setKey (d : Dialect) (key value : Text) (es : List SheetEntry) : List SheetEntry :=
  Roster.upsert (d.isKey key) (.setValue value) (.fresh key value) es

/-- What a change of a section does to its entries. -/
def SectionEdit.onEntries (d : Dialect) (edit : SectionEdit) (es : List SheetEntry) :
    List SheetEntry :=
  match edit with
  | .insert key value => Roster.upsert (d.isKey key) id (.fresh key value) es
  | .set key value => d.setKey key value es
  | .setScalar key x => d.setKey key x.raw es
  | .append key value => Roster.upsert (d.isKey key) (.pushValue value) (.fresh key value) es
  | .remove key => Roster.erase (d.isKey key) es
  | .clear => []
  | .pushIfPresent key value => Roster.change (d.isKey key) (.pushValue value) es
  | .pushAll value => es.map (.pushValue value)
  | .setValue key value => Roster.change (d.isKey key) (.setValue value) es
  | .setComment key comment => Roster.change (d.isKey key) (.setComment comment) es

/-! ## Edits of sheets -/

/-- Changes the entries of a section. -/
def SheetSection.mapEntries (g : List SheetEntry → List SheetEntry) (s : SheetSection) :
    SheetSection :=
  { s with entries := g s.entries }

namespace Sheet

/-- Changes the entries of the section of a name; there must be one for anything to happen. -/
def changeSection (d : Dialect) (name : Text) (g : List SheetEntry → List SheetEntry) (S : Sheet) :
    Sheet :=
  if name.isEmpty then { S with global := g S.global }
  else { S with sections := Roster.change (d.isSection name) (.mapEntries g) S.sections }

/-- Changes the entries of the section of a name, which is made at the end if there is none. -/
def upsertSection (d : Dialect) (name : Text) (g : List SheetEntry → List SheetEntry) (S : Sheet) :
    Sheet :=
  if name.isEmpty then { S with global := g S.global }
  else
    { S with
      sections := Roster.upsert (d.isSection name) (.mapEntries g) ⟨name, none, g []⟩ S.sections }

/-- Takes the section of a name out; the global section is emptied instead. -/
def eraseSection (d : Dialect) (name : Text) (S : Sheet) : Sheet :=
  if name.isEmpty then { S with global := [] }
  else { S with sections := Roster.erase (d.isSection name) S.sections }

/-- Is there a section of that name? -/
def hasSection (d : Dialect) (name : Text) (S : Sheet) : Bool :=
  name.isEmpty || S.sections.any (d.isSection name)

/-- Does the section of that name have the key? -/
def hasKey (d : Dialect) (name key : Text) (S : Sheet) : Bool :=
  if name.isEmpty then S.global.any (d.isKey key)
  else S.sections.any fun s => d.isSection name s && s.entries.any (d.isKey key)

section HasSection

variable {d : Dialect} {S : Sheet} {name : Text}

theorem of_hasSection_eq_false (h : S.hasSection d name = false) :
    name ≠ [] ∧ ∀ s ∈ S.sections, d.isSection name s = false := by
  rw [hasSection, Bool.or_eq_false_iff, List.isEmpty_eq_false_iff] at h
  exact ⟨h.1, fun s hs => eq_false_of_ne_true (List.any_eq_false.mp h.2 s hs)⟩

/-- A section that is not there does not change. -/
theorem changeSection_of_not_hasSection (h : S.hasSection d name = false)
    (g : List SheetEntry → List SheetEntry) : S.changeSection d name g = S := by
  obtain ⟨hname, hnone⟩ := of_hasSection_eq_false h
  rw [changeSection, List.isEmpty_eq_false_iff.mpr hname, if_neg Bool.false_ne_true,
    Roster.change_of_forall_not _ hnone]

theorem eraseSection_of_not_hasSection (h : S.hasSection d name = false) :
    S.eraseSection d name = S := by
  obtain ⟨hname, hnone⟩ := of_hasSection_eq_false h
  rw [eraseSection, List.isEmpty_eq_false_iff.mpr hname, if_neg Bool.false_ne_true,
    Roster.erase_of_forall_not hnone]

/-- A section that is not there is made at the end. -/
theorem upsertSection_of_not_hasSection (h : S.hasSection d name = false)
    (g : List SheetEntry → List SheetEntry) :
    S.upsertSection d name g = { S with sections := S.sections ++ [⟨name, none, g []⟩] } := by
  rw [hasSection, Bool.or_eq_false_iff] at h
  rw [upsertSection, h.1, if_neg Bool.false_ne_true, Roster.upsert_of_not_any _ _ h.2]

/-- A section that is there is not made again. -/
theorem upsertSection_of_hasSection (h : S.hasSection d name = true)
    (g : List SheetEntry → List SheetEntry) :
    S.upsertSection d name g = S.changeSection d name g := by
  unfold upsertSection changeSection
  cases hname : name.isEmpty with
  | true => rfl
  | false =>
    rw [hasSection, hname, Bool.false_or] at h
    rw [Roster.upsert_of_any _ _ h]

end HasSection

end Sheet

/-- What a change of a document does to its sheet. -/
def Edit.onSheet (d : Dialect) (edit : Edit) (S : Sheet) : Sheet :=
  match edit with
  | .set name key value => S.upsertSection d name (d.setKey key value)
  | .setScalar name key x => S.upsertSection d name (d.setKey key x.raw)
  | .remove name key => S.changeSection d name (Roster.erase (d.isKey key))
  | .clear => .blank
  | .insertSection name => S.upsertSection d name id
  | .ensureSection name => S.upsertSection d name id
  | .removeSection name => S.eraseSection d name
  | .setEverywhere key value =>
    { S with sections := S.sections.map (.mapEntries (d.setKey key value)) }
  | .inSection name change => S.changeSection d name (change.onEntries d)
  | .setIfSection name key value => S.changeSection d name (d.setKey key value)

/-- What a step does to the sheet of its document. -/
def Step.onSheet (d : Dialect) (step : Step) (S : Sheet) : Sheet :=
  match step with
  | .query _ => S
  | .edit e => e.onSheet d S

/-- What a list of steps does to the sheet of its document. -/
def Sheet.after (d : Dialect) (S : Sheet) : List Step → Sheet
  | [] => S
  | step :: rest => (step.onSheet d S).after d rest

end IniFile
