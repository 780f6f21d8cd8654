/-
  What is read depends on what the lines say.

  The lines themselves are captured, but what is SEEN of the document that is read — and whether a
  line is refused — depends on their contents only.  An `Outline` is what is seen of a draft; it
  takes contents where the draft takes lines.  So texts whose lines say the same read alike, and
  blank lines at the end make no difference.
-/
import IniFile.Proofs.Drafts

namespace IniFile

/-! ## Lines and their contents -/

/-- What the lines say, one content for each. -/
def Line.contents (d : Dialect) (ls : List Text) : List Content := ls.map fun raw => (Line.scan d raw).1

theorem Line.contents_append (d : Dialect) (ls ms : List Text) :
    contents d (ls ++ ms) = contents d ls ++ contents d ms :=
  List.map_append

/-- The numbers of the lines do not matter for what they say. -/
theorem contents_tokensFrom (d : Dialect) (n : Nat) (ls : List Text) :
    (tokensFrom d n ls).map Token.content = Line.contents d ls := by
  induction ls generalizing n with
  | nil => rfl
  | cons raw rest ih => exact congrArg _ (ih (n + 1))

/-! ## Outlines -/

/-- What is seen of a draft. -/
structure Outline where
  content : DocumentContent
  target : Target
deriving DecidableEq, Repr

/-- An entry with one more value, as the policy says, and the comment of that. -/
def EntryContent.file (policy : KeyPolicy) (value : Text) (comment : Option Comment)
    (e : EntryContent) : EntryContent where
  key := e.key
  values := match policy with
    | .append => e.values ++ [value]
    | _ => [value]
  comment := comment

/-- Entries with one more value for a key. -/
def Dialect.putValue (d : Dialect) (key value : Text) (comment : Option Comment)
    (es : List EntryContent) : List EntryContent :=
  Roster.upsert (fun e => d.sameKey e.key key) (.file d.keyPolicy value comment)
    ⟨key, [value], comment⟩ es

namespace DocumentContent

/-- Is there a section of that name? -/
def hasSection (d : Dialect) (name : Text) (c : DocumentContent) : Bool :=
  name.isEmpty || c.sections.any fun s => d.sameSection s.name name

/-- Does the section of that name have the key? -/
def hasKey (d : Dialect) (name key : Text) (c : DocumentContent) : Bool :=
  if name.isEmpty then c.global.entries.any fun e => d.sameKey e.key key
  else c.sections.any fun s =>
    d.sameSection s.name name && s.entries.any fun e => d.sameKey e.key key

/-- The entries of a section with one more value for a key. -/
def putValue (d : Dialect) (name key value : Text) (comment : Option Comment) (c : DocumentContent) :
    DocumentContent :=
  if name.isEmpty then { c with global := ⟨[], d.putValue key value comment c.global.entries⟩ }
  else
    { c with
      sections := Roster.upsert (fun s => d.sameSection s.name name)
        (fun s => { s with entries := d.putValue key value comment s.entries })
        ⟨name, d.putValue key value comment []⟩ c.sections }

end DocumentContent

namespace Outline

/-- The outline before the first line. -/
def start : Outline := ⟨⟨⟨[], []⟩, []⟩, .inSection []⟩

/-- A header line. -/
def acceptHeader (d : Dialect) (o : Outline) (name : Text) : Outline × Bool :=
  if o.content.hasSection d name then
    match d.sectionPolicy with
    | .merge => ({ o with target := .inSection name }, true)
    | .reject => ({ o with target := .discard }, false)
  else
    (⟨{ o.content with sections := o.content.sections ++ [⟨name, []⟩] }, .inSection name⟩, true)

/-- An entry line. -/
def acceptEntry (d : Dialect) (o : Outline) (key value : Text) (comment : Option Comment) :
    Outline × Bool :=
  match o.target with
  | .discard => (o, false)
  | .inSection name =>
    if o.content.hasKey d name key && d.keyPolicy = .reject then (o, false)
    else ({ o with content := o.content.putValue d name key value comment }, true)

/-- One line: the outline after it, and whether it is accepted. -/
def accept (d : Dialect) (o : Outline) : Content → Outline × Bool
  | .blank => (o, true)
  | .comment _ => (o, true)
  | .header name _ => o.acceptHeader d name
  | .entry key value comment => o.acceptEntry d key value comment
  | .malformed _ => (o, false)

/-- Line after line. -/
def read (d : Dialect) (o : Outline) : List Content → Outline × Bool
  | [] => (o, true)
  | content :: rest =>
    let next := o.accept d content
    let final := next.1.read d rest
    (final.1, next.2 && final.2)

/-- A blank line at the end makes no difference. -/
theorem read_concat_blank (d : Dialect) (o : Outline) (contents : List Content) :
    o.read d (contents ++ [.blank]) = o.read d contents := by
  induction contents generalizing o with
  | nil => rfl
  | cons content rest ih => rw [List.cons_append, read, ih, read]

end Outline

/-! ## Drafts and their outlines -/

/-- What is seen of a draft. -/
def Draft.outline (D : Draft) : Outline := ⟨D.sheet.content, D.target⟩

namespace Sheet

variable {d : Dialect}

theorem hasSection_content (name : Text) (S : Sheet) :
    S.content.hasSection d name = S.hasSection d name := by
  rw [DocumentContent.hasSection, hasSection]
  exact congrArg (name.isEmpty || ·) (Roster.any_map fun _ _ => rfl)

theorem any_isKey_content (key : Text) (es : List SheetEntry) :
    ((es.map SheetEntry.toEntryContent).any fun e => d.sameKey e.key key) = es.any (d.isKey key) :=
  Roster.any_map fun _ _ => rfl

theorem hasKey_content (name key : Text) (S : Sheet) :
    S.content.hasKey d name key = S.hasKey d name key := by
  unfold DocumentContent.hasKey hasKey
  cases name.isEmpty with
  | true => exact any_isKey_content key S.global
  | false =>
    exact Roster.any_map fun s _ => congrArg (d.isSection name s && ·) (any_isKey_content key s.entries)

/-- Putting a line shows as putting its value. -/
theorem map_putLine (key : Text) (line : EntryLine) (es : List SheetEntry) :
    (d.putLine key line es).map SheetEntry.toEntryContent =
      d.putValue key line.value line.comment (es.map SheetEntry.toEntryContent) := by
  refine Roster.map_upsert (fun _ _ => rfl) (fun e _ _ => ?_) rfl
  unfold SheetEntry.file SheetEntry.store EntryContent.file
  cases d.keyPolicy <;> rfl

theorem content_putLine (name key : Text) (line : EntryLine) (S : Sheet) :
    (S.upsertSection d name (d.putLine key line)).content =
      S.content.putValue d name key line.value line.comment := by
  unfold upsertSection DocumentContent.putValue
  cases name.isEmpty with
  | true =>
    show DocumentContent.mk ⟨[], (d.putLine key line S.global).map _⟩ _ = _
    rw [map_putLine]
    rfl
  | false =>
    refine congrArg (DocumentContent.mk S.content.global) (Roster.map_upsert (fun _ _ => rfl)
      (fun s _ _ => ?_) ?_)
    · exact congrArg (SectionContent.mk s.name) (map_putLine key line s.entries)
    · exact congrArg (SectionContent.mk name) (map_putLine key line [])

theorem content_pushHeader (name : Text) (line : HeaderLine) (S : Sheet) :
    (S.pushHeader name line).content =
      { S.content with sections := S.content.sections ++ [⟨name, []⟩] } := by
  simp [pushHeader, content]

end Sheet

namespace Draft

variable {d : Dialect}

/-- **One line** changes the outline as its content does. -/
theorem outline_accept (D : Draft) (raw : Text) (content : Content) :
    ((D.accept d raw content).1.outline, (D.accept d raw content).2) =
      D.outline.accept d content := by
  cases content with
  | blank => rfl
  | comment c => rfl
  | malformed fault => rfl
  | header name comment =>
    show _ = D.outline.acceptHeader d name
    unfold Outline.acceptHeader
    show _ = if D.sheet.content.hasSection d name then _ else _
    rw [Sheet.hasSection_content]
    show ((D.acceptHeader d raw name comment).1.outline, (D.acceptHeader d raw name comment).2) = _
    unfold acceptHeader
    cases D.sheet.hasSection d name with
    | true => cases d.sectionPolicy <;> rfl
    | false => exact congrArg (fun c => (Outline.mk c _, true)) (Sheet.content_pushHeader _ _ _)
  | entry key value comment =>
    show ((D.acceptEntry d raw key value comment).1.outline,
      (D.acceptEntry d raw key value comment).2) = D.outline.acceptEntry d key value comment
    obtain ⟨S, target, waiting⟩ := D
    cases target with
    | discard => rfl
    | inSection name =>
      simp only [acceptEntry, Outline.acceptEntry, outline, Sheet.hasKey_content]
      cases S.hasKey d name key && decide (d.keyPolicy = .reject) with
      | true => rfl
      | false => exact congrArg (fun c => (Outline.mk c _, true)) (Sheet.content_putLine _ _ _ _)

/-- **What is seen of what is read depends on the contents of the lines only.** -/
theorem outline_read (D : Draft) (ls : List Text) :
    ((D.read d ls).1.outline, (D.read d ls).2) = D.outline.read d (Line.contents d ls) := by
  induction ls generalizing D with
  | nil => rfl
  | cons raw rest ih =>
    have hfirst := D.outline_accept (d := d) raw (Line.scan d raw).1
    have hrest := ih (D.accept d raw (Line.scan d raw).1).1
    show _ = Outline.read d D.outline ((Line.scan d raw).1 :: Line.contents d rest)
    rw [Outline.read, ← hfirst]
    show _ = ((Outline.read d (D.accept d raw (Line.scan d raw).1).1.outline _).1,
      _ && (Outline.read d (D.accept d raw (Line.scan d raw).1).1.outline _).2)
    rw [← hrest]
    rfl

end Draft
end IniFile
