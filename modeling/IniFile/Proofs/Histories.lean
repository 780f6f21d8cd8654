/-
  Documents and their histories.

  A document starts out empty or read from a text, and then goes through any steps.  Whatever these
  were, what was captured for it still says what it said; and if the steps bring in only names, keys
  and comments that the grammar can hold, the document holds no others.

  1. **Origins** — empty documents and those read from a text.
  2. **Histories** — what holds of the sheet after any steps.
  3. **Contents** — what is seen of a document is on its sheet.
-/
import IniFile.Proofs.Written

namespace IniFile

/-! ## Origins -/

/-- A document at the start of its history: empty, or read from a text. -/
inductive Document.Origin (d : Dialect) : Document → Prop where
  | empty : Origin d (.empty d)
  | parsed {text : Text} {p : Parsed} (h : parse d text = .ok p) : Origin d p.document

namespace Document.Origin

variable {d : Dialect} {doc : Document}

theorem sound (h : doc.Origin d) : doc.Sound ∧ doc.dialect = d := by
  cases h with
  | empty => exact ⟨sound_empty d, rfl⟩
  | parsed h => exact ⟨(of_parse_eq_ok h).1, (of_parse_eq_ok h).2.1⟩

theorem read (h : doc.Origin d) :
    doc.sheet.All (SheetEntry.Read d) (HeaderLine.Read d) ∧
      ∀ l ∈ doc.sheet.trailing, Line.Quiet d l := by
  cases h with
  | empty => exact ⟨Sheet.all_blank, fun l hl => absurd hl List.not_mem_nil⟩
  | parsed h => exact read_of_parse h

/-- After a history the document is sound, keeps its dialect and is on the sheet of the history. -/
theorem after (h : doc.Origin d) (steps : List Step) :
    (doc.after steps).Sound ∧ (doc.after steps).dialect = d ∧
      (doc.after steps).sheet = doc.sheet.after d steps := by
  obtain ⟨hsound, rfl⟩ := h.sound
  have hafter := hsound.after steps
  exact ⟨hafter.sound, hafter.dialect, hafter.sheet⟩

end Document.Origin

/-! ## Histories -/

/-- What surrounds the entries changes only when everything is taken out. -/
theorem Step.frame_onSheet (d : Dialect) {step : Step} (h : step ≠ .edit .clear) (S : Sheet) :
    (step.onSheet d S).trailing = S.trailing ∧ (step.onSheet d S).finalNewline = S.finalNewline ∧
      (step.onSheet d S).bom = S.bom := by
  have hchange : ∀ name g, (S.changeSection d name g).trailing = S.trailing ∧
      (S.changeSection d name g).finalNewline = S.finalNewline ∧
        (S.changeSection d name g).bom = S.bom := by
    intro name g
    unfold Sheet.changeSection
    cases name.isEmpty <;> exact ⟨rfl, rfl, rfl⟩
  have hupsert : ∀ name g, (S.upsertSection d name g).trailing = S.trailing ∧
      (S.upsertSection d name g).finalNewline = S.finalNewline ∧
        (S.upsertSection d name g).bom = S.bom := by
    intro name g
    unfold Sheet.upsertSection
    cases name.isEmpty <;> exact ⟨rfl, rfl, rfl⟩
  cases step with
  | query q => exact ⟨rfl, rfl, rfl⟩
  | edit edit =>
    cases edit with
    | set name key value => exact hupsert _ _
    | setScalar name key x => exact hupsert _ _
    | remove name key => exact hchange _ _
    | clear => exact absurd rfl h
    | insertSection name => exact hupsert _ _
    | ensureSection name => exact hupsert _ _
    | removeSection name =>
      show (S.eraseSection d name).trailing = _ ∧ (S.eraseSection d name).finalNewline = _ ∧
        (S.eraseSection d name).bom = _
      unfold Sheet.eraseSection
      cases name.isEmpty <;> exact ⟨rfl, rfl, rfl⟩
    | setEverywhere key value => exact ⟨rfl, rfl, rfl⟩
    | inSection name edit => exact hchange _ _
    | setIfSection name key value => exact hchange _ _

/-- So it outlives every history in which that does not happen. -/
theorem Sheet.edges_after {d : Dialect} {steps : List Step}
    (hclear : ∀ step ∈ steps, step ≠ .edit .clear) (S : Sheet) :
    (S.after d steps).trailing = S.trailing ∧ (S.after d steps).finalNewline = S.finalNewline ∧
      (S.after d steps).bom = S.bom := by
  induction steps generalizing S with
  | nil => exact ⟨rfl, rfl, rfl⟩
  | cons step rest ih =>
    obtain ⟨htrailing, hclosed, hbom⟩ := Step.frame_onSheet d (hclear step List.mem_cons_self) S
    obtain ⟨htrailing', hclosed', hbom'⟩ :=
      ih (fun s hs => hclear s (List.mem_cons_of_mem _ hs)) (step.onSheet d S)
    exact ⟨htrailing'.trans htrailing, hclosed'.trans hclosed, hbom'.trans hbom⟩

theorem Sheet.trailing_after {d : Dialect} (steps : List Step) {S : Sheet}
    (h : ∀ l ∈ S.trailing, Line.Quiet d l) : ∀ l ∈ (S.after d steps).trailing, Line.Quiet d l := by
  induction steps generalizing S with
  | nil => exact h
  | cons step rest ih =>
    refine ih ?_
    -- taking everything out leaves no trailing lines; no other step touches them
    by_cases hclear : step = .edit .clear
    · rw [hclear]
      intro l hl
      exact absurd hl List.not_mem_nil
    · rw [(Step.frame_onSheet d hclear S).1]
      exact h

/-- **Whatever the history**, captured lines say what they said. -/
theorem Document.Origin.kept_after {d : Dialect} {doc : Document} (h : doc.Origin d)
    {steps : List Step} (hcomments : ∀ step ∈ steps, ∀ c ∈ step.comments, c.Written d) :
    (doc.after steps).sheet.All (SheetEntry.Kept d) (fun name header? =>
      ∀ line, header? = some line → line.Kept d name) ∧
      ∀ l ∈ (doc.after steps).sheet.trailing, Line.Quiet d l := by
  obtain ⟨hall, htrailing⟩ := h.read
  rw [(h.after steps).2.2]
  refine ⟨?_, Sheet.trailing_after steps htrailing⟩
  have hread : doc.sheet.All (SheetEntry.Kept d) (fun name header? =>
      ∀ line, header? = some line → line.Kept d name) :=
    hall.mono (fun e he => he.kept) fun _ _ hheader _ hline =>
      HeaderLine.kept_of_eq_some hheader.kept hline
  refine hread.after (SheetEntry.edits_kept d) steps
    (fun _ _ key _ value => SheetEntry.kept_fresh key value) ?_ ?_
  · intro step hstep c hc e he
    apply he.setComment
    intro c' hc'
    rw [← Option.some.inj hc']
    exact hcomments step hstep c hc
  · rintro _ _ _ _ _ _ ⟨⟩

/-- The step brings in only what the grammar can hold. -/
structure Step.Writable (d : Dialect) (step : Step) : Prop where
  keys : ∀ key ∈ step.keys, Key.Written d key
  names : ∀ name ∈ step.names, name ≠ [] → Name.Written name
  comments : ∀ c ∈ step.comments, c.Written d

instance (d : Dialect) (step : Step) : Decidable (step.Writable d) :=
  decidable_of_iff ((∀ key ∈ step.keys, Key.Written d key) ∧
      (∀ name ∈ step.names, name ≠ [] → Name.Written name) ∧ ∀ c ∈ step.comments, c.Written d)
    ⟨fun ⟨hkeys, hnames, hcomments⟩ => ⟨hkeys, hnames, hcomments⟩,
      fun h => ⟨h.keys, h.names, h.comments⟩⟩

/-- Names and keys that can be written are all there are, when no others are brought in. -/
theorem Document.Origin.keys_after {d : Dialect} {doc : Document} (h : doc.Origin d)
    {steps : List Step} (hsteps : ∀ step ∈ steps, step.Writable d) :
    (doc.after steps).sheet.All (fun e => Key.Written d e.key) fun name _ => Name.Written name := by
  rw [(h.after steps).2.2]
  exact Sheet.All.after (h.read.1.mono (fun e he => he.written) fun _ _ hheader => hheader.written)
    ⟨fun _ _ he => he, fun _ _ he => he, fun _ he => he⟩ steps
    (fun step hstep key hkey _ => (hsteps step hstep).keys key hkey) (fun _ _ _ _ _ he => he)
    fun step hstep name hname hne => (hsteps step hstep).names name hname hne

/-! ## Contents -/

/-- All entries that are seen. -/
def DocumentContent.entries (content : DocumentContent) : List EntryContent :=
  content.global.entries ++ content.sections.flatMap SectionContent.entries

/-- What holds of all that is seen of a sheet holds of all that is on it. -/
theorem Sheet.all_of_content {P : EntryContent → Prop} {N : Text → Prop} {S : Sheet}
    (hentries : ∀ e ∈ S.content.entries, P e) (hnames : ∀ s ∈ S.content.sections, N s.name) :
    S.All (fun e => P e.toEntryContent) fun name _ => N name := by
  refine ⟨fun e he => hentries _ (List.mem_append_left _ (List.mem_map_of_mem he)),
    fun s hs e he => hentries _ (List.mem_append_right _ ?_), fun s hs => ?_⟩
  · exact List.mem_flatMap.mpr ⟨_, List.mem_map_of_mem hs, List.mem_map_of_mem he⟩
  · exact hnames _ (List.mem_map_of_mem hs)

/-- Only where values are appended does an entry have several of them. -/
def Document.SingleValued (doc : Document) : Prop :=
  doc.dialect.keyPolicy = .append ∨ ∀ e ∈ doc.content.entries, e.values.length ≤ 1

instance (doc : Document) : Decidable doc.SingleValued :=
  inferInstanceAs (Decidable (_ ∨ ∀ e ∈ doc.content.entries, e.values.length ≤ 1))

/-- What holds of all that is seen of a document holds of all that is on its sheet. -/
theorem Document.Sound.all_of_content {P : EntryContent → Prop} {N : Text → Prop} {doc : Document}
    (h : doc.Sound) (hentries : ∀ e ∈ doc.content.entries, P e)
    (hnames : ∀ s ∈ doc.content.sections, N s.name) :
    doc.sheet.All (fun e => P e.toEntryContent) fun name _ => N name :=
  Sheet.all_of_content (h.content_eq ▸ hentries) (h.content_eq ▸ hnames)

/-- **A document is written on a writable sheet** if its names and keys can be written and its
    history brought in no other comments than such as can. -/
theorem Document.Origin.writable_after {d : Dialect} {doc : Document} (h : doc.Origin d)
    {steps : List Step} (hcomments : ∀ step ∈ steps, ∀ c ∈ step.comments, c.Written d)
    (hkeys : (doc.after steps).sheet.All (fun e => Key.Written d e.key)
      fun name _ => Name.Written name)
    (hsingle : (doc.after steps).SingleValued) : (doc.after steps).sheet.Writable d := by
  obtain ⟨hsound, hdialect, -⟩ := h.after steps
  obtain ⟨hkept, htrailing⟩ := h.kept_after hcomments
  have hseveral : (doc.after steps).sheet.All
      (fun e => 2 ≤ e.values.length → d.keyPolicy = .append) fun _ _ => True := by
    rcases hsingle with happend | hsingle
    · rw [hdialect] at happend
      exact Sheet.all_of_forall (fun _ _ => happend) fun _ _ => trivial
    · have hshort : (doc.after steps).sheet.All (fun e => e.values.length ≤ 1) fun _ _ => True :=
        hsound.all_of_content hsingle fun _ _ => trivial
      refine hshort.mono (fun e he htwo => ?_) fun _ _ _ => trivial
      omega
  refine ⟨hdialect ▸ hsound.distinct_sheet, ?_, htrailing⟩
  exact ((hkept.and hkeys).and hseveral).mono
    (fun e ⟨⟨hkept, hkey⟩, hseveral⟩ => ⟨hkept, hkey, hseveral⟩)
    fun name header? ⟨⟨hkept, hname⟩, _⟩ => ⟨hname, hkept⟩

end IniFile
