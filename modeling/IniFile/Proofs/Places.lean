/-
  The place where reading goes on.

  As long as no header names an older section, reading only ever adds at the END of a sheet: to the
  entries of the section that comes last, or behind it.  This file splits a sheet there.

  1. **Distinct sheets** — names and keys are told apart by the dialect, which every sound document
     guarantees.
  2. **Captured lines** — `Sheet.page` is all lines captured, in order.
  3. **The last section** — `lastName`, `lastEntries` and `setLast`; what stands in front of it is
     `front`.
  4. **Lines at the place** — what one accepted line does there.
-/
import IniFile.Proofs.Drafts

namespace IniFile

/-! ## Distinct sheets -/

/-- The keys of entries are told apart. -/
def Dialect.DistinctKeys (d : Dialect) (es : List SheetEntry) : Prop :=
  (es.map fun e => d.foldKey e.key).Nodup

/-- Names and keys are told apart, and no named section has the empty name. -/
structure Sheet.Distinct (d : Dialect) (S : Sheet) : Prop where
  named : ∀ s ∈ S.sections, s.name ≠ []
  sections : (S.sections.map fun s => d.foldSection s.name).Nodup
  global : d.DistinctKeys S.global
  entries : ∀ s ∈ S.sections, d.DistinctKeys s.entries

theorem Section.Sound.distinctKeys {d : Dialect} {c : Capture} {s : Section} (h : s.Sound d c) :
    d.DistinctKeys (c.entriesOf s) := by
  have hnodup := NameTable.nodup_fold_values h.keyed
  have hfold : ∀ e : Entry, s.entries.fold e.key = d.foldKey e.key := by
    intro e
    rw [NameTable.fold, Dialect.foldKey, h.folding]
  simp only [hfold] at hnodup
  rw [Dialect.DistinctKeys, Capture.entriesOf, List.map_map]
  exact hnodup

/-- The sheet of a sound document is distinct. -/
theorem Document.Sound.distinct_sheet {doc : Document} (h : doc.Sound) : doc.sheet.Distinct doc.dialect := by
  refine ⟨fun s hs => ?_, ?_, h.globalSound.distinctKeys, fun s hs => ?_⟩
  · obtain ⟨t, ht, rfl⟩ := List.mem_map.mp hs
    exact h.named t ht
  · have hnodup := NameTable.nodup_fold_values h.keyed
    have hfold : ∀ s : Section, doc.sections.fold s.name = doc.dialect.foldSection s.name :=
      fun s => by rw [NameTable.fold, Dialect.foldSection, h.folding]
    simp only [hfold] at hnodup
    show ((doc.sections.values.map doc.capture.sectionOf).map _).Nodup
    rw [List.map_map]
    exact hnodup
  · obtain ⟨t, ht, rfl⟩ := List.mem_map.mp hs
    exact (h.sound t ht).distinctKeys

/-- Whatever lines a draft has read, some reader has read them too, so its sheet is distinct. -/
theorem Draft.exists_drafts {d : Dialect} {D : Draft} {r : Reader} (h : r.Drafts d D)
    (ls : List Text) : ∃ r' : Reader, r'.Drafts d (D.read d ls).1 := by
  induction ls generalizing D r with
  | nil => exact ⟨r, h⟩
  | cons raw rest ih => exact ih (Reader.alike_accept h (.ofLine d 1 raw)).1

theorem Draft.distinct_read (d : Dialect) (ls : List Text) :
    (Draft.start.read d ls).1.sheet.Distinct d := by
  obtain ⟨r, hr⟩ := exists_drafts (Reader.drafts_start d) ls
  rw [← hr.sheet, ← hr.dialect]
  exact hr.sound.distinct_sheet

/-! ## Captured lines -/

/-- The lines captured along with an entry line, and that line. -/
def EntryLine.block (line : EntryLine) : List Text := line.leading ++ [line.raw]

/-- The lines captured along with a header, and its own. -/
def HeaderLine.block (line : HeaderLine) : List Text := line.leading ++ [line.raw]

/-- All lines captured for an entry. -/
def SheetEntry.block (e : SheetEntry) : List Text := e.lines.flatMap EntryLine.block

/-- The lines captured for a section's header. -/
def SheetSection.headerBlock (s : SheetSection) : List Text :=
  match s.header? with
  | none => []
  | some line => line.block

/-- All lines captured for a section. -/
def SheetSection.block (s : SheetSection) : List Text :=
  s.headerBlock ++ s.entries.flatMap SheetEntry.block

/-- All lines captured, those after the last entry apart. -/
def Sheet.page (S : Sheet) : List Text :=
  S.global.flatMap SheetEntry.block ++ S.sections.flatMap SheetSection.block

/-! ## The last section -/

namespace Sheet

/-- The name of the section that comes last, the global one if there is no other. -/
def lastName (S : Sheet) : Text :=
  match S.sections.getLast? with
  | none => []
  | some s => s.name

/-- The entries of the section that comes last. -/
def lastEntries (S : Sheet) : List SheetEntry :=
  match S.sections.getLast? with
  | none => S.global
  | some s => s.entries

/-- The sheet with other entries in the section that comes last. -/
def setLast (es : List SheetEntry) (S : Sheet) : Sheet :=
  match S.sections.getLast? with
  | none => { S with global := es }
  | some s => { S with sections := S.sections.dropLast ++ [{ s with entries := es }] }

/-- The lines captured before the entries of the section that comes last. -/
def front (S : Sheet) : List Text :=
  match S.sections.getLast? with
  | none => []
  | some s =>
    S.global.flatMap SheetEntry.block ++ S.sections.dropLast.flatMap SheetSection.block ++
      s.headerBlock

/-- A sheet has no named section, or it has one that comes last. -/
theorem sections_cases (S : Sheet) : S.sections = [] ∨ ∃ ss s, S.sections = ss ++ [s] := by
  rcases List.eq_nil_or_concat S.sections with h | ⟨ss, s, h⟩
  · exact Or.inl h
  · exact Or.inr ⟨ss, s, h.trans List.concat_eq_append⟩

theorem page_eq (S : Sheet) : S.page = S.front ++ S.lastEntries.flatMap SheetEntry.block := by
  unfold page front lastEntries
  rcases S.sections_cases with h | ⟨ss, s, h⟩
  · simp [h]
  · simp [h, SheetSection.block]

theorem page_setLast (es : List SheetEntry) (S : Sheet) :
    (S.setLast es).page = S.front ++ es.flatMap SheetEntry.block := by
  unfold page front setLast
  rcases S.sections_cases with h | ⟨ss, s, h⟩
  · simp [h]
  · simp [h, SheetSection.block, SheetSection.headerBlock]

theorem page_pushHeader (name : Text) (line : HeaderLine) (S : Sheet) :
    (S.pushHeader name line).page = S.page ++ line.block := by
  simp [page, pushHeader, SheetSection.block, SheetSection.headerBlock]

theorem setLast_setLast (es fs : List SheetEntry) (S : Sheet) :
    (S.setLast es).setLast fs = S.setLast fs := by
  unfold setLast
  rcases S.sections_cases with h | ⟨ss, s, h⟩
  · simp [h]
  · simp [h]

theorem setLast_lastEntries (S : Sheet) : S.setLast S.lastEntries = S := by
  obtain ⟨global, sections, trailing, finalNewline, bom⟩ := S
  rcases List.eq_nil_or_concat sections with rfl | ⟨ss, s, rfl⟩
  · rfl
  · simp [setLast, lastEntries]

@[simp] theorem lastEntries_setLast (es : List SheetEntry) (S : Sheet) :
    (S.setLast es).lastEntries = es := by
  unfold setLast lastEntries
  rcases S.sections_cases with h | ⟨ss, s, h⟩
  · simp [h]
  · simp [h]

@[simp] theorem lastName_setLast (es : List SheetEntry) (S : Sheet) :
    (S.setLast es).lastName = S.lastName := by
  unfold setLast lastName
  rcases S.sections_cases with h | ⟨ss, s, h⟩
  · simp [h]
  · simp [h]

theorem names_setLast (es : List SheetEntry) (S : Sheet) :
    (S.setLast es).sections.map SheetSection.name = S.sections.map SheetSection.name := by
  unfold setLast
  rcases S.sections_cases with h | ⟨ss, s, h⟩
  · simp [h]
  · simp [h]

@[simp] theorem lastName_pushHeader (name : Text) (line : HeaderLine) (S : Sheet) :
    (S.pushHeader name line).lastName = name := by
  simp [pushHeader, lastName]

@[simp] theorem lastEntries_pushHeader (name : Text) (line : HeaderLine) (S : Sheet) :
    (S.pushHeader name line).lastEntries = [] := by
  simp [pushHeader, lastEntries]

/-! ### In a distinct sheet the last section is found by its name -/

section Distinct

variable {d : Dialect} {S : Sheet} {ss : List SheetSection} {s : SheetSection}

theorem Distinct.isSection_last (h : S.Distinct d) (hs : S.sections = ss ++ [s]) :
    s.name ≠ [] ∧ ∀ t ∈ ss, d.isSection s.name t = false := by
  refine ⟨h.named s (by rw [hs]; exact List.mem_append_right _ (List.mem_singleton_self s)),
    fun t ht => eq_false_of_ne_true fun hsame => ?_⟩
  have hnodup := h.sections
  rw [hs, List.map_append, List.nodup_append] at hnodup
  exact hnodup.2.2 _ (List.mem_map_of_mem ht) _ (List.mem_singleton_self _)
    (Dialect.sameSection_iff.mp hsame)

theorem Distinct.upsertSection_lastName (h : S.Distinct d) (g : List SheetEntry → List SheetEntry) :
    S.upsertSection d S.lastName g = S.setLast (g S.lastEntries) := by
  unfold upsertSection lastName setLast lastEntries
  rcases S.sections_cases with hs | ⟨ss, s, hs⟩
  · simp [hs]
  · obtain ⟨hname, hrest⟩ := h.isSection_last hs
    have hself : d.isSection s.name s = true := d.sameSection_refl _
    rw [hs]
    simp [hname, Roster.upsert, hself, Roster.change_append, Roster.change_of_forall_not _ hrest]
    simp [Roster.change, hself, SheetSection.mapEntries]

theorem Distinct.hasKey_lastName (h : S.Distinct d) (key : Text) :
    S.hasKey d S.lastName key = S.lastEntries.any (d.isKey key) := by
  unfold hasKey lastName lastEntries
  rcases S.sections_cases with hs | ⟨ss, s, hs⟩
  · simp [hs]
  · obtain ⟨hname, hrest⟩ := h.isSection_last hs
    have hself : d.isSection s.name s = true := d.sameSection_refl _
    have hnone : (ss.any fun t => d.isSection s.name t && t.entries.any (d.isKey key)) = false :=
      List.any_eq_false.mpr fun t ht => by rw [hrest t ht, Bool.false_and]; exact Bool.false_ne_true
    simp [hs, hname, hself, hnone]

theorem Distinct.lastEntries (h : S.Distinct d) : d.DistinctKeys S.lastEntries := by
  unfold Sheet.lastEntries
  rcases S.sections_cases with hs | ⟨ss, s, hs⟩
  · simp [hs, h.global]
  · have hmem : s ∈ S.sections := by rw [hs]; exact List.mem_append_right _ (List.mem_singleton_self s)
    simp [hs, h.entries s hmem]

end Distinct
end Sheet

/-- No entry but the last has the key of the last. -/
theorem Dialect.DistinctKeys.isKey_last {d : Dialect} {es : List SheetEntry} {e : SheetEntry}
    {key : Text} (h : d.DistinctKeys (es ++ [e])) (hkey : d.isKey key e = true) :
    ∀ f ∈ es, d.isKey key f = false := by
  intro f hf
  apply eq_false_of_ne_true
  intro hsame
  rw [DistinctKeys, List.map_append, List.nodup_append] at h
  exact h.2.2 _ (List.mem_map_of_mem hf) _ (List.mem_singleton_self _)
    ((sameKey_iff.mp hsame).trans (sameKey_iff.mp hkey).symm)

/-! ## Lines at the place -/

namespace Draft

variable {d : Dialect} {S : Sheet} {waiting : List Text}

/-- A header that names a new section. -/
theorem accept_header {name : Text} (target : Target) (raw : Text) (comment : Option Comment)
    (hname : name ≠ []) (hnew : ∀ s ∈ S.sections, d.isSection name s = false) :
    accept d ⟨S, target, waiting⟩ raw (.header name comment) =
      (⟨S.pushHeader name ⟨waiting, raw, comment⟩, .inSection name, []⟩, true) := by
  have hhas : S.hasSection d name = false := by
    rw [Sheet.hasSection, List.isEmpty_eq_false_iff.mpr hname, Bool.false_or]
    exact List.any_eq_false.mpr fun s hs => by rw [hnew s hs]; exact Bool.false_ne_true
  show acceptHeader _ _ _ _ _ = _
  rw [acceptHeader, hhas]
  rfl

/-- An entry line with a new key. -/
theorem accept_entry_new (h : S.Distinct d) {key : Text} (raw value : Text)
    (comment : Option Comment) (hnew : ∀ e ∈ S.lastEntries, d.isKey key e = false) :
    accept d ⟨S, .inSection S.lastName, waiting⟩ raw (.entry key value comment) =
      (⟨S.setLast (S.lastEntries ++ [.ofLine key ⟨waiting, raw, value, comment⟩]),
        .inSection S.lastName, []⟩, true) := by
  have hany : S.lastEntries.any (d.isKey key) = false :=
    List.any_eq_false.mpr fun e he => by rw [hnew e he]; exact Bool.false_ne_true
  simp only [accept, acceptEntry, h.hasKey_lastName, h.upsertSection_lastName, hany, Bool.false_and,
    Dialect.putLine, Roster.upsert_of_not_any _ _ hany]
  rfl

/-- An entry line with the key of the last entry, when values are appended. -/
theorem accept_entry_again (h : S.Distinct d) {key : Text} (raw value : Text)
    (comment : Option Comment) {es : List SheetEntry} {e : SheetEntry}
    (hlast : S.lastEntries = es ++ [e]) (hkey : d.isKey key e = true)
    (hpolicy : d.keyPolicy = .append) :
    accept d ⟨S, .inSection S.lastName, waiting⟩ raw (.entry key value comment) =
      (⟨S.setLast (es ++ [e.file .append ⟨waiting, raw, value, comment⟩]),
        .inSection S.lastName, []⟩, true) := by
  -- no entry but the last has the key, so filing the line changes the last one only
  have hany : (es ++ [e]).any (d.isKey key) = true := by simp [hkey]
  have hrest := (hlast ▸ h.lastEntries).isKey_last hkey
  have hput : d.putLine key ⟨waiting, raw, value, comment⟩ (es ++ [e]) =
      es ++ [e.file .append ⟨waiting, raw, value, comment⟩] := by
    rw [Dialect.putLine, Roster.upsert_of_any _ _ hany, Roster.change_append,
      Roster.change_of_forall_not _ hrest, Roster.change, List.map_singleton, if_pos hkey, hpolicy]
  simp only [accept, acceptEntry, h.hasKey_lastName, h.upsertSection_lastName, hlast, hpolicy, hput]
  simp

end Draft
end IniFile
