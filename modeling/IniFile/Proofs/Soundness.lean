/-
  Sound documents.

  `Document.Sound` is the invariant of identities for a whole document: its sections are numbered
  apart, the global one has the number zero, every section is sound, and nothing is captured under
  numbers that have not been given out.

  There is one lemma for each way in which a document can change, and each says two things at once:
  the document stays sound, and its SHEET changes as it should.

  1. **Captures that agree** — a change of one section changes the capture for that section only.
  2. **What is not concerned** — the other sections, and those to come (`frame_member`,
     `frame_global`, `frame_later`).
  3. **What can become of a document** — a section turns into another (`modifySection`) and is made
     first if need be (`pushSection`, `upsertSection`); a section is taken out (`eraseNamed`); all
     named sections change (`mapSections`); everything is taken out (`clear`).
-/
import IniFile.Proofs.Identity

namespace IniFile

/-! ## Sections under another capture -/

namespace Section.Sound

variable {d : Dialect} {c c' : Capture} {s : Section}

theorem id_eq (h : s.Sound d c) {e : Entry} (he : e ∈ s.entries.values) :
    e.id = ⟨s.id, e.id.index⟩ := by
  rw [← h.owned e he]

/-- A section does not notice changes of the capture elsewhere. -/
theorem congr (h : s.Sound d c) (hc : ∀ id : EntryId, id.sectionId = s.id → c'.lines id = c.lines id) :
    s.Sound d c' :=
  ⟨h.folding, h.keyed, h.owned, h.numbered, h.distinct, fun i hi =>
    (hc _ rfl).trans (h.unwritten i hi)⟩

theorem entriesOf_congr (h : s.Sound d c)
    (hc : ∀ id : EntryId, id.sectionId = s.id → c'.lines id = c.lines id) :
    c'.entriesOf s = c.entriesOf s :=
  List.map_congr_left fun e he => by
    rw [Capture.entry, Capture.entry, hc e.id (h.owned e he)]

end Section.Sound

/-! ## Captures that agree -/

/-- Two captures that differ in nothing but what belongs to one section. -/
structure Capture.AgreeOutside (id : SectionId) (c c' : Capture) : Prop where
  lines : ∀ entry : EntryId, entry.sectionId ≠ id → c'.lines entry = c.lines entry
  headers : ∀ other, other ≠ id → c'.header? other = c.header? other
  trailing : c'.trailing = c.trailing
  finalNewline : c'.finalNewline = c.finalNewline
  bom : c'.bom = c.bom

namespace Capture

variable {c : Capture} {id : SectionId}

theorem agreeOutside_self : AgreeOutside id c c := ⟨fun _ _ => rfl, fun _ _ => rfl, rfl, rfl, rfl⟩

theorem agreeOutside_recordLines {entry : EntryId} (h : entry.sectionId = id)
    (ls : List EntryLine) : AgreeOutside id c (c.recordLines entry ls) := by
  refine ⟨fun other hother => ?_, fun _ _ => rfl, rfl, rfl, rfl⟩
  rw [lines_recordLines, if_neg]
  rintro rfl
  exact hother h

theorem agreeOutside_forgetEntry {entry : EntryId} (h : entry.sectionId = id) :
    AgreeOutside id c (c.forgetEntry entry) := by
  refine ⟨fun other hother => ?_, fun _ _ => rfl, rfl, rfl, rfl⟩
  rw [lines_forgetEntry, if_neg]
  rintro rfl
  exact hother h

theorem agreeOutside_recordHeader (line : HeaderLine) :
    AgreeOutside id c (c.recordHeader id line) := by
  refine ⟨fun _ _ => rfl, fun other hother => ?_, rfl, rfl, rfl⟩
  rw [header?_recordHeader, if_neg hother]

theorem agreeOutside_forgetSection : AgreeOutside id c (c.forgetSection id) := by
  refine ⟨fun other hother => ?_, fun other hother => ?_, rfl, rfl, rfl⟩
  · rw [lines_forgetSection, if_neg hother]
  · rw [header?_forgetSection, if_neg hother]

end Capture

/-! ## Documents -/

/-- **The invariant of a document.** -/
structure Document.Sound (doc : Document) : Prop where
  folding : doc.sections.caseSensitive = doc.dialect.caseSensitiveSections
  keyed : doc.sections.Keyed Section.name
  named : ∀ s ∈ doc.sections.values, s.name ≠ []
  globalId : doc.global.id = .global
  globalName : doc.global.name = []
  globalSound : doc.global.Sound doc.dialect doc.capture
  sound : ∀ s ∈ doc.sections.values, s.Sound doc.dialect doc.capture
  numbered : ∀ s ∈ doc.sections.values, 0 < s.id.index ∧ s.id.index < doc.nextSection
  distinct : (doc.sections.values.map Section.id).Nodup
  started : 0 < doc.nextSection
  unwritten : ∀ i j, doc.nextSection ≤ i → doc.capture.lines ⟨⟨i⟩, j⟩ = []
  unheaded : ∀ i, doc.nextSection ≤ i → doc.capture.header? ⟨i⟩ = none

namespace Document

theorem sound_empty (d : Dialect) : (empty d).Sound where
  folding := rfl
  keyed := NameTable.keyed_empty _
  named := by simp [empty]
  globalId := rfl
  globalName := rfl
  globalSound := Section.sound_fresh _ fun _ => rfl
  sound := by simp [empty]
  numbered := by simp [empty]
  distinct := by simp [empty]
  started := Nat.one_pos
  unwritten := fun _ _ _ => rfl
  unheaded := fun _ _ => rfl

@[simp] theorem sheet_empty (d : Dialect) : (empty d).sheet = .blank := rfl

/-- Everything that is seen of a sound document is on its sheet. -/
theorem Sound.content_eq {doc : Document} (h : doc.Sound) : doc.sheet.content = doc.content := by
  have hentries : ∀ s : Section, (doc.capture.entriesOf s).map SheetEntry.toEntryContent =
      s.entries.values.map Entry.content := by
    intro s
    rw [Capture.entriesOf, List.map_map]
    rfl
  have hsections : doc.sheet.content.sections = doc.content.sections := by
    show (doc.sections.values.map doc.capture.sectionOf).map _ = doc.sections.values.map _
    rw [List.map_map]
    exact List.map_congr_left fun s _ => congrArg (SectionContent.mk s.name) (hentries s)
  have hglobal : doc.sheet.content.global = doc.content.global := by
    show SectionContent.mk [] _ = SectionContent.mk doc.global.name _
    rw [h.globalName]
    exact congrArg (SectionContent.mk []) (hentries doc.global)
  show DocumentContent.mk doc.sheet.content.global doc.sheet.content.sections = _
  rw [hsections, hglobal]

namespace Sound

variable {doc : Document} {c' : Capture} {name : Text} {s : Section}

theorem named_eq (h : doc.Sound) (name : Text) (s : Section) :
    doc.sections.named Section.name name s =
      doc.dialect.isSection name (doc.capture.sectionOf s) := by
  unfold NameTable.named NameTable.fold Dialect.isSection Dialect.sameSection Dialect.foldSection
  rw [h.folding]
  rfl

/-- A section that is found is the global one, or it is in the table and has the name. -/
theorem of_section?_eq_some (h : doc.Sound) (hs : doc.section? name = some s) :
    (name = [] ∧ s = doc.global) ∨
      (name ≠ [] ∧ s ∈ doc.sections.values ∧
        doc.dialect.isSection name (doc.capture.sectionOf s) = true) := by
  unfold section? at hs
  by_cases hname : name = []
  · rw [hname, List.isEmpty_nil, if_pos rfl, Option.some.injEq] at hs
    exact Or.inl ⟨hname, hs.symm⟩
  · rw [List.isEmpty_eq_false_iff.mpr hname, if_neg Bool.false_ne_true] at hs
    obtain ⟨hmem, hn⟩ := NameTable.of_get?_eq_some h.keyed hs
    exact Or.inr ⟨hname, hmem, h.named_eq name s ▸ hn⟩

theorem contains_eq (h : doc.Sound) (name : Text) :
    doc.sections.contains name = doc.sheet.sections.any (doc.dialect.isSection name) := by
  rw [NameTable.contains_eq h.keyed]
  exact (Roster.any_map fun s _ => (h.named_eq name s).symm).symm

theorem isSome_section? (doc : Document) (name : Text) :
    (doc.section? name).isSome = doc.hasSection name := by
  unfold section? hasSection
  cases name.isEmpty with
  | true => rfl
  | false => exact NameTable.isSome_get? _ _

/-- The sections of one name are one section. -/
theorem eq_of_isSection (h : doc.Sound) {a b : Section} (ha : a ∈ doc.sections.values)
    (hb : b ∈ doc.sections.values)
    (hna : doc.dialect.isSection name (doc.capture.sectionOf a) = true)
    (hnb : doc.dialect.isSection name (doc.capture.sectionOf b) = true) : a = b := by
  refine List.inj_on_of_nodup_map (NameTable.nodup_fold_values h.keyed) ha hb ?_
  rw [← h.named_eq] at hna hnb
  exact (beq_iff_eq.mp hna).trans (beq_iff_eq.mp hnb).symm

theorem eq_of_id_eq (h : doc.Sound) {a b : Section} (ha : a ∈ doc.sections.values)
    (hb : b ∈ doc.sections.values) (hid : a.id = b.id) : a = b :=
  List.inj_on_of_nodup_map h.distinct ha hb hid

theorem id_ne_global (h : doc.Sound) (hs : s ∈ doc.sections.values) : s.id ≠ .global := by
  intro hid
  have hpos := (h.numbered s hs).1
  rw [hid] at hpos
  exact Nat.lt_irrefl _ hpos

/-- What is seen of a section stays while the capture changes elsewhere. -/
theorem sectionOf_congr (h : s.Sound doc.dialect doc.capture)
    (hlines : ∀ id : EntryId, id.sectionId = s.id → c'.lines id = doc.capture.lines id)
    (hheader : c'.header? s.id = doc.capture.header? s.id) :
    c'.sectionOf s = doc.capture.sectionOf s := by
  rw [Capture.sectionOf, Capture.sectionOf, h.entriesOf_congr hlines, hheader]

theorem hasSection_eq (h : doc.Sound) (name : Text) :
    doc.sheet.hasSection doc.dialect name = doc.hasSection name := by
  rw [Sheet.hasSection, hasSection, h.contains_eq]

theorem hasSection_of_section?_eq_none (h : doc.Sound) (hs : doc.section? name = none) :
    doc.sheet.hasSection doc.dialect name = false := by
  rw [h.hasSection_eq, ← isSome_section?, hs]
  rfl

theorem hasSection_of_section?_eq_some (h : doc.Sound) (hs : doc.section? name = some s) :
    doc.sheet.hasSection doc.dialect name = true := by
  rw [h.hasSection_eq, ← isSome_section?, hs]
  rfl

/-! ### What is not concerned

  A capture that agrees with another outside a section says the same of all other sections, and
  nothing yet of sections to come. -/

section Frames

variable {id : SectionId}

/-- The members besides that section. -/
theorem frame_member (h : doc.Sound) (hc : doc.capture.AgreeOutside id c')
    (hmem : s ∈ doc.sections.values) (hne : s.id ≠ id) :
    s.Sound doc.dialect c' ∧ c'.sectionOf s = doc.capture.sectionOf s := by
  have hs := h.sound s hmem
  have hlines : ∀ entry : EntryId, entry.sectionId = s.id →
      c'.lines entry = doc.capture.lines entry := by
    intro entry hentry
    refine hc.lines entry ?_
    rw [hentry]
    exact hne
  exact ⟨hs.congr hlines, sectionOf_congr hs hlines (hc.headers _ hne)⟩

/-- The global section, if it is not that section. -/
theorem frame_global (h : doc.Sound) (hc : doc.capture.AgreeOutside id c') (hne : id ≠ .global) :
    doc.global.Sound doc.dialect c' ∧ c'.entriesOf doc.global = doc.sheet.global := by
  have hlines : ∀ entry : EntryId, entry.sectionId = doc.global.id →
      c'.lines entry = doc.capture.lines entry := by
    intro entry hentry
    refine hc.lines entry ?_
    rw [hentry, h.globalId]
    exact hne.symm
  exact ⟨h.globalSound.congr hlines, h.globalSound.entriesOf_congr hlines⟩

/-- The sections to come, if that section is there already. -/
theorem frame_later (h : doc.Sound) (hc : doc.capture.AgreeOutside id c') {next : Nat}
    (hnext : doc.nextSection ≤ next) (hid : id.index < next) :
    (∀ i j, next ≤ i → c'.lines ⟨⟨i⟩, j⟩ = []) ∧ ∀ i, next ≤ i → c'.header? ⟨i⟩ = none := by
  have hlater : ∀ i, next ≤ i → SectionId.mk i ≠ id := by
    rintro i hi rfl
    exact Nat.not_le.mpr hid hi
  constructor
  · intro i j hi
    rw [hc.lines _ (hlater i hi)]
    exact h.unwritten i j (Nat.le_trans hnext hi)
  · intro i hi
    rw [hc.headers _ (hlater i hi)]
    exact h.unheaded i (Nat.le_trans hnext hi)

end Frames

/-! ### What can become of a document -/

section Modify

variable (change : Section → Section) {g : List SheetEntry → List SheetEntry}

/-- The global section turns into another. -/
theorem modifyGlobal (h : doc.Sound)
    (hb : doc.global.Becomes doc.dialect doc.capture c' g (change doc.global))
    (hc : doc.capture.AgreeOutside .global c') :
    ({ doc with global := change doc.global, capture := c' } : Document).Sound ∧
      ({ doc with global := change doc.global, capture := c' } : Document).sheet =
        { doc.sheet with global := g doc.sheet.global } := by
  have hmember := fun t (ht : t ∈ doc.sections.values) => h.frame_member hc ht (h.id_ne_global ht)
  have hlater := h.frame_later hc (Nat.le_refl _) h.started
  constructor
  · exact
      { folding := h.folding
        keyed := h.keyed
        named := h.named
        globalId := hb.id_eq.trans h.globalId
        globalName := hb.name_eq.trans h.globalName
        globalSound := hb.sound
        sound := fun t ht => (hmember t ht).1
        numbered := h.numbered
        distinct := h.distinct
        started := h.started
        unwritten := hlater.1
        unheaded := hlater.2 }
  · have hsections : doc.sections.values.map c'.sectionOf = doc.sheet.sections :=
      List.map_congr_left fun t ht => (hmember t ht).2
    show Sheet.mk (c'.entriesOf (change doc.global)) (doc.sections.values.map c'.sectionOf)
      c'.trailing c'.finalNewline c'.bom = _
    rw [hb.entries, hsections, hc.trailing, hc.finalNewline, hc.bom]
    rfl

/-- The section of the name is the only one that changes. -/
theorem values_modify (h : doc.Sound) (hmem : s ∈ doc.sections.values)
    (hn : doc.dialect.isSection name (doc.capture.sectionOf s) = true) :
    (doc.sections.modify name change).values =
      doc.sections.values.map fun t => if t.id = s.id then change s else t := by
  rw [NameTable.values_modify h.keyed, Roster.change]
  apply List.map_congr_left
  intro t ht
  by_cases hid : t.id = s.id
  · obtain rfl := h.eq_of_id_eq ht hmem hid
    rw [if_pos rfl, if_pos ((h.named_eq name t).trans hn)]
  · rw [if_neg hid, if_neg]
    intro hnt
    exact hid (congrArg Section.id (h.eq_of_isSection ht hmem (h.named_eq name t ▸ hnt) hn))

/-- What holds of the new section and of all others holds of all members. -/
theorem forall_modify (h : doc.Sound) (hmem : s ∈ doc.sections.values)
    (hn : doc.dialect.isSection name (doc.capture.sectionOf s) = true) {P : Section → Prop}
    (hnew : P (change s)) (hothers : ∀ t ∈ doc.sections.values, t.id ≠ s.id → P t) :
    ∀ t ∈ (doc.sections.modify name change).values, P t := by
  intro t ht
  rw [h.values_modify change hmem hn] at ht
  obtain ⟨old, hold, rfl⟩ := List.mem_map.mp ht
  by_cases hid : old.id = s.id
  · rw [if_pos hid]
    exact hnew
  · rw [if_neg hid]
    exact hothers old hold hid

/-- The sheet's sections, when a section turns into another. -/
theorem sections_modify (h : doc.Sound) (hmem : s ∈ doc.sections.values)
    (hn : doc.dialect.isSection name (doc.capture.sectionOf s) = true)
    (hb : s.Becomes doc.dialect doc.capture c' g (change s))
    (hc : doc.capture.AgreeOutside s.id c') (hheader : c'.header? s.id = doc.capture.header? s.id) :
    (doc.sections.modify name change).values.map c'.sectionOf =
      Roster.change (doc.dialect.isSection name) (.mapEntries g) doc.sheet.sections := by
  show _ = Roster.change _ _ (doc.sections.values.map doc.capture.sectionOf)
  rw [h.values_modify change hmem hn, Roster.change, List.map_map, List.map_map]
  apply List.map_congr_left
  intro t ht
  show c'.sectionOf (if t.id = s.id then change s else t) =
    if doc.dialect.isSection name (doc.capture.sectionOf t) then
      (doc.capture.sectionOf t).mapEntries g else doc.capture.sectionOf t
  by_cases hid : t.id = s.id
  · obtain rfl := h.eq_of_id_eq ht hmem hid
    rw [if_pos rfl, if_pos hn, Capture.sectionOf, Capture.sectionOf, hb.name_eq, hb.id_eq, hb.entries,
      hheader]
    rfl
  · rw [if_neg hid, if_neg, (h.frame_member hc ht hid).2]
    intro hnt
    exact hid (congrArg Section.id (h.eq_of_isSection ht hmem hnt hn))

/-- A named section turns into another. -/
theorem modifyNamed (h : doc.Sound) (hmem : s ∈ doc.sections.values)
    (hn : doc.dialect.isSection name (doc.capture.sectionOf s) = true)
    (hb : s.Becomes doc.dialect doc.capture c' g (change s))
    (hc : doc.capture.AgreeOutside s.id c') (hheader : c'.header? s.id = doc.capture.header? s.id) :
    ({ doc with sections := doc.sections.modify name change, capture := c' } : Document).Sound ∧
      ({ doc with sections := doc.sections.modify name change, capture := c' } : Document).sheet =
        { doc.sheet with
          sections := Roster.change (doc.dialect.isSection name) (.mapEntries g)
            doc.sheet.sections } := by
  have hids : (doc.sections.modify name change).values.map Section.id =
      doc.sections.values.map Section.id := by
    rw [h.values_modify change hmem hn, List.map_map]
    apply List.map_congr_left
    intro t ht
    show (if t.id = s.id then change s else t).id = t.id
    by_cases hid : t.id = s.id
    · rw [if_pos hid, hb.id_eq, hid]
    · rw [if_neg hid]
  have hlater := h.frame_later hc (Nat.le_refl _) (h.numbered s hmem).2
  have hglobal := h.frame_global hc (h.id_ne_global hmem)
  constructor
  · exact
      { folding := h.folding
        keyed := NameTable.keyed_modify h.keyed name fun t ht hnt => by
          rw [h.eq_of_isSection ht hmem (h.named_eq name t ▸ hnt) hn, hb.name_eq]
        named := h.forall_modify change hmem hn (hb.name_eq ▸ h.named s hmem) fun t ht _ =>
          h.named t ht
        globalId := h.globalId
        globalName := h.globalName
        globalSound := hglobal.1
        sound := h.forall_modify change hmem hn hb.sound fun t ht hne => (h.frame_member hc ht hne).1
        numbered := by
          refine h.forall_modify change hmem hn ?_ fun t ht _ => h.numbered t ht
          rw [hb.id_eq]
          exact h.numbered s hmem
        distinct := hids ▸ h.distinct
        started := h.started
        unwritten := hlater.1
        unheaded := hlater.2 }
  · show Sheet.mk (c'.entriesOf doc.global) ((doc.sections.modify name change).values.map
      c'.sectionOf) c'.trailing c'.finalNewline c'.bom = _
    rw [hglobal.2, h.sections_modify change hmem hn hb hc hheader, hc.trailing, hc.finalNewline,
      hc.bom]
    rfl

/-- **A section turns into another.**  Along with it the capture may change, but only for that
    section. -/
theorem modifySection (h : doc.Sound) (hs : doc.section? name = some s)
    (hb : s.Becomes doc.dialect doc.capture c' g (change s))
    (hc : doc.capture.AgreeOutside s.id c') (hheader : c'.header? s.id = doc.capture.header? s.id) :
    ({ doc.modifySection name change with capture := c' } : Document).Sound ∧
      ({ doc.modifySection name change with capture := c' } : Document).sheet =
        doc.sheet.changeSection doc.dialect name g := by
  rcases h.of_section?_eq_some hs with ⟨rfl, rfl⟩ | ⟨hname, hmem, hn⟩
  · exact h.modifyGlobal change hb (h.globalId ▸ hc)
  · unfold Document.modifySection Sheet.changeSection
    rw [List.isEmpty_eq_false_iff.mpr hname, if_neg Bool.false_ne_true, if_neg Bool.false_ne_true]
    exact h.modifyNamed change hmem hn hb hc hheader

/-- The number of the next section is not the number of any. -/
theorem id_ne_next (h : doc.Sound) (hmem : s ∈ doc.sections.values) : s.id ≠ ⟨doc.nextSection⟩ := by
  intro hid
  have hlt := (h.numbered s hmem).2
  rw [hid] at hlt
  exact Nat.lt_irrefl _ hlt

theorem next_ne_global (h : doc.Sound) : SectionId.mk doc.nextSection ≠ .global := by
  intro hid
  have hzero : doc.nextSection = 0 := congrArg SectionId.index hid
  have hpos := h.started
  omega

/-- A section with a number that no other has comes at the end. -/
theorem values_push (h : doc.Sound) (hnew : doc.sections.contains name = false) (fresh : Section) :
    (doc.sections.upsert name change fresh).values = doc.sections.values ++ [fresh] := by
  rw [NameTable.values_upsert h.keyed, Roster.upsert_of_not_any]
  exact (NameTable.contains_eq h.keyed name).symm.trans hnew

/-- What holds of the new section and of all others holds of all members. -/
theorem forall_push (h : doc.Sound) (hnew : doc.sections.contains name = false) {fresh : Section}
    {P : Section → Prop} (hfresh : P fresh) (hothers : ∀ t ∈ doc.sections.values, P t) :
    ∀ t ∈ (doc.sections.upsert name change fresh).values, P t := by
  intro t ht
  rw [h.values_push change hnew] at ht
  rcases List.mem_append.mp ht with ht | ht
  · exact hothers t ht
  · rw [List.mem_singleton.mp ht]
    exact hfresh

/-- **A new section comes at the end.**  Along with it the capture may change, but only for that
    section. -/
theorem pushSection (h : doc.Sound) (hname : name ≠ []) (hnew : doc.sections.contains name = false)
    (hb : (doc.newSection name).Becomes doc.dialect doc.capture c' g (change (doc.newSection name)))
    (hc : doc.capture.AgreeOutside ⟨doc.nextSection⟩ c') :
    ({ doc.upsertSection name change with capture := c' } : Document).Sound ∧
      ({ doc.upsertSection name change with capture := c' } : Document).sheet =
        { doc.sheet with
          sections := doc.sheet.sections ++ [⟨name, c'.header? ⟨doc.nextSection⟩, g []⟩] } := by
  obtain ⟨fresh, hfresh⟩ : ∃ fresh, fresh = change (doc.newSection name) := ⟨_, rfl⟩
  have hid : fresh.id = ⟨doc.nextSection⟩ := by
    rw [hfresh, hb.id_eq]
    rfl
  have hfreshName : fresh.name = name := by
    rw [hfresh, hb.name_eq]
    rfl
  have hgrown : doc.upsertSection name change =
      { doc with
        sections := doc.sections.upsert name change fresh
        nextSection := doc.nextSection + 1 } := by
    unfold Document.upsertSection
    rw [List.isEmpty_eq_false_iff.mpr hname, if_neg Bool.false_ne_true, hnew,
      if_neg Bool.false_ne_true, hfresh]
  have hmember := fun t (ht : t ∈ doc.sections.values) => h.frame_member hc ht (h.id_ne_next ht)
  have hglobal := h.frame_global hc h.next_ne_global
  have hlater := h.frame_later hc (Nat.le_succ _) (Nat.lt_succ_self doc.nextSection)
  -- the number of the new section is above all that were given out
  have hdistinct : ((doc.sections.upsert name change fresh).values.map Section.id).Nodup := by
    rw [h.values_push change hnew, List.map_append, List.nodup_append]
    refine ⟨h.distinct, List.pairwise_singleton _ _, ?_⟩
    intro id hmem other hother heq
    obtain ⟨t, ht, rfl⟩ := List.mem_map.mp hmem
    rw [List.map_singleton, List.mem_singleton] at hother
    exact h.id_ne_next ht (heq.trans (hother.trans hid))
  rw [hgrown]
  constructor
  · exact
      { folding := (NameTable.caseSensitive_upsert _ _ _ _).trans h.folding
        keyed := by
          refine NameTable.keyed_upsert h.keyed name (fun t ht hnt => ?_) hfreshName
          rw [NameTable.contains_eq h.keyed] at hnew
          exact absurd hnt (List.any_eq_false.mp hnew t ht)
        named := h.forall_push change hnew (by rw [hfreshName]; exact hname) h.named
        globalId := h.globalId
        globalName := h.globalName
        globalSound := hglobal.1
        sound := h.forall_push change hnew (hfresh ▸ hb.sound) fun t ht => (hmember t ht).1
        numbered := by
          refine h.forall_push change hnew ?_ fun t ht =>
            ⟨(h.numbered t ht).1, Nat.lt_succ_of_lt (h.numbered t ht).2⟩
          rw [hid]
          exact ⟨h.started, Nat.lt_succ_self _⟩
        distinct := hdistinct
        started := Nat.succ_pos _
        unwritten := hlater.1
        unheaded := hlater.2 }
  · have hsections : doc.sections.values.map c'.sectionOf = doc.sheet.sections :=
      List.map_congr_left fun t ht => (hmember t ht).2
    have hpushed : c'.sectionOf fresh = ⟨name, c'.header? ⟨doc.nextSection⟩, g []⟩ := by
      rw [Capture.sectionOf, hid, hfreshName, hfresh, hb.entries]
      rfl
    show Sheet.mk (c'.entriesOf doc.global)
      ((doc.sections.upsert name change fresh).values.map c'.sectionOf) c'.trailing
      c'.finalNewline c'.bom = _
    rw [h.values_push change hnew, List.map_append, List.map_singleton, hglobal.2, hsections, hpushed,
      hc.trailing, hc.finalNewline, hc.bom]
    rfl

/-- The section that an upsert works on, be it found or new, is sound. -/
theorem sound_newSection (h : doc.Sound) (name : Text) :
    (doc.newSection name).Sound doc.dialect doc.capture :=
  Section.sound_fresh name fun j => h.unwritten _ j (Nat.le_refl _)

theorem sound_section? (h : doc.Sound) (hs : doc.section? name = some s) :
    s.Sound doc.dialect doc.capture := by
  rcases h.of_section?_eq_some hs with ⟨-, rfl⟩ | ⟨-, hmem, -⟩
  · exact h.globalSound
  · exact h.sound s hmem

theorem sound_getD (h : doc.Sound) (name : Text) :
    ((doc.section? name).getD (doc.newSection name)).Sound doc.dialect doc.capture := by
  cases hs : doc.section? name with
  | none => exact h.sound_newSection name
  | some s => exact h.sound_section? hs

/-- **A section turns into another, and is made first if there is none.** -/
theorem upsertSection (h : doc.Sound) (hs : (doc.section? name).getD (doc.newSection name) = s)
    (hb : s.Becomes doc.dialect doc.capture c' g (change s))
    (hc : doc.capture.AgreeOutside s.id c') (hheader : c'.header? s.id = doc.capture.header? s.id) :
    ({ doc.upsertSection name change with capture := c' } : Document).Sound ∧
      ({ doc.upsertSection name change with capture := c' } : Document).sheet =
        doc.sheet.upsertSection doc.dialect name g := by
  -- the section is made, or it is changed in its place; the sheet makes the same choice
  cases hfound : doc.section? name with
  | none =>
    rw [hfound, Option.getD_none] at hs
    subst hs
    have hhas := h.hasSection_of_section?_eq_none hfound
    have hcontains : doc.sections.contains name = false := by
      rw [h.hasSection_eq, hasSection, Bool.or_eq_false_iff] at hhas
      exact hhas.2
    have hpush := h.pushSection change (Sheet.of_hasSection_eq_false hhas).1 hcontains hb hc
    refine ⟨hpush.1, hpush.2.trans ?_⟩
    rw [Sheet.upsertSection_of_not_hasSection hhas,
      show c'.header? ⟨doc.nextSection⟩ = none from hheader.trans (h.unheaded _ (Nat.le_refl _))]
  | some t =>
    rw [hfound, Option.getD_some] at hs
    subst hs
    have hhas := h.hasSection_of_section?_eq_some hfound
    have hsame : doc.upsertSection name change = doc.modifySection name change := by
      unfold Document.upsertSection Document.modifySection
      cases hname : name.isEmpty with
      | true => rfl
      | false =>
        rw [h.hasSection_eq, hasSection, hname, Bool.false_or] at hhas
        rw [NameTable.upsert, dif_pos hhas, if_pos hhas]
    rw [hsame, Sheet.upsertSection_of_hasSection hhas]
    exact h.modifySection change hfound hb hc hheader

end Modify

/-- The members that are left belong to other numbers. -/
theorem of_mem_erase (h : doc.Sound) (hmem : s ∈ doc.sections.values)
    (hn : doc.dialect.isSection name (doc.capture.sectionOf s) = true) {t : Section}
    (ht : t ∈ (doc.sections.erase name).values) : t ∈ doc.sections.values ∧ t.id ≠ s.id := by
  rw [NameTable.values_erase h.keyed] at ht
  obtain ⟨ht, hnt⟩ := List.mem_filter.mp ht
  rw [h.named_eq, Bool.not_eq_true'] at hnt
  refine ⟨ht, ?_⟩
  intro hid
  rw [h.eq_of_id_eq ht hmem hid, hn] at hnt
  exact Bool.noConfusion hnt

/-- **A named section is taken out**, with all that was captured for it. -/
theorem eraseNamed (h : doc.Sound) (hmem : s ∈ doc.sections.values)
    (hn : doc.dialect.isSection name (doc.capture.sectionOf s) = true) :
    ({ doc with
        sections := doc.sections.erase name
        capture := doc.capture.forgetSection s.id } : Document).Sound ∧
      ({ doc with
          sections := doc.sections.erase name
          capture := doc.capture.forgetSection s.id } : Document).sheet =
        { doc.sheet with
          sections := Roster.erase (doc.dialect.isSection name) doc.sheet.sections } := by
  have hc : doc.capture.AgreeOutside s.id (doc.capture.forgetSection s.id) :=
    Capture.agreeOutside_forgetSection
  have hrest := fun t (ht : t ∈ (doc.sections.erase name).values) => h.of_mem_erase hmem hn ht
  have hmember := fun t (ht : t ∈ (doc.sections.erase name).values) =>
    h.frame_member hc (hrest t ht).1 (hrest t ht).2
  have hglobal := h.frame_global hc (h.id_ne_global hmem)
  have hlater := h.frame_later hc (Nat.le_refl _) (h.numbered s hmem).2
  constructor
  · exact
      { folding := h.folding
        keyed := NameTable.keyed_erase h.keyed name
        named := fun t ht => h.named t (hrest t ht).1
        globalId := h.globalId
        globalName := h.globalName
        globalSound := hglobal.1
        sound := fun t ht => (hmember t ht).1
        numbered := fun t ht => h.numbered t (hrest t ht).1
        distinct := by
          show ((doc.sections.erase name).values.map Section.id).Nodup
          rw [NameTable.values_erase h.keyed]
          exact h.distinct.sublist (List.filter_sublist.map Section.id)
        started := h.started
        unwritten := hlater.1
        unheaded := hlater.2 }
  · have hsections : (doc.sections.erase name).values.map
        (doc.capture.forgetSection s.id).sectionOf =
          Roster.erase (doc.dialect.isSection name) doc.sheet.sections := by
      rw [List.map_congr_left fun t ht => (hmember t ht).2, NameTable.values_erase h.keyed]
      exact Roster.map_erase fun t _ => (h.named_eq name t).symm
    show Sheet.mk ((doc.capture.forgetSection s.id).entriesOf doc.global)
      ((doc.sections.erase name).values.map (doc.capture.forgetSection s.id).sectionOf)
      doc.capture.trailing doc.capture.finalNewline doc.capture.bom = _
    rw [hglobal.2, hsections]
    rfl

/-- **Every named section turns into another.** -/
theorem mapSections (h : doc.Sound) (change : Section → Section)
    {g : List SheetEntry → List SheetEntry}
    (hb : ∀ s : Section, s.Sound doc.dialect doc.capture →
      s.Becomes doc.dialect doc.capture doc.capture g (change s)) :
    (doc.mapSections change).Sound ∧
      (doc.mapSections change).sheet =
        { doc.sheet with sections := doc.sheet.sections.map (.mapEntries g) } := by
  have hvalues : (doc.mapSections change).sections.values = doc.sections.values.map change :=
    NameTable.values_mapValues _ _
  have hbecomes := fun s hs => hb s (h.sound s hs)
  have hall : ∀ P : Section → Prop, (∀ s ∈ doc.sections.values, P (change s)) →
      ∀ t ∈ (doc.mapSections change).sections.values, P t := by
    intro P hP t ht
    rw [hvalues] at ht
    obtain ⟨s, hs, rfl⟩ := List.mem_map.mp ht
    exact hP s hs
  have hids : (doc.mapSections change).sections.values.map Section.id =
      doc.sections.values.map Section.id := by
    rw [hvalues, List.map_map]
    exact List.map_congr_left fun s hs => (hbecomes s hs).id_eq
  constructor
  · exact
      { folding := h.folding
        keyed := NameTable.keyed_mapValues h.keyed fun s hs => (hbecomes s hs).name_eq
        named := hall _ fun s hs => (hbecomes s hs).name_eq ▸ h.named s hs
        globalId := h.globalId
        globalName := h.globalName
        globalSound := h.globalSound
        sound := hall _ fun s hs => (hbecomes s hs).sound
        numbered := hall (fun t => 0 < t.id.index ∧ t.id.index < doc.nextSection) fun s hs =>
          (hbecomes s hs).id_eq ▸ h.numbered s hs
        distinct := hids ▸ h.distinct
        started := h.started
        unwritten := h.unwritten
        unheaded := h.unheaded }
  · have hsections : (doc.mapSections change).sections.values.map doc.capture.sectionOf =
        doc.sheet.sections.map (.mapEntries g) := by
      show _ = (doc.sections.values.map doc.capture.sectionOf).map _
      rw [hvalues, List.map_map, List.map_map]
      apply List.map_congr_left
      intro s hs
      show doc.capture.sectionOf (change s) = (doc.capture.sectionOf s).mapEntries g
      rw [Capture.sectionOf, Capture.sectionOf, (hbecomes s hs).name_eq, (hbecomes s hs).id_eq,
        (hbecomes s hs).entries]
      rfl
    show Sheet.mk _ ((doc.mapSections change).sections.values.map doc.capture.sectionOf) _ _ _ = _
    rw [hsections]
    rfl

/-- **Everything is taken out.** -/
theorem clear (h : doc.Sound) : doc.clear.Sound ∧ doc.clear.sheet = .blank := by
  refine ⟨?_, rfl⟩
  exact
    { folding := h.folding
      keyed := NameTable.keyed_empty _
      named := by simp [Document.clear]
      globalId := h.globalId
      globalName := h.globalName
      globalSound := (h.globalSound.becomes_clear fun _ _ => rfl).sound
      sound := by simp [Document.clear]
      numbered := by simp [Document.clear]
      distinct := by simp [Document.clear]
      started := h.started
      unwritten := fun _ _ _ => rfl
      unheaded := fun _ _ => rfl }

end Sound
end Document
end IniFile
