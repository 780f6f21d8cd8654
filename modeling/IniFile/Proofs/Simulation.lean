/-
  Steps on documents are steps on sheets.

  A sheet has no identities, so its steps are easy to reason about.  Here is what makes that count:
  a step takes a SOUND document to a sound one, and its sheet to where the step on sheets takes it.

  1. **One section** — `Section.Sound.run`, by cases over the changes of a section.
  2. **One step** — `Document.Sound.run`, by cases over the changes of a document.
  3. **Histories** — `Document.Sound.after`, by induction on the list of steps.

  An edit that fails has nothing to do on the sheet either; that is part of each statement.
-/
import IniFile.Proofs.Outcomes
import IniFile.Proofs.Soundness

namespace IniFile

/-! ## One section -/

namespace Section.Sound

variable {d : Dialect} {c : Capture} {s : Section}

/-- The entry of a key changes in its place, and the capture stays. -/
theorem becomes_change (h : s.Sound d c) (key : Text) {f : Entry → Entry}
    {g : SheetEntry → SheetEntry} (hid : ∀ e, (f e).id = e.id) (hkey : ∀ e, (f e).key = e.key)
    (hf : ∀ e, c.entry (f e) = g (c.entry e)) :
    s.Becomes d c c (Roster.change (d.isKey key) g) (s.modify key f) :=
  h.becomes_modify key hid hkey (fun e _ _ => hf e) (fun _ _ _ => rfl) h.unwritten

theorem becomes_set (h : s.Sound d c) (key value : Text) :
    s.Becomes d c c (d.setKey key value) (s.set key value) :=
  h.becomes_upsert key value (fun _ => rfl) (fun _ => rfl) fun _ => rfl

/-- A key that is not there has no entry on the sheet. -/
theorem forall_not_isKey (h : s.Sound d c) {key : Text} (hkey : s.contains key = false) :
    ∀ e ∈ c.entriesOf s, d.isKey key e = false := by
  rw [h.contains_eq] at hkey
  exact fun e he => eq_false_of_ne_true fun hk =>
    absurd (List.any_eq_true.mpr ⟨e, he, hk⟩) (by rw [hkey]; exact Bool.false_ne_true)

/-- What a change of a section comes to on the sheet. -/
def Follows (d : Dialect) (c : Capture) (s : Section) (g : List SheetEntry → List SheetEntry) :
    Except Error (Answer × Section) → Prop
  | .ok (_, next) => s.Becomes d c c g next
  | .error _ => g (c.entriesOf s) = c.entriesOf s

/-- A change of an entry that must be there. -/
theorem follows_onEntry (h : s.Sound d c) (key : Text) {f : Entry → Entry}
    {g : SheetEntry → SheetEntry} (hid : ∀ e, (f e).id = e.id) (hkey : ∀ e, (f e).key = e.key)
    (hf : ∀ e, c.entry (f e) = g (c.entry e)) :
    Follows d c s (Roster.change (d.isKey key) g) (SectionEdit.onEntry s key f) := by
  cases hfind : s.find? key with
  | none =>
    have hcontains := contains_of_find?_eq_none hfind
    rw [SectionEdit.onEntry_of_none hfind]
    exact Roster.change_of_forall_not g (h.forall_not_isKey hcontains)
  | some e =>
    rw [SectionEdit.onEntry_of_some hfind]
    exact h.becomes_change key hid hkey hf

/-- **A change of a section is its change of the sheet.** -/
theorem run (h : s.Sound d c) (edit : SectionEdit) :
    Follows d c s (edit.onEntries d) (edit.run s) := by
  cases edit with
  | insert key value =>
    cases hcontains : s.contains key with
    | true =>
      rw [SectionEdit.run_insert_of_contains hcontains]
      exact Roster.upsert_id_of_any _ (h.contains_eq key ▸ hcontains)
    | false =>
      have hany : (c.entriesOf s).any (d.isKey key) = false := h.contains_eq key ▸ hcontains
      have hset := h.becomes_set key value
      rw [SectionEdit.run_insert_of_not_contains hcontains]
      refine ⟨hset.id_eq, hset.name_eq, hset.sound, hset.entries.trans ?_⟩
      show Roster.upsert _ _ _ _ = Roster.upsert _ _ _ _
      rw [Roster.upsert_of_not_any _ _ hany, Roster.upsert_of_not_any _ _ hany]
  | set key value => exact h.becomes_set key value
  | setScalar key x => exact h.becomes_set key x.raw
  | append key value => exact h.becomes_upsert key value (fun _ => rfl) (fun _ => rfl) fun _ => rfl
  | remove key =>
    cases hfind : s.find? key with
    | none =>
      have hcontains := contains_of_find?_eq_none hfind
      rw [SectionEdit.run_remove_of_none hfind]
      exact Roster.erase_of_forall_not (h.forall_not_isKey hcontains)
    | some e =>
      rw [SectionEdit.run_remove_of_some hfind]
      exact h.becomes_erase key (fun _ _ _ => rfl) h.unwritten
  | clear => exact h.becomes_clear h.unwritten
  | pushIfPresent key value =>
    exact h.becomes_change key (fun _ => rfl) (fun _ => rfl) fun _ => rfl
  | pushAll value => exact h.becomes_mapEntries (fun _ => rfl) (fun _ => rfl) fun _ => rfl
  | setValue key value => exact h.follows_onEntry key (fun _ => rfl) (fun _ => rfl) fun _ => rfl
  | setComment key comment =>
    exact h.follows_onEntry key (fun _ => rfl) (fun _ => rfl) fun _ => rfl

end Section.Sound

/-! ## One step -/

namespace Document

/-- The document may turn into `next`, whose sheet is then `S`. -/
structure Becomes (doc : Document) (S : Sheet) (next : Document) : Prop where
  sound : next.Sound
  sheet : next.sheet = S
  dialect : next.dialect = doc.dialect

/-- What a change of a document comes to on its sheet. -/
def Follows (doc : Document) (S : Sheet) : Except Error (Answer × Document) → Prop
  | .ok (_, next) => doc.Becomes S next
  | .error _ => S = doc.sheet

theorem with_capture_eq {doc : Document} {c : Capture} (h : doc.capture = c) :
    { doc with capture := c } = doc := by
  rw [← h]

namespace Sound

variable {doc : Document}

/-- A section turns into another, or is made, and the capture stays. -/
theorem becomes_upsertSection (h : doc.Sound) (name : Text) {change : Section → Section}
    {g : List SheetEntry → List SheetEntry}
    (hb : ∀ s : Section, s.Sound doc.dialect doc.capture →
      s.Becomes doc.dialect doc.capture doc.capture g (change s)) :
    doc.Becomes (doc.sheet.upsertSection doc.dialect name g) (doc.upsertSection name change) := by
  have hupsert := h.upsertSection change rfl (hb _ (h.sound_getD name))
    Capture.agreeOutside_self rfl
  rw [with_capture_eq (capture_upsertSection doc name change)] at hupsert
  exact ⟨hupsert.1, hupsert.2, dialect_upsertSection doc name change⟩

/-- Giving a key a value makes the section if there is none. -/
theorem becomes_set (h : doc.Sound) (name key value : Text) :
    doc.Becomes (doc.sheet.upsertSection doc.dialect name (doc.dialect.setKey key value))
      (doc.set name key value) :=
  h.becomes_upsertSection name fun _ hs => hs.becomes_set key value

theorem becomes_ensureSection (h : doc.Sound) (name : Text) :
    doc.Becomes (doc.sheet.upsertSection doc.dialect name id) (doc.ensureSection name) :=
  h.becomes_upsertSection name fun _ hs => hs.becomes_self

/-- Nothing happens when the entries of the section stay. -/
theorem changeSection_of_fixed (h : doc.Sound) {name : Text} {s : Section}
    (hs : doc.section? name = some s) {g : List SheetEntry → List SheetEntry}
    (hg : g (doc.capture.entriesOf s) = doc.capture.entriesOf s) :
    doc.sheet.changeSection doc.dialect name g = doc.sheet := by
  unfold Sheet.changeSection
  rcases h.of_section?_eq_some hs with ⟨rfl, rfl⟩ | ⟨hname, hmem, hn⟩
  · rw [List.isEmpty_nil, if_pos rfl, show g doc.sheet.global = doc.sheet.global from hg]
  · have hfixed : ∀ t ∈ doc.sheet.sections,
        (if doc.dialect.isSection name t then t.mapEntries g else t) = t := by
      intro t ht
      obtain ⟨old, hold, rfl⟩ := List.mem_map.mp ht
      by_cases hnt : doc.dialect.isSection name (doc.capture.sectionOf old) = true
      · rw [if_pos hnt, h.eq_of_isSection hold hmem hnt hn, SheetSection.mapEntries,
          show g (doc.capture.sectionOf s).entries = (doc.capture.sectionOf s).entries from hg]
      · rw [if_neg hnt]
    rw [List.isEmpty_eq_false_iff.mpr hname, if_neg Bool.false_ne_true, Roster.change,
      List.map_congr_left hfixed, List.map_id']

theorem follows_remove (h : doc.Sound) (name key : Text) :
    doc.Follows ((Edit.remove name key).onSheet doc.dialect doc.sheet)
      ((Edit.remove name key).run doc) := by
  cases hs : doc.section? name with
  | none =>
    rw [Edit.run_remove_of_no_section hs]
    exact Sheet.changeSection_of_not_hasSection (h.hasSection_of_section?_eq_none hs) _
  | some s =>
    have hsound := h.sound_section? hs
    cases he : s.find? key with
    | none =>
      have hcontains := Section.Sound.contains_of_find?_eq_none he
      rw [Edit.run_remove_of_no_entry hs he]
      exact h.changeSection_of_fixed hs
        (Roster.erase_of_forall_not (hsound.forall_not_isKey hcontains))
    | some e =>
      -- what is dropped from the capture belongs to the section that changes
      have howned : e.id.sectionId = s.id := hsound.owned e (hsound.of_find?_eq_some he).1
      have hmodify := h.modifySection (fun s => s.erase key) hs (hsound.becomes_forget he)
        (Capture.agreeOutside_forgetEntry howned) rfl
      rw [Edit.run_remove_of_some hs he]
      exact ⟨hmodify.1, hmodify.2, dialect_modifySection _ _ _⟩

theorem follows_removeSection (h : doc.Sound) (name : Text) :
    doc.Follows ((Edit.removeSection name).onSheet doc.dialect doc.sheet)
      ((Edit.removeSection name).run doc) := by
  cases hs : doc.section? name with
  | none =>
    rw [Edit.run_removeSection_of_none hs]
    exact Sheet.eraseSection_of_not_hasSection (h.hasSection_of_section?_eq_none hs)
  | some s =>
    rcases h.of_section?_eq_some hs with ⟨rfl, rfl⟩ | ⟨hname, hmem, hn⟩
    -- the global section stays, without entries
    · have hb : doc.global.Becomes doc.dialect doc.capture (doc.capture.forgetSection .global)
          (fun _ => []) doc.global.clear := by
        apply h.globalSound.becomes_clear
        intro i _
        rw [Capture.lines_forgetSection, if_pos h.globalId]
      have hmodify := h.modifyGlobal Section.clear hb Capture.agreeOutside_forgetSection
      rw [Edit.run_removeSection_nil, h.globalId]
      exact ⟨hmodify.1, hmodify.2, rfl⟩
    · have herase := h.eraseNamed hmem hn
      rw [Edit.run_removeSection_of_some hname hs]
      refine ⟨herase.1, herase.2.trans ?_, rfl⟩
      show _ = doc.sheet.eraseSection doc.dialect name
      rw [Sheet.eraseSection, List.isEmpty_eq_false_iff.mpr hname, if_neg Bool.false_ne_true]

theorem follows_inSection (h : doc.Sound) (name : Text) (edit : SectionEdit) :
    doc.Follows ((Edit.inSection name edit).onSheet doc.dialect doc.sheet)
      ((Edit.inSection name edit).run doc) := by
  cases hs : doc.section? name with
  | none =>
    rw [Edit.run_inSection_of_none hs]
    exact Sheet.changeSection_of_not_hasSection (h.hasSection_of_section?_eq_none hs) _
  | some s =>
    have hfollows := (h.sound_section? hs).run edit
    cases hedit : edit.run s with
    | error err =>
      rw [hedit] at hfollows
      rw [Edit.run_inSection_of_error hs hedit]
      exact h.changeSection_of_fixed hs hfollows
    | ok result =>
      obtain ⟨answer, next⟩ := result
      rw [hedit] at hfollows
      have hmodify := h.modifySection (fun _ => next) hs hfollows Capture.agreeOutside_self rfl
      rw [with_capture_eq (capture_modifySection doc name _)] at hmodify
      rw [Edit.run_inSection_of_ok hs hedit]
      exact ⟨hmodify.1, hmodify.2, dialect_modifySection _ _ _⟩

/-- **A change of a document is its change of the sheet.** -/
theorem run_edit (h : doc.Sound) (edit : Edit) :
    doc.Follows (edit.onSheet doc.dialect doc.sheet) (edit.run doc) := by
  cases edit with
  | set name key value => exact h.becomes_set name key value
  | setScalar name key x => exact h.becomes_set name key x.raw
  | remove name key => exact h.follows_remove name key
  | clear => exact ⟨h.clear.1, h.clear.2, rfl⟩
  | insertSection name =>
    cases hhas : doc.hasSection name with
    | true =>
      obtain ⟨s, hs⟩ := Option.isSome_iff_exists.mp ((isSome_section? doc name).trans hhas)
      rw [Edit.run_insertSection_of_hasSection hhas]
      exact (Sheet.upsertSection_of_hasSection ((h.hasSection_eq name).trans hhas) id).trans
        (h.changeSection_of_fixed hs rfl)
    | false =>
      rw [Edit.run_insertSection_of_not_hasSection hhas]
      exact h.becomes_ensureSection name
  | ensureSection name => exact h.becomes_ensureSection name
  | removeSection name => exact h.follows_removeSection name
  | setEverywhere key value =>
    have hmap := h.mapSections (·.set key value) fun s hs => hs.becomes_set key value
    exact ⟨hmap.1, hmap.2, rfl⟩
  | inSection name edit => exact h.follows_inSection name edit
  | setIfSection name key value =>
    cases hhas : doc.hasSection name with
    | true =>
      have hset := h.becomes_set name key value
      rw [Sheet.upsertSection_of_hasSection ((h.hasSection_eq name).trans hhas)] at hset
      rw [Edit.run_setIfSection_of_hasSection hhas]
      exact hset
    | false =>
      rw [Edit.run_setIfSection_of_not_hasSection hhas]
      exact ⟨h, (Sheet.changeSection_of_not_hasSection ((h.hasSection_eq name).trans hhas) _).symm,
        rfl⟩

/-- **A step keeps a document sound, and on its sheet it does what the step on sheets does.** -/
theorem run (h : doc.Sound) (step : Step) :
    doc.Becomes (step.onSheet doc.dialect doc.sheet) (step.run doc).2 := by
  cases step with
  | query q => exact ⟨h, rfl, rfl⟩
  | edit e =>
    have hfollows := h.run_edit e
    cases hrun : e.run doc with
    | ok result =>
      rw [hrun] at hfollows
      simp only [Step.run, hrun]
      exact hfollows
    | error err =>
      rw [hrun] at hfollows
      simp only [Step.run, hrun]
      exact ⟨h, Eq.symm hfollows, rfl⟩

/-! ## Histories -/

/-- **After every history** the document is sound, and its sheet is what the history makes of the
    sheet it started from. -/
theorem after (h : doc.Sound) (steps : List Step) :
    doc.Becomes (doc.sheet.after doc.dialect steps) (doc.after steps) := by
  induction steps generalizing doc with
  | nil => exact ⟨h, rfl, rfl⟩
  | cons step rest ih =>
    -- the rest of the history starts from a sound document again
    have hstep := h.run step
    have hrest := ih hstep.sound
    rw [hstep.sheet, hstep.dialect] at hrest
    exact ⟨hrest.sound, hrest.sheet, hrest.dialect.trans hstep.dialect⟩

end Sound
end Document
end IniFile
