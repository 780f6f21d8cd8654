/-
  Elements and their captured lines over time.

  A document is edited, elements go and new ones come, and captured lines may outlast the elements
  they belonged to.  None of this can bring captured lines to another element, because numbers that
  are counted without end are never given out again: not after a key or a section was taken out, and
  not after everything was.  Words of 32 bits are as good until a counter overflows
  (`Document.afterInWords_of_stops`).

  1. **Tables** — where the values of a changed table come from.
  2. **Results** — what a result without an error says of the steps that led to it.
  3. **Sections** — `Section.LeadsTo`: a later stage of a section has older entries, or later
     numbers.
  4. **Captures** — `Capture.Within`: a later capture has nothing new.
  5. **Documents** — `Document.LeadsTo` puts these together, step by step (`leadsTo_run`), and so
     along every history (`leadsTo_after`).
  6. **Formats over time** — what a later stage of a sound document has captured, and for whom
     (`Document.KeepsFormats`).
-/
import IniFile.Proofs.Simulation

namespace IniFile

/-! ## Tables -/

namespace NameTable

variable {α : Type} {t : NameTable α} {name : Text} {f : α → α} {a : α}

theorem mem_values_of_get?_eq_some (h : t.get? name = some a) : a ∈ t.values := by
  obtain ⟨row, hrow, rfl⟩ := Option.map_eq_some_iff.mp h
  exact List.mem_map_of_mem (List.mem_of_find?_eq_some hrow)

/-- A row of the name is the one that is found. -/
theorem get?_eq_some_of_mem {row : Text × α} (hrow : row ∈ t.rows) (h : row.1 = t.fold name) :
    t.get? name = some row.2 := by
  have hfound := Roster.find?_eq_some_of_mem t.distinct hrow
  rw [h] at hfound
  rw [get?, hfound]
  rfl

theorem mem_values_modify (h : a ∈ (t.modify name f).values) :
    a ∈ t.values ∨ ∃ b, t.get? name = some b ∧ a = f b := by
  obtain ⟨row, hrow, rfl⟩ := List.mem_map.mp h
  obtain ⟨old, hold, rfl⟩ := List.mem_map.mp hrow
  by_cases hname : (old.1 == t.fold name) = true
  · right
    exact ⟨old.2, get?_eq_some_of_mem hold (beq_iff_eq.mp hname), if_pos hname⟩
  · left
    rw [show (old.1, if old.1 == t.fold name then f old.2 else old.2).2 = old.2 from if_neg hname]
    exact List.mem_map_of_mem hold

theorem mem_values_upsert {fresh : α} (h : a ∈ (t.upsert name f fresh).values) :
    a ∈ t.values ∨ (∃ b, t.get? name = some b ∧ a = f b) ∨ t.contains name = false ∧ a = fresh := by
  by_cases hname : t.contains name = true
  · rw [upsert, dif_pos hname] at h
    rcases mem_values_modify h with h | h
    · exact Or.inl h
    · exact Or.inr (Or.inl h)
  · rw [upsert, dif_neg hname] at h
    obtain ⟨row, hrow, rfl⟩ := List.mem_map.mp h
    rcases List.mem_append.mp hrow with hrow | hrow
    · exact Or.inl (List.mem_map_of_mem hrow)
    · rw [List.mem_singleton.mp hrow]
      exact Or.inr (Or.inr ⟨eq_false_of_ne_true hname, rfl⟩)

theorem mem_values_erase (h : a ∈ (t.erase name).values) : a ∈ t.values := by
  obtain ⟨row, hrow, rfl⟩ := List.mem_map.mp h
  exact List.mem_map_of_mem (List.mem_filter.mp hrow).1

/-- What is found under a name that was changed. -/
theorem get?_modify (t : NameTable α) (name : Text) (f : α → α) :
    (t.modify name f).get? name = (t.get? name).map f := by
  show ((t.rows.map fun row => (row.1, if row.1 == t.fold name then f row.2 else row.2)).find?
    fun row => row.1 == t.fold name).map Prod.snd =
      ((t.rows.find? fun row => row.1 == t.fold name).map Prod.snd).map f
  rw [List.find?_map]
  show ((t.rows.find? fun row => row.1 == t.fold name).map _).map Prod.snd = _
  cases hfound : t.rows.find? fun row => row.1 == t.fold name with
  | none => rfl
  | some row => exact congrArg some (if_pos (List.find?_some hfound))

/-- Functions that agree on what is found change the table alike. -/
theorem modify_congr {g : α → α} (h : ∀ b, t.get? name = some b → f b = g b) :
    t.modify name f = t.modify name g := by
  have hrows : (t.modify name f).rows = (t.modify name g).rows := by
    apply List.map_congr_left
    intro row hrow
    by_cases hname : (row.1 == t.fold name) = true
    · rw [if_pos hname, if_pos hname, h _ (get?_eq_some_of_mem hrow (beq_iff_eq.mp hname))]
    · rw [if_neg hname, if_neg hname]
  rw [modify, modify, mk.injEq]
  exact ⟨rfl, hrows⟩

end NameTable

/-! ## Results -/

namespace Except

variable {ε α β : Type} {x : Except ε α} {b : β}

theorem exists_of_map_eq_ok {f : α → β} (h : x.map f = .ok b) : ∃ a, x = .ok a ∧ f a = b := by
  cases x with
  | error fault => exact absurd h nofun
  | ok a => exact ⟨a, rfl, Except.ok.inj h⟩

theorem exists_of_bind_eq_ok {f : α → Except ε β} (h : (x >>= f) = .ok b) :
    ∃ a, x = .ok a ∧ f a = .ok b := by
  cases x with
  | error fault => exact absurd h nofun
  | ok a => exact ⟨a, rfl, h⟩

end Except

/-! ## Sections -/

namespace Section

/-- The section `s'` is a later stage of `s`: its numbering goes on, and each of its entries was
    there under the same key, or has a number that came later. -/
structure LeadsTo (s s' : Section) : Prop where
  id_eq : s'.id = s.id
  name_eq : s'.name = s.name
  numbers : s.nextEntry ≤ s'.nextEntry
  entries : ∀ e ∈ s'.entries.values,
    (∃ old ∈ s.entries.values, old.id = e.id ∧ old.key = e.key) ∨ s.nextEntry ≤ e.id.index

variable {s s' s'' : Section}

theorem LeadsTo.refl (s : Section) : s.LeadsTo s :=
  ⟨rfl, rfl, Nat.le_refl _, fun e he => Or.inl ⟨e, he, rfl, rfl⟩⟩

theorem LeadsTo.trans (h : s.LeadsTo s') (h' : s'.LeadsTo s'') : s.LeadsTo s'' := by
  refine ⟨h'.id_eq.trans h.id_eq, h'.name_eq.trans h.name_eq, Nat.le_trans h.numbers h'.numbers,
    fun e he => ?_⟩
  rcases h'.entries e he with ⟨mid, hmid, hid, hkey⟩ | hlater
  · rcases h.entries mid hmid with ⟨old, hold, hid', hkey'⟩ | hlater
    · exact Or.inl ⟨old, hold, hid'.trans hid, hkey'.trans hkey⟩
    · exact Or.inr (hid ▸ hlater)
  · exact Or.inr (Nat.le_trans h.numbers hlater)

section Change

variable {f : Entry → Entry} (hid : ∀ e, (f e).id = e.id) (hkey : ∀ e, (f e).key = e.key)

include hid hkey

theorem leadsTo_upsert (s : Section) (key value : Text) : s.LeadsTo (s.upsert key value f) := by
  refine ⟨rfl, rfl, ?_, fun e he => ?_⟩
  · show s.nextEntry ≤ if s.contains key then s.nextEntry else s.nextEntry + 1
    split <;> omega
  · rcases NameTable.mem_values_upsert he with he | ⟨old, hold, rfl⟩ | ⟨-, rfl⟩
    · exact Or.inl ⟨e, he, rfl, rfl⟩
    · exact Or.inl ⟨old, NameTable.mem_values_of_get?_eq_some hold, (hid old).symm, (hkey old).symm⟩
    · exact Or.inr (Nat.le_refl _)

theorem leadsTo_modify (s : Section) (key : Text) : s.LeadsTo (s.modify key f) := by
  refine ⟨rfl, rfl, Nat.le_refl _, fun e he => ?_⟩
  rcases NameTable.mem_values_modify he with he | ⟨old, hold, rfl⟩
  · exact Or.inl ⟨e, he, rfl, rfl⟩
  · exact Or.inl ⟨old, NameTable.mem_values_of_get?_eq_some hold, (hid old).symm, (hkey old).symm⟩

theorem leadsTo_mapEntries (s : Section) : s.LeadsTo (s.mapEntries f) := by
  refine ⟨rfl, rfl, Nat.le_refl _, fun e he => ?_⟩
  rw [show (s.mapEntries f).entries.values = s.entries.values.map f from
    NameTable.values_mapValues _ _] at he
  obtain ⟨old, hold, rfl⟩ := List.mem_map.mp he
  exact Or.inl ⟨old, hold, (hid old).symm, (hkey old).symm⟩

end Change

theorem leadsTo_set (s : Section) (key value : Text) : s.LeadsTo (s.set key value) :=
  s.leadsTo_upsert (f := (·.setValue value)) (fun _ => rfl) (fun _ => rfl) key value

theorem leadsTo_erase (s : Section) (key : Text) : s.LeadsTo (s.erase key) :=
  ⟨rfl, rfl, Nat.le_refl _, fun _ he => Or.inl ⟨_, NameTable.mem_values_erase he, rfl, rfl⟩⟩

/-- An emptied section goes on numbering where it was. -/
theorem leadsTo_clear (s : Section) : s.LeadsTo s.clear :=
  ⟨rfl, rfl, Nat.le_refl _, fun _ he => absurd he List.not_mem_nil⟩

/-- **A change of a section** leads to a later stage of it. -/
theorem leadsTo_run {edit : SectionEdit} {answer : Answer} (h : edit.run s = .ok (answer, s')) :
    s.LeadsTo s' := by
  have honEntry : ∀ (key : Text) (change : Entry → Entry), (∀ e, (change e).id = e.id) →
      (∀ e, (change e).key = e.key) → SectionEdit.onEntry s key change = .ok (answer, s') →
        s.LeadsTo s' := by
    intro key change hid hkey hrun
    obtain ⟨e, -, hnext⟩ := Except.exists_of_map_eq_ok hrun
    rw [← (Prod.mk.inj hnext).2]
    exact s.leadsTo_modify hid hkey key
  cases edit with
  | insert key value =>
    obtain ⟨made, hinsert, hnext⟩ := Except.exists_of_map_eq_ok h
    rw [← (Prod.mk.inj hnext).2]
    unfold Section.insert at hinsert
    split at hinsert
    · exact absurd hinsert nofun
    · rw [← Except.ok.inj hinsert]
      exact s.leadsTo_set key value
  | set key value => obtain ⟨-, rfl⟩ := Prod.mk.inj (Except.ok.inj h); exact s.leadsTo_set key value
  | setScalar key x => obtain ⟨-, rfl⟩ := Prod.mk.inj (Except.ok.inj h); exact s.leadsTo_set key x.raw
  | append key value =>
    obtain ⟨-, rfl⟩ := Prod.mk.inj (Except.ok.inj h)
    exact s.leadsTo_upsert (f := (·.pushValue value)) (fun _ => rfl) (fun _ => rfl) key value
  | remove key =>
    obtain ⟨removed, hremove, hnext⟩ := Except.exists_of_map_eq_ok h
    obtain ⟨e, -, hrest⟩ := Except.exists_of_map_eq_ok hremove
    rw [← (Prod.mk.inj hnext).2, ← hrest]
    exact s.leadsTo_erase key
  | clear => obtain ⟨-, rfl⟩ := Prod.mk.inj (Except.ok.inj h); exact s.leadsTo_clear
  | pushIfPresent key value =>
    obtain ⟨-, rfl⟩ := Prod.mk.inj (Except.ok.inj h)
    exact s.leadsTo_modify (f := (·.pushValue value)) (fun _ => rfl) (fun _ => rfl) key
  | pushAll value =>
    obtain ⟨-, rfl⟩ := Prod.mk.inj (Except.ok.inj h)
    exact s.leadsTo_mapEntries (f := (·.pushValue value)) (fun _ => rfl) fun _ => rfl
  | setValue key value => exact honEntry key (·.setValue value) (fun _ => rfl) (fun _ => rfl) h
  | setComment key comment =>
    exact honEntry key (·.setComment comment) (fun _ => rfl) (fun _ => rfl) h

end Section

/-! ## Captures -/

/-- The capture `c'` has nothing that `c` did not have. -/
structure Capture.Within (c c' : Capture) : Prop where
  headers : ∀ id, c'.header? id = none ∨ c'.header? id = c.header? id
  lines : ∀ id, c'.lines id = [] ∨ c'.lines id = c.lines id

namespace Capture

variable {c c' c'' : Capture}

theorem Within.refl (c : Capture) : c.Within c := ⟨fun _ => Or.inr rfl, fun _ => Or.inr rfl⟩

theorem Within.trans (h : c.Within c') (h' : c'.Within c'') : c.Within c'' := by
  refine ⟨fun id => ?_, fun id => ?_⟩
  · rcases h'.headers id with hnone | hsame
    · exact Or.inl hnone
    · rw [hsame]
      exact h.headers id
  · rcases h'.lines id with hnone | hsame
    · exact Or.inl hnone
    · rw [hsame]
      exact h.lines id

theorem within_forgetEntry (c : Capture) (id : EntryId) : c.Within (c.forgetEntry id) := by
  refine ⟨fun _ => Or.inr rfl, fun other => ?_⟩
  rw [lines_forgetEntry]
  by_cases h : other = id
  · rw [if_pos h]; exact Or.inl rfl
  · rw [if_neg h]; exact Or.inr rfl

theorem within_forgetSection (c : Capture) (id : SectionId) : c.Within (c.forgetSection id) := by
  refine ⟨fun other => ?_, fun other => ?_⟩
  · rw [header?_forgetSection]
    by_cases h : other = id
    · rw [if_pos h]; exact Or.inl rfl
    · rw [if_neg h]; exact Or.inr rfl
  · rw [lines_forgetSection]
    by_cases h : other.sectionId = id
    · rw [if_pos h]; exact Or.inl rfl
    · rw [if_neg h]; exact Or.inr rfl

theorem within_empty (c : Capture) : c.Within {} := ⟨fun _ => Or.inl rfl, fun _ => Or.inl rfl⟩

end Capture

/-! ## Documents -/

namespace Document

/-- The document `next` is a later stage of `doc`. -/
structure LeadsTo (doc next : Document) : Prop where
  numbers : doc.nextSection ≤ next.nextSection
  global : doc.global.LeadsTo next.global
  sections : ∀ s ∈ next.sections.values,
    (∃ old ∈ doc.sections.values, old.LeadsTo s) ∨ doc.nextSection ≤ s.id.index
  capture : doc.capture.Within next.capture

variable {doc mid next : Document} {name : Text} {change : Section → Section}

theorem LeadsTo.refl (doc : Document) : doc.LeadsTo doc :=
  ⟨Nat.le_refl _, .refl _, fun s hs => Or.inl ⟨s, hs, .refl s⟩, .refl _⟩

theorem LeadsTo.trans (h : doc.LeadsTo mid) (h' : mid.LeadsTo next) : doc.LeadsTo next := by
  refine ⟨Nat.le_trans h.numbers h'.numbers, h.global.trans h'.global, fun s hs => ?_,
    h.capture.trans h'.capture⟩
  rcases h'.sections s hs with ⟨t, ht, hlead⟩ | hlater
  · rcases h.sections t ht with ⟨old, hold, hlead'⟩ | hlater
    · exact Or.inl ⟨old, hold, hlead'.trans hlead⟩
    · exact Or.inr (hlead.id_eq ▸ hlater)
  · exact Or.inr (Nat.le_trans h.numbers hlater)

/-- Dropping captured lines does not matter. -/
theorem LeadsTo.withCapture (h : doc.LeadsTo next) {c : Capture} (hc : next.capture.Within c) :
    doc.LeadsTo { next with capture := c } :=
  ⟨h.numbers, h.global, h.sections, h.capture.trans hc⟩

theorem leadsTo_modifySection (h : ∀ s, doc.section? name = some s → s.LeadsTo (change s)) :
    doc.LeadsTo (doc.modifySection name change) := by
  unfold section? at h
  unfold modifySection
  cases hname : name.isEmpty with
  | true =>
    rw [hname, if_pos rfl] at h
    rw [if_pos rfl]
    exact ⟨Nat.le_refl _, h _ rfl, fun s hs => Or.inl ⟨s, hs, .refl s⟩, .refl _⟩
  | false =>
    rw [hname, if_neg Bool.false_ne_true] at h
    rw [if_neg Bool.false_ne_true]
    refine ⟨Nat.le_refl _, .refl _, fun s hs => Or.inl ?_, .refl _⟩
    rcases NameTable.mem_values_modify hs with hs | ⟨old, hold, rfl⟩
    · exact ⟨s, hs, .refl s⟩
    · exact ⟨old, NameTable.mem_values_of_get?_eq_some hold, h old hold⟩

theorem leadsTo_upsertSection (h : ∀ s : Section, s.LeadsTo (change s)) (doc : Document) (name : Text) :
    doc.LeadsTo (doc.upsertSection name change) := by
  unfold upsertSection
  cases name.isEmpty with
  | true =>
    rw [if_pos rfl]
    exact ⟨Nat.le_refl _, h _, fun s hs => Or.inl ⟨s, hs, .refl s⟩, .refl _⟩
  | false =>
    rw [if_neg Bool.false_ne_true]
    refine ⟨?_, .refl _, fun s hs => ?_, .refl _⟩
    · show doc.nextSection ≤ if doc.sections.contains name then doc.nextSection else doc.nextSection + 1
      split <;> omega
    · rcases NameTable.mem_values_upsert hs with hs | ⟨old, hold, rfl⟩ | ⟨-, rfl⟩
      · exact Or.inl ⟨s, hs, .refl s⟩
      · exact Or.inl ⟨old, NameTable.mem_values_of_get?_eq_some hold, h old⟩
      · -- a new section has the next number
        right
        rw [(h _).id_eq]
        exact Nat.le_refl _

theorem leadsTo_set (doc : Document) (name key value : Text) : doc.LeadsTo (doc.set name key value) :=
  leadsTo_upsertSection (fun s => s.leadsTo_set key value) doc name

theorem leadsTo_ensureSection (doc : Document) (name : Text) : doc.LeadsTo (doc.ensureSection name) :=
  leadsTo_upsertSection Section.LeadsTo.refl doc name

theorem leadsTo_remove {key : Text} {e : Entry} (h : doc.remove name key = .ok (e, next)) :
    doc.LeadsTo next := by
  obtain ⟨s, -, hentry⟩ := Except.exists_of_bind_eq_ok h
  obtain ⟨found, -, hnext⟩ := Except.exists_of_bind_eq_ok hentry
  rw [← (Prod.mk.inj (Except.ok.inj hnext)).2]
  exact (leadsTo_modifySection fun t _ => t.leadsTo_erase key).withCapture
    (Capture.within_forgetEntry _ _)

theorem leadsTo_removeSection {s : Section} (h : doc.removeSection name = .ok (s, next)) :
    doc.LeadsTo next := by
  obtain ⟨found, -, hnext⟩ := Except.exists_of_bind_eq_ok h
  rw [← (Prod.mk.inj (Except.ok.inj hnext)).2]
  refine LeadsTo.withCapture ?_ (Capture.within_forgetSection _ _)
  cases name.isEmpty with
  | true => exact ⟨Nat.le_refl _, doc.global.leadsTo_clear, fun s hs => Or.inl ⟨s, hs, .refl s⟩, .refl _⟩
  | false =>
    exact ⟨Nat.le_refl _, .refl _,
      fun s hs => Or.inl ⟨s, NameTable.mem_values_erase hs, .refl s⟩, .refl _⟩

/-- **A change of a document** leads to a later stage of it. -/
theorem leadsTo_edit {edit : Edit} {answer : Answer} (h : edit.run doc = .ok (answer, next)) :
    doc.LeadsTo next := by
  cases edit with
  | set name key value =>
    obtain ⟨-, rfl⟩ := Prod.mk.inj (Except.ok.inj h)
    exact doc.leadsTo_set name key value
  | setScalar name key x =>
    obtain ⟨-, rfl⟩ := Prod.mk.inj (Except.ok.inj h)
    exact doc.leadsTo_set name key x.raw
  | remove name key =>
    obtain ⟨result, hremove, hnext⟩ := Except.exists_of_map_eq_ok h
    rw [← (Prod.mk.inj hnext).2]
    exact leadsTo_remove hremove
  | clear =>
    obtain ⟨-, rfl⟩ := Prod.mk.inj (Except.ok.inj h)
    exact ⟨Nat.le_refl _, doc.global.leadsTo_clear, fun s hs => absurd hs List.not_mem_nil,
      Capture.within_empty _⟩
  | insertSection name =>
    obtain ⟨made, hinsert, hnext⟩ := Except.exists_of_map_eq_ok h
    rw [← (Prod.mk.inj hnext).2]
    unfold Document.insertSection at hinsert
    split at hinsert
    · exact absurd hinsert nofun
    · rw [← Except.ok.inj hinsert]
      exact doc.leadsTo_ensureSection name
  | ensureSection name =>
    obtain ⟨-, rfl⟩ := Prod.mk.inj (Except.ok.inj h)
    exact doc.leadsTo_ensureSection name
  | removeSection name =>
    obtain ⟨result, hremove, hnext⟩ := Except.exists_of_map_eq_ok h
    rw [← (Prod.mk.inj hnext).2]
    exact leadsTo_removeSection hremove
  | setEverywhere key value =>
    obtain ⟨-, rfl⟩ := Prod.mk.inj (Except.ok.inj h)
    refine ⟨Nat.le_refl _, .refl _, fun s hs => ?_, .refl _⟩
    rw [show (doc.mapSections (·.set key value)).sections.values =
      doc.sections.values.map (·.set key value) from NameTable.values_mapValues _ _] at hs
    obtain ⟨old, hold, rfl⟩ := List.mem_map.mp hs
    exact Or.inl ⟨old, hold, old.leadsTo_set key value⟩
  | inSection name change =>
    obtain ⟨s, hs, hrest⟩ := Except.exists_of_bind_eq_ok h
    obtain ⟨result, hedit, hnext⟩ := Except.exists_of_bind_eq_ok hrest
    rw [← (Prod.mk.inj (Except.ok.inj hnext)).2]
    refine leadsTo_modifySection fun t ht => ?_
    rw [getSection, ht] at hs
    rw [Except.ok.inj hs]
    exact Section.leadsTo_run hedit
  | setIfSection name key value =>
    cases hhas : doc.hasSection name with
    | true =>
      rw [Edit.run_setIfSection_of_hasSection hhas] at h
      rw [← (Prod.mk.inj (Except.ok.inj h)).2]
      exact doc.leadsTo_set name key value
    | false =>
      rw [Edit.run_setIfSection_of_not_hasSection hhas] at h
      rw [← (Prod.mk.inj (Except.ok.inj h)).2]
      exact .refl doc

/-- **A step** leads to a later stage. -/
theorem leadsTo_run (doc : Document) (step : Step) : doc.LeadsTo (step.run doc).2 := by
  cases step with
  | query q => exact .refl doc
  | edit edit =>
    cases hrun : edit.run doc with
    | error err =>
      simp only [Step.run, hrun]
      exact .refl doc
    | ok result =>
      simp only [Step.run, hrun]
      exact leadsTo_edit hrun

/-- **So does every history.** -/
theorem leadsTo_after (doc : Document) (steps : List Step) : doc.LeadsTo (doc.after steps) := by
  induction steps generalizing doc with
  | nil => exact .refl doc
  | cons step rest ih => exact (doc.leadsTo_run step).trans (ih _)

/-! ## Formats over time -/

/-- The sections of a document, the global one among them. -/
def everySection (doc : Document) : List Section := doc.global :: doc.sections.values

/-- The identities of the sections. -/
def sectionIds (doc : Document) : List SectionId := doc.everySection.map Section.id

/-- The identities of the entries. -/
def entryIds (doc : Document) : List EntryId :=
  doc.everySection.flatMap fun s => s.entries.values.map Entry.id

/-- **Identities are told apart**: those of sections, and those of the entries of a section, which
    carry its identity. -/
structure Identified (doc : Document) : Prop where
  global : doc.global.id = .global
  sections : doc.sectionIds.Nodup
  entries : ∀ s ∈ doc.everySection, (s.entries.values.map Entry.id).Nodup
  owned : ∀ s ∈ doc.everySection, ∀ e ∈ s.entries.values, e.id.sectionId = s.id

/-- **Captured lines stay with what they belong to**, from a stage of a history to a later one:
    whatever was not there at the first stage has none at the second; and what was there has the
    name or the key that it had, and the captured lines that it had or none. -/
structure KeepsFormats (doc next : Document) : Prop where
  newSection : ∀ s ∈ next.everySection, s.id ∉ doc.sectionIds → next.capture.header? s.id = none
  newEntry : ∀ s ∈ next.everySection, ∀ e ∈ s.entries.values, e.id ∉ doc.entryIds →
    next.capture.lines e.id = []
  oldSection : ∀ s ∈ next.everySection, ∀ old ∈ doc.everySection, old.id = s.id →
    old.name = s.name ∧
      (next.capture.header? s.id = none ∨ next.capture.header? s.id = doc.capture.header? s.id)
  oldEntry : ∀ s ∈ next.everySection, ∀ e ∈ s.entries.values, ∀ t ∈ doc.everySection,
    ∀ old ∈ t.entries.values, old.id = e.id → t.id = s.id ∧ old.key = e.key ∧
      (next.capture.lines e.id = [] ∨ next.capture.lines e.id = doc.capture.lines e.id)

namespace Sound

variable {s t : Section}

theorem sound_of_mem (h : doc.Sound) (hs : s ∈ doc.everySection) :
    s.Sound doc.dialect doc.capture := by
  rcases List.mem_cons.mp hs with rfl | hs
  · exact h.globalSound
  · exact h.sound s hs

theorem index_lt (h : doc.Sound) (hs : s ∈ doc.everySection) : s.id.index < doc.nextSection := by
  rcases List.mem_cons.mp hs with rfl | hs
  · rw [h.globalId]
    exact h.started
  · exact (h.numbered s hs).2

theorem nodup_sectionIds (h : doc.Sound) : doc.sectionIds.Nodup := by
  refine List.nodup_cons.mpr ⟨fun hmem => ?_, h.distinct⟩
  obtain ⟨s, hs, hid⟩ := List.mem_map.mp hmem
  exact h.id_ne_global hs (hid.trans h.globalId)

/-- A sound document has its identities told apart. -/
theorem identified (h : doc.Sound) : doc.Identified where
  global := h.globalId
  sections := h.nodup_sectionIds
  entries _ hs := (h.sound_of_mem hs).distinct
  owned _ hs := (h.sound_of_mem hs).owned

end Sound

/-- Every section of a later stage has come of one of the document, or has a later number. -/
theorem LeadsTo.of_mem (h : doc.LeadsTo next) {s : Section} (hs : s ∈ next.everySection) :
    (∃ old ∈ doc.everySection, old.LeadsTo s) ∨ doc.nextSection ≤ s.id.index := by
  rcases List.mem_cons.mp hs with rfl | hs
  · exact Or.inl ⟨doc.global, List.mem_cons_self, h.global⟩
  · rcases h.sections s hs with ⟨old, hold, hlead⟩ | hlater
    · exact Or.inl ⟨old, List.mem_cons_of_mem _ hold, hlead⟩
    · exact Or.inr hlater

/-- It has come of the one that has its identity. -/
theorem LeadsTo.of_id_eq (h : doc.LeadsTo next) (hdoc : doc.Sound) {s old : Section}
    (hs : s ∈ next.everySection) (hold : old ∈ doc.everySection) (hid : old.id = s.id) :
    old.LeadsTo s := by
  rcases h.of_mem hs with ⟨other, hother, hlead⟩ | hlater
  · rw [List.inj_on_of_nodup_map hdoc.nodup_sectionIds hold hother (hid.trans hlead.id_eq)]
    exact hlead
  · have hlt := hdoc.index_lt hold
    rw [hid] at hlt
    omega

/-- **From one stage of a sound document to a later one**, captured lines stay with what they belong
    to. -/
theorem LeadsTo.keepsFormats (h : doc.LeadsTo next) (hdoc : doc.Sound) (hnext : next.Sound) :
    doc.KeepsFormats next where
  newSection s hs hnew := by
    rcases h.of_mem hs with ⟨old, hold, hlead⟩ | hlater
    · exact absurd (List.mem_map.mpr ⟨old, hold, hlead.id_eq.symm⟩) hnew
    · rcases h.capture.headers s.id with hnone | hsame
      · exact hnone
      · exact hsame.trans (hdoc.unheaded _ hlater)
  newEntry s hs e he hnew := by
    rcases h.capture.lines e.id with hnone | hsame
    · exact hnone
    rw [hsame, (hnext.sound_of_mem hs).id_eq he]
    rcases h.of_mem hs with ⟨old, hold, hlead⟩ | hlater
    · -- the section was there, so the number of the entry is a later one
      rcases hlead.entries e he with ⟨former, hformer, hid, -⟩ | hlater
      · exact absurd (List.mem_flatMap.mpr ⟨old, hold, List.mem_map.mpr ⟨former, hformer, hid⟩⟩) hnew
      · rw [hlead.id_eq]
        exact (hdoc.sound_of_mem hold).unwritten _ hlater
    · exact hdoc.unwritten _ _ hlater
  oldSection s hs old hold hid :=
    ⟨(h.of_id_eq hdoc hs hold hid).name_eq.symm, h.capture.headers s.id⟩
  oldEntry s hs e he t ht old hold hid := by
    have hsection : t.id = s.id := by
      rw [← (hdoc.sound_of_mem ht).owned old hold, hid, (hnext.sound_of_mem hs).owned e he]
    refine ⟨hsection, ?_, h.capture.lines e.id⟩
    rcases (h.of_id_eq hdoc hs ht hsection).entries e he with ⟨former, hformer, hid', hkey⟩ | hlater
    · rw [(hdoc.sound_of_mem ht).eq_of_id_eq hold hformer (hid.trans hid'.symm)]
      exact hkey
    · have hlt := (hdoc.sound_of_mem ht).numbered old hold
      rw [hid] at hlt
      omega

end Document
end IniFile
