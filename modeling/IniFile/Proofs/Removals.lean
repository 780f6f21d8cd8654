/-
  Ways to remove that cannot be told apart.

  A key is removed through the document, which then drops what was captured for it, or directly from
  its section, which leaves that behind.  Likewise a section is emptied directly, or key by key.
  The captures differ afterwards.  No step ever notices: what is left behind belongs to nobody, and
  nobody will come who it could belong to.

  1. **Captures do not matter** — look-ups other than rendering never read the capture, and changes
     only drop some of it (`Edit.run_withCapture`).
  2. **Documents alike** — two sound documents on one sheet that differ in nothing but their
     captures; every step leaves them alike (`Alike.run`), and so nothing tells them apart
     (`Alike.indistinguishable`).
  3. **Removals** — of a key (`alike_remove`) and of all keys (`alike_clear`).
  4. **Documents that were read.**
-/
import IniFile.Proofs.Histories
import IniFile.Proofs.Lifetimes

namespace IniFile

/-! ## Captures do not matter -/

namespace Document

variable {doc : Document} {c : Capture}

theorem section?_withCapture (doc : Document) (c : Capture) (name : Text) :
    ({ doc with capture := c } : Document).section? name = doc.section? name := rfl

theorem hasSection_withCapture (doc : Document) (c : Capture) (name : Text) :
    ({ doc with capture := c } : Document).hasSection name = doc.hasSection name := rfl

theorem modifySection_withCapture (doc : Document) (c : Capture) (name : Text)
    (change : Section → Section) :
    ({ doc with capture := c } : Document).modifySection name change =
      { doc.modifySection name change with capture := c } := by
  unfold modifySection
  cases name.isEmpty <;> rfl

theorem upsertSection_withCapture (doc : Document) (c : Capture) (name : Text)
    (change : Section → Section) :
    ({ doc with capture := c } : Document).upsertSection name change =
      { doc.upsertSection name change with capture := c } := by
  unfold upsertSection
  cases name.isEmpty <;> rfl

end Document

/-- Only rendering reads the capture. -/
theorem Query.run_withCapture {q : Query} (h : ∀ r, q ≠ .render r) (doc : Document) (c : Capture) :
    q.run { doc with capture := c } = q.run doc := by
  cases q with
  | render r => exact absurd rfl (h r)
  | _ => rfl

/-- A result with another capture in its document. -/
def WithCapture (c : Capture) : Except Error (Answer × Document) → Except Error (Answer × Document) :=
  Except.map fun result => (result.1, { result.2 with capture := c })

/-- **A change does the same under another capture**, but for the capture that it leaves. -/
theorem Edit.run_withCapture (edit : Edit) (doc : Document) (c : Capture) :
    ∃ c', edit.run { doc with capture := c } = WithCapture c' (edit.run doc) := by
  cases edit with
  | set name key value =>
    refine ⟨c, ?_⟩
    simp only [Edit.run, Document.set, Document.upsertSection_withCapture]
    rfl
  | setScalar name key x =>
    refine ⟨c, ?_⟩
    simp only [Edit.run, Document.set, Document.upsertSection_withCapture]
    rfl
  | remove name key =>
    -- the same entry is found, and dropped from either capture
    cases hs : doc.section? name with
    | none =>
      have hs' : ({ doc with capture := c } : Document).section? name = none := hs
      rw [run_remove_of_no_section hs, run_remove_of_no_section hs']
      exact ⟨c, rfl⟩
    | some s =>
      have hs' : ({ doc with capture := c } : Document).section? name = some s := hs
      cases he : s.find? key with
      | none =>
        rw [run_remove_of_no_entry hs he, run_remove_of_no_entry hs' he]
        exact ⟨c, rfl⟩
      | some e =>
        rw [run_remove_of_some hs he, run_remove_of_some hs' he, Document.modifySection_withCapture]
        exact ⟨c.forgetEntry e.id, rfl⟩
  | clear => exact ⟨{}, rfl⟩
  | insertSection name =>
    refine ⟨c, ?_⟩
    simp only [Edit.run, Document.insertSection, Document.ensureSection,
      Document.upsertSection_withCapture, Document.hasSection_withCapture]
    cases doc.hasSection name <;> rfl
  | ensureSection name =>
    refine ⟨c, ?_⟩
    simp only [Edit.run, Document.ensureSection, Document.upsertSection_withCapture]
    rfl
  | removeSection name =>
    cases hs : doc.section? name with
    | none =>
      have hs' : ({ doc with capture := c } : Document).section? name = none := hs
      rw [run_removeSection_of_none hs, run_removeSection_of_none hs']
      exact ⟨c, rfl⟩
    | some s =>
      refine ⟨c.forgetSection s.id, ?_⟩
      simp only [Edit.run, Document.removeSection, Document.getSection,
        Document.section?_withCapture, hs, bind, Except.bind, pure, Except.pure]
      cases name.isEmpty <;> rfl
  | setEverywhere key value => exact ⟨c, rfl⟩
  | inSection name change =>
    refine ⟨c, ?_⟩
    cases hs : doc.section? name with
    | none =>
      have hs' : ({ doc with capture := c } : Document).section? name = none := hs
      rw [run_inSection_of_none hs, run_inSection_of_none hs']
      rfl
    | some s =>
      have hs' : ({ doc with capture := c } : Document).section? name = some s := hs
      cases hedit : change.run s with
      | error err =>
        rw [run_inSection_of_error hs hedit, run_inSection_of_error hs' hedit]
        rfl
      | ok result =>
        rw [run_inSection_of_ok hs hedit, run_inSection_of_ok hs' hedit,
          Document.modifySection_withCapture]
        rfl
  | setIfSection name key value =>
    refine ⟨c, ?_⟩
    simp only [Edit.run, Document.set, Document.upsertSection_withCapture,
      Document.hasSection_withCapture]
    cases doc.hasSection name <;> rfl

/-! ## Documents alike -/

namespace Document

/-- **Nothing tells two documents apart**: whatever steps follow, the answers are the same, and so
    is the text in either style. -/
def Indistinguishable (a b : Document) : Prop :=
  ∀ steps, (a.runAll steps).map Prod.fst = (b.runAll steps).map Prod.fst ∧
    ∀ r, (a.after steps).render r = (b.after steps).render r

/-- Two sound documents on one sheet that differ in nothing but their captures. -/
structure Alike (a b : Document) : Prop where
  left : a.Sound
  right : b.Sound
  sheet : b.sheet = a.sheet
  rest : ∃ c, b = { a with capture := c }

namespace Alike

variable {a b : Document}

theorem render_eq (h : Alike a b) (r : Rendering) : a.render r = b.render r := by
  obtain ⟨c, hc⟩ := h.rest
  rw [Document.render_eq, Document.render_eq, h.sheet, hc]

/-- **One step** answers alike and leaves the documents alike. -/
theorem run (h : Alike a b) (step : Step) :
    (step.run a).1 = (step.run b).1 ∧ Alike (step.run a).2 (step.run b).2 := by
  have hleft := h.left.run step
  have hright := h.right.run step
  obtain ⟨c, hc⟩ := h.rest
  have hdialect : b.dialect = a.dialect := by rw [hc]
  have hsheet : (step.run b).2.sheet = (step.run a).2.sheet := by
    rw [hright.sheet, hleft.sheet, h.sheet, hdialect]
  suffices hboth : (step.run a).1 = (step.run b).1 ∧
      ∃ c', (step.run b).2 = { (step.run a).2 with capture := c' } from
    ⟨hboth.1, hleft.sound, hright.sound, hsheet, hboth.2⟩
  cases step with
  | query q =>
    refine ⟨?_, c, hc⟩
    by_cases hrender : ∃ r, q = .render r
    · obtain ⟨r, rfl⟩ := hrender
      exact congrArg (fun t => Except.ok (Answer.text t)) (h.render_eq r)
    · rw [hc]
      exact (Query.run_withCapture (fun r hr => hrender ⟨r, hr⟩) a c).symm
  | edit edit =>
    obtain ⟨c', hrun⟩ := edit.run_withCapture a c
    simp only [Step.run, hc, hrun]
    cases edit.run a with
    | error err => exact ⟨rfl, c, rfl⟩
    | ok result => exact ⟨rfl, c', rfl⟩

/-- **So no steps tell them apart.** -/
theorem indistinguishable (h : Alike a b) : a.Indistinguishable b := by
  intro steps
  induction steps generalizing a b with
  | nil => exact ⟨rfl, h.render_eq⟩
  | cons step rest ih =>
    obtain ⟨hanswer, hnext⟩ := h.run step
    obtain ⟨hanswers, hrender⟩ := ih hnext
    refine ⟨?_, hrender⟩
    show (step.run a).1 :: ((step.run a).2.runAll rest).map Prod.fst =
      (step.run b).1 :: ((step.run b).2.runAll rest).map Prod.fst
    rw [hanswer, hanswers]

end Alike

end Document

/-! ## Removals -/

namespace NameTable

variable {α : Type}

/-- A table is its rows, and whether case counts. -/
theorem ext_rows {t u : NameTable α} (hcase : t.caseSensitive = u.caseSensitive)
    (hrows : t.rows = u.rows) : t = u := by
  obtain ⟨_, _, _⟩ := t
  obtain ⟨_, _, _⟩ := u
  obtain rfl := hcase
  obtain rfl := hrows
  rfl

/-- A name that is not there cannot be taken out. -/
theorem erase_of_get?_eq_none {t : NameTable α} {name : Text} (h : t.get? name = none) :
    t.erase name = t := by
  have hrows : (t.erase name).rows = t.rows := by
    refine List.filter_eq_self.mpr fun row hrow => bne_iff_ne.mpr fun hname => ?_
    rw [get?_eq_some_of_mem hrow hname] at h
    exact absurd h (Option.some_ne_none _)
  exact ext_rows rfl hrows

/-- Names taken out one after the other. -/
theorem rows_foldl_erase (names : List Text) (t : NameTable α) :
    (names.foldl erase t).rows = t.rows.filter fun row => names.all fun name => row.1 != t.fold name := by
  induction names generalizing t with
  | nil => exact (List.filter_true _).symm
  | cons name rest ih =>
    rw [List.foldl_cons, ih, erase, List.filter_filter]
    refine List.filter_congr fun row _ => ?_
    rw [List.all_cons, Bool.and_comm]
    rfl

theorem caseSensitive_foldl_erase (names : List Text) (t : NameTable α) :
    (names.foldl erase t).caseSensitive = t.caseSensitive := by
  induction names generalizing t with
  | nil => rfl
  | cons name rest ih => exact ih (t.erase name)

theorem modify_modify (t : NameTable α) (name : Text) (f g : α → α) :
    (t.modify name f).modify name g = t.modify name fun a => g (f a) := by
  have hrows : ((t.modify name f).modify name g).rows = (t.modify name fun a => g (f a)).rows := by
    show (t.rows.map _).map _ = t.rows.map _
    rw [List.map_map]
    refine List.map_congr_left fun row _ => ?_
    show (row.1, if row.1 == t.fold name then g (if row.1 == t.fold name then f row.2 else row.2)
      else if row.1 == t.fold name then f row.2 else row.2) = _
    cases row.1 == t.fold name <;> rfl
  exact ext_rows rfl hrows

/-- Nothing changes when what is found stays. -/
theorem modify_of_fixed {t : NameTable α} {name : Text} {f : α → α}
    (h : ∀ a, t.get? name = some a → f a = a) : t.modify name f = t := by
  have hrows : (t.modify name f).rows = t.rows := by
    rw [modify_congr (g := id) h]
    show t.rows.map (fun row => (row.1, if row.1 == t.fold name then row.2 else row.2)) = t.rows
    simp only [ite_self]
    exact List.map_id' t.rows
  exact ext_rows rfl hrows

end NameTable

/-- **Taking out every key empties a section.** -/
theorem Section.foldl_erase_eq_clear {s : Section} (h : s.entries.Keyed Entry.key) {keys : List Text}
    (hkeys : ∀ key ∈ s.keys, key ∈ keys) : keys.foldl Section.erase s = s.clear := by
  have hsection : ∀ (keys : List Text) (t : Section),
      keys.foldl Section.erase t = { t with entries := keys.foldl NameTable.erase t.entries } := by
    intro keys
    induction keys with
    | nil => exact fun _ => rfl
    | cons key rest ih => exact fun t => ih (t.erase key)
  have hrows : (keys.foldl NameTable.erase s.entries).rows = [] := by
    rw [NameTable.rows_foldl_erase, List.filter_eq_nil_iff]
    intro row hrow hall
    -- the row is that of an entry, whose key is among those taken out
    have hkey : row.2.key ∈ keys := hkeys _ (List.mem_map_of_mem (List.mem_map_of_mem hrow))
    exact bne_iff_ne.mp (List.all_eq_true.mp hall _ hkey) (h row hrow)
  have htable : keys.foldl NameTable.erase s.entries = s.entries.clear :=
    NameTable.ext_rows (NameTable.caseSensitive_foldl_erase keys s.entries) hrows
  rw [hsection, htable]
  rfl

namespace Document

variable {doc : Document} {name : Text} {s : Section}

/-- Functions that agree on the section found change a document alike. -/
theorem modifySection_congr {f g : Section → Section}
    (h : ∀ t, doc.section? name = some t → f t = g t) :
    doc.modifySection name f = doc.modifySection name g := by
  unfold section? at h
  unfold modifySection
  cases hname : name.isEmpty with
  | true =>
    rw [hname, if_pos rfl] at h
    rw [if_pos rfl, if_pos rfl, h _ rfl]
  | false =>
    rw [hname, if_neg Bool.false_ne_true] at h
    rw [if_neg Bool.false_ne_true, if_neg Bool.false_ne_true, NameTable.modify_congr h]

/-- Nothing changes when the section found stays. -/
theorem modifySection_of_fixed {f : Section → Section}
    (h : ∀ t, doc.section? name = some t → f t = t) : doc.modifySection name f = doc := by
  unfold section? at h
  unfold modifySection
  cases hname : name.isEmpty with
  | true =>
    rw [hname, if_pos rfl] at h
    rw [if_pos rfl, h _ rfl]
  | false =>
    rw [hname, if_neg Bool.false_ne_true] at h
    rw [if_neg Bool.false_ne_true, NameTable.modify_of_fixed h]

theorem modifySection_modifySection (doc : Document) (name : Text) (f g : Section → Section) :
    (doc.modifySection name f).modifySection name g = doc.modifySection name fun t => g (f t) := by
  unfold modifySection
  cases name.isEmpty with
  | true => rfl
  | false =>
    rw [if_neg Bool.false_ne_true, if_neg Bool.false_ne_true, if_neg Bool.false_ne_true,
      NameTable.modify_modify]

/-- Removing a key erases it, and may drop something from the capture. -/
theorem remove_eq (doc : Document) (name key : Text) :
    ∃ c, (Step.run doc (.edit (.remove name key))).2 =
      { doc.modifySection name (·.erase key) with capture := c } := by
  cases hs : doc.section? name with
  | none =>
    refine ⟨doc.capture, ?_⟩
    have hfixed : doc.modifySection name (·.erase key) = doc :=
      modifySection_of_fixed fun t ht => by rw [hs] at ht; exact absurd ht (Option.some_ne_none t).symm
    simp only [Step.run, Edit.run, Document.remove, getSection, hs, bind, Except.bind, Except.map, hfixed]
  | some s =>
    cases he : s.find? key with
    | none =>
      refine ⟨doc.capture, ?_⟩
      have hfixed : doc.modifySection name (·.erase key) = doc := by
        refine modifySection_of_fixed fun t ht => ?_
        rw [hs, Option.some.injEq] at ht
        rw [← ht, Section.erase, NameTable.erase_of_get?_eq_none he]
      simp only [Step.run, Edit.run, Document.remove, getSection, Section.get, hs, he, bind,
        Except.bind, Except.map, hfixed]
    | some e =>
      simp only [Step.run, Edit.run, Document.remove, getSection, Section.get, hs, he, bind,
        Except.bind, Except.map, pure, Except.pure]
      exact ⟨_, rfl⟩

/-- The steps that take keys out of a section one after the other. -/
def removals (name : Text) (keys : List Text) : List Step :=
  keys.map fun key => .edit (.remove name key)

/-- Removing keys erases them one after the other. -/
theorem after_removals (name : Text) (keys : List Text) (doc : Document) :
    ∃ c, doc.after (removals name keys) =
      { doc.modifySection name (keys.foldl Section.erase) with capture := c } := by
  induction keys generalizing doc with
  | nil =>
    have hfixed : doc.modifySection name (fun t => [].foldl Section.erase t) = doc :=
      modifySection_of_fixed fun _ _ => rfl
    exact ⟨doc.capture, by rw [hfixed]; rfl⟩
  | cons key rest ih =>
    obtain ⟨c, hfirst⟩ := doc.remove_eq name key
    obtain ⟨c', hrest⟩ := ih (Step.run doc (.edit (.remove name key))).2
    refine ⟨c', ?_⟩
    show ((Step.run doc (.edit (.remove name key))).2).after (removals name rest) = _
    rw [hrest, hfirst, modifySection_withCapture, modifySection_modifySection]
    rfl

namespace Sound

/-- Functions that agree on the entries of the section found change the sheet alike. -/
theorem changeSection_congr (h : doc.Sound) (hs : doc.section? name = some s)
    {g g' : List SheetEntry → List SheetEntry}
    (hg : g (doc.capture.entriesOf s) = g' (doc.capture.entriesOf s)) :
    doc.sheet.changeSection doc.dialect name g = doc.sheet.changeSection doc.dialect name g' := by
  unfold Sheet.changeSection
  rcases h.of_section?_eq_some hs with ⟨rfl, rfl⟩ | ⟨hname, hmem, hn⟩
  · rw [List.isEmpty_nil, if_pos rfl, if_pos rfl, show g doc.sheet.global = g' doc.sheet.global from hg]
  · have hsame : ∀ t ∈ doc.sheet.sections,
        (if doc.dialect.isSection name t then t.mapEntries g else t) =
          if doc.dialect.isSection name t then t.mapEntries g' else t := by
      intro t ht
      obtain ⟨old, hold, rfl⟩ := List.mem_map.mp ht
      by_cases hnt : doc.dialect.isSection name (doc.capture.sectionOf old) = true
      · rw [if_pos hnt, if_pos hnt, h.eq_of_isSection hold hmem hnt hn, SheetSection.mapEntries,
          SheetSection.mapEntries,
          show g (doc.capture.sectionOf s).entries = g' (doc.capture.sectionOf s).entries from hg]
      · rw [if_neg hnt, if_neg hnt]
    rw [List.isEmpty_eq_false_iff.mpr hname, if_neg Bool.false_ne_true, if_neg Bool.false_ne_true,
      Roster.change, Roster.change, List.map_congr_left hsame]

end Sound
end Document

/-! ### On sheets -/

/-- Members taken out one after the other. -/
theorem Roster.foldl_erase {α β : Type} (p : β → α → Bool) (picks : List β) (l : List α) :
    picks.foldl (fun l b => erase (p b) l) l = l.filter fun a => picks.all fun b => !p b a := by
  induction picks generalizing l with
  | nil => exact (List.filter_true l).symm
  | cons b rest ih =>
    rw [List.foldl_cons, ih, erase, List.filter_filter]
    refine List.filter_congr fun a _ => ?_
    rw [List.all_cons, Bool.and_comm]

namespace Sheet

theorem changeSection_changeSection (d : Dialect) (name : Text)
    (g g' : List SheetEntry → List SheetEntry) (S : Sheet) :
    (S.changeSection d name g).changeSection d name g' = S.changeSection d name fun es => g' (g es) := by
  unfold changeSection
  cases name.isEmpty with
  | true => rfl
  | false =>
    rw [if_neg Bool.false_ne_true, if_neg Bool.false_ne_true, if_neg Bool.false_ne_true]
    have hchange : Roster.change (d.isSection name) (.mapEntries g')
        (Roster.change (d.isSection name) (.mapEntries g) S.sections) =
          Roster.change (d.isSection name) (.mapEntries fun es => g' (g es)) S.sections :=
      Roster.change_change (f := .mapEntries g) (SheetSection.mapEntries g') fun _ _ => rfl
    rw [hchange]

/-- Removing keys changes the section once. -/
theorem after_removals (d : Dialect) (name : Text) (keys : List Text) (S : Sheet) :
    S.after d (Document.removals name keys) =
      S.changeSection d name (keys.foldl fun es key => Roster.erase (d.isKey key) es) := by
  induction keys generalizing S with
  | nil =>
    have hsame : ∀ s : SheetSection, s.mapEntries (fun es => es) = s := fun _ => rfl
    show S = S.changeSection d name fun es => es
    unfold changeSection Roster.change
    simp only [hsame, ite_self, List.map_id']
  | cons key rest ih =>
    show (S.changeSection d name (Roster.erase (d.isKey key))).after d (Document.removals name rest) = _
    rw [ih, changeSection_changeSection]
    rfl

end Sheet

/-! ### All keys -/

/-- **A section is emptied directly, or key by key**, in any order. -/
theorem Document.alike_clear {doc : Document} (h : doc.Sound) {name : Text} {s : Section}
    (hs : doc.section? name = some s) {keys : List Text} (hkeys : ∀ key ∈ s.keys, key ∈ keys) :
    Alike (doc.after [.edit (.inSection name .clear)]) (doc.after (removals name keys)) := by
  have hclear := h.after [.edit (.inSection name .clear)]
  have hremovals := h.after (removals name keys)
  have hsection := h.sound_section? hs
  refine ⟨hclear.sound, hremovals.sound, ?_, ?_⟩
  · -- on the sheet, no entry is left either way
    rw [hremovals.sheet, hclear.sheet, Sheet.after_removals]
    refine h.changeSection_congr hs ?_
    rw [Roster.foldl_erase, SectionEdit.onEntries, List.filter_eq_nil_iff]
    intro e he hall
    obtain ⟨entry, hentry, rfl⟩ := List.mem_map.mp he
    have hkey : entry.key ∈ keys := hkeys _ (List.mem_map_of_mem hentry)
    have hgone := List.all_eq_true.mp hall _ hkey
    rw [show doc.dialect.isKey entry.key (doc.capture.entry entry) = true from
      doc.dialect.sameKey_refl _] at hgone
    exact Bool.noConfusion hgone
  · obtain ⟨c, hafter⟩ := after_removals name keys doc
    have hdirect : doc.after [.edit (.inSection name .clear)] =
        doc.modifySection name fun _ => s.clear := by
      simp only [after, Step.run, Edit.run, SectionEdit.run, getSection, hs, bind, Except.bind, pure,
        Except.pure]
    have hsame : doc.modifySection name (keys.foldl Section.erase) =
        doc.modifySection name fun _ => s.clear := by
      refine modifySection_congr fun t ht => ?_
      rw [hs, Option.some.injEq] at ht
      rw [← ht]
      exact Section.foldl_erase_eq_clear hsection.keyed hkeys
    exact ⟨c, by rw [hafter, hsame, hdirect]⟩

/-- **A key is removed through the document or directly**, with the same answer. -/
theorem Document.alike_remove {doc : Document} (h : doc.Sound) (name key : Text) :
    (Step.run doc (.edit (.remove name key))).1 =
        (Step.run doc (.edit (.inSection name (.remove key)))).1 ∧
      Alike (Step.run doc (.edit (.remove name key))).2
        (Step.run doc (.edit (.inSection name (.remove key)))).2 := by
  have hremove := h.run (.edit (.remove name key))
  have hdirect := h.run (.edit (.inSection name (.remove key)))
  have hsheet := hdirect.sheet.trans hremove.sheet.symm
  obtain ⟨c, hrest⟩ := doc.remove_eq name key
  cases hs : doc.section? name with
  | none =>
    have hsame : Step.run doc (.edit (.remove name key)) =
        Step.run doc (.edit (.inSection name (.remove key))) := by
      simp only [Step.run, Edit.run, Document.remove, getSection, hs, bind, Except.bind, Except.map]
    exact ⟨congrArg Prod.fst hsame, hremove.sound, hdirect.sound, hsheet, _,
      (congrArg Prod.snd hsame).symm⟩
  | some s =>
    cases he : s.find? key with
    | none =>
      have hsame : Step.run doc (.edit (.remove name key)) =
          Step.run doc (.edit (.inSection name (.remove key))) := by
        simp only [Step.run, Edit.run, SectionEdit.run, Document.remove, Section.remove, getSection,
          Section.get, hs, he, bind, Except.bind, Except.map]
      exact ⟨congrArg Prod.fst hsame, hremove.sound, hdirect.sound, hsheet, _,
        (congrArg Prod.snd hsame).symm⟩
    | some e =>
      have hleft : (Step.run doc (.edit (.remove name key))).1 = .ok (.ofEntry e) := by
        simp only [Step.run, Edit.run, Document.remove, getSection, Section.get, hs, he, bind,
          Except.bind, Except.map, pure, Except.pure]
      have hright : Step.run doc (.edit (.inSection name (.remove key))) =
          (.ok (.ofEntry e), doc.modifySection name fun _ => s.erase key) := by
        simp only [Step.run, Edit.run, SectionEdit.run, Section.remove, getSection, Section.get, hs, he,
          bind, Except.bind, Except.map, pure, Except.pure]
      -- either way the section found is changed into itself without the key
      have hsame : doc.modifySection name (·.erase key) =
          doc.modifySection name fun _ => s.erase key := by
        refine modifySection_congr fun t ht => ?_
        rw [hs, Option.some.injEq] at ht
        rw [← ht]
      refine ⟨by rw [hleft, hright], hremove.sound, hdirect.sound, hsheet, doc.capture, ?_⟩
      rw [hrest, hright, hsame]
      exact (with_capture_eq (capture_modifySection doc name _)).symm

/-! ## Documents that were read -/

/-- **Captured lines are never put to the wrong element**, whatever has happened to a document since it
    was read: identities are told apart, elements that have come since a stage have no captured
    lines, and what a removal leaves behind is never noticed. -/
theorem captured_lines_stay_with_elements {d : Dialect} {text : Text} {p : Parsed}
    (h : parse d text = .ok p) (steps : List Step) :
    (p.document.after steps).Identified ∧
      (∀ later, (p.document.after steps).KeepsFormats ((p.document.after steps).after later)) ∧
      (∀ name key, (Step.run (p.document.after steps) (.edit (.remove name key))).1 =
          (Step.run (p.document.after steps) (.edit (.inSection name (.remove key)))).1 ∧
        (Step.run (p.document.after steps) (.edit (.remove name key))).2.Indistinguishable
          (Step.run (p.document.after steps) (.edit (.inSection name (.remove key)))).2) ∧
      ∀ name s keys, (p.document.after steps).section? name = some s → (∀ key ∈ s.keys, key ∈ keys) →
        ((p.document.after steps).after [.edit (.inSection name .clear)]).Indistinguishable
          ((p.document.after steps).after (Document.removals name keys)) := by
  have hsound : (p.document.after steps).Sound :=
    ((Document.Origin.parsed h).after steps).1
  refine ⟨hsound.identified, fun later => ?_, fun name key => ?_, fun name s keys hs hkeys => ?_⟩
  · exact (Document.leadsTo_after _ later).keepsFormats hsound (hsound.after later).sound
  · obtain ⟨hanswer, halike⟩ := Document.alike_remove hsound name key
    exact ⟨hanswer, halike.indistinguishable⟩
  · exact (Document.alike_clear hsound hs hkeys).indistinguishable

/-- A comment goes with the key that was removed, either way, and does not come back with the key. -/
theorem captured_lines_stay_with_elements_sample :
    ∃ p, parse .standard "[s]\n; c\nk=1\nl=2\n".toList = .ok p ∧
      ∀ removal, removal = .edit (.remove ['s'] ['k']) ∨
          removal = .edit (.inSection ['s'] (.remove ['k'])) →
        ((Step.run p.document removal).2.after [.edit (.set ['s'] ['k'] ['3'])]).render
          ⟨.roundTrip, .lf⟩ = "[s]\nl=2\nk = 3\n".toList := by
  have hread : (parse .standard "[s]\n; c\nk=1\nl=2\n".toList).toOption.any (fun p =>
      ((Step.run p.document (.edit (.remove ['s'] ['k']))).2.after
        [.edit (.set ['s'] ['k'] ['3'])]).render ⟨.roundTrip, .lf⟩ ==
          "[s]\nl=2\nk = 3\n".toList) = true := by
    decide +kernel
  obtain ⟨p, hparse, htext⟩ := Except.exists_ok_of_any hread
  obtain ⟨-, -, hremove, -⟩ := captured_lines_stay_with_elements hparse []
  obtain ⟨-, hrender⟩ := (hremove ['s'] ['k']).2 [.edit (.set ['s'] ['k'] ['3'])]
  refine ⟨p, hparse, ?_⟩
  rintro removal (rfl | rfl)
  · exact eq_of_beq htext
  · exact (hrender ⟨.roundTrip, .lf⟩).symm.trans (eq_of_beq htext)

end IniFile
