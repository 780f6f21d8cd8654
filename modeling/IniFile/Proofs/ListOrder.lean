/-
  What a step leaves alone.

  A step on the lists of a document keeps the order of what was there.  Nothing is moved: a step that
  takes nothing out leaves every name where it is and puts a new one at the end, and a step that
  takes something out leaves the rest in order.  What a step does not address is found as before, and
  what is there before and after keeps its spelling and, but for the one step that sets comments,
  its comment.

  1. **Entries** — the entries of one section before and after a change (`Dialect.OrderlyEntries`),
     for each of the ways in which a list of entries can change.
  2. **Sections** — a change through the name of a section changes that section only
     (`DocumentContent.ChangesOnly`).
  3. **Documents** — every step on lists is orderly (`Step.orderly`).
-/
import IniFile.Proofs.Grouping
import IniFile.Proofs.ListModel
import IniFile.Proofs.Trivia
import IniFile.Proofs.Untouched

namespace IniFile

/-! ## Names under folding -/

namespace Dialect

variable {d : Dialect} {a b c : Text}

theorem sameKey_right (h : d.sameKey a b = true) : d.sameKey c a = d.sameKey c b := by
  rw [sameKey, sameKey, sameKey_iff.mp h]

theorem sameSection_right (h : d.sameSection a b = true) :
    d.sameSection c a = d.sameSection c b := by
  rw [sameSection, sameSection, sameSection_iff.mp h]

/-- What is one with one of two different keys is not one with the other. -/
theorem sameKey_eq_false (h : d.sameKey a b = false) (hb : d.sameKey c b = true) :
    d.sameKey c a = false :=
  eq_false_of_ne_true fun ha => absurd (sameKey_trans (sameKey_symm ha) hb) (by simp [h])

theorem sameSection_of_both (ha : d.sameSection c a = true) (hb : d.sameSection c b = true) :
    d.sameSection a b = true :=
  sameSection_iff.mpr ((sameSection_iff.mp ha).symm.trans (sameSection_iff.mp hb))

end Dialect

/-! ## Entries -/

/-- The change keeps the key of every entry, and its comment unless comments are what it is about. -/
def EntryContent.Keeps (recomments : Bool) (f : EntryContent → EntryContent) : Prop :=
  ∀ e, (f e).key = e.key ∧ (recomments = false → (f e).comment = e.comment)

/-- **The entries of a section before and after a change.**  Without removals the keys that were
    there stay in front, as they are; with removals those that are left stay in order. -/
structure Dialect.OrderlyEntries (d : Dialect) (removes recomments : Bool) (spares : Text → Bool)
    (es es' : List EntryContent) : Prop where
  grows : removes = false → es.map EntryContent.key <+: es'.map EntryContent.key
  shrinks : removes = true → (es'.map EntryContent.key).Sublist (es.map EntryContent.key)
  keeps : ∀ key e e', es.find? (EntryContent.isOf d key) = some e →
    es'.find? (EntryContent.isOf d key) = some e' →
      e'.key = e.key ∧ (recomments = false → e'.comment = e.comment)
  spared : ∀ key, spares key = true →
    es'.find? (EntryContent.isOf d key) = es.find? (EntryContent.isOf d key)

namespace Dialect.OrderlyEntries

variable {d : Dialect} {removes recomments : Bool} {spares : Text → Bool}
  {es es' : List EntryContent} {f : EntryContent → EntryContent}

theorem mono {fewer : Text → Bool} (h : d.OrderlyEntries removes recomments spares es es')
    (hfewer : ∀ key, fewer key = true → spares key = true) :
    d.OrderlyEntries removes recomments fewer es es' :=
  { h with spared := fun key hkey => h.spared key (hfewer key hkey) }

protected theorem refl (d : Dialect) (removes recomments : Bool) (spares : Text → Bool)
    (es : List EntryContent) : d.OrderlyEntries removes recomments spares es es where
  grows _ := List.prefix_rfl
  shrinks _ := List.Sublist.refl _
  keeps key e e' he he' := by
    obtain rfl : e = e' := Option.some.inj (he.symm.trans he')
    exact ⟨rfl, fun _ => rfl⟩
  spared _ _ := rfl

theorem isOf_of_keeps (hf : EntryContent.Keeps recomments f) (key : Text) (e : EntryContent) :
    (f e).isOf d key = e.isOf d key := by
  rw [EntryContent.isOf, EntryContent.isOf, (hf e).1]

theorem keys_change (hf : EntryContent.Keeps recomments f) (p : EntryContent → Bool)
    (es : List EntryContent) :
    (Roster.change p f es).map EntryContent.key = es.map EntryContent.key := by
  rw [Roster.change, List.map_map]
  refine List.map_congr_left fun e _ => ?_
  show (if p e then f e else e).key = e.key
  split
  · exact (hf e).1
  · rfl

/-- An entry that may have been changed. -/
theorem keeps_ite (hf : EntryContent.Keeps recomments f) (p : EntryContent → Bool)
    (e : EntryContent) :
    (if p e then f e else e).key = e.key ∧
      (recomments = false → (if p e then f e else e).comment = e.comment) := by
  split
  · exact hf e
  · exact ⟨rfl, fun _ => rfl⟩

/-- Changing the entry of another key makes no difference for what is found under a key. -/
theorem ite_of_not_sameKey {key other : Text} (h : d.sameKey other key = false)
    {found : Option EntryContent} (hfound : ∀ e, found = some e → e.isOf d other = true) :
    (found.map fun e => if e.isOf d key then f e else e) = found := by
  cases found with
  | none => rfl
  | some e =>
    have hother : e.isOf d key = false :=
      eq_false_of_ne_true fun hkey => absurd (sameKey_trans (sameKey_symm (hfound e rfl)) hkey)
        (by simp [h])
    rw [Option.map_some, if_neg (by simp [hother])]

/-- The entry of a key changes in its place. -/
theorem change (hf : EntryContent.Keeps recomments f) (key : Text) (es : List EntryContent) :
    d.OrderlyEntries false recomments (fun other => !d.sameKey other key) es
      (Roster.change (EntryContent.isOf d key) f es) where
  grows _ := (keys_change hf _ es).symm ▸ List.prefix_rfl
  shrinks h := Bool.noConfusion h
  keeps other e e' he he' := by
    rw [Roster.find?_change (isOf_of_keeps hf other), he, Option.map_some, Option.some.injEq] at he'
    exact he' ▸ keeps_ite hf _ e
  spared other hother := by
    rw [Roster.find?_change (isOf_of_keeps hf other)]
    exact ite_of_not_sameKey (by simpa using hother) fun _ => List.find?_some

/-- The entry of a key changes in its place, or a new one comes at the end. -/
theorem upsert (hf : EntryContent.Keeps recomments f) (key value : Text) (es : List EntryContent) :
    d.OrderlyEntries false recomments (fun other => !d.sameKey other key) es
      (Roster.upsert (EntryContent.isOf d key) f (.fresh key value) es) := by
  cases hany : es.any (EntryContent.isOf d key) with
  | true =>
    rw [Roster.upsert_of_any _ _ hany]
    exact change hf key es
  | false =>
    rw [Roster.upsert_of_not_any _ _ hany]
    exact
      { grows := fun _ => by
          rw [List.map_append]
          exact List.prefix_append _ _
        shrinks := fun h => Bool.noConfusion h
        keeps := fun other e e' he he' => by
          -- what was found before comes before the new entry
          rw [List.find?_append, he, Option.some_or, Option.some.injEq] at he'
          exact he' ▸ ⟨rfl, fun _ => rfl⟩
        spared := fun other hother => by
          have hfresh : (EntryContent.fresh key value).isOf d other = false :=
            eq_false_of_ne_true fun h => by
              have hsame : d.sameKey other key = true := sameKey_symm h
              rw [hsame] at hother
              exact Bool.noConfusion hother
          rw [List.find?_append, List.find?_singleton, if_neg (by simp [hfresh]), Option.or_none] }

/-- A key is taken out. -/
theorem erase (key : Text) (es : List EntryContent) :
    d.OrderlyEntries true recomments (fun other => !d.sameKey other key) es
      (Roster.erase (EntryContent.isOf d key) es) := by
  have hspared : ∀ other, d.sameKey other key = false →
      (Roster.erase (EntryContent.isOf d key) es).find? (EntryContent.isOf d other) =
        es.find? (EntryContent.isOf d other) :=
    fun other hother => Roster.find?_erase_of_not (fun e he => sameKey_eq_false hother he) es
  refine ⟨fun h => Bool.noConfusion h, fun _ => List.filter_sublist.map _, ?_, ?_⟩
  · intro other e e' he he'
    cases hsame : d.sameKey other key with
    | true =>
      have hpick : EntryContent.isOf d other = EntryContent.isOf d key :=
        funext fun e => sameKey_right hsame
      rw [hpick, Roster.find?_erase_self] at he'
      exact absurd he' (Option.some_ne_none e').symm
    | false =>
      rw [hspared other hsame, he, Option.some.injEq] at he'
      exact he' ▸ ⟨rfl, fun _ => rfl⟩
  · exact fun other hother => hspared other (by simpa using hother)

/-- Everything is taken out. -/
theorem clear (es : List EntryContent) :
    d.OrderlyEntries true recomments (fun _ => false) es [] where
  grows h := Bool.noConfusion h
  shrinks _ := List.nil_sublist _
  keeps _ _ e' _ he' := absurd he' (Option.some_ne_none e').symm
  spared _ h := Bool.noConfusion h

/-- Every entry changes in its place. -/
theorem map (hf : EntryContent.Keeps recomments f) (es : List EntryContent) :
    d.OrderlyEntries false recomments (fun _ => false) es (es.map f) where
  grows _ := by
    have hkeys : (es.map f).map EntryContent.key = es.map EntryContent.key :=
      List.map_map.trans (List.map_congr_left fun e _ => (hf e).1)
    exact hkeys.symm ▸ List.prefix_rfl
  shrinks h := Bool.noConfusion h
  keeps key e e' he he' := by
    have hpick : EntryContent.isOf d key ∘ f = EntryContent.isOf d key :=
      funext fun e => isOf_of_keeps hf key e
    rw [List.find?_map, hpick, he, Option.map_some, Option.some.injEq] at he'
    exact he' ▸ hf e
  spared _ h := Bool.noConfusion h

end Dialect.OrderlyEntries

namespace SectionEdit

/-- Does the change of a section set a comment? -/
def recomments : SectionEdit → Bool
  | .setComment _ _ => true
  | _ => false

theorem keeps_setValue (recomments : Bool) (value : Text) :
    EntryContent.Keeps recomments (.setValue value) :=
  fun _ => ⟨rfl, fun _ => rfl⟩

theorem keeps_pushValue (recomments : Bool) (value : Text) :
    EntryContent.Keeps recomments (.pushValue value) :=
  fun _ => ⟨rfl, fun _ => rfl⟩

theorem keeps_setComment (comment : Option Comment) : EntryContent.Keeps true (.setComment comment) :=
  fun _ => ⟨rfl, fun h => Bool.noConfusion h⟩

/-- **A change of a section is orderly**, whatever entries it has. -/
theorem orderly (d : Dialect) (edit : SectionEdit) (es : List EntryContent) :
    d.OrderlyEntries edit.removes edit.recomments (edit.leaves d) es (edit.onList d es) := by
  cases edit with
  | insert key value => exact .upsert (fun _ => ⟨rfl, fun _ => rfl⟩) key value es
  | set key value => exact .upsert (keeps_setValue _ value) key value es
  | setScalar key x => exact .upsert (keeps_setValue _ x.raw) key x.raw es
  | append key value => exact .upsert (keeps_pushValue _ value) key value es
  | remove key => exact .erase key es
  | clear => exact .clear es
  | pushIfPresent key value => exact .change (keeps_pushValue _ value) key es
  | pushAll value => exact .map (keeps_pushValue _ value) es
  | setValue key value => exact .change (keeps_setValue _ value) key es
  | setComment key comment =>
    exact .change (keeps_setComment comment) key es

end SectionEdit

/-! ## Sections -/

namespace DocumentContent

variable {d : Dialect} {name other : Text} {g : List EntryContent → List EntryContent}

/-- No entries change but those of the section of a name, and these by `g`. -/
def ChangesOnly (d : Dialect) (name : Text) (g : List EntryContent → List EntryContent)
    (c c' : DocumentContent) : Prop :=
  ∀ other, c'.entriesOf d other = c.entriesOf d other ∨
    d.sameSection other name = true ∧ c'.entriesOf d other = g (c.entriesOf d other)

/-- The entries of the named section of a name. -/
def entriesIn (d : Dialect) (name : Text) (ss : List SectionContent) : List EntryContent :=
  ((ss.find? (SectionContent.isOf d name)).map SectionContent.entries).getD []

theorem entriesOf_of_ne_nil (h : other ≠ []) (c : DocumentContent) :
    c.entriesOf d other = entriesIn d other c.sections := by
  rw [entriesOf, section?, List.isEmpty_eq_false_iff.mpr h, if_neg Bool.false_ne_true]
  rfl

/-- A change of the global section leaves the named ones alone. -/
theorem changesOnly_global (d : Dialect) (g : List EntryContent → List EntryContent)
    (c : DocumentContent) : ChangesOnly d [] g c { c with global := c.global.mapEntries g } := by
  intro other
  by_cases h : other = []
  · exact Or.inr ⟨Dialect.sameSection_nil_iff.mpr h, by rw [h]; rfl⟩
  · rw [entriesOf_of_ne_nil h, entriesOf_of_ne_nil h]
    exact Or.inl rfl

/-- A change of named sections leaves the global one alone. -/
theorem changesOnly_sections {c : DocumentContent} {ss : List SectionContent}
    (h : ∀ other, entriesIn d other ss = entriesIn d other c.sections ∨
      d.sameSection other name = true ∧ entriesIn d other ss = g (entriesIn d other c.sections)) :
    ChangesOnly d name g c { c with sections := ss } := by
  intro other
  by_cases hother : other = []
  · rw [hother]
    exact Or.inl rfl
  · rw [entriesOf_of_ne_nil hother, entriesOf_of_ne_nil hother]
    exact h other

theorem changesOnly_changed (name : Text) (g : List EntryContent → List EntryContent)
    (c : DocumentContent) :
    ChangesOnly d name g c
      { c with sections := Roster.change (SectionContent.isOf d name) (.mapEntries g) c.sections } := by
  refine changesOnly_sections fun other => ?_
  have hchange := Roster.find?_change (p := SectionContent.isOf d name)
    (q := SectionContent.isOf d other) (f := .mapEntries g) (fun _ => rfl) c.sections
  rw [entriesIn, entriesIn, hchange]
  cases hfound : c.sections.find? (SectionContent.isOf d other) with
  | none => exact Or.inl rfl
  | some s =>
    cases hname : s.isOf d name with
    | true =>
      have hother : s.isOf d other = true := List.find?_some hfound
      exact Or.inr ⟨Dialect.sameSection_of_both hother hname, by simp [hname]; rfl⟩
    | false => exact Or.inl (by simp [hname])

theorem changesOnly_changeSection (d : Dialect) (name : Text)
    (g : List EntryContent → List EntryContent) (c : DocumentContent) :
    ChangesOnly d name g c (c.changeSection d name g) := by
  unfold changeSection
  cases name with
  | nil => exact changesOnly_global d g c
  | cons => exact changesOnly_changed _ g c

theorem changesOnly_upsertSection (d : Dialect) (name : Text)
    (g : List EntryContent → List EntryContent) (c : DocumentContent) :
    ChangesOnly d name g c (c.upsertSection d name g) := by
  unfold upsertSection
  cases hname : name.isEmpty with
  | true =>
    obtain rfl : name = [] := List.isEmpty_iff.mp hname
    exact changesOnly_global d g c
  | false =>
    show ChangesOnly d name g c { c with sections := Roster.upsert _ _ _ _ }
    cases hany : c.sections.any (SectionContent.isOf d name) with
    | true =>
      rw [Roster.upsert_of_any _ _ hany]
      exact changesOnly_changed name g c
    | false =>
      rw [Roster.upsert_of_not_any _ _ hany]
      refine changesOnly_sections fun other => ?_
      rw [entriesIn, entriesIn, List.find?_append, List.find?_singleton]
      -- only where nothing was found can the new section be found
      cases c.sections.find? (SectionContent.isOf d other) with
      | some s => exact Or.inl rfl
      | none =>
        cases hnew : d.sameSection name other with
        | true => exact Or.inr ⟨(d.sameSection_comm _ _).trans hnew, by simp [SectionContent.isOf, hnew]⟩
        | false => exact Or.inl (by simp [SectionContent.isOf, hnew])

theorem changesOnly_eraseSection (d : Dialect) (name : Text) (c : DocumentContent) :
    ChangesOnly d name (fun _ => []) c (c.eraseSection d name) := by
  unfold eraseSection
  cases hname : name.isEmpty with
  | true =>
    obtain rfl : name = [] := List.isEmpty_iff.mp hname
    exact changesOnly_global d _ c
  | false =>
    refine changesOnly_sections fun other => ?_
    cases hsame : d.sameSection other name with
    | true =>
      have hpick : SectionContent.isOf d other = SectionContent.isOf d name :=
        funext fun s => Dialect.sameSection_right hsame
      rw [entriesIn, entriesIn, hpick, Roster.find?_erase_self]
      exact Or.inr ⟨rfl, rfl⟩
    | false =>
      rw [entriesIn, entriesIn, Roster.find?_erase_of_not]
      · exact Or.inl rfl
      · exact fun s hs => eq_false_of_ne_true fun ho =>
          absurd (Dialect.sameSection_of_both ho hs) (by simp [hsame])

/-! ### Names -/

theorem names_changed (p : SectionContent → Bool) (g : List EntryContent → List EntryContent)
    (ss : List SectionContent) :
    (Roster.change p (.mapEntries g) ss).map SectionContent.name = ss.map SectionContent.name := by
  rw [Roster.change, List.map_map]
  refine List.map_congr_left fun s _ => ?_
  show (if p s then s.mapEntries g else s).name = s.name
  split <;> rfl

theorem names_changeSection (d : Dialect) (name : Text) (g : List EntryContent → List EntryContent)
    (c : DocumentContent) : (c.changeSection d name g).names = c.names := by
  unfold changeSection
  split
  · rfl
  · exact names_changed _ g c.sections

theorem names_upsertSection (d : Dialect) (name : Text) (g : List EntryContent → List EntryContent)
    (c : DocumentContent) : c.names <+: (c.upsertSection d name g).names := by
  unfold upsertSection
  split
  · exact List.prefix_rfl
  · show c.sections.map SectionContent.name <+: (Roster.upsert _ _ _ _).map SectionContent.name
    cases hany : c.sections.any (SectionContent.isOf d name) with
    | true =>
      rw [Roster.upsert_of_any _ _ hany]
      exact (names_changed _ g c.sections).symm ▸ List.prefix_rfl
    | false =>
      rw [Roster.upsert_of_not_any _ _ hany, List.map_append]
      exact List.prefix_append _ _

theorem names_eraseSection (d : Dialect) (name : Text) (c : DocumentContent) :
    (c.eraseSection d name).names.Sublist c.names := by
  unfold eraseSection
  split
  · exact List.Sublist.refl _
  · exact List.filter_sublist.map _

end DocumentContent

/-! ## Documents -/

/-- **The lists of a document before and after a step.** -/
structure DocumentContent.Orderly (d : Dialect) (removes recomments : Bool)
    (spares : Text → Text → Bool) (c c' : DocumentContent) : Prop where
  grows : removes = false → c.names <+: c'.names
  shrinks : removes = true → c'.names.Sublist c.names
  entries : ∀ name,
    d.OrderlyEntries removes recomments (spares name) (c.entriesOf d name) (c'.entriesOf d name)

namespace DocumentContent

variable {d : Dialect} {removes recomments : Bool} {spares : Text → Text → Bool}
  {c c' : DocumentContent}

protected theorem Orderly.refl (d : Dialect) (removes recomments : Bool)
    (spares : Text → Text → Bool) (c : DocumentContent) :
    Orderly d removes recomments spares c c where
  grows _ := List.prefix_rfl
  shrinks _ := List.Sublist.refl _
  entries name := .refl d removes recomments (spares name) (c.entriesOf d name)

/-- An orderly change of the entries of one section leaves all entries in order. -/
theorem ChangesOnly.entries {name : Text} {g : List EntryContent → List EntryContent}
    {within : Text → Bool} (h : ChangesOnly d name g c c')
    (hg : ∀ es, d.OrderlyEntries removes recomments within es (g es))
    (hspares : ∀ other key, spares other key = true → d.sameSection other name = true →
      within key = true) (other : Text) :
    d.OrderlyEntries removes recomments (spares other) (c.entriesOf d other)
      (c'.entriesOf d other) := by
  rcases h other with hsame | ⟨hother, hchanged⟩
  · rw [hsame]
    exact .refl d removes recomments _ _
  · rw [hchanged]
    exact (hg _).mono fun key hkey => hspares other key hkey hother

end DocumentContent

namespace Step

/-- Does the step set a comment? -/
def recomments : Step → Bool
  | .edit (.inSection _ change) => change.recomments
  | _ => false

/-- Does the step leave the entry of a key of a section alone? -/
def spares (d : Dialect) (step : Step) (name key : Text) : Bool :=
  step.leaves d (.entry name (.fresh key []))

/-- A change through a name and a key spares what has another name or another key. -/
theorem spares_within {d : Dialect} {name key other k : Text}
    (h : (!(d.sameSection other name && d.sameKey k key)) = true)
    (hother : d.sameSection other name = true) : (!d.sameKey k key) = true := by
  simpa [hother] using h

end Step

namespace Edit

variable {d : Dialect} {c : DocumentContent}

open DocumentContent

theorem orderly_set (name key value : Text) :
    Orderly d false false (fun other k => !(d.sameSection other name && d.sameKey k key)) c
      (c.upsertSection d name (d.setEntry key value)) where
  grows _ := names_upsertSection d name _ c
  shrinks h := Bool.noConfusion h
  entries := (changesOnly_upsertSection d name _ c).entries
    (fun es => .upsert (SectionEdit.keeps_setValue _ value) key value es)
    fun _ _ => Step.spares_within

theorem orderly_changeSection {removes recomments : Bool} {within : Text → Bool}
    {spares : Text → Text → Bool} {g : List EntryContent → List EntryContent} (name : Text)
    (hg : ∀ es, d.OrderlyEntries removes recomments within es (g es))
    (hspares : ∀ other key, spares other key = true → d.sameSection other name = true →
      within key = true) :
    Orderly d removes recomments spares c (c.changeSection d name g) where
  grows _ := (names_changeSection d name g c).symm ▸ List.prefix_rfl
  shrinks _ := (names_changeSection d name g c) ▸ List.Sublist.refl _
  entries := (changesOnly_changeSection d name g c).entries hg hspares

theorem orderly_ensure (name : Text) :
    Orderly d false false (fun _ _ => true) c (c.upsertSection d name id) where
  grows _ := names_upsertSection d name _ c
  shrinks h := Bool.noConfusion h
  entries := (changesOnly_upsertSection d name _ c).entries
    (fun es => .refl d _ _ (fun _ => true) es) fun _ _ _ _ => rfl

/-- The same key in every named section. -/
theorem orderly_everywhere (key value : Text) :
    Orderly d false false (fun name k => name.isEmpty || !d.sameKey k key) c
      { c with sections := c.sections.map (.mapEntries (d.setEntry key value)) } where
  grows _ := by
    show c.sections.map SectionContent.name <+: (c.sections.map _).map SectionContent.name
    rw [List.map_map]
    exact List.prefix_rfl
  shrinks h := Bool.noConfusion h
  entries name := by
    by_cases hname : name = []
    · rw [hname]
      exact .refl d _ _ _ _
    · rw [entriesOf_of_ne_nil hname, entriesOf_of_ne_nil hname, entriesIn, entriesIn, List.find?_map]
      show d.OrderlyEntries _ _ _ _
        (((c.sections.find? (SectionContent.isOf d name)).map _).map SectionContent.entries |>.getD [])
      cases c.sections.find? (SectionContent.isOf d name) with
      | none => exact .refl d _ _ _ _
      | some s =>
        have hset := Dialect.OrderlyEntries.upsert (d := d) (SectionEdit.keeps_setValue false value)
          key value s.entries
        refine hset.mono fun k hk => ?_
        simpa [hname] using hk

/-- **A change of a document is orderly**, whatever there is in the lists. -/
theorem orderly (d : Dialect) (edit : Edit) (c : DocumentContent) :
    Orderly d (Step.edit edit).removes (Step.edit edit).recomments ((Step.edit edit).spares d) c
      (edit.onList d c) := by
  cases edit with
  | set name key value => exact orderly_set name key value
  | setScalar name key x => exact orderly_set name key x.raw
  | remove name key =>
    exact orderly_changeSection name (SectionEdit.orderly d (.remove key)) fun _ _ =>
      Step.spares_within
  | clear =>
    have hempty : ∀ name, (Edit.clear.onList d c).entriesOf d name = [] := by
      intro name
      by_cases hname : name = []
      · rw [hname]; rfl
      · exact entriesOf_of_ne_nil hname _
    exact
      { grows := fun h => Bool.noConfusion h
        shrinks := fun _ => List.nil_sublist _
        entries := fun name => by
          rw [hempty name]
          exact .clear _ }
  | insertSection name => exact orderly_ensure name
  | ensureSection name => exact orderly_ensure name
  | removeSection name =>
    exact
      { grows := fun h => Bool.noConfusion h
        shrinks := fun _ => names_eraseSection d name c
        entries := (changesOnly_eraseSection d name c).entries (fun es => .clear es)
          fun other _ hother hsame => by
            have hother : (!d.sameSection other name) = true := hother
            rw [hsame] at hother
            exact hother }
  | setEverywhere key value => exact orderly_everywhere key value
  | inSection name edit =>
    refine orderly_changeSection name (edit.orderly d) fun other key hspares hother => ?_
    have hspares : (!d.sameSection other name || edit.leaves d key) = true := hspares
    simpa [hother] using hspares
  | setIfSection name key value =>
    exact orderly_changeSection name (SectionEdit.orderly d (.set key value)) fun _ _ =>
      Step.spares_within

end Edit

/-- **A step on lists is orderly**, whatever there is in them. -/
theorem Step.orderly (d : Dialect) (step : Step) (c : DocumentContent) :
    DocumentContent.Orderly d step.removes step.recomments (step.spares d) c
      (step.onContent d c).2 := by
  cases step with
  | query q => exact .refl d _ _ _ c
  | edit e =>
    cases hrefusal : e.refusal? d c with
    | some err =>
      simp only [Step.onContent, hrefusal]
      exact .refl d _ _ _ c
    | none =>
      simp only [Step.onContent, hrefusal]
      exact e.orderly d c

end IniFile
