/-
  Identities.

  Captured lines are found by identity, so everything rests on this: no two living sections, and no
  two living entries, share an identity, and nothing is filed under an identity that has not been
  given out.

  1. **Tables by identity** — what is found after filing or dropping something.
  2. **Sections** — `Section.Sound` states the invariant for one section; `Section.Becomes` says
     that a section stays sound and that its entries on the sheet change by a given function.  There
     is one lemma for each way in which a section can change.
-/
import Mathlib.Data.List.Nodup
import IniFile.Proofs.Sheet

namespace IniFile

/-! ## Tables by identity -/

namespace IdTable

variable {κ α : Type} [DecidableEq κ]

theorem get?_erase (t : IdTable κ α) (p : κ → Bool) (id : κ) :
    get? (erase t p) id = if p id then none else get? t id := by
  unfold get? erase
  rw [List.find?_filter]
  by_cases hp : p id = true
  · rw [if_pos hp, Option.map_eq_none_iff, List.find?_eq_none]
    rintro ⟨k, a⟩ -
    simp only [decide_eq_true_eq, Bool.not_eq_true', not_and]
    rintro hk rfl
    rw [hp] at hk
    exact Bool.noConfusion hk
  · rw [if_neg hp]
    refine congrArg (Option.map Prod.snd) (congrArg (List.find? · t) (funext fun row => ?_))
    by_cases hrow : row.1 = id
    · simp [hrow, hp]
    · simp [hrow]

theorem get?_insert (t : IdTable κ α) (id : κ) (value : α) (other : κ) :
    get? (insert t id value) other = if other = id then some value else get? t other := by
  by_cases h : other = id
  · subst h
    simp [insert, get?]
  · have herase := get?_erase t (fun k => decide (k = id)) other
    rw [if_neg (by simpa using h)] at herase
    rw [if_neg h, ← herase]
    simp [insert, get?, Ne.symm h]

end IdTable

namespace Capture

theorem lines_recordLines (c : Capture) (id : EntryId) (ls : List EntryLine) (other : EntryId) :
    (c.recordLines id ls).lines other = if other = id then ls else c.lines other := by
  unfold lines recordLines
  rw [IdTable.get?_insert]
  by_cases h : other = id
  · rw [if_pos h, if_pos h]; rfl
  · rw [if_neg h, if_neg h]

theorem header?_recordHeader (c : Capture) (id : SectionId) (line : HeaderLine)
    (other : SectionId) :
    (c.recordHeader id line).header? other = if other = id then some line else c.header? other :=
  IdTable.get?_insert _ _ _ _

theorem lines_forgetEntry (c : Capture) (id other : EntryId) :
    (c.forgetEntry id).lines other = if other = id then [] else c.lines other := by
  unfold lines forgetEntry
  rw [IdTable.get?_erase]
  by_cases h : other = id
  · rw [if_pos h, if_pos (decide_eq_true h)]; rfl
  · rw [if_neg h, if_neg (by simpa using h)]

theorem lines_forgetSection (c : Capture) (id : SectionId) (other : EntryId) :
    (c.forgetSection id).lines other = if other.sectionId = id then [] else c.lines other := by
  unfold lines forgetSection
  rw [IdTable.get?_erase]
  by_cases h : other.sectionId = id
  · rw [if_pos h, if_pos (decide_eq_true h)]; rfl
  · rw [if_neg h, if_neg (by simpa using h)]

theorem header?_forgetSection (c : Capture) (id other : SectionId) :
    (c.forgetSection id).header? other = if other = id then none else c.header? other := by
  unfold header? forgetSection
  rw [IdTable.get?_erase]
  by_cases h : other = id
  · rw [if_pos h, if_pos (decide_eq_true h)]
  · rw [if_neg h, if_neg (by simpa using h)]

end Capture

/-! ## Sections -/

/-- **The invariant of a section**: its entries are numbered apart, below the next number, and
    nothing is captured for a number that has not been given out. -/
structure Section.Sound (d : Dialect) (c : Capture) (s : Section) : Prop where
  folding : s.entries.caseSensitive = d.caseSensitiveKeys
  keyed : s.entries.Keyed Entry.key
  owned : ∀ e ∈ s.entries.values, e.id.sectionId = s.id
  numbered : ∀ e ∈ s.entries.values, e.id.index < s.nextEntry
  distinct : (s.entries.values.map Entry.id).Nodup
  unwritten : ∀ i, s.nextEntry ≤ i → c.lines ⟨s.id, i⟩ = []

/-- The section `s` under the capture `c` may turn into `s'` under `c'`: it stays what it is, stays
    sound, and its entries on the sheet change by `g`. -/
structure Section.Becomes (d : Dialect) (c c' : Capture) (g : List SheetEntry → List SheetEntry)
    (s s' : Section) : Prop where
  id_eq : s'.id = s.id
  name_eq : s'.name = s.name
  sound : s'.Sound d c'
  entries : c'.entriesOf s' = g (c.entriesOf s)

namespace Section

variable {d : Dialect} {c : Capture} {s : Section}

theorem sound_fresh {id : SectionId} (name : Text) (h : ∀ i, c.lines ⟨id, i⟩ = []) :
    (fresh id name d.caseSensitiveKeys).Sound d c where
  folding := rfl
  keyed := NameTable.keyed_empty _
  owned := by simp [fresh]
  numbered := by simp [fresh]
  distinct := by simp [fresh]
  unwritten := fun i _ => h i

/-- A key that is there is changed in its place. -/
theorem upsert_of_contains {key : Text} (h : s.contains key = true) (value : Text)
    (f : Entry → Entry) : s.upsert key value f = s.modify key f := by
  have htable : s.entries.contains key = true := h
  unfold Section.upsert Section.modify
  rw [h, NameTable.upsert, dif_pos htable]
  rfl

namespace Sound

theorem named_eq (h : s.Sound d c) (key : Text) (e : Entry) :
    s.entries.named Entry.key key e = d.isKey key (c.entry e) := by
  unfold NameTable.named NameTable.fold Dialect.isKey Dialect.sameKey Dialect.foldKey
  rw [h.folding]
  rfl

/-- Two entries under one identity are the same. -/
theorem eq_of_id_eq (h : s.Sound d c) {a b : Entry} (ha : a ∈ s.entries.values)
    (hb : b ∈ s.entries.values) (hid : a.id = b.id) : a = b :=
  List.inj_on_of_nodup_map h.distinct ha hb hid

theorem contains_eq (h : s.Sound d c) (key : Text) :
    s.contains key = (c.entriesOf s).any (d.isKey key) := by
  rw [Section.contains, NameTable.contains_eq h.keyed]
  exact (Roster.any_map fun e _ => (h.named_eq key e).symm).symm

/-- An entry that is found belongs to the section and has the key. -/
theorem of_find?_eq_some (h : s.Sound d c) {key : Text} {e : Entry} (he : s.find? key = some e) :
    e ∈ s.entries.values ∧ d.isKey key (c.entry e) = true := by
  obtain ⟨hmem, hname⟩ := NameTable.of_get?_eq_some h.keyed he
  exact ⟨hmem, h.named_eq key e ▸ hname⟩

theorem isSome_find? (s : Section) (key : Text) : (s.find? key).isSome = s.contains key :=
  NameTable.isSome_get? _ _

theorem contains_of_find?_eq_none {key : Text} (h : s.find? key = none) : s.contains key = false := by
  rw [← isSome_find?, h]
  rfl

/-- The entries of one key are one entry. -/
theorem eq_of_isKey (h : s.Sound d c) {key : Text} {a b : Entry} (ha : a ∈ s.entries.values)
    (hb : b ∈ s.entries.values) (hka : d.isKey key (c.entry a) = true)
    (hkb : d.isKey key (c.entry b) = true) : a = b := by
  refine List.inj_on_of_nodup_map (NameTable.nodup_fold_values h.keyed) ha hb ?_
  rw [← h.named_eq] at hka hkb
  exact (beq_iff_eq.mp hka).trans (beq_iff_eq.mp hkb).symm

/-! ### What can become of a section -/

/-- A section may stay as it is. -/
theorem becomes_self (h : s.Sound d c) : Becomes d c c (fun es => es) s s := ⟨rfl, rfl, h, rfl⟩

/-- The entry of a key changes in its place.  What is captured may change along with it, but not for
    the other entries. -/
theorem becomes_modify (h : s.Sound d c) {c' : Capture} (key : Text) {f : Entry → Entry}
    {g : SheetEntry → SheetEntry} (hid : ∀ e, (f e).id = e.id) (hkey : ∀ e, (f e).key = e.key)
    (hf : ∀ e ∈ s.entries.values, d.isKey key (c.entry e) = true → c'.entry (f e) = g (c.entry e))
    (hother : ∀ e ∈ s.entries.values, d.isKey key (c.entry e) = false → c'.lines e.id = c.lines e.id)
    (hunwritten : ∀ i, s.nextEntry ≤ i → c'.lines ⟨s.id, i⟩ = []) :
    Becomes d c c' (Roster.change (d.isKey key) g) s (s.modify key f) := by
  have hvalues : (s.modify key f).entries.values =
      Roster.change (s.entries.named Entry.key key) f s.entries.values :=
    NameTable.values_modify h.keyed key f
  have hids : (s.modify key f).entries.values.map Entry.id = s.entries.values.map Entry.id := by
    rw [hvalues, Roster.change, List.map_map]
    apply List.map_congr_left
    intro e _
    show (if s.entries.named Entry.key key e then f e else e).id = e.id
    by_cases hn : s.entries.named Entry.key key e = true
    · rw [if_pos hn, hid]
    · rw [if_neg hn]
  have hall : ∀ P : EntryId → Prop, (∀ e ∈ s.entries.values, P e.id) →
      ∀ e ∈ (s.modify key f).entries.values, P e.id := by
    intro P hP
    rw [hvalues]
    exact Roster.forall_change hP fun e he _ => by rw [hid]; exact hP e he
  have hsound : (s.modify key f).Sound d c' :=
    { folding := h.folding
      keyed := NameTable.keyed_modify h.keyed key fun e _ _ => hkey e
      owned := hall (fun id => id.sectionId = s.id) h.owned
      numbered := hall (fun id => id.index < s.nextEntry) h.numbered
      distinct := hids ▸ h.distinct
      unwritten := hunwritten }
  refine ⟨rfl, rfl, hsound, ?_⟩
  -- on the sheet, the entry of the key changes by `g`, and no other
  rw [Capture.entriesOf, hvalues, Capture.entriesOf, Roster.change, Roster.change, List.map_map,
    List.map_map]
  apply List.map_congr_left
  intro e he
  show c'.entry (if s.entries.named Entry.key key e then f e else e) =
    if d.isKey key (c.entry e) then g (c.entry e) else c.entry e
  rw [h.named_eq]
  by_cases hk : d.isKey key (c.entry e) = true
  · rw [if_pos hk, if_pos hk, hf e he hk]
  · rw [if_neg hk, if_neg hk, Capture.entry, Capture.entry,
      hother e he (eq_false_of_ne_true hk)]

/-- A new entry comes at the end. -/
theorem becomes_push (h : s.Sound d c) {key : Text} (hnew : s.contains key = false) (value : Text)
    {f : Entry → Entry} (g : SheetEntry → SheetEntry) (hkey : ∀ e, (f e).key = e.key) :
    Becomes d c c (Roster.upsert (d.isKey key) g (.fresh key value)) s (s.upsert key value f) := by
  obtain ⟨fresh, hfresh⟩ : ∃ fresh, fresh = Entry.fresh ⟨s.id, s.nextEntry⟩ key value := ⟨_, rfl⟩
  have hid : fresh.id = ⟨s.id, s.nextEntry⟩ := by
    rw [hfresh]
    rfl
  have hnext : (s.upsert key value f).nextEntry = s.nextEntry + 1 := by
    unfold Section.upsert
    rw [hnew]
    rfl
  have hvalues : (s.upsert key value f).entries.values = s.entries.values ++ [fresh] := by
    show (s.entries.upsert key f (.fresh ⟨s.id, s.nextEntry⟩ key value)).values = _
    rw [NameTable.values_upsert h.keyed, Roster.upsert_of_not_any, hfresh]
    exact (NameTable.contains_eq h.keyed key).symm.trans hnew
  have hall : ∀ P : EntryId → Prop, (∀ e ∈ s.entries.values, P e.id) → P ⟨s.id, s.nextEntry⟩ →
      ∀ e ∈ (s.upsert key value f).entries.values, P e.id := by
    intro P hP hPfresh e he
    rw [hvalues] at he
    rcases List.mem_append.mp he with he | he
    · exact hP e he
    · rw [List.mem_singleton.mp he, hid]
      exact hPfresh
  -- the number of the new entry is above all that were given out
  have hdistinct : ((s.upsert key value f).entries.values.map Entry.id).Nodup := by
    rw [hvalues, List.map_append, List.nodup_append]
    refine ⟨h.distinct, List.pairwise_singleton _ _, ?_⟩
    intro id hmem other hother heq
    obtain ⟨e, he, rfl⟩ := List.mem_map.mp hmem
    rw [List.map_singleton, List.mem_singleton] at hother
    have hlt := h.numbered e he
    rw [heq, hother, hid] at hlt
    exact Nat.lt_irrefl _ hlt
  have hview : c.entry fresh = .fresh key value := by
    rw [Capture.entry, hid, h.unwritten _ (Nat.le_refl _), hfresh]
    rfl
  have hany : (c.entriesOf s).any (d.isKey key) = false := h.contains_eq key ▸ hnew
  exact
    { id_eq := rfl
      name_eq := rfl
      sound :=
        { folding := (NameTable.caseSensitive_upsert _ _ _ _).trans h.folding
          keyed := NameTable.keyed_upsert h.keyed key (fun e _ _ => hkey e) rfl
          owned := hall (fun id => id.sectionId = s.id) h.owned rfl
          numbered := by
            rw [hnext]
            exact hall (fun id => id.index < s.nextEntry + 1)
              (fun e he => Nat.lt_succ_of_lt (h.numbered e he)) (Nat.lt_succ_self _)
          distinct := hdistinct
          unwritten := by
            intro i hi
            rw [hnext] at hi
            exact h.unwritten i (Nat.le_of_succ_le hi) }
      entries := by
        rw [Roster.upsert_of_not_any _ _ hany, Capture.entriesOf, hvalues, List.map_append,
          List.map_singleton, hview]
        rfl }

/-- The entry of a key changes in its place or, if there is none, a new one comes at the end. -/
theorem becomes_upsert (h : s.Sound d c) (key value : Text) {f : Entry → Entry}
    {g : SheetEntry → SheetEntry} (hid : ∀ e, (f e).id = e.id) (hkey : ∀ e, (f e).key = e.key)
    (hf : ∀ e, c.entry (f e) = g (c.entry e)) :
    Becomes d c c (Roster.upsert (d.isKey key) g (.fresh key value)) s (s.upsert key value f) := by
  cases hc : s.contains key with
  | true =>
    have hany : (c.entriesOf s).any (d.isKey key) = true := h.contains_eq key ▸ hc
    have hbecomes := h.becomes_modify key hid hkey (fun e _ _ => hf e) (fun _ _ _ => rfl) h.unwritten
    rw [← Section.upsert_of_contains hc value f] at hbecomes
    refine ⟨rfl, rfl, hbecomes.sound, ?_⟩
    rw [hbecomes.entries, Roster.upsert_of_any _ _ hany]
  | false => exact h.becomes_push hc value g hkey

/-- A key is taken out, and what was captured for it may be dropped. -/
theorem becomes_erase (h : s.Sound d c) {c' : Capture} (key : Text)
    (hother : ∀ e ∈ s.entries.values, d.isKey key (c.entry e) = false → c'.lines e.id = c.lines e.id)
    (hunwritten : ∀ i, s.nextEntry ≤ i → c'.lines ⟨s.id, i⟩ = []) :
    Becomes d c c' (Roster.erase (d.isKey key)) s (s.erase key) := by
  have hvalues : (s.erase key).entries.values =
      Roster.erase (s.entries.named Entry.key key) s.entries.values :=
    NameTable.values_erase h.keyed key
  have hmem : ∀ e ∈ (s.erase key).entries.values,
      e ∈ s.entries.values ∧ d.isKey key (c.entry e) = false := by
    intro e he
    rw [hvalues] at he
    obtain ⟨he, hn⟩ := List.mem_filter.mp he
    rw [h.named_eq] at hn
    exact ⟨he, by simpa using hn⟩
  have hsound : (s.erase key).Sound d c' :=
    { folding := h.folding
      keyed := NameTable.keyed_erase h.keyed key
      owned := fun e he => h.owned e (hmem e he).1
      numbered := fun e he => h.numbered e (hmem e he).1
      distinct := by
        rw [hvalues]
        exact h.distinct.sublist (List.filter_sublist.map Entry.id)
      unwritten := hunwritten }
  have hview : c'.entriesOf (s.erase key) = c.entriesOf (s.erase key) := by
    apply List.map_congr_left
    intro e he
    rw [Capture.entry, Capture.entry, hother e (hmem e he).1 (hmem e he).2]
  refine ⟨rfl, rfl, hsound, ?_⟩
  rw [hview, Capture.entriesOf, hvalues]
  exact Roster.map_erase fun e _ => (h.named_eq key e).symm

/-- A key is taken out together with what was captured for it. -/
theorem becomes_forget (h : s.Sound d c) {key : Text} {e : Entry} (he : s.find? key = some e) :
    Becomes d c (c.forgetEntry e.id) (Roster.erase (d.isKey key)) s (s.erase key) := by
  obtain ⟨hmem, hkey⟩ := h.of_find?_eq_some he
  -- an entry of another key has another identity, and keeps its lines
  refine h.becomes_erase key (fun other hother hnot => ?_) fun i hi => ?_
  · rw [Capture.lines_forgetEntry, if_neg]
    intro hid
    rw [h.eq_of_id_eq hother hmem hid, hkey] at hnot
    exact Bool.noConfusion hnot
  · rw [Capture.lines_forgetEntry]
    by_cases hid : (⟨s.id, i⟩ : EntryId) = e.id
    · rw [if_pos hid]
    · rw [if_neg hid]
      exact h.unwritten i hi

/-- All keys are taken out, and what was captured for them may be dropped. -/
theorem becomes_clear (h : s.Sound d c) {c' : Capture}
    (hunwritten : ∀ i, s.nextEntry ≤ i → c'.lines ⟨s.id, i⟩ = []) :
    Becomes d c c' (fun _ => []) s s.clear where
  id_eq := rfl
  name_eq := rfl
  sound :=
    { folding := h.folding
      keyed := NameTable.keyed_empty _
      owned := by simp [Section.clear]
      numbered := by simp [Section.clear]
      distinct := by simp [Section.clear]
      unwritten := hunwritten }
  entries := rfl

/-- Every entry changes in its place. -/
theorem becomes_mapEntries (h : s.Sound d c) {f : Entry → Entry} {g : SheetEntry → SheetEntry}
    (hid : ∀ e, (f e).id = e.id) (hkey : ∀ e, (f e).key = e.key)
    (hf : ∀ e, c.entry (f e) = g (c.entry e)) :
    Becomes d c c (List.map g) s (s.mapEntries f) := by
  have hvalues : (s.mapEntries f).entries.values = s.entries.values.map f :=
    NameTable.values_mapValues _ _
  have hall : ∀ P : EntryId → Prop, (∀ e ∈ s.entries.values, P e.id) →
      ∀ e ∈ (s.mapEntries f).entries.values, P e.id := by
    intro P hP e he
    rw [hvalues] at he
    obtain ⟨old, hold, rfl⟩ := List.mem_map.mp he
    rw [hid]
    exact hP old hold
  have hids : (s.mapEntries f).entries.values.map Entry.id = s.entries.values.map Entry.id := by
    rw [hvalues, List.map_map]
    exact List.map_congr_left fun e _ => hid e
  have hsound : (s.mapEntries f).Sound d c :=
    { folding := h.folding
      keyed := NameTable.keyed_mapValues h.keyed fun e _ => hkey e
      owned := hall (fun id => id.sectionId = s.id) h.owned
      numbered := hall (fun id => id.index < s.nextEntry) h.numbered
      distinct := hids ▸ h.distinct
      unwritten := h.unwritten }
  refine ⟨rfl, rfl, hsound, ?_⟩
  rw [Capture.entriesOf, hvalues, Capture.entriesOf, List.map_map, List.map_map]
  exact List.map_congr_left fun e _ => hf e

end Sound
end Section
end IniFile
