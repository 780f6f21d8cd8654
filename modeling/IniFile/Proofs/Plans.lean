/-
  What plans do to sheets.

  A tree is written by way of a plan for each of its fields, and plans are carried out one after the
  other on an empty document.  On the SHEET of that document they only ever set keys and add values
  to keys, so everything that is known of sheets is known of trees.

  1. **Plans on sheets** — `EntryPlan.onEntries`, `FieldPlan.onSheet` and, for all fields,
     `Sheet.ofFields`.
  2. **Simulation** — carrying out a plan on a document is carrying it out on the sheet.
  3. **New sheets** — nothing was captured for what a plan puts there.
  4. **Distinct names** — then plans do not meet, and each leaves its own entry or section behind, in
     order.
-/
import IniFile.Proofs.Invariants
import IniFile.Proofs.Kept
import IniFile.Proofs.Simulation
import IniFile.Typed.Write

namespace IniFile

/-! ## Plans on sheets -/

/-- Adds a value to a key. -/
def Dialect.pushKey (d : Dialect) (key value : Text) (es : List SheetEntry) : List SheetEntry :=
  Roster.upsert (d.isKey key) (.pushValue value) (.fresh key value) es

/-- Puts an entry among others as planned. -/
def EntryPlan.onEntries (d : Dialect) (key : Text) (plan : EntryPlan) (es : List SheetEntry) :
    List SheetEntry :=
  match plan with
  | .skip => es
  | .scalar value => d.setKey key value es
  | .list values => values.foldl (fun es value => d.pushKey key value es) es

/-- Puts rows among other entries as planned. -/
def Dialect.putRows (d : Dialect) (rows : List (Text × EntryPlan)) (es : List SheetEntry) :
    List SheetEntry :=
  rows.foldl (fun es row => row.2.onEntries d row.1 es) es

/-- Puts a field onto a sheet as planned. -/
def FieldPlan.onSheet (d : Dialect) (name : Text) (plan : FieldPlan) (S : Sheet) : Sheet :=
  match plan with
  | .entry plan => S.upsertSection d [] (plan.onEntries d name)
  | .table rows => S.upsertSection d name (d.putRows rows)

/-- The sheet of fields that are put one after the other. -/
def Sheet.ofFields (d : Dialect) (fields : List (Text × FieldPlan)) : Sheet :=
  fields.foldl (fun S row => row.2.onSheet d row.1 S) .blank

/-! ## Simulation -/

namespace Section.Sound

variable {d : Dialect} {c : Capture} {s : Section}

theorem becomes_append (h : s.Sound d c) (key value : Text) :
    s.Becomes d c c (d.pushKey key value) (s.append key value) :=
  h.becomes_upsert key value (fun _ => rfl) (fun _ => rfl) fun _ => rfl

theorem becomes_appendAll (h : s.Sound d c) (key : Text) (values : List Text) :
    s.Becomes d c c (fun es => values.foldl (fun es value => d.pushKey key value es) es)
      (values.foldl (fun s value => s.append key value) s) := by
  induction values generalizing s with
  | nil => exact h.becomes_self
  | cons value rest ih =>
    have hone := h.becomes_append key value
    exact hone.trans (ih hone.sound)

/-- **An entry is put** as planned. -/
theorem becomes_put (h : s.Sound d c) (key : Text) (plan : EntryPlan) :
    s.Becomes d c c (plan.onEntries d key) (s.put key plan) := by
  cases plan with
  | skip => exact h.becomes_self
  | scalar value => exact h.becomes_set key value
  | list values => exact h.becomes_appendAll key values

theorem becomes_putRows (h : s.Sound d c) (rows : List (Text × EntryPlan)) :
    s.Becomes d c c (d.putRows rows) (rows.foldl (fun s row => s.put row.1 row.2) s) := by
  induction rows generalizing s with
  | nil => exact h.becomes_self
  | cons row rest ih =>
    have hone := h.becomes_put row.1 row.2
    exact hone.trans (ih hone.sound)

end Section.Sound

namespace Document

/-- **A field is put** as planned. -/
theorem Sound.becomes_putField {doc : Document} (h : doc.Sound) (name : Text) (plan : FieldPlan) :
    doc.Becomes (plan.onSheet doc.dialect name doc.sheet) (doc.putField name plan) := by
  cases plan with
  | entry plan => exact h.becomes_upsertSection [] fun _ hs => hs.becomes_put name plan
  | table rows => exact h.becomes_upsertSection name fun _ hs => hs.becomes_putRows rows

theorem Sound.becomes_putFields {doc : Document} (h : doc.Sound) (fields : List (Text × FieldPlan)) :
    doc.Becomes (fields.foldl (fun S row => row.2.onSheet doc.dialect row.1 S) doc.sheet)
      (fields.foldl (fun doc row => doc.putField row.1 row.2) doc) := by
  induction fields generalizing doc with
  | nil => exact ⟨h, rfl, rfl⟩
  | cons row rest ih =>
    have hone := h.becomes_putField row.1 row.2
    have hrest := ih hone.sound
    rw [hone.sheet, hone.dialect] at hrest
    exact ⟨hrest.sound, hrest.sheet, hrest.dialect.trans hone.dialect⟩

end Document

/-- **The document of a tree** is on the sheet of the fields of its root. -/
theorem Tree.becomes_of_toDocument {tree : Tree} {doc : Document} (h : tree.toDocument = .ok doc) :
    ∃ fields, tree.root = .ok fields ∧
      (Document.empty .standard).Becomes (Sheet.ofFields .standard fields) doc := by
  unfold toDocument at h
  cases hroot : tree.root with
  | error fault => rw [hroot] at h; exact absurd h nofun
  | ok fields =>
    rw [hroot] at h
    have hfields := (Document.sound_empty .standard).becomes_putFields fields
    obtain rfl : _ = doc := Except.ok.inj h
    rw [Document.sheet_empty] at hfields
    exact ⟨fields, rfl, hfields⟩

/-! ## New sheets -/

section New

variable {P : SheetEntry → Prop} {Q : Text → Option HeaderLine → Prop} {d : Dialect}

/-- What holds of entries with one value, whatever becomes of it, holds of entries that are put. -/
theorem EntryPlan.forall_onEntries (hP : SheetEntry.Edits P) {key : Text}
    (hfresh : ∀ value, P (.fresh key value)) (plan : EntryPlan) {es : List SheetEntry}
    (h : ∀ e ∈ es, P e) : ∀ e ∈ plan.onEntries d key es, P e := by
  cases plan with
  | skip => exact h
  | scalar value => exact Sheet.All.setKey hP hfresh value es h
  | list values =>
    show ∀ e ∈ values.foldl (fun es value => d.pushKey key value es) es, P e
    induction values generalizing es with
    | nil => exact h
    | cons value rest ih =>
      exact ih (Roster.forall_upsert h (fun e he _ => hP.push e value (h e he)) (hfresh value))

theorem Dialect.forall_putRows (hP : SheetEntry.Edits P) {rows : List (Text × EntryPlan)}
    (hfresh : ∀ row ∈ rows, ∀ value, P (.fresh row.1 value)) {es : List SheetEntry}
    (h : ∀ e ∈ es, P e) : ∀ e ∈ d.putRows rows es, P e := by
  unfold putRows
  induction rows generalizing es with
  | nil => exact h
  | cons row rest ih =>
    exact ih (fun r hr => hfresh r (List.mem_cons_of_mem _ hr))
      (row.2.forall_onEntries hP (hfresh row List.mem_cons_self) h)

theorem FieldPlan.all_onSheet (hP : SheetEntry.Edits P) (hfresh : ∀ key value, P (.fresh key value))
    (hQ : ∀ name, Q name none) (name : Text) (plan : FieldPlan) {S : Sheet} (h : S.All P Q) :
    (plan.onSheet d name S).All P Q := by
  cases plan with
  | entry plan =>
    exact h.upsertSection (fun es hes => plan.forall_onEntries hP (hfresh name) hes) fun _ => hQ _
  | table rows =>
    exact h.upsertSection
      (fun es hes => Dialect.forall_putRows hP (fun row _ value => hfresh row.1 value) hes)
      fun _ => hQ _

theorem FieldPlan.trailing_onSheet (d : Dialect) (name : Text) (plan : FieldPlan) (S : Sheet) :
    (plan.onSheet d name S).trailing = S.trailing := by
  cases plan with
  | entry plan => rfl
  | table rows =>
    show (S.upsertSection d name (d.putRows rows)).trailing = S.trailing
    unfold Sheet.upsertSection
    cases name.isEmpty <;> rfl

/-- **Nothing was captured** for what plans put onto a sheet. -/
theorem Sheet.all_ofFields (hP : SheetEntry.Edits P) (hfresh : ∀ key value, P (.fresh key value))
    (hQ : ∀ name, Q name none) (fields : List (Text × FieldPlan)) :
    (Sheet.ofFields d fields).All P Q ∧ (Sheet.ofFields d fields).trailing = [] := by
  have hall : ∀ S : Sheet, S.All P Q ∧ S.trailing = [] →
      (fields.foldl (fun S row => row.2.onSheet d row.1 S) S).All P Q ∧
        (fields.foldl (fun S row => row.2.onSheet d row.1 S) S).trailing = [] := by
    induction fields with
    | nil => exact fun _ h => h
    | cons row rest ih =>
      rintro S ⟨hS, htrailing⟩
      exact ih _ ⟨row.2.all_onSheet hP hfresh hQ row.1 hS,
        (row.2.trailing_onSheet d row.1 S).trans htrailing⟩
  exact hall .blank ⟨all_blank, rfl⟩

end New

/-! ## Distinct names -/

namespace EntryPlan

/-- The values that a plan leaves at a new key. -/
def values : EntryPlan → List Text
  | .skip => []
  | .scalar value => [value]
  | .list values => values

/-- What a plan leaves behind under a new key: an entry, unless there is no value for it. -/
def entries (key : Text) (plan : EntryPlan) : List SheetEntry :=
  if plan.values = [] then [] else [⟨⟨key, plan.values, none⟩, []⟩]

theorem key_of_mem_entries {key : Text} {plan : EntryPlan} {e : SheetEntry}
    (h : e ∈ plan.entries key) : e.key = key := by
  unfold entries at h
  split at h
  · exact absurd h List.not_mem_nil
  · rw [List.mem_singleton.mp h]

end EntryPlan

namespace Dialect

variable {d : Dialect} {key : Text} {es : List SheetEntry}

/-- Values are added to the last entry if it has the key. -/
theorem foldl_pushKey_concat (hnew : ∀ e ∈ es, d.isKey key e = false) (before values : List Text) :
    values.foldl (fun es value => d.pushKey key value es) (es ++ [⟨⟨key, before, none⟩, []⟩]) =
      es ++ [⟨⟨key, before ++ values, none⟩, []⟩] := by
  induction values generalizing before with
  | nil => rw [List.append_nil]; rfl
  | cons value rest ih =>
    have hlast : d.isKey key ⟨⟨key, before, none⟩, []⟩ = true := d.sameKey_refl key
    have hany : (es ++ [(⟨⟨key, before, none⟩, []⟩ : SheetEntry)]).any (d.isKey key) = true :=
      List.any_eq_true.mpr ⟨_, List.mem_append_right _ List.mem_cons_self, hlast⟩
    rw [List.foldl_cons, pushKey, Roster.upsert_of_any _ _ hany, Roster.change_append,
      Roster.change_of_forall_not _ hnew, Roster.change, List.map_singleton, if_pos hlast,
      SheetEntry.pushValue, ih, List.append_assoc]
    rfl

/-- A plan for a new key leaves its entry at the end. -/
theorem onEntries_of_new (hnew : ∀ e ∈ es, d.isKey key e = false) (plan : EntryPlan) :
    plan.onEntries d key es = es ++ plan.entries key := by
  have hany : es.any (d.isKey key) = false :=
    List.any_eq_false.mpr fun e he => by rw [hnew e he]; exact Bool.false_ne_true
  cases plan with
  | skip => exact (List.append_nil es).symm
  | scalar value => exact Roster.upsert_of_not_any _ _ hany
  | list values =>
    cases values with
    | nil => exact (List.append_nil es).symm
    | cons value rest =>
      show rest.foldl (fun es value => d.pushKey key value es) (d.pushKey key value es) = _
      rw [pushKey, Roster.upsert_of_not_any _ _ hany]
      exact foldl_pushKey_concat hnew [value] rest

/-- **Rows of distinct keys** leave their entries in order. -/
theorem putRows_of_new {rows : List (Text × EntryPlan)}
    (hdistinct : (rows.map fun row => d.foldKey row.1).Nodup)
    (hnew : ∀ row ∈ rows, ∀ e ∈ es, d.isKey row.1 e = false) :
    d.putRows rows es = es ++ rows.flatMap fun row => row.2.entries row.1 := by
  induction rows generalizing es with
  | nil => exact (List.append_nil es).symm
  | cons row rest ih =>
    obtain ⟨hrow, hrest⟩ := List.forall_mem_cons.mp hnew
    obtain ⟨hother, hdistinct⟩ := List.nodup_cons.mp hdistinct
    show d.putRows rest (row.2.onEntries d row.1 es) = _
    rw [onEntries_of_new hrow, ih hdistinct, List.flatMap_cons, List.append_assoc]
    intro r hr e he
    rcases List.mem_append.mp he with he | he
    · exact hrest r hr e he
    · have hkey := congrArg d.foldKey (EntryPlan.key_of_mem_entries he)
      exact eq_false_of_ne_true fun hsame =>
        hother (List.mem_map.mpr ⟨r, hr, (sameKey_iff.mp hsame).symm.trans hkey⟩)

end Dialect

namespace FieldPlan

/-- What a plan leaves behind before the sections. -/
def entries (name : Text) : FieldPlan → List SheetEntry
  | .entry plan => plan.entries name
  | .table _ => []

/-- The section that a plan leaves behind. -/
def sections (name : Text) : FieldPlan → List SheetSection
  | .entry _ => []
  | .table rows => [⟨name, none, rows.flatMap fun row => row.2.entries row.1⟩]

variable {d : Dialect} {S : Sheet} {name : Text}

/-- Can the plan be carried out under the name, apart from what is already there? -/
def Placed (d : Dialect) (name : Text) : FieldPlan → Prop
  | .entry _ => True
  | .table rows => name ≠ [] ∧ (rows.map fun row => d.foldKey row.1).Nodup

/-- A plan for a new name leaves its entry or its section at the end. -/
theorem onSheet_of_new {plan : FieldPlan} (hplaced : plan.Placed d name)
    (hkey : ∀ e ∈ S.global, d.isKey name e = false)
    (hname : ∀ s ∈ S.sections, d.isSection name s = false) :
    plan.onSheet d name S = { S with
      global := S.global ++ plan.entries name, sections := S.sections ++ plan.sections name } := by
  cases plan with
  | entry plan =>
    show { S with global := plan.onEntries d name S.global } =
      { S with global := S.global ++ plan.entries name, sections := S.sections ++ [] }
    rw [Dialect.onEntries_of_new hkey, List.append_nil]
  | table rows =>
    obtain ⟨hne, hdistinct⟩ := hplaced
    have hnone : S.hasSection d name = false := by
      rw [Sheet.hasSection, List.isEmpty_eq_false_iff.mpr hne, Bool.false_or]
      exact List.any_eq_false.mpr fun s hs => by rw [hname s hs]; exact Bool.false_ne_true
    show S.upsertSection d name (d.putRows rows) =
      { S with global := S.global ++ [], sections := S.sections ++ _ }
    rw [Sheet.upsertSection_of_not_hasSection hnone, List.append_nil,
      Dialect.putRows_of_new hdistinct fun _ _ _ he => absurd he List.not_mem_nil]
    rfl

theorem key_of_mem_entries {plan : FieldPlan} {e : SheetEntry} (h : e ∈ plan.entries name) :
    e.key = name := by
  cases plan with
  | entry plan => exact EntryPlan.key_of_mem_entries h
  | table rows => exact absurd h List.not_mem_nil

theorem name_of_mem_sections {plan : FieldPlan} {s : SheetSection} (h : s ∈ plan.sections name) :
    s.name = name := by
  cases plan with
  | entry plan => exact absurd h List.not_mem_nil
  | table rows => rw [List.mem_singleton.mp h]

end FieldPlan

/-- **Fields of distinct names** leave their entries and their sections in order. -/
theorem Sheet.ofFields_of_distinct {d : Dialect} {fields : List (Text × FieldPlan)}
    (hkeys : (fields.map fun row => d.foldKey row.1).Nodup)
    (hnames : (fields.map fun row => d.foldSection row.1).Nodup)
    (hplaced : ∀ row ∈ fields, row.2.Placed d row.1) :
    Sheet.ofFields d fields = { Sheet.blank with
      global := fields.flatMap fun row => row.2.entries row.1
      sections := fields.flatMap fun row => row.2.sections row.1 } := by
  have hput : ∀ S : Sheet, (∀ row ∈ fields, ∀ e ∈ S.global, d.isKey row.1 e = false) →
      (∀ row ∈ fields, ∀ s ∈ S.sections, d.isSection row.1 s = false) →
      fields.foldl (fun S row => row.2.onSheet d row.1 S) S = { S with
        global := S.global ++ fields.flatMap fun row => row.2.entries row.1
        sections := S.sections ++ fields.flatMap fun row => row.2.sections row.1 } := by
    induction fields with
    | nil => intro S _ _; simp
    | cons row rest ih =>
      intro S hkey hname
      obtain ⟨hkeyRow, hkeyRest⟩ := List.forall_mem_cons.mp hkey
      obtain ⟨hnameRow, hnameRest⟩ := List.forall_mem_cons.mp hname
      obtain ⟨hplacedRow, hplacedRest⟩ := List.forall_mem_cons.mp hplaced
      obtain ⟨hotherKey, hkeys⟩ := List.nodup_cons.mp hkeys
      obtain ⟨hotherName, hnames⟩ := List.nodup_cons.mp hnames
      rw [List.foldl_cons, FieldPlan.onSheet_of_new hplacedRow hkeyRow hnameRow,
        ih hkeys hnames hplacedRest, List.flatMap_cons, List.flatMap_cons, List.append_assoc,
        List.append_assoc]
      · intro r hr e he
        rcases List.mem_append.mp he with he | he
        · exact hkeyRest r hr e he
        · have hkey := congrArg d.foldKey (FieldPlan.key_of_mem_entries he)
          exact eq_false_of_ne_true fun hsame =>
            hotherKey (List.mem_map.mpr ⟨r, hr, (Dialect.sameKey_iff.mp hsame).symm.trans hkey⟩)
      · intro r hr s hs
        rcases List.mem_append.mp hs with hs | hs
        · exact hnameRest r hr s hs
        · have hname := congrArg d.foldSection (FieldPlan.name_of_mem_sections hs)
          exact eq_false_of_ne_true fun hsame =>
            hotherName (List.mem_map.mpr ⟨r, hr, (Dialect.sameSection_iff.mp hsame).symm.trans hname⟩)
  exact hput .blank (fun _ _ _ he => absurd he List.not_mem_nil)
    fun _ _ _ hs => absurd hs List.not_mem_nil

end IniFile
