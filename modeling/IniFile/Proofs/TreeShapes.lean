/-
  Which trees have a document, and which document that is.

  Writing goes down a tree in one descent that stops at the first fault.  The shapes that come through
  are described here without the descent, each depth by the one below it, and with them the content
  of the document.

  1. **Shapes** — items, entries, fields and the root, as they are inside their wrappers.
  2. **Contents** — the rows of a table, the values under a name, and from these the content of the
     whole document.
  3. **Decisions** — a result that is one value or a fault in writing, as a question is answered yes
     or no; how decisions follow each other.
  4. **The descent** — one decision for each depth.
  5. **The document** — a tree has a document exactly if it has the shape, and under distinct names
     the document holds its content.

  Mathlib-free.
-/
import IniFile.Proofs.Plans

namespace IniFile
namespace Tree

/-! ## Shapes -/

/-- A tree without the wrappers around it. -/
def bare : Tree → Tree
  | .present content => content.bare
  | .newtype content => content.bare
  | tree => tree

/-- The text of a scalar. -/
def scalar? (t : Tree) : Option Text := t.bare.scalarText?

/-- Can the tree stand in a list? -/
def IsItem (t : Tree) : Prop := t.bare = .absent ∨ ∃ raw, t.scalar? = some raw

/-- Can the tree stand under a key? -/
def IsEntry (t : Tree) : Prop := t.IsItem ∨ ∃ items, t.bare = .seq items ∧ ∀ item ∈ items, item.IsItem

/-- Can the tree be the key of a map? -/
def IsKey (t : Tree) : Prop := ∃ name, t.scalar? = some name ∧ name ≠ []

/-- Is the tree a table of what is asked for? -/
def IsTable (P : Tree → Prop) (t : Tree) : Prop :=
  (∃ fields, t.bare = .record fields ∧ ∀ row ∈ fields, P row.2) ∨
    ∃ entries, t.bare = .map entries ∧ ∀ row ∈ entries, row.1.IsKey ∧ P row.2

/-- Can the tree be a field of the root? -/
def IsField (t : Tree) : Prop := t.IsEntry ∨ t.IsTable IsEntry

/-- Can the tree be the root? -/
def IsConfig (t : Tree) : Prop := t.IsTable IsField

/-! ## Contents -/

/-- The rows of a record or a map, in order. -/
def rows (t : Tree) : List (Text × Tree) :=
  match t.bare with
  | .record fields => fields
  | .map entries => entries.map fun row => (row.1.scalar?.getD [], row.2)
  | _ => []

/-- Is the tree a record or a map? -/
def hasRows (t : Tree) : Bool :=
  match t.bare with
  | .record _ | .map _ => true
  | _ => false

/-- The values that the tree stands for under a key. -/
def values (t : Tree) : List Text :=
  match t.bare with
  | .seq items => items.filterMap scalar?
  | tree => tree.scalarText?.toList

/-- The entries of rows that have values. -/
def entriesOf (rows : List (Text × Tree)) : List EntryContent :=
  (rows.filter fun row => !row.2.values.isEmpty).map fun row => ⟨row.1, row.2.values, none⟩

/-- The content of the document of a tree. -/
def content (t : Tree) : DocumentContent where
  global := ⟨[], entriesOf t.rows⟩
  sections := (t.rows.filter fun row => row.2.hasRows).map fun row => ⟨row.1, entriesOf row.2.rows⟩

/-- Do the names in the tree keep its parts apart?  Names beside each other differ, and sections have
    names. -/
def NamedApart (t : Tree) : Prop :=
  (t.rows.map Prod.fst).Nodup ∧
    ∀ row ∈ t.rows, row.2.hasRows = true → row.1 ≠ [] ∧ (row.2.rows.map Prod.fst).Nodup

/-! ## Decisions -/

/-- The result that there is for a question: the value if the answer is yes, and a fault in writing
    if it is no. -/
inductive Decides {α : Type} (P : Prop) (x : α) : Except Error α → Prop
  | accept (h : P) : Decides P x (.ok x)
  | refuse (h : ¬P) (fault : WriteFault) : Decides P x (.error (.writing fault))

namespace Decides

variable {α β : Type} {P Q : Prop} {x : α} {r : Except Error α}

theorem of_iff (h : Decides P x r) (hiff : P ↔ Q) : Decides Q x r := by
  rwa [← propext hiff]

theorem map (h : Decides P x r) (f : α → β) : Decides P (f x) (r.map f) := by
  cases h with
  | accept h => exact .accept h
  | refuse h fault => exact .refuse h fault

theorem bind {y : β} {f : α → Except Error β} (h : Decides P x r) (hf : Decides Q y (f x)) :
    Decides (P ∧ Q) y (r >>= f) := by
  cases h with
  | accept hP =>
    show Decides (P ∧ Q) y (f x)
    exact hf.of_iff (and_iff_right hP).symm
  | refuse hP fault => exact .refuse (fun h => hP h.1) fault

/-- Decisions on the members of a list, from left to right. -/
theorem mapM {P : α → Prop} {g : α → β} {f : α → Except Error β} {l : List α}
    (h : ∀ a ∈ l, Decides (P a) (g a) (f a)) : Decides (∀ a ∈ l, P a) (l.map g) (l.mapM f) := by
  induction l with
  | nil => exact .accept fun _ ha => absurd ha List.not_mem_nil
  | cons a rest ih =>
    obtain ⟨ha, hrest⟩ := List.forall_mem_cons.mp h
    rw [List.mapM_cons]
    exact (ha.bind ((ih hrest).map (g a :: ·))).of_iff List.forall_mem_cons.symm

theorem exists_ok_iff (h : Decides P x r) : (∃ y, r = .ok y) ↔ P := by
  cases h with
  | accept h => exact iff_of_true ⟨x, rfl⟩ h
  | refuse h fault => exact iff_of_false nofun h

theorem exists_fault (h : Decides P x r) (hP : ¬P) : ∃ fault, r = .error (.writing fault) := by
  cases h with
  | accept h => exact absurd h hP
  | refuse h fault => exact ⟨fault, rfl⟩

theorem eq_of_ok (h : Decides P x r) {y : α} (hr : r = .ok y) : y = x := by
  cases h with
  | accept h => exact (Except.ok.inj hr).symm
  | refuse h fault => exact absurd hr nofun

end Decides

/-! ## The descent -/

/-- What becomes of a tree under a key. -/
def entryPlan (t : Tree) : EntryPlan :=
  match t.bare with
  | .seq items => .list (items.filterMap scalar?)
  | tree =>
    match tree.scalarText? with
    | some raw => .scalar raw
    | none => .skip

/-- What becomes of a field of the root. -/
def fieldPlan (t : Tree) : FieldPlan :=
  if t.hasRows then .table (t.rows.map fun row => (row.1, row.2.entryPlan)) else .entry t.entryPlan

/-- **Items** are absent or scalars. -/
theorem decides_item (t : Tree) : Decides t.IsItem t.scalar? t.item := by
  fun_induction bare t with
  | case1 content ih => exact ih
  | case2 content ih => exact ih
  | case3 t hpresent hnewtype =>
    cases t with
    | present content => exact absurd rfl (hpresent content)
    | newtype content => exact absurd rfl (hnewtype content)
    | absent => exact .accept (.inl rfl)
    | bytes | variantWithData | seq | map | valueOnly | record =>
      exact .refuse (by rintro (h | ⟨_, h⟩) <;> cases h) _
    | _ => exact .accept (.inr ⟨_, rfl⟩)

theorem decides_items (trees : List Tree) :
    Decides (∀ item ∈ trees, item.IsItem) (trees.filterMap scalar?) (items trees) := by
  have hitems := (Decides.mapM fun t (_ : t ∈ trees) => t.decides_item).map fun texts =>
    texts.filterMap id
  rwa [List.filterMap_map] at hitems

/-- **Keys** are scalars whose text is not empty. -/
theorem decides_keyText (t : Tree) : Decides t.IsKey (t.scalar?.getD []) t.keyText := by
  have hitem := t.decides_item
  unfold keyText
  generalize t.item = r at hitem ⊢
  cases hitem with
  | refuse hnot fault => exact .refuse (fun ⟨name, hname, _⟩ => hnot (.inr ⟨name, hname⟩)) fault
  | accept _ =>
    unfold IsKey
    cases t.scalar? with
    | none => exact .refuse (fun ⟨_, h, _⟩ => absurd h nofun) _
    | some name =>
      cases name with
      | nil => exact .refuse (fun ⟨_, h, hne⟩ => hne (Option.some.inj h).symm) _
      | cons c rest => exact .accept ⟨c :: rest, rfl, List.cons_ne_nil c rest⟩

theorem isEntry_seq_iff {items : List Tree} : (seq items).IsEntry ↔ ∀ item ∈ items, item.IsItem := by
  constructor
  · rintro ((h | ⟨_, h⟩) | ⟨others, h, hitems⟩)
    · cases h
    · cases h
    · cases h
      exact hitems
  · exact fun h => .inr ⟨items, rfl, h⟩

/-- **Entries** are absent, scalars, or lists of items. -/
theorem decides_entry (t : Tree) : Decides t.IsEntry t.entryPlan t.entry := by
  fun_induction bare t with
  | case1 content ih => exact ih
  | case2 content ih => exact ih
  | case3 t hpresent hnewtype =>
    cases t with
    | present content => exact absurd rfl (hpresent content)
    | newtype content => exact absurd rfl (hnewtype content)
    | absent => exact .accept (.inl (.inl rfl))
    | seq trees => exact ((decides_items trees).map EntryPlan.list).of_iff isEntry_seq_iff.symm
    | bytes | variantWithData | map | valueOnly | record =>
      exact .refuse (by rintro ((h | ⟨_, h⟩) | ⟨_, h, _⟩) <;> cases h) _
    | _ => exact .accept (.inl (.inr ⟨_, rfl⟩))

section Tables

variable {α : Type} {P : Tree → Prop} {plan : Tree → α} {value : Tree → Except Error α}

/-- The rows of a record are decided by their values. -/
theorem decides_recordRows (h : ∀ t, Decides (P t) (plan t) (value t)) (fields : List (Text × Tree)) :
    Decides ((record fields).IsTable P) ((record fields).rows.map fun row => (row.1, plan row.2))
      (recordRows value fields) := by
  have hrows : Decides (∀ row ∈ fields, P row.2) _ (recordRows value fields) :=
    Decides.mapM fun row _ => (h row.2).map fun made => (row.1, made)
  refine hrows.of_iff ⟨fun hall => .inl ⟨fields, rfl, hall⟩, ?_⟩
  rintro (⟨_, hbare, hall⟩ | ⟨_, hbare, _⟩)
  · cases hbare
    exact hall
  · cases hbare

/-- The rows of a map are decided by their keys and values. -/
theorem decides_mapRows (h : ∀ t, Decides (P t) (plan t) (value t)) (entries : List (Tree × Tree)) :
    Decides ((map entries).IsTable P) ((map entries).rows.map fun row => (row.1, plan row.2))
      (mapRows value entries) := by
  have hrows : Decides (∀ row ∈ entries, row.1.IsKey ∧ P row.2) _ (mapRows value entries) :=
    Decides.mapM fun row _ => row.1.decides_keyText.bind
      ((h row.2).map fun made => (row.1.scalar?.getD [], made))
  show Decides _ ((entries.map fun row => (row.1.scalar?.getD [], row.2)).map _) _
  rw [List.map_map]
  refine hrows.of_iff ⟨fun hall => .inr ⟨entries, rfl, hall⟩, ?_⟩
  rintro (⟨_, hbare, _⟩ | ⟨_, hbare, hall⟩)
  · cases hbare
  · cases hbare
    exact hall

end Tables

/-- **Fields** are entries, or tables of entries. -/
theorem decides_field (t : Tree) : Decides t.IsField t.fieldPlan t.field := by
  fun_induction bare t with
  | case1 content ih => exact ih
  | case2 content ih => exact ih
  | case3 t hpresent hnewtype =>
    cases t with
    | present content => exact absurd rfl (hpresent content)
    | newtype content => exact absurd rfl (hnewtype content)
    | absent => exact .accept (.inl (.inl (.inl rfl)))
    | seq trees =>
      have hlist := (decides_items trees).map fun values => FieldPlan.entry (.list values)
      refine hlist.of_iff (isEntry_seq_iff.symm.trans (or_iff_left ?_).symm)
      rintro (⟨_, h, _⟩ | ⟨_, h, _⟩) <;> cases h
    | map entries =>
      refine ((decides_mapRows decides_entry entries).map FieldPlan.table).of_iff (or_iff_right ?_).symm
      rintro ((h | ⟨_, h⟩) | ⟨_, h, _⟩) <;> cases h
    | record fields =>
      refine ((decides_recordRows decides_entry fields).map FieldPlan.table).of_iff (or_iff_right ?_).symm
      rintro ((h | ⟨_, h⟩) | ⟨_, h, _⟩) <;> cases h
    | bytes | variantWithData | valueOnly =>
      exact .refuse (by rintro (((h | ⟨_, h⟩) | ⟨_, h, _⟩) | ⟨_, h, _⟩ | ⟨_, h, _⟩) <;> cases h) _
    | _ => exact .accept (.inl (.inl (.inr ⟨_, rfl⟩)))

/-- **The root** is a table of fields. -/
theorem decides_root (t : Tree) :
    Decides t.IsConfig (t.rows.map fun row => (row.1, row.2.fieldPlan)) t.root := by
  fun_induction bare t with
  | case1 content ih => exact ih
  | case2 content ih => exact ih
  | case3 t hpresent hnewtype =>
    cases t with
    | present content => exact absurd rfl (hpresent content)
    | newtype content => exact absurd rfl (hnewtype content)
    | map entries => exact decides_mapRows decides_field entries
    | record fields => exact decides_recordRows decides_field fields
    | _ => exact .refuse (by rintro (⟨_, h, _⟩ | ⟨_, h, _⟩) <;> cases h) _

/-! ## The document -/

theorem values_entryPlan (t : Tree) : t.entryPlan.values = t.values := by
  unfold entryPlan values
  generalize t.bare = b
  cases b with
  | seq items => rfl
  | _ => rfl

/-- A table leaves nothing under its own name. -/
theorem values_of_hasRows {t : Tree} (h : t.hasRows = true) : t.values = [] := by
  unfold hasRows at h
  unfold values
  generalize t.bare = b at h ⊢
  cases b with
  | record | map => rfl
  | _ => cases h

/-- The entries that rows leave behind. -/
theorem flatMap_entries (rows : List (Text × Tree)) :
    (rows.flatMap fun row => row.2.entryPlan.entries row.1) = (entriesOf rows).map fun e => ⟨e, []⟩ := by
  induction rows with
  | nil => rfl
  | cons row rest ih =>
    rw [List.flatMap_cons, ih, EntryPlan.entries, values_entryPlan, entriesOf, entriesOf, List.filter_cons]
    cases hvalues : row.2.values with
    | nil => simp
    | cons value values => simp [hvalues]

theorem entries_fieldPlan (t : Tree) (name : Text) :
    t.fieldPlan.entries name = t.entryPlan.entries name := by
  unfold fieldPlan
  split
  · rename_i htable
    rw [EntryPlan.entries, values_entryPlan, values_of_hasRows htable]
    rfl
  · rfl

/-- The sections that rows leave behind. -/
theorem flatMap_sections (rows : List (Text × Tree)) :
    (rows.flatMap fun row => row.2.fieldPlan.sections row.1) =
      (rows.filter fun row => row.2.hasRows).map fun row =>
        ⟨row.1, none, (entriesOf row.2.rows).map fun e => ⟨e, []⟩⟩ := by
  induction rows with
  | nil => rfl
  | cons row rest ih =>
    rw [List.flatMap_cons, ih, List.filter_cons, fieldPlan]
    split
    · rename_i htable
      rw [List.map_cons, ← flatMap_entries, FieldPlan.sections, List.flatMap_map]
      rfl
    · rfl

/-- Under distinct names, every plan has a place of its own. -/
theorem NamedApart.placed {t : Tree} (h : t.NamedApart) :
    ∀ row ∈ t.rows, row.2.fieldPlan.Placed .standard row.1 := by
  intro row hrow
  unfold fieldPlan
  split
  · rename_i htable
    obtain ⟨hne, hdistinct⟩ := h.2 row hrow htable
    refine ⟨hne, ?_⟩
    rw [List.map_map]
    exact hdistinct
  · trivial

/-- The content of the sheet that the plans of a tree fill. -/
theorem NamedApart.content_eq {t : Tree} (h : t.NamedApart) :
    (Sheet.ofFields .standard (t.rows.map fun row => (row.1, row.2.fieldPlan))).content = t.content := by
  have hnames : ((t.rows.map fun row => (row.1, row.2.fieldPlan)).map Prod.fst).Nodup := by
    rw [List.map_map]
    exact h.1
  -- the standard dialect compares names as they are
  rw [Sheet.ofFields_of_distinct (d := .standard) hnames hnames (List.forall_mem_map.mpr h.placed),
    Sheet.content, List.flatMap_map, List.flatMap_map, flatMap_sections]
  simp only [entries_fieldPlan, flatMap_entries, content, List.map_map]
  simp [Function.comp_def]

theorem decides_toDocument (t : Tree) :
    Decides t.IsConfig ((t.rows.map fun row => (row.1, row.2.fieldPlan)).foldl
      (fun doc row => doc.putField row.1 row.2) (.empty .standard)) t.toDocument :=
  t.decides_root.map _

/-- **The trees that have a document.**  A tree is written exactly if its root is a table of scalars,
    lists and tables of such, all of them inside wrappers or not, and every other tree is a fault in
    writing.  If its names are apart, the document holds the values of the tree: what has values
    under its own key, and tables as sections, both in order, and nothing else. -/
theorem toDocument_iff_isConfig (t : Tree) :
    ((∃ doc, t.toDocument = .ok doc) ↔ t.IsConfig) ∧
      (¬t.IsConfig → ∃ fault, t.toDocument = .error (.writing fault)) ∧
        ∀ doc, t.toDocument = .ok doc → t.NamedApart → doc.content = t.content := by
  refine ⟨t.decides_toDocument.exists_ok_iff, t.decides_toDocument.exists_fault, ?_⟩
  intro doc hdoc happart
  obtain ⟨fields, hroot, hsound, hsheet, -⟩ := becomes_of_toDocument hdoc
  obtain rfl := t.decides_root.eq_of_ok hroot
  rw [← hsound.content_eq, hsheet, happart.content_eq]

/-- A record with an absent field, a list with and one without items, an empty section and a wrapped
    map; and a record with a table inside a section. -/
theorem toDocument_iff_isConfig_sample :
    ∃ tree doc deep,
      tree = record [("a".toList, .absent), ("b".toList, .seq [.present (.integer 1), .absent, .unit]),
        ("s".toList, .record []), ("c".toList, .newtype (.text "x".toList)), ("d".toList, .seq [.absent]),
        ("t".toList, .present (.map [(.newtype (.char 'k'), .bool true)]))] ∧
      tree.toDocument = .ok doc ∧
      doc.content = ⟨⟨[], [⟨['b'], [['1'], []], none⟩, ⟨['c'], [['x']], none⟩]⟩,
        [⟨['s'], []⟩, ⟨['t'], [⟨['k'], ["true".toList], none⟩]⟩]⟩ ∧
      deep = record [("s".toList, .record [("t".toList, .record [])])] ∧
      ∃ fault, deep.toDocument = .error (.writing fault) := by
  obtain ⟨tree, htree⟩ : ∃ tree, tree =
      record [("a".toList, .absent), ("b".toList, .seq [.present (.integer 1), .absent, .unit]),
        ("s".toList, .record []), ("c".toList, .newtype (.text "x".toList)), ("d".toList, .seq [.absent]),
        ("t".toList, .present (.map [(.newtype (.char 'k'), .bool true)]))] := ⟨_, rfl⟩
  have hany : tree.toDocument.toOption.any (fun _ => true) = true := by
    rw [htree]
    decide +kernel
  obtain ⟨doc, hdoc, -⟩ := Except.exists_ok_of_any hany
  have happart : tree.NamedApart := by
    rw [htree]
    constructor <;> decide
  have hcontent := (toDocument_iff_isConfig tree).2.2 doc hdoc happart
  refine ⟨tree, doc, _, htree, hdoc, ?_, rfl, (toDocument_iff_isConfig _).2.1 ?_⟩
  · rw [hcontent, htree]
    decide +kernel
  · simp [IsConfig, IsField, IsTable, IsEntry, IsItem, scalar?, bare, scalarText?]

end Tree
end IniFile
