/-
  Config values.

  What a program keeps in an INI file is a value of some type of its own.  Here are the values that
  have a place in a document, as one type for each depth of it:

  1. **Typed values** — a value is known by three things: the SHAPE it is asked for by, the TREE it is
     written from and the READING it comes back as.
  2. **The four depths** — `ScalarValue`, `EntryValue` (a scalar or a list of scalars), `SectionValue`
     (a table of entries) and `ConfigValue` (a table of entries and sections).  What makes such a value
     one of its type — an integer that fits its width, a list of one shape — is part of the value.
  3. **Names** — `ConfigValue.Written`: the names are distinct, and a document can hold them.
  4. **Writing** — what becomes of each value: none of them is refused.
  5. **The document** — holds the entries and the sections of the value, each in order.
-/
import IniFile.Proofs.LineContent
import IniFile.Proofs.Plans
import IniFile.Typed.Read

namespace IniFile

/-! ## Typed values -/

/-- A value as it is asked for, as it is written, and as it is read. -/
structure Typed where
  shape : Shape
  tree : Tree
  reading : Reading

namespace Typed

/-- A value in a wrapper. -/
def wrap (name : Text) (x : Typed) : Typed :=
  ⟨.newtype name x.shape, .newtype x.tree, .newtype x.reading⟩

/-- An optional value that is there. -/
def optional (x : Typed) : Typed := ⟨.option x.shape, .present x.tree, .present x.reading⟩

/-- An optional value that is not there. -/
def missing (content : Shape) : Typed := ⟨.option content, .absent, .absent⟩

/-- Values one after the other; `shape` is that of the whole. -/
def list (shape : Shape) (items : List Typed) : Typed :=
  ⟨shape, .seq (items.map tree), .list (items.map reading)⟩

/-- Values under the names of a record. -/
def record (name : Text) (fields : List (Field Typed)) (denyUnknown : Bool) : Typed where
  shape := .record name (fields.map fun f => ⟨f.name, f.content.shape, f.hasDefault⟩) denyUnknown
  tree := .record (fields.map fun f => (f.name, f.content.tree))
  reading := .record (fields.map fun f => (f.name, f.content.reading))

/-- Values of one shape under keys. -/
def map (value : Shape) (rows : List (Text × Typed)) : Typed where
  shape := .map .text value
  tree := .map (rows.map fun row => (.text row.1, row.2.tree))
  reading := .pairs (rows.map fun row => (.text row.1, row.2.reading))

end Typed

/-! ## The four depths -/

/-- A scalar. -/
inductive ScalarValue where
  | bool (b : Bool)
  | integer (width : Width) (n : Int) (fits : width.holds n = true)
  | single (negative : Bool) (x : Magnitude .single)
  | double (negative : Bool) (x : Magnitude .double)
  | char (c : Char)
  | text (t : Text)
  | borrowedText (t : Text)
  | unit
  | unitStruct (name : Text)
  | variant (name : Text) (variants : List (Text × VariantForm)) (picked : Text)
      (distinct : (variants.map Prod.fst).Nodup) (known : (picked, .unit) ∈ variants)
  | newtype (name : Text) (content : ScalarValue)

namespace ScalarValue

def typed : ScalarValue → Typed
  | bool b => ⟨.bool, .bool b, .datum (.bool b)⟩
  | integer width n _ => ⟨.integer width, .integer n, .datum (.integer n)⟩
  | single negative x => ⟨.single, .single (.finite negative x), .datum (.single (.finite negative x))⟩
  | double negative x => ⟨.double, .double (.finite negative x), .datum (.double (.finite negative x))⟩
  | char c => ⟨.char, .char c, .datum (.char c)⟩
  | text t => ⟨.text, .text t, .text t⟩
  | borrowedText t => ⟨.borrowedText, .text t, .text t⟩
  | unit => ⟨.unit, .unit, .unit⟩
  | unitStruct name => ⟨.unitStruct name, .unit, .unitStruct⟩
  | variant name variants picked _ _ => ⟨.choice name variants, .variant picked, .variant picked⟩
  | newtype name content => content.typed.wrap name

/-- The text of a scalar. -/
def raw : ScalarValue → Text
  | bool b => boolText b
  | integer _ n _ => integerText n
  | single negative x => Binary.fractionText (.finite negative x)
  | double negative x => Binary.fractionText (.finite negative x)
  | char c => [c]
  | text t => t
  | borrowedText t => t
  | unit => []
  | unitStruct _ => []
  | variant _ _ picked _ _ => picked
  | newtype _ content => content.raw

end ScalarValue

/-- A value that an entry holds: a scalar, or at least one scalar in a list. -/
inductive EntryValue where
  | scalar (x : ScalarValue)
  | seq (item : Shape) (items : List ScalarValue) (nonempty : items ≠ [])
      (alike : ∀ x ∈ items, x.typed.shape = item)
  | tuple (items : List ScalarValue) (nonempty : items ≠ [])
  | tupleStruct (name : Text) (items : List ScalarValue) (nonempty : items ≠ [])
  | newtype (name : Text) (content : EntryValue)

namespace EntryValue

def typed : EntryValue → Typed
  | scalar x => x.typed
  | seq item items _ _ => .list (.seq item) (items.map ScalarValue.typed)
  | tuple items _ =>
    .list (.tuple (items.map fun x => x.typed.shape)) (items.map ScalarValue.typed)
  | tupleStruct name items _ =>
    .list (.tupleStruct name (items.map fun x => x.typed.shape)) (items.map ScalarValue.typed)
  | newtype name content => content.typed.wrap name

/-- What becomes of the value as an entry. -/
def plan : EntryValue → EntryPlan
  | scalar x => .scalar x.raw
  | seq _ items _ _ => .list (items.map ScalarValue.raw)
  | tuple items _ => .list (items.map ScalarValue.raw)
  | tupleStruct _ items _ => .list (items.map ScalarValue.raw)
  | newtype _ content => content.plan

/-- What can be seen of the entry. -/
def content (key : Text) (x : EntryValue) : EntryContent := ⟨key, x.plan.values, none⟩

end EntryValue

/-- The value of a field of a record: optional or not, and there or not.  One that is not there must
    not have a default, which would be read in its place. -/
inductive FieldValue (α : Type) where
  | plain (hasDefault : Bool) (content : α)
  | present (hasDefault : Bool) (content : α)
  | absent (content : Shape)

namespace FieldValue

variable {α β : Type}

/-- What is there. -/
def content? : FieldValue α → Option α
  | plain _ x => some x
  | present _ x => some x
  | absent _ => none

/-- The field of the name; `typed` says what is there. -/
def field (typed : α → Typed) (name : Text) : FieldValue α → Field Typed
  | plain hasDefault x => ⟨name, typed x, hasDefault⟩
  | present hasDefault x => ⟨name, (typed x).optional, hasDefault⟩
  | absent content => ⟨name, .missing content, false⟩

/-- The rows of a record: the fields that are there. -/
def rows (fields : List (Text × FieldValue α)) : List (Text × α) :=
  fields.filterMap fun row => row.2.content?.map fun x => (row.1, x)

/-- A record of such fields. -/
def record (typed : α → Typed) (name : Text) (fields : List (Text × FieldValue α))
    (denyUnknown : Bool) : Typed :=
  .record name (fields.map fun row => row.2.field typed row.1) denyUnknown

/-- What becomes of the fields: those that are not there are skipped. -/
def plans (plan : α → β) (skip : β) (fields : List (Text × FieldValue α)) : List (Text × β) :=
  fields.map fun row => (row.1, (row.2.content?.map plan).getD skip)

end FieldValue

/-- A value that a section holds: a record or a map of entries. -/
inductive SectionValue where
  | record (name : Text) (fields : List (Text × FieldValue EntryValue)) (denyUnknown : Bool)
  | map (value : Shape) (rows : List (Text × EntryValue))
      (alike : ∀ row ∈ rows, row.2.typed.shape = value)
  | newtype (name : Text) (content : SectionValue)

namespace SectionValue

def typed : SectionValue → Typed
  | record name fields denyUnknown => FieldValue.record EntryValue.typed name fields denyUnknown
  | map value rows _ => .map value (rows.map fun row => (row.1, row.2.typed))
  | newtype name content => content.typed.wrap name

/-- The names of all fields and keys. -/
def names : SectionValue → List Text
  | record _ fields _ => fields.map Prod.fst
  | map _ rows _ => rows.map Prod.fst
  | newtype _ content => content.names

/-- The entries of the section. -/
def rows : SectionValue → List (Text × EntryValue)
  | record _ fields _ => FieldValue.rows fields
  | map _ rows _ => rows
  | newtype _ content => content.rows

/-- What becomes of the value as a section. -/
def plans : SectionValue → List (Text × EntryPlan)
  | record _ fields _ => FieldValue.plans EntryValue.plan .skip fields
  | map _ rows _ => rows.map fun row => (row.1, row.2.plan)
  | newtype _ content => content.plans

/-- What can be seen of the entries of the section. -/
def entries (s : SectionValue) : List EntryContent := s.rows.map fun row => row.2.content row.1

end SectionValue

/-- A value that a document holds: a record of entries and sections, or a map of either. -/
inductive ConfigValue where
  | record (name : Text) (fields : List (Text × FieldValue (EntryValue ⊕ SectionValue)))
      (denyUnknown : Bool)
  | entryMap (value : Shape) (rows : List (Text × EntryValue))
      (alike : ∀ row ∈ rows, row.2.typed.shape = value)
  | sectionMap (value : Shape) (rows : List (Text × SectionValue))
      (alike : ∀ row ∈ rows, row.2.typed.shape = value)
  | newtype (name : Text) (content : ConfigValue)

namespace ConfigValue

/-- An entry or a section as a typed value. -/
def typedOf : EntryValue ⊕ SectionValue → Typed := Sum.elim EntryValue.typed SectionValue.typed

def typed : ConfigValue → Typed
  | record name fields denyUnknown => FieldValue.record typedOf name fields denyUnknown
  | entryMap value rows _ => .map value (rows.map fun row => (row.1, row.2.typed))
  | sectionMap value rows _ => .map value (rows.map fun row => (row.1, row.2.typed))
  | newtype name content => content.typed.wrap name

/-- The names of all fields and keys. -/
def names : ConfigValue → List Text
  | record _ fields _ => fields.map Prod.fst
  | entryMap _ rows _ => rows.map Prod.fst
  | sectionMap _ rows _ => rows.map Prod.fst
  | newtype _ content => content.names

/-- The entries and sections of the document. -/
def rows : ConfigValue → List (Text × (EntryValue ⊕ SectionValue))
  | record _ fields _ => FieldValue.rows fields
  | entryMap _ rows _ => rows.map fun row => (row.1, .inl row.2)
  | sectionMap _ rows _ => rows.map fun row => (row.1, .inr row.2)
  | newtype _ content => content.rows

/-- The entries of the document. -/
def entries (v : ConfigValue) : List (Text × EntryValue) :=
  v.rows.filterMap fun row => row.2.getLeft?.map fun x => (row.1, x)

/-- The sections of the document. -/
def sections (v : ConfigValue) : List (Text × SectionValue) :=
  v.rows.filterMap fun row => row.2.getRight?.map fun x => (row.1, x)

/-- What becomes of an entry or a section. -/
def planOf : EntryValue ⊕ SectionValue → FieldPlan :=
  Sum.elim (fun x => .entry x.plan) fun s => .table s.plans

/-- What becomes of the value as a document. -/
def plans : ConfigValue → List (Text × FieldPlan)
  | record _ fields _ => FieldValue.plans planOf (.entry .skip) fields
  | entryMap _ rows _ => rows.map fun row => (row.1, .entry row.2.plan)
  | sectionMap _ rows _ => rows.map fun row => (row.1, .table row.2.plans)
  | newtype _ content => content.plans

/-- What can be seen of the document. -/
def content (v : ConfigValue) : DocumentContent where
  global := ⟨[], v.entries.map fun row => row.2.content row.1⟩
  sections := v.sections.map fun row => ⟨row.1, row.2.entries⟩

end ConfigValue

/-! ## Names -/

/-- Keys that a line of the standard dialect can begin with, even the first of a text. -/
def Key.Fit (key : Text) : Prop := Key.Written .standard key ∧ key.head? ≠ some bom

instance Key.decidableFit (key : Text) : Decidable (Key.Fit key) := inferInstanceAs (Decidable (_ ∧ _))

/-- The keys of a section are distinct and can be written. -/
structure SectionValue.Written (s : SectionValue) : Prop where
  distinct : s.names.Nodup
  keys : ∀ row ∈ s.rows, Key.Fit row.1

/-- **The names in a config value** are distinct and can be written. -/
structure ConfigValue.Written (v : ConfigValue) : Prop where
  distinct : v.names.Nodup
  keys : ∀ row ∈ v.entries, Key.Fit row.1
  headers : ∀ row ∈ v.sections, Name.Written row.1
  sections : ∀ row ∈ v.sections, row.2.Written

instance SectionValue.decidableWritten (s : SectionValue) : Decidable s.Written :=
  decidable_of_iff (s.names.Nodup ∧ ∀ row ∈ s.rows, Key.Fit row.1)
    ⟨fun ⟨hdistinct, hkeys⟩ => ⟨hdistinct, hkeys⟩, fun h => ⟨h.distinct, h.keys⟩⟩

instance ConfigValue.decidableWritten (v : ConfigValue) : Decidable v.Written :=
  decidable_of_iff (v.names.Nodup ∧ (∀ row ∈ v.entries, Key.Fit row.1) ∧
      (∀ row ∈ v.sections, Name.Written row.1) ∧ ∀ row ∈ v.sections, row.2.Written)
    ⟨fun ⟨hdistinct, hkeys, hheaders, hsections⟩ => ⟨hdistinct, hkeys, hheaders, hsections⟩,
      fun h => ⟨h.distinct, h.keys, h.headers, h.sections⟩⟩

/-! ## Writing -/

theorem Except.mapM_eq_ok {ε α β : Type} {f : α → Except ε β} {g : α → β} {l : List α}
    (h : ∀ a ∈ l, f a = .ok (g a)) : l.mapM f = .ok (l.map g) := by
  induction l with
  | nil => rfl
  | cons a rest ih =>
    obtain ⟨ha, hrest⟩ := List.forall_mem_cons.mp h
    rw [List.mapM_cons, ha, ih hrest]
    rfl

namespace ScalarValue

theorem item_tree (x : ScalarValue) : x.typed.tree.item = .ok (some x.raw) := by
  induction x with
  | newtype name content ih => exact ih
  | _ => rfl

theorem entry_tree (x : ScalarValue) : x.typed.tree.entry = .ok (.scalar x.raw) := by
  induction x with
  | newtype name content ih => exact ih
  | _ => rfl

theorem field_tree (x : ScalarValue) : x.typed.tree.field = .ok (.entry (.scalar x.raw)) := by
  induction x with
  | newtype name content ih => exact ih
  | _ => rfl

theorem items_trees (items : List ScalarValue) :
    Tree.items ((items.map typed).map Typed.tree) = .ok (items.map raw) := by
  have hitems : ((items.map typed).map Typed.tree).mapM Tree.item =
      .ok (items.map fun x => some x.raw) := by
    rw [List.map_map, List.mapM_map]
    exact Except.mapM_eq_ok fun x _ => x.item_tree
  rw [Tree.items, hitems]
  show Except.ok ((items.map fun x => some x.raw).filterMap id) = _
  rw [List.filterMap_map, ← List.filterMap_eq_map]
  rfl

end ScalarValue

namespace EntryValue

theorem entry_list (shape : Shape) (items : List ScalarValue) :
    (Typed.list shape (items.map ScalarValue.typed)).tree.entry =
      .ok (.list (items.map ScalarValue.raw)) := by
  show (Tree.items _).map EntryPlan.list = _
  rw [ScalarValue.items_trees]
  rfl

theorem field_list (shape : Shape) (items : List ScalarValue) :
    (Typed.list shape (items.map ScalarValue.typed)).tree.field =
      .ok (.entry (.list (items.map ScalarValue.raw))) := by
  show (Tree.items _).map (fun values => FieldPlan.entry (.list values)) = _
  rw [ScalarValue.items_trees]
  rfl

/-- **An entry value is written** in a section. -/
theorem entry_tree (x : EntryValue) : x.typed.tree.entry = .ok x.plan := by
  induction x with
  | scalar x => exact x.entry_tree
  | newtype name content ih => exact ih
  | seq | tuple | tupleStruct => exact entry_list _ _

/-- **An entry value is written** before the sections. -/
theorem field_tree (x : EntryValue) : x.typed.tree.field = .ok (.entry x.plan) := by
  induction x with
  | scalar x => exact x.field_tree
  | newtype name content ih => exact ih
  | seq | tuple | tupleStruct => exact field_list _ _

/-- An entry has a value. -/
theorem values_ne_nil (x : EntryValue) : x.plan.values ≠ [] := by
  induction x with
  | scalar x => exact List.cons_ne_nil _ _
  | newtype name content ih => exact ih
  | seq _ _ hitems _ | tuple _ hitems | tupleStruct _ _ hitems => exact mt List.map_eq_nil_iff.mp hitems

end EntryValue

section Tables

variable {α β : Type} (value : Tree → Except Error β) (typed : α → Typed) (plan : α → β)

/-- The rows of a record are written if what is there is. -/
theorem FieldValue.recordRows_fields {skip : β} (habsent : value .absent = .ok skip)
    (hpresent : ∀ tree, value (.present tree) = value tree) {fields : List (Text × FieldValue α)}
    (hplan : ∀ row ∈ rows fields, value (typed row.2).tree = .ok (plan row.2)) :
    Tree.recordRows value ((fields.map fun row => row.2.field typed row.1).map fun f =>
      (f.name, f.content.tree)) = .ok (plans plan skip fields) := by
  have hrow : ∀ row ∈ fields, ∀ x, row.2.content? = some x → value (typed x).tree = .ok (plan x) := by
    intro row hrow x hx
    exact hplan (row.1, x) (List.mem_filterMap.mpr ⟨row, hrow, by rw [hx]; rfl⟩)
  rw [List.map_map, Tree.recordRows, List.mapM_map]
  refine Except.mapM_eq_ok fun row hmem => ?_
  have hthere := hrow row hmem
  obtain ⟨name, x⟩ := row
  cases x with
  | plain hasDefault x =>
    show (value (typed x).tree >>= fun made => pure (name, made)) = _
    rw [hthere x rfl]
    rfl
  | present hasDefault x =>
    show (value (.present (typed x).tree) >>= fun made => pure (name, made)) = _
    rw [hpresent, hthere x rfl]
    rfl
  | absent content =>
    show (value .absent >>= fun made => pure (name, made)) = _
    rw [habsent]
    rfl

/-- The rows of a map are written if its values are, under any key but the empty one. -/
theorem Typed.mapRows_map {rows : List (Text × α)} (hkeys : ∀ row ∈ rows, row.1 ≠ [])
    (hplan : ∀ row ∈ rows, value (typed row.2).tree = .ok (plan row.2)) :
    Tree.mapRows value ((rows.map fun row => (row.1, typed row.2)).map fun row =>
      (.text row.1, row.2.tree)) = .ok (rows.map fun row => (row.1, plan row.2)) := by
  rw [List.map_map, Tree.mapRows, List.mapM_map]
  refine Except.mapM_eq_ok fun row hrow => ?_
  have hvalue := hplan row hrow
  obtain ⟨key, x⟩ := row
  obtain ⟨c, rest, rfl⟩ := List.exists_cons_of_ne_nil (hkeys _ hrow)
  show (value (typed x).tree >>= fun made => pure (c :: rest, made)) = _
  rw [hvalue]
  rfl

end Tables

namespace SectionValue

variable {s : SectionValue}

theorem Written.key_ne_nil (h : s.Written) : ∀ row ∈ s.rows, row.1 ≠ [] :=
  fun row hrow => (h.keys row hrow).1.nonempty

/-- **A section value is written.** -/
theorem field_tree (hkeys : ∀ row ∈ s.rows, row.1 ≠ []) :
    s.typed.tree.field = .ok (.table s.plans) := by
  induction s with
  | record name fields denyUnknown =>
    show (Tree.recordRows Tree.entry _).map FieldPlan.table = _
    rw [FieldValue.recordRows_fields Tree.entry EntryValue.typed EntryValue.plan rfl (fun _ => rfl)
      fun row _ => row.2.entry_tree]
    rfl
  | map value rows alike =>
    show (Tree.mapRows Tree.entry _).map FieldPlan.table = _
    have hrows : ∀ row ∈ rows, row.1 ≠ [] := hkeys
    rw [Typed.mapRows_map Tree.entry EntryValue.typed EntryValue.plan hrows
      fun row _ => row.2.entry_tree]
    rfl
  | newtype name content ih => exact ih hkeys

end SectionValue

namespace ConfigValue

variable {v : ConfigValue}

theorem mem_entries {name : Text} {x : EntryValue} (h : (name, .inl x) ∈ v.rows) :
    (name, x) ∈ v.entries :=
  List.mem_filterMap.mpr ⟨_, h, rfl⟩

theorem mem_sections {name : Text} {s : SectionValue} (h : (name, .inr s) ∈ v.rows) :
    (name, s) ∈ v.sections :=
  List.mem_filterMap.mpr ⟨_, h, rfl⟩

theorem Written.of_newtype {name : Text} (h : (newtype name v).Written) : v.Written :=
  ⟨h.distinct, h.keys, h.headers, h.sections⟩

theorem Written.name_ne_nil (h : v.Written) : ∀ row ∈ v.rows, row.1 ≠ [] := by
  rintro ⟨name, x | s⟩ hrow
  · exact (h.keys _ (mem_entries hrow)).1.nonempty
  · exact (h.headers _ (mem_sections hrow)).nonempty

/-- Every entry and every section of the document is written. -/
theorem Written.field_tree (h : v.Written) :
    ∀ row ∈ v.rows, (typedOf row.2).tree.field = .ok (planOf row.2) := by
  rintro ⟨name, x | s⟩ hrow
  · exact x.field_tree
  · exact s.field_tree (h.sections _ (mem_sections hrow)).key_ne_nil

/-- **A config value is written.** -/
theorem root_tree (h : v.Written) : v.typed.tree.root = .ok v.plans := by
  induction v with
  | record name fields denyUnknown =>
    exact FieldValue.recordRows_fields Tree.field typedOf planOf rfl (fun _ => rfl) h.field_tree
  | entryMap value rows alike =>
    have hmem : ∀ row ∈ rows, (row.1, Sum.inl row.2) ∈ (entryMap value rows alike).rows :=
      fun row hrow => List.mem_map.mpr ⟨row, hrow, rfl⟩
    exact Typed.mapRows_map Tree.field EntryValue.typed (fun x => .entry x.plan)
      (fun row hrow => h.name_ne_nil _ (hmem row hrow)) fun row _ => row.2.field_tree
  | sectionMap value rows alike =>
    have hmem : ∀ row ∈ rows, (row.1, Sum.inr row.2) ∈ (sectionMap value rows alike).rows :=
      fun row hrow => List.mem_map.mpr ⟨row, hrow, rfl⟩
    exact Typed.mapRows_map Tree.field SectionValue.typed (fun s => .table s.plans)
      (fun row hrow => h.name_ne_nil _ (hmem row hrow)) fun row hrow => h.field_tree _ (hmem row hrow)
  | newtype name content ih => exact ih h.of_newtype

end ConfigValue

/-! ## The document -/

theorem FieldValue.map_fst_plans {α β : Type} (plan : α → β) (skip : β)
    (fields : List (Text × FieldValue α)) : (plans plan skip fields).map Prod.fst = fields.map Prod.fst := by
  rw [plans, List.map_map]
  rfl

/-- What is skipped leaves nothing behind. -/
theorem FieldValue.flatMap_plans {α β γ : Type} (plan : α → β) {skip : β} {t : Text → β → List γ}
    (hskip : ∀ name, t name skip = []) (fields : List (Text × FieldValue α)) :
    (plans plan skip fields).flatMap (fun row => t row.1 row.2) =
      (rows fields).flatMap fun row => t row.1 (plan row.2) := by
  rw [plans, rows, List.flatMap_map, List.filterMap_eq_flatMap_toList, List.flatMap_assoc]
  refine congrArg (fields.flatMap ·) (funext fun row => ?_)
  obtain ⟨name, x⟩ := row
  cases x with
  | plain | present => simp [content?]
  | absent => simp [content?, hskip]

/-- Entry values leave one entry each. -/
theorem EntryValue.flatMap_entries (rows : List (Text × EntryValue)) :
    (rows.flatMap fun row => row.2.plan.entries row.1) =
      rows.map fun row => ⟨row.2.content row.1, []⟩ := by
  have hentry : ∀ row : Text × EntryValue,
      row.2.plan.entries row.1 = [⟨row.2.content row.1, []⟩] := fun row => if_neg row.2.values_ne_nil
  rw [List.map_eq_flatMap]
  exact congrArg (rows.flatMap ·) (funext hentry)

theorem FieldValue.forall_plans {α β : Type} {plan : α → β} {skip : β} {P : Text → β → Prop}
    (hskip : ∀ name, P name skip) {fields : List (Text × FieldValue α)}
    (h : ∀ row ∈ rows fields, P row.1 (plan row.2)) : ∀ row ∈ plans plan skip fields, P row.1 row.2 := by
  intro made hmade
  obtain ⟨row, hrow, rfl⟩ := List.mem_map.mp hmade
  cases hx : row.2.content? with
  | none => exact hskip row.1
  | some x => exact h (row.1, x) (List.mem_filterMap.mpr ⟨row, hrow, by rw [hx]; rfl⟩)

namespace SectionValue

theorem map_fst_plans (s : SectionValue) : s.plans.map Prod.fst = s.names := by
  induction s with
  | record name fields denyUnknown => exact FieldValue.map_fst_plans _ _ fields
  | map value rows alike => exact List.map_map
  | newtype name content ih => exact ih

/-- The entries of a section, as its plans leave them. -/
theorem flatMap_plans (s : SectionValue) :
    (s.plans.flatMap fun row => row.2.entries row.1) =
      s.rows.map fun row => ⟨row.2.content row.1, []⟩ := by
  induction s with
  | record name fields denyUnknown =>
    exact (FieldValue.flatMap_plans _ (fun _ => rfl) fields).trans (EntryValue.flatMap_entries _)
  | map value rows alike => exact (List.flatMap_map ..).trans (EntryValue.flatMap_entries rows)
  | newtype name content ih => exact ih

end SectionValue

namespace ConfigValue

variable {v : ConfigValue}

theorem map_fst_plans (v : ConfigValue) : v.plans.map Prod.fst = v.names := by
  induction v with
  | record name fields denyUnknown => exact FieldValue.map_fst_plans _ _ fields
  | entryMap value rows alike => exact List.map_map
  | sectionMap value rows alike => exact List.map_map
  | newtype name content ih => exact ih

/-- The plans are those of the entries and the sections, and some that leave nothing behind. -/
theorem flatMap_plans {β : Type} {t : Text → FieldPlan → List β} (hskip : ∀ name, t name (.entry .skip) = [])
    (v : ConfigValue) :
    (v.plans.flatMap fun row => t row.1 row.2) = v.rows.flatMap fun row => t row.1 (planOf row.2) := by
  induction v with
  | record name fields denyUnknown => exact FieldValue.flatMap_plans planOf hskip fields
  | entryMap value rows alike | sectionMap value rows alike =>
    rw [plans, ConfigValue.rows, List.flatMap_map, List.flatMap_map]
    rfl
  | newtype name content ih => exact ih

theorem flatMap_plans_entries (v : ConfigValue) :
    (v.plans.flatMap fun row => row.2.entries row.1) =
      v.entries.map fun row => ⟨row.2.content row.1, []⟩ := by
  rw [flatMap_plans (fun _ => rfl), ← EntryValue.flatMap_entries, entries,
    List.filterMap_eq_flatMap_toList, List.flatMap_assoc]
  refine congrArg (v.rows.flatMap ·) (funext fun row => ?_)
  obtain ⟨name, x | s⟩ := row
  · exact (List.append_nil _).symm
  · rfl

theorem flatMap_plans_sections (v : ConfigValue) :
    (v.plans.flatMap fun row => row.2.sections row.1) =
      v.sections.map fun row => ⟨row.1, none, row.2.rows.map fun r => ⟨r.2.content r.1, []⟩⟩ := by
  rw [flatMap_plans (fun _ => rfl), sections, List.filterMap_eq_flatMap_toList, List.map_flatMap]
  refine congrArg (v.rows.flatMap ·) (funext fun row => ?_)
  obtain ⟨name, x | s⟩ := row
  · rfl
  · show [_] = [_]
    rw [s.flatMap_plans]

theorem forall_plans {P : Text → FieldPlan → Prop} (hskip : ∀ name, P name (.entry .skip))
    (h : ∀ row ∈ v.rows, P row.1 (planOf row.2)) : ∀ row ∈ v.plans, P row.1 row.2 := by
  induction v with
  | record name fields denyUnknown => exact FieldValue.forall_plans hskip h
  | entryMap value rows alike | sectionMap value rows alike =>
    intro made hmade
    obtain ⟨row, hrow, rfl⟩ := List.mem_map.mp hmade
    exact h _ (List.mem_map_of_mem hrow)
  | newtype name content ih => exact ih h

/-- Every section has a name, and distinct keys. -/
theorem Written.placed (h : v.Written) : ∀ row ∈ v.plans, row.2.Placed .standard row.1 := by
  refine forall_plans (fun _ => trivial) ?_
  rintro ⟨name, x | s⟩ hrow
  · trivial
  · have hdistinct := (h.sections _ (mem_sections hrow)).distinct
    rw [← s.map_fst_plans] at hdistinct
    exact ⟨h.name_ne_nil _ hrow, hdistinct⟩

/-- **The document of a config value** shows its entries and its sections. -/
theorem content_of_toDocument (h : v.Written) {doc : Document} (hdoc : v.typed.tree.toDocument = .ok doc) :
    doc.content = v.content := by
  obtain ⟨fields, hroot, hsound, hsheet, -⟩ := Tree.becomes_of_toDocument hdoc
  obtain rfl : v.plans = fields := Except.ok.inj ((root_tree h).symm.trans hroot)
  have hnames : (v.plans.map Prod.fst).Nodup := by
    rw [map_fst_plans]
    exact h.distinct
  -- the standard dialect compares names as they are
  rw [← hsound.content_eq, hsheet,
    Sheet.ofFields_of_distinct (d := .standard) hnames hnames h.placed, Sheet.content,
    flatMap_plans_entries, flatMap_plans_sections, content, List.map_map, List.map_map]
  simp [Function.comp_def, SectionValue.entries]

end ConfigValue
end IniFile
