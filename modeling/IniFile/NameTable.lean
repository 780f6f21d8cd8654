/-
  Name tables.

  A table keeps values under names in the order in which the names FIRST came.  When case does not
  count, names are compared by their lowercase form, which is then what the table stores; how a name
  was spelled is the value's own affair.

  No name occurs twice: that is part of the type, and every operation below keeps it.

  Mathlib-free.
-/
import IniFile.Text.Lowercase

namespace IniFile

/-- Values under distinct names, in order of first insertion. -/
structure NameTable (α : Type) where
  caseSensitive : Bool
  rows : List (Text × α)
  distinct : (rows.map Prod.fst).Nodup

namespace NameTable

variable {α : Type}

/-- The table without names. -/
def empty (caseSensitive : Bool) : NameTable α := ⟨caseSensitive, [], .nil⟩

/-- The form under which a name is stored and sought. -/
def fold (t : NameTable α) (name : Text) : Text :=
  if t.caseSensitive then name else name.lowercase

/-! ## Look-up -/

/-- The value under a name. -/
def get? (t : NameTable α) (name : Text) : Option α :=
  (t.rows.find? fun row => row.1 == t.fold name).map Prod.snd

/-- Is there a value under the name? -/
def contains (t : NameTable α) (name : Text) : Bool :=
  t.rows.any fun row => row.1 == t.fold name

/-- The values in order. -/
def values (t : NameTable α) : List α := t.rows.map Prod.snd

/-- The number of names. -/
def size (t : NameTable α) : Nat := t.rows.length

/-- Is the table without names? -/
def isEmpty (t : NameTable α) : Bool := t.rows.isEmpty

/-- A name that is not contained is not among the stored ones. -/
theorem fold_not_mem {t : NameTable α} {name : Text} (h : ¬ t.contains name = true) :
    t.fold name ∉ t.rows.map Prod.fst := by
  intro hmem
  obtain ⟨row, hrow, heq⟩ := List.mem_map.mp hmem
  exact h (List.any_eq_true.mpr ⟨row, hrow, beq_iff_eq.mpr heq⟩)

/-! ## Change -/

/-- Every value changed in its place. -/
def mapValues (f : α → α) (t : NameTable α) : NameTable α :=
  { t with
    rows := t.rows.map fun row => (row.1, f row.2)
    distinct := by simpa only [List.map_map, Function.comp_def] using t.distinct }

/-- The value under a name changed in its place; a name that is not there changes nothing. -/
def modify (t : NameTable α) (name : Text) (f : α → α) : NameTable α :=
  { t with
    rows := t.rows.map fun row => (row.1, if row.1 == t.fold name then f row.2 else row.2)
    distinct := by simpa only [List.map_map, Function.comp_def] using t.distinct }

/-- Changes the value under a name in its place, or puts `fresh` at the end when there is none. -/
def upsert (t : NameTable α) (name : Text) (change : α → α) (fresh : α) : NameTable α :=
  if h : t.contains name = true then t.modify name change
  else
    { t with
      rows := t.rows ++ [(t.fold name, fresh)]
      distinct := by
        rw [List.map_append]
        exact List.nodup_append.mpr ⟨t.distinct, List.pairwise_singleton _ _, by
          intro a ha b hb hab
          rw [hab, List.mem_singleton.mp hb] at ha
          exact fold_not_mem h ha⟩ }

/-- Puts a value under a name, in the place of the former one if there is one. -/
def insert (t : NameTable α) (name : Text) (value : α) : NameTable α :=
  t.upsert name (fun _ => value) value

/-- Puts a value under a name only if there is none. -/
def insertIfNew (t : NameTable α) (name : Text) (value : α) : NameTable α :=
  t.upsert name id value

/-- The table without a name; the rest keeps its order. -/
def erase (t : NameTable α) (name : Text) : NameTable α :=
  { t with
    rows := t.rows.filter fun row => row.1 != t.fold name
    distinct := t.distinct.sublist (List.filter_sublist.map Prod.fst) }

/-- The table with every name removed. -/
def clear (t : NameTable α) : NameTable α := empty t.caseSensitive

end NameTable
end IniFile
