/-
  Typed writing.

  A tree becomes a document in one descent, and each depth admits less than the one above:

  1. the ROOT is a record or a map of fields;
  2. a FIELD is nothing, a scalar, a list of scalars, or a table of entries;
  3. an ENTRY of such a table is nothing, a scalar, or a list of scalars;
  4. an ITEM of a list is nothing or a scalar; the keys of maps are items, too.

  Optional and wrapped values count as what they contain.  The first fault met in this descent, from
  left to right, is the error.  Absent fields and empty lists leave no key behind.

  Mathlib-free.
-/
import IniFile.Document.Page
import IniFile.Typed.Tree

namespace IniFile

/-! ## What a tree is good for -/

/-- What becomes of an entry of a section. -/
inductive EntryPlan where
  | skip
  | scalar (value : Text)
  | list (values : List Text)
deriving DecidableEq, Repr

/-- What becomes of a field of the root. -/
inductive FieldPlan where
  | entry (plan : EntryPlan)
  | table (entries : List (Text × EntryPlan))
deriving DecidableEq, Repr

namespace Tree

/-- A fault met in the descent. -/
def refuse {α : Type} (fault : WriteFault) : Except Error α := .error (.writing fault)

/-! ## Items -/

/-- The text of an item; nothing if it is absent. -/
def item : Tree → Except Error (Option Text)
  | .absent => .ok none
  | .present content => content.item
  | .newtype content => content.item
  | .bytes => refuse .byteArray
  | .variantWithData name => refuse (.variantWithData name)
  | .seq _ => refuse .listOfLists
  | .map _ => refuse .tooDeep
  | .valueOnly _ => refuse .tooDeep
  | .record _ => refuse .tooDeep
  | scalar => .ok scalar.scalarText?

/-- The texts of the items of a list, without the absent ones. -/
def items (trees : List Tree) : Except Error (List Text) :=
  (trees.mapM item).map fun texts => texts.filterMap id

/-- The name that the key of a map stands for. -/
def keyText (key : Tree) : Except Error Text := do
  match ← key.item with
  | some (c :: rest) => .ok (c :: rest)
  | _ => refuse .unusableKey

/-! ## Entries -/

/-- What becomes of an entry of a section. -/
def entry : Tree → Except Error EntryPlan
  | .absent => .ok .skip
  | .present content => content.entry
  | .newtype content => content.entry
  | .bytes => refuse .byteArray
  | .variantWithData name => refuse (.variantWithData name)
  | .seq trees => (items trees).map .list
  | .map _ => refuse .tooDeep
  | .valueOnly _ => refuse .tooDeep
  | .record _ => refuse .tooDeep
  | scalar => .ok (.scalar (scalar.scalarText?.getD []))

/-! ## Tables -/

/-- The rows of a map, each key before its value. -/
def mapRows {α : Type} (value : Tree → Except Error α) (entries : List (Tree × Tree)) :
    Except Error (List (Text × α)) :=
  entries.mapM fun row => do
    let name ← row.1.keyText
    return (name, ← value row.2)

/-- The rows of a record. -/
def recordRows {α : Type} (value : Tree → Except Error α) (fields : List (Text × Tree)) :
    Except Error (List (Text × α)) :=
  fields.mapM fun row => do
    return (row.1, ← value row.2)

/-! ## Fields -/

/-- What becomes of a field of the root. -/
def field : Tree → Except Error FieldPlan
  | .absent => .ok (.entry .skip)
  | .present content => content.field
  | .newtype content => content.field
  | .bytes => refuse .byteArray
  | .variantWithData name => refuse (.variantWithData name)
  | .seq trees => (items trees).map fun values => .entry (.list values)
  | .map entries => (mapRows entry entries).map .table
  | .valueOnly _ => refuse .valueWithoutKey
  | .record fields => (recordRows entry fields).map .table
  | scalar => .ok (.entry (.scalar (scalar.scalarText?.getD [])))

/-! ## The root -/

/-- The fields of the root. -/
def root : Tree → Except Error (List (Text × FieldPlan))
  | .present content => content.root
  | .newtype content => content.root
  | .bytes => refuse .byteArray
  | .variantWithData name => refuse (.variantWithData name)
  | .map entries => mapRows field entries
  | .valueOnly _ => refuse .valueWithoutKey
  | .record fields => recordRows field fields
  | _ => refuse .notATable

end Tree

/-! ## Documents -/

/-- Puts an entry into a section as planned. -/
def Section.put (s : Section) (key : Text) : EntryPlan → Section
  | .skip => s
  | .scalar value => s.set key value
  | .list values => values.foldl (fun s value => s.append key value) s

/-- Puts a field into a document as planned. -/
def Document.putField (doc : Document) (name : Text) : FieldPlan → Document
  | .entry plan => doc.modifySection [] (·.put name plan)
  | .table entries =>
    doc.upsertSection name fun s => entries.foldl (fun s row => s.put row.1 row.2) s

/-- The document of a tree, in the standard dialect. -/
def Tree.toDocument (tree : Tree) : Except Error Document :=
  tree.root.map fun fields =>
    fields.foldl (fun doc row => doc.putField row.1 row.2) (.empty .standard)

/-- The canonical text of a tree. -/
def Tree.toText (tree : Tree) : Except Error Text :=
  tree.toDocument.map fun doc => doc.render { style := .canonical }

end IniFile
