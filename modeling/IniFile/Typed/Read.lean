/-
  Typed reading.

  A shape denotes a reader: a function from a part of a document — the whole, a section, the values
  of an entry, or a name — to data or an error.  `Shape.reader` builds it by recursion on the shape,
  from one combinator for each kind of shape; the combinators themselves are plain functions.

  - A document and a section are TABLES to every request; an optional or wrapped request looks
    through to its content.
  - The values of an entry are a sequence to whoever asks for one.  Any other request sees the last
    value.
  - A name is text to every request.

  Mathlib-free.
-/
import IniFile.Document.Basic
import IniFile.Text.Utf8
import IniFile.Typed.Shape

namespace IniFile

/-! ## Parts of a document -/

/-- A part of a document that a request is put to. -/
inductive Source where
  | key (name : Text)
  | value (earlier : List Text) (last : Text)
  | table (entries : List Entry)
  | whole (doc : Document)

namespace Source

/-- The values of an entry. -/
def ofEntry (e : Entry) : Source := .value e.earlier e.value

/-- The rows of a table: the entries of a section under their keys, or the global entries of a
    document and then its sections under their names. -/
def rows? : Source → Option (List (Text × Source))
  | .table entries => some (entries.map fun e => (e.key, ofEntry e))
  | .whole doc =>
    some (doc.global.entries.values.map (fun e => (e.key, ofEntry e)) ++
      doc.sections.values.map fun s => (s.name, .table s.entries.values))
  | _ => none

/-- What a message says was found, where a table or a name was not asked for. -/
def found : Source → Found
  | .key name => .text name
  | .value _ last => .text last
  | .table _ => .table
  | .whole _ => .table

end Source

/-- What a shape denotes. -/
abbrev SourceReader := Source → Except Error Reading

/-- The refusal of a part that is not what was expected. -/
def refuse (expected : Text) (source : Source) : Except Error Reading :=
  .error (.reading (.unexpected source.found expected))

/-! ## Scalars -/

/-- A value of a kind.  A name of one character will do where a character is asked for. -/
def readKind (words : Literals) (kind : Kind) (expected : Text) : SourceReader
  | .value _ last => (kind.read words last).map .datum
  | .key name =>
    match kind, name with
    | .char, [c] => .ok (.datum (.char c))
    | .char, _ => .error (.reading (.unsuitable (.text name) expected))
    | _, _ => refuse expected (.key name)
  | source => refuse expected source

/-- A text, from a value or a name. -/
def readText (build : Text → Reading) (expected : Text) : SourceReader
  | .value _ last => .ok (build last)
  | .key name => .ok (build name)
  | source => refuse expected source

/-- The bytes of a value. -/
def readBytes (expected : Text) : SourceReader
  | .value _ last => .ok (.bytes (Utf8.encode last))
  | source => refuse expected source

/-- Nothing: the value must be empty. -/
def readUnit (result : Reading) (expected : Text) : SourceReader
  | .value _ last => if last.isEmpty then .ok result else .error (.reading (.notEmpty last))
  | source => refuse expected source

/-- The variant of a name; only a variant without data can be picked by its name alone. -/
def pickVariant (variants : List (Text × VariantForm)) (name : Text) : Except Error Reading :=
  match variants.find? fun variant => variant.1 == name with
  | none => .error (.reading (.unknownVariant name (variants.map Prod.fst)))
  | some (_, .unit) => .ok (.variant name)
  | some (_, form) => .error (.reading (.unexpected .unitVariant form.message))

/-- A variant that a value or a name picks out. -/
def readChoice (variants : List (Text × VariantForm)) (expected : Text) : SourceReader
  | .value _ last => pickVariant variants last
  | .key name => pickVariant variants name
  | source => refuse expected source

/-! ## Data that describes itself -/

/-- The values of an entry: one scalar, or a sequence of them. -/
def openValue (e : Entry) : Reading :=
  if e.isMultiValued then .openSeq (e.values.map fun value => .scalar (.infer value))
  else .scalar e.scalar

/-- The entries of a section. -/
def openTable (entries : List Entry) : List (Text × Reading) :=
  entries.map fun e => (e.key, openValue e)

/-- Whatever there is. -/
def readAny : Source → Reading
  | .key name => .scalar (.text name)
  | .value [] last => .scalar (.infer last)
  | .value earlier last =>
    .openSeq ((earlier ++ [last]).map fun value => .scalar (.infer value))
  | .table entries => .openMap (openTable entries)
  | .whole doc =>
    .openMap (openTable doc.global.entries.values ++
      doc.sections.values.map fun s => (s.name, .openMap (openTable s.entries.values)))

/-! ## Compound data -/

/-- Looks through to the content, except at a name. -/
def readThrough (build : Reading → Reading) (expected : Text) (content : SourceReader) :
    SourceReader
  | .key name => refuse expected (.key name)
  | source => (content source).map build

/-- Every value of an entry. -/
def readSeq (expected : Text) (item : SourceReader) : SourceReader
  | .value earlier last =>
    ((earlier ++ [last]).mapM fun value => item (.value [] value)).map .list
  | source => refuse expected source

/-- One value for each reader; `index` values have been read before. -/
def readItems (expected : Text) (index : Nat) :
    List SourceReader → List Text → Except Error (List Reading)
  | [], _ => .ok []
  | _ :: _, [] => .error (.reading (.tooFew index expected))
  | item :: items, value :: values => do
    let x ← item (.value [] value)
    return x :: (← readItems expected (index + 1) items values)

/-- The first values of an entry, as many as there are readers. -/
def readTuple (expected : Text) (items : List SourceReader) : SourceReader
  | .value earlier last => (readItems expected 0 items (earlier ++ [last])).map .list
  | source => refuse expected source

/-- What is read from the rows of a table.  The values of an entry hold no rows. -/
def readRows (expected : Text) (read : List (Text × Source) → Except Error Reading) : SourceReader
  | .value _ _ => .error (.reading .nestedTable)
  | source =>
    match source.rows? with
    | some rows => read rows
    | none => refuse expected source

/-- The rows of a map in document order, repeated names kept. -/
def readPairs (key value : SourceReader) (rows : List (Text × Source)) : Except Error Reading := do
  let pairs ← rows.mapM fun row => do
    let k ← key (.key row.1)
    let v ← value row.2
    return (k, v)
  return .pairs pairs

/-! ## Records -/

/-- A field and how to read it; `ifMissing` stands in for it when there is no such row. -/
structure FieldReader where
  name : Text
  read : SourceReader
  ifMissing : Option Reading

/-- The readings of the fields that have a row, in the order of the rows; `found` are the earlier
    ones.  A second row for a field is refused before it is read. -/
def fillFields (fields : List FieldReader) (denyUnknown : Bool) (found : List (Text × Reading)) :
    List (Text × Source) → Except Error (List (Text × Reading))
  | [] => .ok found
  | (name, source) :: rest =>
    match fields.find? fun field => field.name == name with
    | none =>
      if denyUnknown then .error (.reading (.unknownField name (fields.map FieldReader.name)))
      else fillFields fields denyUnknown found rest
    | some field =>
      if found.any fun row => row.1 == name then .error (.reading (.duplicateField name))
      else do
        let x ← field.read source
        fillFields fields denyUnknown (found ++ [(name, x)]) rest

/-- The reading of a field among those found, or what stands in for it. -/
def completeField (found : List (Text × Reading)) (field : FieldReader) :
    Except Error (Text × Reading) :=
  match (found.find? fun row => row.1 == field.name).map Prod.snd, field.ifMissing with
  | some x, _ => .ok (field.name, x)
  | none, some x => .ok (field.name, x)
  | none, none => .error (.reading (.missingField field.name))

/-- A record, with its fields in declared order. -/
def readFields (fields : List FieldReader) (denyUnknown : Bool) (rows : List (Text × Source)) :
    Except Error Reading := do
  let found ← fillFields fields denyUnknown [] rows
  return .record (← fields.mapM (completeField found))

/-! ## Shapes as readers -/

mutual

/-- The reader that a shape denotes. -/
def Shape.reader (words : Literals) : Shape → SourceReader
  | .bool => readKind words .bool (Shape.message .bool)
  | .integer width => readKind words (.integer width) (Shape.message (.integer width))
  | .single => readKind words .single (Shape.message .single)
  | .double => readKind words .double (Shape.message .double)
  | .char => readKind words .char (Shape.message .char)
  | .text => readText .text (Shape.message .text)
  | .borrowedText => readText .text (Shape.message .borrowedText)
  | .bytes => readBytes (Shape.message .bytes)
  | .unit => readUnit .unit (Shape.message .unit)
  | .unitStruct name => readUnit .unitStruct (Shape.message (.unitStruct name))
  | .ignored => fun _ => .ok .ignored
  | .identifier => readText .identifier (Shape.message .identifier)
  | .any => fun source => .ok (readAny source)
  | .option content =>
    readThrough .present (Shape.message (.option content)) (content.reader words)
  | .newtype name content =>
    readThrough .newtype (Shape.message (.newtype name content)) (content.reader words)
  | .seq item => readSeq (Shape.message (.seq item)) (item.reader words)
  | .tuple items => readTuple (Shape.message (.tuple items)) (Shape.itemReaders words items)
  | .tupleStruct name items =>
    readTuple (Shape.message (.tupleStruct name items)) (Shape.itemReaders words items)
  | .map key value =>
    readRows (Shape.message (.map key value)) (readPairs (key.reader words) (value.reader words))
  | .valueFirst value =>
    readRows (Shape.message (.valueFirst value)) fun _ => .error (.reading .valueBeforeKey)
  | .record name fields denyUnknown =>
    readRows (Shape.message (.record name fields denyUnknown))
      (readFields (Shape.fieldReaders words fields) denyUnknown)
  | .choice name variants => readChoice variants (Shape.message (.choice name variants))

/-- The readers of the elements of a tuple. -/
def Shape.itemReaders (words : Literals) : List Shape → List SourceReader
  | [] => []
  | item :: items => item.reader words :: Shape.itemReaders words items

/-- The readers of the fields of a record. -/
def Shape.fieldReaders (words : Literals) : List (Field Shape) → List FieldReader
  | [] => []
  | ⟨name, content, hasDefault⟩ :: fields =>
    { name := name
      read := content.reader words
      ifMissing :=
        if hasDefault then some .defaulted else if content.isOption then some .absent else none } ::
      Shape.fieldReaders words fields

end

/-- The data of a shape that a document holds. -/
def Document.readShape (doc : Document) (shape : Shape) : Except Error Reading :=
  shape.reader doc.dialect.literals (.whole doc)

end IniFile
