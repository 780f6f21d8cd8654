/-
  Config values are read back from their text.

  Writing a config value, reading the text as a document, and asking the document for a value of the
  same type gives the value back.  That is for the most part a matter of readers: they look at a part
  of a document, and all that they see of it are names and values.

  1. **Parts** — what a reader sees: values, or rows of parts.  `Typed.Reads` says that whatever shows
     a part is read as the value.
  2. **Scalars and lists** — each text is read as the value that it is of.
  3. **Records** — rows are found by their names, so their order does not matter.
  4. **Maps** — are read row by row.
  5. **Sections and documents** — every value is read from what can be seen of it.
  6. **The round trip** — and what can be seen of it survives being written and parsed.
-/
import IniFile.Proofs.ConfigValues
import IniFile.Proofs.Floats
import IniFile.Proofs.TreeText

namespace IniFile

/-! ## Parts -/

/-- What a reader sees. -/
inductive Part where
  | values (values : List Text)
  | rows (rows : List (Text × Part))

/-- What a reader sees of a table of entries. -/
def Part.ofEntries (es : List EntryContent) : Part := .rows (es.map fun e => (e.key, .values e.values))

/-- What a reader sees of a document: its entries, and then its sections. -/
def DocumentContent.part (content : DocumentContent) : Part :=
  .rows (content.global.entries.map (fun e => (e.key, .values e.values)) ++
    content.sections.map fun s => (s.name, .ofEntries s.entries))

/-- What a reader sees of anything but a name. -/
def Source.part? : Source → Option Part
  | .key _ => none
  | .value earlier last => some (.values (earlier ++ [last]))
  | .table entries => some (.ofEntries (entries.map Entry.content))
  | .whole doc => some doc.content.part

/-- **Whatever shows the part is read as the value.** -/
def Typed.Reads (x : Typed) (part : Part) : Prop :=
  ∀ source : Source, source.part? = some part → x.shape.reader .standard source = .ok x.reading

section Through

variable {build : Reading → Reading} {expected : Text} {content : SourceReader} {source : Source}
  {part : Part} {x : Reading}

theorem readThrough_of_part (hpart : source.part? = some part) (h : content source = .ok x) :
    readThrough build expected content source = .ok (build x) := by
  cases source with
  | key name => exact absurd hpart nofun
  | value | table | whole => exact congrArg (Except.map build) h

end Through

namespace Typed.Reads

variable {x : Typed} {part : Part}

theorem wrap (h : x.Reads part) (name : Text) : (x.wrap name).Reads part :=
  fun source hpart => readThrough_of_part hpart (h source hpart)

theorem optional (h : x.Reads part) : x.optional.Reads part :=
  fun source hpart => readThrough_of_part hpart (h source hpart)

end Typed.Reads

/-! ## Scalars and lists -/

theorem Source.of_part?_eq_values {source : Source} {values : List Text}
    (h : source.part? = some (.values values)) :
    ∃ earlier last, source = .value earlier last ∧ earlier ++ [last] = values := by
  cases source with
  | key | table | whole => exact absurd h nofun
  | value earlier last => exact ⟨earlier, last, rfl, Part.values.inj (Option.some.inj h)⟩

namespace ScalarValue

/-- **The text of a scalar** is read as that scalar. -/
theorem reader_raw (x : ScalarValue) :
    x.typed.shape.reader .standard (.value [] x.raw) = .ok x.typed.reading := by
  induction x with
  | bool b =>
    cases b <;> rfl
  | integer width n fits =>
    show ((expecting _ _ (width.read (integerText n))).map Datum.integer).map Reading.datum = _
    rw [Width.read_integerText fits]
    rfl
  | single negative x =>
    show ((readSingle (Binary.fractionText (.finite negative x))).map Datum.single).map Reading.datum = _
    rw [readSingle, Numeral.read_fractionText Format.ample_single]
    rfl
  | double negative x =>
    show ((readDouble (Binary.fractionText (.finite negative x))).map Datum.double).map Reading.datum = _
    rw [readDouble, Numeral.read_fractionText Format.ample_double]
    rfl
  | variant name variants picked distinct known =>
    show pickVariant variants picked = _
    rw [pickVariant, Roster.find?_eq_some_of_mem distinct known]
    rfl
  | newtype name content ih => exact congrArg (Except.map Reading.newtype) ih
  | _ => rfl

theorem reads (x : ScalarValue) : x.typed.Reads (.values [x.raw]) := by
  intro source hpart
  obtain ⟨earlier, last, rfl, hvalues⟩ := Source.of_part?_eq_values hpart
  have hone : earlier ++ [last] = [] ++ [x.raw] := hvalues
  obtain ⟨rfl, hlast⟩ := List.append_inj' hone rfl
  rw [(List.cons.inj hlast).1]
  exact x.reader_raw

/-- A list of values, each of them of a scalar. -/
theorem readItems_raws (expected : Text) (index : Nat) (items : List ScalarValue) :
    readItems expected index (Shape.itemReaders .standard (items.map fun x => x.typed.shape))
      (items.map raw) = .ok (items.map fun x => x.typed.reading) := by
  induction items generalizing index with
  | nil => rfl
  | cons x rest ih =>
    show (x.typed.shape.reader .standard (.value [] x.raw) >>= fun first =>
      readItems expected (index + 1) _ (rest.map raw) >>= fun more => pure (first :: more)) = _
    rw [x.reader_raw, ih]
    rfl

theorem readTuple_raws {expected : Text} {items : List ScalarValue} {earlier : List Text} {last : Text}
    (h : earlier ++ [last] = items.map raw) :
    readTuple expected (Shape.itemReaders .standard (items.map fun x => x.typed.shape))
      (.value earlier last) = .ok (.list ((items.map typed).map Typed.reading)) := by
  show (readItems expected 0 _ (earlier ++ [last])).map Reading.list = _
  rw [h, readItems_raws, List.map_map]
  rfl

theorem readSeq_raws {expected : Text} {item : Shape} {items : List ScalarValue}
    (alike : ∀ x ∈ items, x.typed.shape = item) {earlier : List Text} {last : Text}
    (h : earlier ++ [last] = items.map raw) :
    readSeq expected (item.reader .standard) (.value earlier last) =
      .ok (.list ((items.map typed).map Typed.reading)) := by
  show ((earlier ++ [last]).mapM fun value => item.reader .standard (.value [] value)).map
    Reading.list = _
  have hitems : (items.map raw).mapM (fun value => item.reader .standard (.value [] value)) =
      .ok (items.map fun x => x.typed.reading) := by
    rw [List.mapM_map]
    refine Except.mapM_eq_ok fun x hx => ?_
    rw [← alike x hx]
    exact x.reader_raw
  rw [h, hitems, List.map_map]
  rfl

end ScalarValue

/-- What a reader sees of an entry value. -/
def EntryValue.part (x : EntryValue) : Part := .values x.plan.values

/-- **An entry value is read** from its values. -/
theorem EntryValue.reads (x : EntryValue) : x.typed.Reads x.part := by
  induction x with
  | scalar x => exact x.reads
  | newtype name content ih => exact ih.wrap name
  | seq item items nonempty alike =>
    intro source hpart
    obtain ⟨earlier, last, rfl, hvalues⟩ := Source.of_part?_eq_values hpart
    exact ScalarValue.readSeq_raws alike hvalues
  | tuple items nonempty | tupleStruct name items nonempty =>
    intro source hpart
    obtain ⟨earlier, last, rfl, hvalues⟩ := Source.of_part?_eq_values hpart
    exact ScalarValue.readTuple_raws hvalues

/-! ## Records -/

/-- The rows of a table show rows of parts. -/
theorem Source.of_part?_eq_rows {source : Source} {parts : List (Text × Part)}
    (h : source.part? = some (.rows parts)) :
    ∃ rows, source.rows? = some rows ∧
      (rows.map fun row => (row.1, row.2.part?)) = parts.map fun p => (p.1, some p.2) := by
  cases source with
  | key | value => exact absurd h nofun
  | table entries =>
    refine ⟨_, rfl, ?_⟩
    rw [← Part.rows.inj (Option.some.inj h)]
    simp [Source.part?, Source.ofEntry, Entry.content, Entry.values, Function.comp_def]
  | whole doc =>
    refine ⟨_, rfl, ?_⟩
    rw [← Part.rows.inj (Option.some.inj h)]
    simp [Source.part?, Source.ofEntry, Entry.content, Entry.values, Function.comp_def,
      Document.content, Section.content]

theorem readRows_of_rows? {expected : Text} {read : List (Text × Source) → Except Error Reading}
    {source : Source} {rows : List (Text × Source)} (h : source.rows? = some rows) :
    readRows expected read source = read rows := by
  cases source with
  | key | value => exact absurd h nofun
  | table | whole =>
    obtain rfl := Option.some.inj h
    rfl

/-- A field of a record as it is read. -/
def Field.reader (f : Field Typed) : FieldReader where
  name := f.name
  read := f.content.shape.reader .standard
  ifMissing :=
    if f.hasDefault then some .defaulted else if f.content.shape.isOption then some .absent else none

theorem Shape.fieldReaders_eq (fields : List (Field Typed)) :
    Shape.fieldReaders .standard (fields.map fun f => ⟨f.name, f.content.shape, f.hasDefault⟩) =
      fields.map Field.reader := by
  induction fields with
  | nil => rfl
  | cons f rest ih => rw [List.map_cons, Shape.fieldReaders, ih]; rfl

section Records

variable {fields : List (Field Typed)} {rows : List (Text × Source)}

/-- **Every row goes to its field**, whatever the order of the rows. -/
theorem fillFields_eq_ok (hnames : (fields.map Field.name).Nodup) (denyUnknown : Bool)
    (hread : ∀ row ∈ rows, ∃ f ∈ fields, f.name = row.1 ∧ f.reader.read row.2 = .ok f.content.reading)
    {found : List (Text × Reading)} (hdistinct : (found.map Prod.fst ++ rows.map Prod.fst).Nodup) :
    ∃ more, fillFields (fields.map Field.reader) denyUnknown found rows = .ok (found ++ more) ∧
      more.map Prod.fst = rows.map Prod.fst ∧
      ∀ row ∈ more, ∃ f ∈ fields, f.name = row.1 ∧ f.content.reading = row.2 := by
  induction rows generalizing found with
  | nil => exact ⟨[], by rw [List.append_nil]; rfl, rfl, fun _ h => absurd h List.not_mem_nil⟩
  | cons row rest ih =>
    obtain ⟨name, source⟩ := row
    obtain ⟨⟨f, hf, rfl, hrow⟩, hrest⟩ := List.forall_mem_cons.mp hread
    have hreaders : ((fields.map Field.reader).map FieldReader.name).Nodup := by
      rw [List.map_map]
      exact hnames
    have hfind : (fields.map Field.reader).find? (fun field => field.name == f.name) =
        some f.reader :=
      Roster.find?_eq_some_of_mem hreaders (List.mem_map_of_mem hf)
    have hnone : found.any (fun row => row.1 == f.name) = false := by
      refine List.any_eq_false.mpr fun old hold hsame => ?_
      exact (List.nodup_append.mp hdistinct).2.2 _ (List.mem_map_of_mem hold) _ List.mem_cons_self
        (beq_iff_eq.mp hsame)
    have hmoved : ((found ++ [(f.name, f.content.reading)]).map Prod.fst ++ rest.map Prod.fst).Nodup := by
      rw [List.map_append, List.append_assoc]
      exact hdistinct
    obtain ⟨more, hfill, hmoreNames, hmore⟩ := ih hrest hmoved
    refine ⟨(f.name, f.content.reading) :: more, ?_, congrArg (f.name :: ·) hmoreNames,
      List.forall_mem_cons.mpr ⟨⟨f, hf, rfl, rfl⟩, hmore⟩⟩
    rw [fillFields, hfind]
    dsimp only
    rw [hnone, if_neg Bool.false_ne_true, hrow]
    show fillFields _ _ (found ++ [(f.name, f.content.reading)]) rest = _
    rw [hfill, List.append_assoc]
    rfl

/-- A field that has a row is complete. -/
theorem completeField_of_mem (hnames : (fields.map Field.name).Nodup) {found : List (Text × Reading)}
    (hfound : ∀ row ∈ found, ∃ f ∈ fields, f.name = row.1 ∧ f.content.reading = row.2)
    {f : Field Typed} (hf : f ∈ fields) (hmem : f.name ∈ found.map Prod.fst) :
    completeField found f.reader = .ok (f.name, f.content.reading) := by
  obtain ⟨row, hrow, hname⟩ := List.mem_map.mp hmem
  unfold completeField
  cases hfind : found.find? fun row => row.1 == f.reader.name with
  | none => exact absurd (beq_iff_eq.mpr hname) (List.find?_eq_none.mp hfind row hrow)
  | some other =>
    obtain ⟨g, hg, hgname, hgreading⟩ := hfound other (List.mem_of_find?_eq_some hfind)
    have hother : other.1 = f.name :=
      beq_iff_eq.mp (List.find?_some (p := fun row : Text × Reading => row.1 == f.reader.name) hfind)
    -- two fields of one name are one field
    obtain rfl := List.inj_on_of_nodup_map hnames hg hf (hgname.trans hother)
    rw [hgreading]
    rfl

/-- A field that has no row is what stands in for it. -/
theorem completeField_of_not_mem {found : List (Text × Reading)} {f : Field Typed}
    (hmissing : f.reader.ifMissing = some f.content.reading) (hmem : f.name ∉ found.map Prod.fst) :
    completeField found f.reader = .ok (f.name, f.content.reading) := by
  have hnone : (found.find? fun row => row.1 == f.reader.name) = none :=
    List.find?_eq_none.mpr fun row hrow hname =>
      hmem (List.mem_map.mpr ⟨row, hrow, beq_iff_eq.mp hname⟩)
  rw [completeField, hnone, hmissing]
  rfl

/-- **A record is read** from rows that each belong to a field, if something stands in for the
    fields without a row. -/
theorem readFields_eq_ok (hnames : (fields.map Field.name).Nodup) (denyUnknown : Bool)
    (hdistinct : (rows.map Prod.fst).Nodup)
    (hread : ∀ row ∈ rows, ∃ f ∈ fields, f.name = row.1 ∧ f.reader.read row.2 = .ok f.content.reading)
    (hmissing : ∀ f ∈ fields, f.name ∈ rows.map Prod.fst ∨
      f.reader.ifMissing = some f.content.reading) :
    readFields (fields.map Field.reader) denyUnknown rows =
      .ok (.record (fields.map fun f => (f.name, f.content.reading))) := by
  have hfresh : (([] : List (Text × Reading)).map Prod.fst ++ rows.map Prod.fst).Nodup := hdistinct
  obtain ⟨found, hfill, hfoundNames, hfound⟩ := fillFields_eq_ok hnames denyUnknown hread hfresh
  have hcomplete : (fields.map Field.reader).mapM (completeField found) =
      .ok (fields.map fun f => (f.name, f.content.reading)) := by
    rw [List.mapM_map]
    refine Except.mapM_eq_ok fun f hf => ?_
    by_cases hmem : f.name ∈ found.map Prod.fst
    · exact completeField_of_mem hnames hfound hf hmem
    · refine completeField_of_not_mem ?_ hmem
      rw [hfoundNames] at hmem
      exact (hmissing f hf).resolve_left hmem
  rw [readFields, hfill]
  show ((fields.map Field.reader).mapM (completeField found) >>= fun complete =>
    pure (Reading.record complete)) = _
  rw [hcomplete]
  rfl

end Records

/-- **A record is read** from parts that each show a field. -/
theorem Typed.reads_record {fields : List (Field Typed)} {parts : List (Text × Part)}
    (hnames : (fields.map Field.name).Nodup) (hdistinct : (parts.map Prod.fst).Nodup)
    (hread : ∀ p ∈ parts, ∃ f ∈ fields, f.name = p.1 ∧ f.content.Reads p.2)
    (hmissing : ∀ f ∈ fields, f.name ∈ parts.map Prod.fst ∨
      f.reader.ifMissing = some f.content.reading) (name : Text) (denyUnknown : Bool) :
    (Typed.record name fields denyUnknown).Reads (.rows parts) := by
  intro source hpart
  obtain ⟨rows, hrows, hshown⟩ := Source.of_part?_eq_rows hpart
  have hrowNames : rows.map Prod.fst = parts.map Prod.fst := by
    have hfst := congrArg (List.map Prod.fst) hshown
    rwa [List.map_map, List.map_map] at hfst
  show readRows _ (readFields (Shape.fieldReaders .standard _) denyUnknown) source = _
  rw [readRows_of_rows? hrows, Shape.fieldReaders_eq]
  refine readFields_eq_ok hnames denyUnknown (hrowNames ▸ hdistinct) (fun row hrow => ?_) fun f hf => ?_
  · have hmem : (row.1, row.2.part?) ∈ parts.map fun p => (p.1, some p.2) := by
      rw [← hshown]
      exact List.mem_map_of_mem hrow
    obtain ⟨p, hp, hsame⟩ := List.mem_map.mp hmem
    obtain ⟨hname, hshows⟩ := Prod.mk.inj hsame
    obtain ⟨f, hf, hfname, hreads⟩ := hread p hp
    exact ⟨f, hf, hfname.trans hname, hreads row.2 hshows.symm⟩
  · rw [hrowNames]
    exact hmissing f hf

namespace FieldValue

variable {α : Type} {fields : List (Text × FieldValue α)}

/-- The rows of a record are under names of fields. -/
theorem map_fst_rows_sublist (fields : List (Text × FieldValue α)) :
    ((rows fields).map Prod.fst).Sublist (fields.map Prod.fst) := by
  induction fields with
  | nil => exact List.Sublist.slnil
  | cons row rest ih =>
    obtain ⟨name, x⟩ := row
    cases x with
    | plain | present => exact ih.cons_cons name
    | absent => exact ih.cons name

/-- What is in the rows is a field. -/
theorem of_mem_rows {row : Text × α} (h : row ∈ rows fields) :
    ∃ x, (row.1, x) ∈ fields ∧ x.content? = some row.2 := by
  obtain ⟨⟨name, x⟩, hmem, hrow⟩ := List.mem_filterMap.mp h
  obtain ⟨content, hcontent, rfl⟩ := Option.map_eq_some_iff.mp hrow
  exact ⟨x, hmem, hcontent⟩

theorem mem_rows {name : Text} {x : FieldValue α} {content : α} (h : (name, x) ∈ fields)
    (hcontent : x.content? = some content) : (name, content) ∈ rows fields :=
  List.mem_filterMap.mpr ⟨_, h, by rw [hcontent]; rfl⟩

/-- **A record is read** from what is there of its fields, in any order. -/
theorem reads_record (typed : α → Typed) (part : α → Part) (hnames : (fields.map Prod.fst).Nodup)
    (hreads : ∀ row ∈ rows fields, (typed row.2).Reads (part row.2)) {parts : List (Text × Part)}
    (hparts : parts.Perm ((rows fields).map fun row => (row.1, part row.2))) (name : Text)
    (denyUnknown : Bool) : (record typed name fields denyUnknown).Reads (.rows parts) := by
  have hfieldNames : (fields.map fun row => row.2.field typed row.1).map Field.name =
      fields.map Prod.fst := by
    rw [List.map_map]
    refine List.map_congr_left fun row _ => ?_
    obtain ⟨name, _ | _ | _⟩ := row <;> rfl
  have hpartNames : (parts.map Prod.fst).Perm ((rows fields).map Prod.fst) := by
    have hfst := hparts.map Prod.fst
    rwa [List.map_map] at hfst
  refine Typed.reads_record (hfieldNames ▸ hnames) ?_ (fun p hp => ?_) (fun f hf => ?_) name denyUnknown
  · exact hpartNames.nodup_iff.mpr (hnames.sublist (map_fst_rows_sublist fields))
  · obtain ⟨row, hrow, rfl⟩ := List.mem_map.mp (hparts.subset hp)
    obtain ⟨x, hx, hcontent⟩ := of_mem_rows hrow
    refine ⟨x.field typed row.1, List.mem_map_of_mem (f := fun row => row.2.field typed row.1) hx, ?_⟩
    have hcontentReads := hreads row hrow
    cases x with
    | plain hasDefault y =>
      obtain rfl := Option.some.inj hcontent
      exact ⟨rfl, hcontentReads⟩
    | present hasDefault y =>
      obtain rfl := Option.some.inj hcontent
      exact ⟨rfl, hcontentReads.optional⟩
    | absent shape => exact absurd hcontent nofun
  · obtain ⟨⟨fieldName, x⟩, hrow, rfl⟩ := List.mem_map.mp hf
    have hthere : ∀ y, x.content? = some y → fieldName ∈ parts.map Prod.fst := fun y hy =>
      hpartNames.symm.subset (List.mem_map_of_mem (mem_rows hrow hy))
    cases x with
    | plain hasDefault y => exact Or.inl (hthere y rfl)
    | present hasDefault y => exact Or.inl (hthere y rfl)
    | absent shape => exact Or.inr rfl

end FieldValue

/-! ## Maps -/

section Maps

variable {α : Type} {typed : α → Typed} {part : α → Part} {value : Shape} {rows : List (Text × α)}

/-- Rows that show the values of a map, in order. -/
theorem mapM_rows_of_reads (halike : ∀ row ∈ rows, (typed row.2).shape = value)
    (hreads : ∀ row ∈ rows, (typed row.2).Reads (part row.2)) {sources : List (Text × Source)}
    (hshown : (sources.map fun row => (row.1, row.2.part?)) =
      rows.map fun row => (row.1, some (part row.2))) :
    (sources.mapM fun row => do
      let k ← Shape.reader .standard .text (.key row.1)
      let v ← value.reader .standard row.2
      return (k, v)) = .ok (rows.map fun row => (.text row.1, (typed row.2).reading)) := by
  induction rows generalizing sources with
  | nil => rw [List.map_eq_nil_iff.mp hshown]; rfl
  | cons row rest ih =>
    obtain ⟨source, more, rfl, hsource, hmore⟩ := List.map_eq_cons_iff.mp hshown
    obtain ⟨halikeRow, halikeRest⟩ := List.forall_mem_cons.mp halike
    obtain ⟨hreadsRow, hreadsRest⟩ := List.forall_mem_cons.mp hreads
    obtain ⟨hname, hpart⟩ := Prod.mk.inj hsource
    have hread := hreadsRow source.2 hpart
    rw [halikeRow] at hread
    rw [List.mapM_cons, ih halikeRest hreadsRest hmore, hread, hname]
    rfl

variable (typed part) in
/-- **A map is read** row by row. -/
theorem Typed.reads_map (halike : ∀ row ∈ rows, (typed row.2).shape = value)
    (hreads : ∀ row ∈ rows, (typed row.2).Reads (part row.2)) :
    (Typed.map value (rows.map fun row => (row.1, typed row.2))).Reads
      (.rows (rows.map fun row => (row.1, part row.2))) := by
  intro source hpart
  obtain ⟨sources, hsources, hshown⟩ := Source.of_part?_eq_rows hpart
  rw [List.map_map] at hshown
  show readRows _ (readPairs (Shape.reader .standard .text) (value.reader .standard)) source =
    .ok (.pairs ((rows.map fun row => (row.1, typed row.2)).map _))
  rw [readRows_of_rows? hsources, readPairs, mapM_rows_of_reads halike hreads hshown, List.map_map]
  rfl

end Maps

/-! ## Sections and documents -/

namespace SectionValue

/-- What a reader sees of a section value. -/
def part (s : SectionValue) : Part := .ofEntries s.entries

theorem part_eq (s : SectionValue) : s.part = .rows (s.rows.map fun row => (row.1, row.2.part)) := by
  rw [part, Part.ofEntries, entries, List.map_map]
  rfl

/-- **A section value is read** from its entries. -/
theorem reads {s : SectionValue} (hnames : s.names.Nodup) : s.typed.Reads s.part := by
  rw [part_eq]
  induction s with
  | record name fields denyUnknown =>
    exact FieldValue.reads_record EntryValue.typed EntryValue.part hnames (fun row _ => row.2.reads)
      (List.Perm.refl _) name denyUnknown
  | map value rows alike =>
    exact Typed.reads_map EntryValue.typed EntryValue.part alike fun row _ => row.2.reads
  | newtype name content ih => exact (ih hnames).wrap name

end SectionValue

namespace ConfigValue

variable {v : ConfigValue}

/-- What a reader sees of an entry or a section. -/
def partOf : EntryValue ⊕ SectionValue → Part := Sum.elim EntryValue.part SectionValue.part

/-- A reader sees the entries before the sections. -/
def parts (v : ConfigValue) : List (Text × Part) :=
  v.entries.map (fun row => (row.1, row.2.part)) ++ v.sections.map fun row => (row.1, row.2.part)

theorem part_content (v : ConfigValue) : v.content.part = .rows v.parts := by
  rw [DocumentContent.part, content, List.map_map, List.map_map]
  rfl

/-- Apart from that, the order is that of the value. -/
theorem parts_perm (v : ConfigValue) : v.parts.Perm (v.rows.map fun row => (row.1, partOf row.2)) := by
  unfold parts entries sections
  induction v.rows with
  | nil => exact List.Perm.nil
  | cons row rest ih =>
    obtain ⟨name, x | s⟩ := row
    · exact ih.cons (name, x.part)
    · exact List.perm_middle.trans (ih.cons (name, s.part))

theorem Written.reads_rows (h : v.Written) :
    ∀ row ∈ v.rows, (typedOf row.2).Reads (partOf row.2) := by
  rintro ⟨name, x | s⟩ hrow
  · exact x.reads
  · exact s.reads (h.sections _ (mem_sections hrow)).distinct

/-- **A config value is read** from what can be seen of it. -/
theorem reads (h : v.Written) : v.typed.Reads v.content.part := by
  rw [part_content]
  induction v with
  | record name fields denyUnknown =>
    exact FieldValue.reads_record typedOf partOf h.distinct h.reads_rows (parts_perm _) name denyUnknown
  | entryMap value rows alike =>
    have hparts : (entryMap value rows alike).parts = rows.map fun row => (row.1, row.2.part) := by
      simp [parts, entries, sections, ConfigValue.rows, List.filterMap_map, Function.comp_def]
    rw [hparts]
    exact Typed.reads_map EntryValue.typed EntryValue.part alike fun row _ => row.2.reads
  | sectionMap value rows alike =>
    have hparts : (sectionMap value rows alike).parts = rows.map fun row => (row.1, row.2.part) := by
      simp [parts, entries, sections, ConfigValue.rows, List.filterMap_map, Function.comp_def]
    rw [hparts]
    refine Typed.reads_map SectionValue.typed SectionValue.part alike fun row hrow => ?_
    exact h.reads_rows (row.1, .inr row.2) (List.mem_map.mpr ⟨row, hrow, rfl⟩)
  | newtype name content ih => exact (ih h.of_newtype).wrap name

end ConfigValue

/-! ## The round trip -/

namespace ConfigValue

variable {v : ConfigValue}

theorem exists_toDocument (h : v.Written) : ∃ doc, v.typed.tree.toDocument = .ok doc := by
  rw [Tree.toDocument, root_tree h]
  exact ⟨_, rfl⟩

theorem Written.keys_content (h : v.Written) : ∀ e ∈ v.content.entries, Key.Fit e.key := by
  intro e he
  rcases List.mem_append.mp he with he | he
  · obtain ⟨row, hrow, rfl⟩ := List.mem_map.mp he
    exact h.keys row hrow
  · obtain ⟨s, hs, he⟩ := List.mem_flatMap.mp he
    obtain ⟨row, hrow, rfl⟩ := List.mem_map.mp hs
    obtain ⟨r, hr, rfl⟩ := List.mem_map.mp he
    exact (h.sections row hrow).keys r hr

theorem Written.names_content (h : v.Written) : ∀ s ∈ v.content.sections, Name.Written s.name := by
  intro s hs
  obtain ⟨row, hrow, rfl⟩ := List.mem_map.mp hs
  exact h.headers row hrow

/-- **Writing a config value and reading it is the identity.**  Values whose names are distinct and
    can be written are written; their text is read without a diagnostic where every value of a
    repeated key is kept; and what is then read at the type of the value is the value. -/
theorem toText_parse_readShape (v : ConfigValue) (h : v.Written) :
    ∃ text again, v.typed.tree.toText = .ok text ∧
      parse Dialect.standard.appending text = .ok ⟨again, []⟩ ∧
      again.readShape v.typed.shape = .ok v.typed.reading := by
  have hplain := Dialect.plain_standard.appending
  obtain ⟨doc, hdoc⟩ := exists_toDocument h
  have hcontent := content_of_toDocument h hdoc
  obtain ⟨fields, -, hsound, -, hdialect⟩ := Tree.becomes_of_toDocument hdoc
  have hfit : ∀ e ∈ doc.content.entries, Key.Fit e.key := hcontent ▸ h.keys_content
  have hnames : ∀ s ∈ doc.content.sections, Name.Written s.name := hcontent ▸ h.names_content
  have hwritable := Tree.writable_of_toDocument hdoc (fun e he => (hfit e he).1) hnames
  have hbom : doc.sheet.All (fun e => e.key.head? ≠ some bom) fun _ _ => True :=
    hsound.all_of_content (fun e he => (hfit e he).2) fun _ _ => trivial
  obtain ⟨again, hparse, hagain⟩ := hwritable.exists_parse hplain hbom ⟨.canonical, .lf⟩
  obtain ⟨-, hdialectAgain, -, -⟩ := of_parse_eq_ok hparse
  have hrender := doc.render_sheet_appending ⟨.canonical, .lf⟩
  rw [hdialect] at hrender
  refine ⟨doc.render ⟨.canonical, .lf⟩, again, ?_, ?_, ?_⟩
  · rw [Tree.toText, hdoc]
    rfl
  · rw [← hrender]
    exact hparse
  · have hpart : (Source.whole again).part? = some v.content.part := by
      rw [Source.part?, hagain, hwritable.content_written_canonical hplain, hsound.content_eq, hcontent]
    rw [Document.readShape, show again.dialect = Dialect.standard.appending from hdialectAgain]
    exact reads h _ hpart

/-- A config with values of every depth, whose texts have to be quoted. -/
def sample : ConfigValue :=
  .record "Config".toList [
    ("title".toList, .plain false (.inl (.scalar (.text "= [a] ; \"b\"\n".toList)))),
    ("level".toList, .plain true (.inl (.scalar (.newtype "Level".toList
      (.integer ⟨true, 128⟩ (-5) (by decide +kernel)))))),
    ("half".toList, .plain false (.inl (.scalar (.single true ⟨8388608, 125, by decide⟩)))),
    ("mode".toList, .present false (.inl (.scalar (.variant "Mode".toList
      [("Fast".toList, .unit), ("Slow".toList, .record)] "Fast".toList (by decide) (by decide))))),
    ("parent".toList, .absent .text),
    ("tags".toList, .plain false (.inl (.seq .char [.char ';', .char ' '] (by decide)
      (by simp [ScalarValue.typed])))),
    ("pair".toList, .plain false (.inr (.record "Pair".toList [
      ("both".toList, .plain false (.tuple [.bool true, .unit] (by decide))),
      ("other".toList, .absent .double)] true))),
    ("env".toList, .present false (.inr (.map .text [("PATH".toList, .scalar (.text []))]
      (by simp [EntryValue.typed, ScalarValue.typed]))))] true

theorem toText_parse_readShape_sample :
    sample.Written ∧ ∃ text again, sample.typed.tree.toText = .ok text ∧
      parse Dialect.standard.appending text = .ok ⟨again, []⟩ ∧
      again.readShape sample.typed.shape = .ok sample.typed.reading := by
  have hwritten : sample.Written := by decide +kernel
  exact ⟨hwritten, toText_parse_readShape sample hwritten⟩

end ConfigValue
end IniFile
