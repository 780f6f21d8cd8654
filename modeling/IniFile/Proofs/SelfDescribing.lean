/-
  What a value says of itself, and what it answers when asked.

  Data that describes itself and data that is asked for take different roads through a text.  The
  first tries the kinds in turn and knows the STANDARD boolean words only; the second tries the one
  kind that is asked for, and a boolean is looked up in the words of the document.  Numbers are the
  same on both roads.  So the roads part at the boolean words, and nowhere else:

  1. **Kinds in turn** — the four ways in which a text can stand for a scalar (`StandsFor`).
  2. **Requests** — what a boolean, an integer and a float request answer at a value.
  3. **Agreement** — numbers always agree; words agree exactly when the document means by the text
     what the standard words mean by it, or the text is a number anyway.
  4. **Entries and tables** — an entry with several values describes each of them in turn, and a
     table describes each of its rows as a request to that row alone would.

  Mathlib-free.
-/
import IniFile.Proofs.Digits
import IniFile.Proofs.Drafts
import IniFile.Typed.Read

namespace IniFile

/-! ## Kinds in turn -/

/-- Does the text denote a number, as an integer of sixty-four bits or as a float? -/
def Text.IsNumber (raw : Text) : Prop :=
  (∃ n, Width.plain.read raw = .ok n) ∨ ∃ x, Numeral.read .double raw = .ok x

/-- The four ways in which a text can stand for a scalar. -/
inductive Text.StandsFor (raw : Text) : Scalar → Prop
  | integer {n : Int} (hread : Width.plain.read raw = .ok n) : StandsFor raw (.integer (.ofInt n))
  | float {fault : CoercionFault} {x : Double} (hinteger : Width.plain.read raw = .error fault)
      (hread : Numeral.read .double raw = .ok x) : StandsFor raw (.float x)
  | bool {b : Bool} (hnumber : ¬raw.IsNumber) (hword : Literals.standard.meaning? raw = some b) :
      StandsFor raw (.bool b)
  | text (hnumber : ¬raw.IsNumber) (hword : Literals.standard.meaning? raw = none) :
      StandsFor raw (.text raw)

theorem Except.not_exists_ok_iff {ε α : Type} {r : Except ε α} :
    (¬∃ x, r = .ok x) ↔ ∃ fault, r = .error fault := by
  cases r with
  | ok x => exact iff_of_false (fun h => h ⟨x, rfl⟩) nofun
  | error fault => exact iff_of_true nofun ⟨fault, rfl⟩

theorem Text.not_isNumber_iff {raw : Text} :
    ¬raw.IsNumber ↔ (∃ fault, Width.plain.read raw = .error fault) ∧
      ∃ fault, Numeral.read .double raw = .error fault := by
  rw [IsNumber, not_or, Except.not_exists_ok_iff, Except.not_exists_ok_iff]

/-- A text stands for the scalar that is inferred from it. -/
theorem Scalar.standsFor_infer (raw : Text) : raw.StandsFor (infer raw) := by
  unfold infer
  split
  · exact .integer ‹_›
  · rename_i hinteger
    split
    · exact .float hinteger ‹_›
    · rename_i hfloat
      have hnumber := Text.not_isNumber_iff.mpr ⟨⟨_, hinteger⟩, ⟨_, hfloat⟩⟩
      split
      · exact .bool hnumber ‹_›
      · exact .text hnumber ‹_›

/-! ## Requests -/

section Requests

variable {raw : Text} (words : Literals) (earlier : List Text)

/-- A number that is asked for is given if the text reads as one. -/
theorem answer_of_ok {α : Type} {result : Except CoercionFault α} {x : α} (name : Text)
    (build : α → Datum) (h : result = .ok x) :
    ((expecting raw name result).map build).map Reading.datum = .ok (.datum (build x)) := by
  rw [h]
  rfl

/-- A number that is asked for is refused if the text does not read as one. -/
theorem exists_refusal_of_error {α : Type} {result : Except CoercionFault α} {fault : CoercionFault}
    (name : Text) (build : α → Datum) (h : result = .error fault) :
    ∃ err, ((expecting raw name result).map build).map Reading.datum = .error err := by
  rw [h]
  exact ⟨_, rfl⟩

/-- An integer of the plain width is not wrapped. -/
theorem toInt_ofInt_of_plain {n : Int} (h : Width.plain.holds n = true) : (Int64.ofInt n).toInt = n := by
  obtain ⟨hleast, hgreatest⟩ := Width.holds_iff.mp h
  have hmin : Width.plain.least = -2 ^ 63 := by decide
  have hmax : Width.plain.greatest = 2 ^ 63 - 1 := by decide
  exact Int64.toInt_ofInt_of_le (by omega) (by omega)

/-- A boolean that is asked for is what the word means in the document. -/
theorem reader_bool_eq_ok_iff {b : Bool} :
    Shape.bool.reader words (.value earlier raw) = .ok (.datum (.bool b)) ↔
      words.meaning? raw = some b := by
  show ((readBool words raw).map Datum.bool).map Reading.datum = _ ↔ _
  unfold readBool
  cases words.meaning? raw with
  | none => exact ⟨nofun, nofun⟩
  | some b' => simp [Except.map]

theorem exists_reader_bool_error_iff :
    (∃ err, Shape.bool.reader words (.value earlier raw) = .error err) ↔ words.meaning? raw = none := by
  show (∃ err, ((readBool words raw).map Datum.bool).map Reading.datum = .error err) ↔ _
  unfold readBool
  cases words.meaning? raw with
  | none => exact ⟨fun _ => rfl, fun _ => ⟨_, rfl⟩⟩
  | some b => exact ⟨nofun, nofun⟩

end Requests

/-! ## Agreement -/

/-- The requests for numbers bear out what a value says of itself. -/
structure NumbersAgree (words : Literals) (source : Source) (raw : Text) (x : Scalar) : Prop where
  integer : ∀ n, x = .integer n →
    (Shape.integer .plain).reader words source = .ok (.datum (.integer n.toInt))
  float : ∀ y, x = .float y → Shape.double.reader words source = .ok (.datum (.double y))
  /-- A text is the whole value, and no number. -/
  text : ∀ t, x = .text t → t = raw ∧
    (∃ err, (Shape.integer .plain).reader words source = .error err) ∧
    ∃ err, Shape.double.reader words source = .error err

/-- The request for a boolean bears out what a value says of itself. -/
structure WordsAgree (words : Literals) (source : Source) (raw : Text) (x : Scalar) : Prop where
  bool : ∀ b, x = .bool b → Shape.bool.reader words source = .ok (.datum (.bool b))
  text : ∀ t, x = .text t → ∃ err, Shape.bool.reader words source = .error err
  /-- Whatever is a boolean when asked for one says so of itself, unless it is a number. -/
  described : ∀ b, ¬raw.IsNumber →
    Shape.bool.reader words source = .ok (.datum (.bool b)) → x = .bool b

section Agreement

variable {raw : Text} {x : Scalar} (words : Literals) (earlier : List Text)

/-- **Numbers agree**, whatever the words of the document. -/
theorem Text.StandsFor.numbersAgree (h : raw.StandsFor x) :
    NumbersAgree words (.value earlier raw) raw x := by
  cases h with
  | @integer n hread =>
    refine ⟨?_, nofun, nofun⟩
    rintro _ ⟨rfl⟩
    have hsame : (Int64.ofInt n).toInt = n := toInt_ofInt_of_plain (Width.holds_of_read hread)
    rw [hsame]
    exact answer_of_ok _ Datum.integer hread
  | float hinteger hread =>
    refine ⟨nofun, ?_, nofun⟩
    rintro _ ⟨rfl⟩
    exact answer_of_ok _ Datum.double hread
  | bool hnumber hword => exact ⟨nofun, nofun, nofun⟩
  | text hnumber hword =>
    refine ⟨nofun, nofun, ?_⟩
    rintro _ ⟨rfl⟩
    obtain ⟨⟨_, hinteger⟩, ⟨_, hfloat⟩⟩ := Text.not_isNumber_iff.mp hnumber
    exact ⟨rfl, exists_refusal_of_error _ Datum.integer hinteger,
      exists_refusal_of_error _ Datum.double hfloat⟩

/-- **Words agree** exactly when the document means by the text what the standard words mean by it, or
    the text is a number. -/
theorem Text.StandsFor.wordsAgree_iff (h : raw.StandsFor x) :
    WordsAgree words (.value earlier raw) raw x ↔
      raw.IsNumber ∨ words.meaning? raw = Literals.standard.meaning? raw := by
  cases h with
  | integer hread =>
    have hnumber : raw.IsNumber := .inl ⟨_, hread⟩
    exact ⟨fun _ => .inl hnumber, fun _ => ⟨nofun, nofun, fun _ hno => absurd hnumber hno⟩⟩
  | float hinteger hread =>
    have hnumber : raw.IsNumber := .inr ⟨_, hread⟩
    exact ⟨fun _ => .inl hnumber, fun _ => ⟨nofun, nofun, fun _ hno => absurd hnumber hno⟩⟩
  | @bool b hnumber hword =>
    rw [or_iff_right hnumber, hword]
    refine ⟨fun hagree => ?_, fun hmeaning => ⟨?_, nofun, ?_⟩⟩
    · exact (reader_bool_eq_ok_iff words earlier).mp (hagree.bool b rfl)
    · rintro _ ⟨rfl⟩
      exact (reader_bool_eq_ok_iff words earlier).mpr hmeaning
    · intro b' _ hread
      have hsame := hmeaning.symm.trans ((reader_bool_eq_ok_iff words earlier).mp hread)
      exact congrArg Scalar.bool (Option.some.inj hsame)
  | text hnumber hword =>
    rw [or_iff_right hnumber, hword]
    refine ⟨fun hagree => ?_, fun hmeaning => ⟨nofun, fun _ _ => ?_, ?_⟩⟩
    · exact (exists_reader_bool_error_iff words earlier).mp (hagree.text raw rfl)
    · exact (exists_reader_bool_error_iff words earlier).mpr hmeaning
    · intro b _ hread
      exact nomatch hmeaning.symm.trans ((reader_bool_eq_ok_iff words earlier).mp hread)

end Agreement

/-! ## Entries and tables -/

/-- The one value of a source says of itself what the requests bear out, except that a word of the
    document must mean what the standard words mean by it. -/
def Described (words : Literals) (source : Source) (raw : Text) : Prop :=
  ∃ x, Shape.any.reader words source = .ok (.scalar x) ∧ NumbersAgree words source raw x ∧
    (WordsAgree words source raw x ↔
      raw.IsNumber ∨ words.meaning? raw = Literals.standard.meaning? raw)

theorem described_value (words : Literals) (raw : Text) : Described words (.value [] raw) raw :=
  have hstands := Scalar.standsFor_infer raw
  ⟨.infer raw, rfl, hstands.numbersAgree words [], hstands.wordsAgree_iff words []⟩

/-- An entry within a table says of itself what it says when it is asked alone. -/
theorem openValue_eq (e : Entry) : openValue e = readAny (.ofEntry e) := by
  obtain ⟨id, key, earlier, value, comment⟩ := e
  cases earlier <;> rfl

/-- **A table describes its rows**, each as a request to that row alone would. -/
theorem readAny_of_rows {source : Source} {rows : List (Text × Source)} (h : source.rows? = some rows) :
    readAny source = .openMap (rows.map fun row => (row.1, readAny row.2)) := by
  have htable : ∀ entries : List Entry, openTable entries =
      (entries.map fun e => (e.key, Source.ofEntry e)).map fun row => (row.1, readAny row.2) := by
    intro entries
    rw [openTable, List.map_map]
    exact List.map_congr_left fun e _ => congrArg (Prod.mk e.key) (openValue_eq e)
  cases source with
  | key name => exact nomatch h
  | value earlier last => exact nomatch h
  | table entries =>
    cases h
    exact congrArg Reading.openMap (htable entries)
  | whole doc =>
    cases h
    have hsections : ∀ s : Section, Reading.openMap (openTable s.entries.values) =
        readAny (.table s.entries.values) := fun _ => rfl
    rw [readAny, htable, List.map_append]
    congr 2
    rw [List.map_map]
    exact List.map_congr_left fun s _ => congrArg (Prod.mk s.name) (hsections s)

/-- **What an entry says of itself is borne out** by the requests for numbers, always, and by the request
    for a boolean exactly where the words of the document and the standard words are of one mind.  An
    entry with several values says so of each of them in turn. -/
theorem description_borne_out (doc : Document) (e : Entry) :
    (e.isMultiValued = false → Described doc.dialect.literals (.ofEntry e) e.value) ∧
    (e.isMultiValued = true → ∃ items,
      Shape.any.reader doc.dialect.literals (.ofEntry e) = .ok (.openSeq items) ∧
      e.values.mapM (fun raw => Shape.any.reader doc.dialect.literals (.value [] raw)) = .ok items ∧
      ∀ raw ∈ e.values, Described doc.dialect.literals (.value [] raw) raw) := by
  obtain ⟨id, key, earlier, value, comment⟩ := e
  cases earlier with
  | nil => exact ⟨fun _ => described_value doc.dialect.literals value, nofun⟩
  | cons first rest =>
    refine ⟨nofun, fun _ => ?_⟩
    exact ⟨_, rfl, List.mapM_pure, fun raw _ => described_value doc.dialect.literals raw⟩

/-- The standard dialect with `ja` for what is true and `nein` for what is not. -/
def Dialect.german : Dialect :=
  { Dialect.standard with literals := .ofWords ["ja".toList, "1".toList] ["nein".toList] }

/-- `1` is a number first, and a boolean to whoever asks for one.  The two agree. -/
theorem description_borne_out_sample :
    Shape.any.reader Dialect.german.literals (.value [] ['1']) = .ok (.scalar (.integer 1)) ∧
      WordsAgree Dialect.german.literals (.value [] ['1']) ['1'] (.integer 1) := by
  obtain ⟨x, hany, -, hwords⟩ :=
    (description_borne_out (.empty .german) (.fresh ⟨.global, 0⟩ ['k'] ['1'])).1 rfl
  have hinfer : Scalar.infer ['1'] = .integer 1 := by decide +kernel
  have hscalar : x = .integer 1 := by
    rw [← hinfer]
    cases hany
    rfl
  subst hscalar
  have hnumber : Text.IsNumber ['1'] := .inl ⟨1, by decide +kernel⟩
  exact ⟨hany, hwords.mpr (.inl hnumber)⟩

/-- **A word of the document is no boolean of itself**: `ja` describes itself as a text, and yet it is
    true when a boolean is asked for. -/
theorem word_not_described :
    ∃ doc e, parse .german "k = ja\n".toList = .ok ⟨doc, []⟩ ∧ doc.getEntry [] ['k'] = .ok e ∧
      e.isMultiValued = false ∧
      Shape.any.reader doc.dialect.literals (.ofEntry e) = .ok (.scalar (.text "ja".toList)) ∧
      Shape.bool.reader doc.dialect.literals (.ofEntry e) = .ok (.datum (.bool true)) ∧
      ¬WordsAgree doc.dialect.literals (.ofEntry e) e.value (.text "ja".toList) := by
  have hread : (parse .german "k = ja\n".toList).toOption.any (fun p =>
      decide (p.diagnostics = [] ∧ p.document.dialect = .german) &&
        (p.document.getEntry [] ['k']).toOption.any fun e => e.values == ["ja".toList]) = true := by
    decide +kernel
  obtain ⟨⟨doc, diagnostics⟩, hparse, hread⟩ := Except.exists_ok_of_any hread
  obtain ⟨hflags, hentry⟩ := Bool.and_eq_true_iff.mp hread
  obtain ⟨hdiagnostics, hdialect⟩ := of_decide_eq_true hflags
  dsimp only at hdiagnostics hdialect
  subst hdiagnostics
  obtain ⟨⟨id, key, earlier, value, comment⟩, hget, hvalues⟩ := Except.exists_ok_of_any hentry
  obtain ⟨rfl, rfl⟩ : earlier = [] ∧ value = "ja".toList := by
    simpa [Entry.values, List.append_eq_singleton_iff] using hvalues
  have htrue : Shape.bool.reader doc.dialect.literals (.value [] "ja".toList) =
      .ok (.datum (.bool true)) := by
    rw [hdialect, reader_bool_eq_ok_iff]
    decide +kernel
  refine ⟨doc, _, hparse, hget, rfl, ?_, htrue, fun hagree => ?_⟩
  · have hinfer : Scalar.infer "ja".toList = .text "ja".toList := by decide +kernel
    rw [← hinfer]
    rfl
  · obtain ⟨err, herror⟩ := hagree.text _ rfl
    exact nomatch herror.symm.trans htrue

end IniFile
