/-
  The text of a scalar stands for that scalar.

  A text is tried as an integer, then as a float, then as a boolean word, and the first that fits is
  what it stands for.  So the canonical texts of the three must keep out of each other's way, and
  they do: an integer literal has no point in it, every finite float has one, and the two words are
  neither.

  1. **Points** — no integer literal has one, every finite float has one.
  2. **Inference** — the canonical text of a boolean, an integer or a finite float stands for it.
  3. **One entry alone** — the text of a document with a single entry reads back as that document.
     There is no comment in it, so that any characters may be comment markers.
  4. **Through a document** — a scalar that is set, written and read is the same scalar.
-/
import IniFile.Proofs.Floats
import IniFile.Proofs.IntegerLiterals
import IniFile.Proofs.ListSimulation
import IniFile.Proofs.Mark
import IniFile.Proofs.Written

namespace IniFile

/-! ## Points -/

/-- **No integer literal has a point.** -/
theorem IntegerLiteral.point_not_mem {raw : Text} {n : Int} (h : IntegerLiteral raw n) : '.' ∉ raw := by
  obtain ⟨sign, negative, mark, radix, digits, m, hsign, hmark, hdigits, rfl, -⟩ := h
  obtain ⟨-, hall, -⟩ := (digits_iff hmark.le_sixteen).mp hdigits
  have hinSign : '.' ∉ sign := by cases hsign <;> decide
  have hinMark : '.' ∉ mark := by
    cases hmark with
    | decimal => decide
    | hexadecimal hx | octal hx | binary hx => rcases hx with rfl | rfl <;> decide
  have hinDigits : '.' ∉ digits := by
    intro hmem
    have hnone : digitValue? 16 '.' = none := by decide
    have hpoint := hall '.' hmem
    rw [digitValue?_eq_filter hmark.le_sixteen, hnone] at hpoint
    exact Bool.noConfusion hpoint
  simp [hinSign, hinMark, hinDigits]

theorem Width.exists_fault_of_point {raw : Text} (h : '.' ∈ raw) (w : Width) :
    ∃ fault, w.read raw = .error fault := by
  unfold read
  cases hread : readInteger raw with
  | ok n => exact absurd h (readInteger_eq_ok_iff.mp hread).point_not_mem
  | error fault => exact ⟨fault, rfl⟩

/-- **Every finite float has a point.** -/
theorem Binary.point_mem_fractionText {f : Format} (hf : f.Ample) (negative : Bool) (x : Magnitude f) :
    '.' ∈ (Binary.finite negative x).fractionText := by
  obtain ⟨whole, fraction, d, htext, -, -⟩ := fractionText_pointed hf negative x
  rw [htext]
  exact List.mem_append_right _ (List.mem_append_right _ List.mem_cons_self)

/-! ## Inference -/

/-- Is the scalar a boolean, an integer or a finite float? -/
def Scalar.IsExact : Scalar → Prop
  | .bool _ | .integer _ => True
  | .float x => x.isFinite = true
  | .text _ => False

namespace Scalar

theorem plain_holds (n : Int64) : Width.plain.holds n.toInt = true :=
  Width.holds_iff.mpr ⟨n.minValue_le_toInt, Int64.toInt_le n⟩

/-- **The text of a scalar stands for it.** -/
theorem infer_raw {v : Scalar} (h : v.IsExact) : infer v.raw = v := by
  cases v with
  | bool b => cases b <;> decide +kernel
  | integer n =>
    have hread : Width.plain.read (integerText n.toInt) = .ok n.toInt :=
      Width.read_integerText (plain_holds n)
    show infer (integerText n.toInt) = _
    rw [infer, hread]
    exact congrArg integer (Int64.ofInt_toInt n)
  | float x =>
    cases x with
    | finite negative x =>
      have hpoint := Binary.point_mem_fractionText Format.ample_double negative x
      obtain ⟨fault, hinteger⟩ := Width.plain.exists_fault_of_point hpoint
      show infer (Binary.finite negative x).fractionText = _
      rw [infer, hinteger]
      dsimp only
      rw [Numeral.read_fractionText Format.ample_double]
    | infinite negative => exact absurd h Bool.false_ne_true
    | nan => exact absurd h Bool.false_ne_true
  | text t => exact h.elim

end Scalar

/-! ## One entry alone -/

/-- Can the name be written?  The global section has no header; other names need one, and then `[`
    must not start a comment. -/
def Name.Headed (d : Dialect) (name : Text) : Prop :=
  name = [] ∨ Name.Written name ∧ d.isMarker '[' = false

section Alone

variable (d : Dialect) (name key value : Text)

/-- The content of a document with one entry. -/
def aloneContent : DocumentContent :=
  if name.isEmpty then ⟨⟨[], [⟨key, [value], none⟩]⟩, []⟩
  else ⟨⟨[], []⟩, [⟨name, [⟨key, [value], none⟩]⟩]⟩

/-- The lines of a document with one entry. -/
def aloneLines : List Text :=
  (if name.isEmpty then [] else [renderHeader name none]) ++ [renderEntry d key value none]

/-- In whichever style, the lines are the header and the entry. -/
theorem render_alone (r : Rendering) :
    ((Document.empty d).set name key value).render r =
      r.ending.join true (aloneLines d name key value) := by
  have hbecomes := (Document.sound_empty d).becomes_set name key value
  rw [Document.render_eq, hbecomes.dialect, hbecomes.sheet, Document.sheet_empty, Sheet.upsertSection,
    aloneLines]
  obtain ⟨style, ending⟩ := r
  cases name.isEmpty <;> cases style <;> rfl

variable {d name key}

/-- The entry as it is read from its own line. -/
theorem faithful_alone (hkey : Key.Written d key) :
    (SheetEntry.ofLine key ⟨[], renderEntry d key value none, value, none⟩).Faithful d := by
  have hsays := Line.says_renderEntry hkey value d.closesWith_none
  have hkept : EntryLine.Kept d key ⟨[], renderEntry d key value none, value, none⟩ :=
    ⟨fun _ hl => absurd hl List.not_mem_nil, ⟨key, hsays, d.sameKey_refl key⟩,
      lf_not_mem_renderEntry hkey value d.closesWith_none⟩
  refine ⟨SheetEntry.matches_ofLine _ _, ?_, ?_, ?_⟩
  · exact fun line hline => List.mem_singleton.mp hline ▸ hkept
  · exact fun line hline => Option.some.inj hline ▸ hsays
  · exact fun hlength => absurd hlength (by simp [SheetEntry.ofLine])

/-- **The lines of one entry** make the sheet of that entry. -/
theorem reads_alone (hkey : Key.Written d key) (hname : Name.Headed d name) :
    ∃ S : Sheet, Reads d (aloneLines d name key value) S [] ∧ S.content = aloneContent name key value := by
  have hentry := faithful_alone value hkey
  rcases hname with rfl | ⟨hwritten, hbracket⟩
  · exact ⟨_, (Reads.nil d).entry hentry fun _ hf => absurd hf List.not_mem_nil, rfl⟩
  · have hheader : HeaderLine.Kept d name ⟨[], renderHeader name none, none⟩ :=
      ⟨fun _ hl => absurd hl List.not_mem_nil,
        Line.says_renderHeader hbracket hwritten d.closesWith_none,
        lf_not_mem_renderHeader hwritten d.closesWith_none⟩
    have hreads := (Reads.nil d).oneSection (s := ⟨name, some _, [_]⟩) hwritten.nonempty
      (fun _ ht => absurd ht List.not_mem_nil) rfl hheader
      (fun e he => List.mem_singleton.mp he ▸ hentry) (List.nodup_singleton _)
    have hname := List.isEmpty_eq_false_iff.mpr hwritten.nonempty
    rw [aloneLines, aloneContent, hname]
    exact ⟨_, hreads, rfl⟩

/-- What is the same for each of these lines: no line feed, no blank at the end, no mark in front. -/
theorem forall_aloneLines {P : Text → Prop} (hheader : P (renderHeader name none))
    (hentry : P (renderEntry d key value none)) : ∀ l ∈ aloneLines d name key value, P l := by
  refine List.forall_mem_append.mpr ⟨?_, List.forall_mem_singleton.mpr hentry⟩
  split
  · exact fun _ hl => absurd hl List.not_mem_nil
  · exact List.forall_mem_singleton.mpr hheader

theorem lines_alone (hkey : Key.Written d key) (hname : Name.Headed d name)
    (hbom : key.head? ≠ some bom) (e : LineEnding) :
    Text.lines (Text.dropBom (e.join true (aloneLines d name key value))) =
      aloneLines d name key value := by
  have hfeed : ∀ l ∈ aloneLines d name key value, '\n' ∉ l := by
    have hname : '\n' ∉ name := by
      rcases hname with rfl | ⟨hwritten, -⟩
      · exact List.not_mem_nil
      · exact hwritten.noFeed
    exact forall_aloneLines value (by simp [renderHeader, commentSuffix, hname])
      (lf_not_mem_renderEntry hkey value d.closesWith_none)
  have htrim : ∀ l ∈ aloneLines d name key value, Text.trimEnd l = l :=
    forall_aloneLines value (trimEnd_renderHeader name d.closesWith_none)
      (trimEnd_renderEntry key value d.closesWith_none)
  have hmark : ∀ l ∈ aloneLines d name key value, l.head? ≠ some bom := by
    refine forall_aloneLines value (by simp [renderHeader, bom]) ?_
    obtain ⟨c, rest, rfl⟩ := List.exists_cons_of_ne_nil hkey.nonempty
    exact hbom
  rw [LineEnding.dropBom_join e true hmark, Text.lines_join_closed e hfeed,
    List.map_congr_left fun l hl => Text.reread_of_trimEnd (htrim l hl) e, List.map_id']

/-- **One entry alone is read back**, in either style and with either line ending. -/
theorem exists_parse_alone (hkey : Key.Written d key) (hname : Name.Headed d name)
    (hbom : key.head? ≠ some bom) (r : Rendering) :
    ∃ again, parse d (((Document.empty d).set name key value).render r) = .ok ⟨again, []⟩ ∧
      again.dialect = d ∧ again.Sound ∧ again.content = aloneContent name key value := by
  obtain ⟨S, hreads, hcontent⟩ := reads_alone value hkey hname
  rw [render_alone]
  rw [← lines_alone value hkey hname hbom r.ending] at hreads
  obtain ⟨again, hparse, hdialect, hsheet⟩ := hreads.exists_parse
  obtain ⟨hsound, -⟩ := of_parse_eq_ok hparse
  refine ⟨again, hparse, hdialect, hsound, ?_⟩
  show again.content = _
  rw [← hsound.content_eq, hsheet, ← hcontent]
  rfl

/-- In that content the entry is found. -/
theorem getEntry_alone (d : Dialect) (name key value : Text) :
    (aloneContent name key value).getEntry d name key = .ok ⟨key, [value], none⟩ := by
  have hget : ∀ name, SectionContent.get d key ⟨name, [⟨key, [value], none⟩]⟩ =
      .ok ⟨key, [value], none⟩ := by
    intro name
    have hfound : SectionContent.find? d key ⟨name, [⟨key, [value], none⟩]⟩ = some ⟨key, [value], none⟩ :=
      List.find?_cons_of_pos (d.sameKey_refl key)
    rw [SectionContent.get, hfound]
  have hsection : ∀ s : SectionContent, s.name = name →
      [s].find? (SectionContent.isOf d name) = some s := by
    rintro s rfl
    exact List.find?_cons_of_pos (d.sameSection_refl s.name)
  unfold aloneContent DocumentContent.getEntry DocumentContent.getSection DocumentContent.section?
  cases name.isEmpty with
  | true => exact hget []
  | false =>
    simp only [Bool.false_eq_true, ↓reduceIte, hsection]
    exact hget name

end Alone

/-! ## Through a document -/

/-- **A scalar is inferred as it was written**: its canonical text stands for it, and for nothing else
    of another kind.  That is still so when the scalar is set in an empty document of any dialect,
    the document is written in any style, and the text is read in the same dialect. -/
theorem inferred_as_written {v : Scalar} (hv : v.IsExact) :
    Scalar.infer v.raw = v ∧
    ∀ (d : Dialect) (name key : Text) (r : Rendering), Key.Written d key → key.head? ≠ some bom →
      Name.Headed d name →
        ∃ answer doc again e, (Edit.setScalar name key v).run (.empty d) = .ok (answer, doc) ∧
          parse d (doc.render r) = .ok ⟨again, []⟩ ∧ again.getEntry name key = .ok e ∧ e.scalar = v := by
  refine ⟨Scalar.infer_raw hv, fun d name key r hkey hbom hname => ?_⟩
  obtain ⟨again, hparse, rfl, hsound, hcontent⟩ := exists_parse_alone v.raw hkey hname hbom r
  have hfound := hsound.getEntry_content name key
  rw [hcontent, getEntry_alone] at hfound
  cases hentry : again.getEntry name key with
  | error err =>
    rw [hentry] at hfound
    exact absurd hfound nofun
  | ok e =>
    rw [hentry] at hfound
    have hvalue : v.raw = e.value := (congrArg EntryContent.value (Except.ok.inj hfound)).trans e.value_content
    refine ⟨_, _, again, e, rfl, hparse, hentry, ?_⟩
    rw [Entry.scalar, ← hvalue, Scalar.infer_raw hv]

/-- A negative zero where the minus, the digit and the point start comments, with lines that end in
    carriage returns. -/
theorem inferred_as_written_sample :
    ∃ d answer doc again e, d = { Dialect.standard with markers := ['-', '0', '.'] } ∧
      (Edit.setScalar ['s'] ['k'] (.float (.zero .double true))).run (.empty d) = .ok (answer, doc) ∧
      parse d (doc.render ⟨.canonical, .crlf⟩) = .ok ⟨again, []⟩ ∧
      again.getEntry ['s'] ['k'] = .ok e ∧ e.scalar = .float (.zero .double true) :=
  ⟨{ Dialect.standard with markers := ['-', '0', '.'] }, by
    obtain ⟨answer, doc, again, e, hset, hparse, hentry, hscalar⟩ :=
      (inferred_as_written (v := .float (.zero .double true)) rfl).2
        { Dialect.standard with markers := ['-', '0', '.'] } ['s'] ['k'] ⟨.canonical, .crlf⟩
        (by decide +kernel) (by decide) (.inr ⟨by decide +kernel, by decide⟩)
    exact ⟨answer, doc, again, e, rfl, hset, hparse, hentry, hscalar⟩⟩

end IniFile
