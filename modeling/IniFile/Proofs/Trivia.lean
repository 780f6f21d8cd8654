/-
  Blank and comment lines outlive changes of values.

  The blank and comment lines in front of a header or an entry line are captured with it: the TRIVIA
  of the document.  Steps that remove nothing leave all of it captured.  Whether it is WRITTEN is
  another question, because the trivia of a captured entry line comes out together with the value in
  its place.  An entry with fewer values than captured lines has lines that come out no more.

  1. **Captured trivia** — of entries, sections and sheets.
  2. **Steps** — what removes nothing keeps all trivia (`Sheet.trivia_after`).
  3. **Written trivia** — in either style, all trivia that goes with a header, a value or the end of
     the text is written (`Sheet.written_sublist_lines`).
  4. **Values for lines** — only where values are appended can captured lines outnumber them.
  5. **Survival**, and the loss where a single value takes the place of several.
-/
import IniFile.Proofs.Histories

namespace IniFile

/-! ## Captured trivia -/

/-- The blank and comment lines captured in an entry. -/
def SheetEntry.trivia (e : SheetEntry) : List Text := e.lines.flatMap EntryLine.leading

/-- Those of them that stand in front of a line with a value in its place. -/
def SheetEntry.writtenTrivia (e : SheetEntry) : List Text :=
  (e.lines.take e.values.length).flatMap EntryLine.leading

/-- The blank and comment lines captured in front of a header. -/
def SheetSection.headerTrivia (s : SheetSection) : List Text :=
  (s.header?.map HeaderLine.leading).getD []

namespace Sheet

/-- The blank and comment lines of a sheet, in order, where `t` gives those of an entry. -/
def triviaBy (t : SheetEntry → List Text) (S : Sheet) : List Text :=
  S.global.flatMap t ++ (S.sections.flatMap fun s => s.headerTrivia ++ s.entries.flatMap t) ++
    S.trailing

/-- **All blank and comment lines that were captured**, each as often as it was. -/
def trivia (S : Sheet) : List Text := S.triviaBy SheetEntry.trivia

/-- All entries of a sheet. -/
def entries (S : Sheet) : List SheetEntry := S.global ++ S.sections.flatMap SheetSection.entries

/-- No entry has fewer values than captured lines. -/
def Covered (S : Sheet) : Prop := ∀ e ∈ S.entries, e.lines.length ≤ e.values.length

instance (S : Sheet) : Decidable S.Covered :=
  inferInstanceAs (Decidable (∀ e ∈ S.entries, e.lines.length ≤ e.values.length))

theorem triviaBy_congr {t u : SheetEntry → List Text} {S : Sheet} (h : ∀ e ∈ S.entries, t e = u e) :
    S.triviaBy t = S.triviaBy u := by
  have hglobal : S.global.flatMap t = S.global.flatMap u :=
    List.flatMap_congr fun e he => h e (List.mem_append_left _ he)
  have hsections : ∀ s ∈ S.sections, s.headerTrivia ++ s.entries.flatMap t =
      s.headerTrivia ++ s.entries.flatMap u := by
    intro s hs
    refine congrArg (s.headerTrivia ++ ·) (List.flatMap_congr fun e he => ?_)
    exact h e (List.mem_append_right _ (List.mem_flatMap.mpr ⟨s, hs, he⟩))
  rw [triviaBy, triviaBy, hglobal, List.flatMap_congr hsections]

/-- Where no value is missing, all trivia is in front of one. -/
theorem Covered.triviaBy_eq {S : Sheet} (h : S.Covered) :
    S.triviaBy SheetEntry.writtenTrivia = S.trivia := by
  apply triviaBy_congr
  intro e he
  rw [SheetEntry.writtenTrivia, List.take_of_length_le (h e he), SheetEntry.trivia]

end Sheet

/-! ## Steps -/

/-- Does the change of a section take entries out? -/
def SectionEdit.removes : SectionEdit → Bool
  | .remove _ => true
  | .clear => true
  | _ => false

/-- Does the step take entries or sections out? -/
def Step.removes : Step → Bool
  | .edit (.remove _ _) => true
  | .edit .clear => true
  | .edit (.removeSection _) => true
  | .edit (.inSection _ change) => change.removes
  | _ => false

/-- A change of entries that keeps their trivia. -/
def KeepsTrivia (g : List SheetEntry → List SheetEntry) : Prop :=
  ∀ es, (g es).flatMap SheetEntry.trivia = es.flatMap SheetEntry.trivia

theorem keepsTrivia_setKey (d : Dialect) (key value : Text) : KeepsTrivia (d.setKey key value) :=
  fun _ => Roster.flatMap_upsert (fun _ _ _ => rfl) rfl

/-- Values and comments can change without any captured line. -/
theorem SectionEdit.keepsTrivia (d : Dialect) {edit : SectionEdit} (h : edit.removes = false) :
    KeepsTrivia (edit.onEntries d) := by
  intro es
  cases edit with
  | remove key => exact Bool.noConfusion h
  | clear => exact Bool.noConfusion h
  | insert key value => exact Roster.flatMap_upsert (fun _ _ _ => rfl) rfl
  | set key value => exact keepsTrivia_setKey d key value es
  | setScalar key x => exact keepsTrivia_setKey d key x.raw es
  | append key value => exact Roster.flatMap_upsert (fun _ _ _ => rfl) rfl
  | pushIfPresent key value => exact Roster.flatMap_change fun _ _ _ => rfl
  | pushAll value => exact List.flatMap_map _ _ es
  | setValue key value => exact Roster.flatMap_change fun _ _ _ => rfl
  | setComment key comment => exact Roster.flatMap_change fun _ _ _ => rfl

namespace Sheet

variable {d : Dialect} {g : List SheetEntry → List SheetEntry}

theorem trivia_mapEntries (hg : KeepsTrivia g) (s : SheetSection) :
    (s.mapEntries g).headerTrivia ++ (s.mapEntries g).entries.flatMap SheetEntry.trivia =
      s.headerTrivia ++ s.entries.flatMap SheetEntry.trivia :=
  congrArg (s.headerTrivia ++ ·) (hg s.entries)

theorem trivia_changeSection (hg : KeepsTrivia g) (name : Text) (S : Sheet) :
    (S.changeSection d name g).trivia = S.trivia := by
  unfold changeSection
  cases name.isEmpty with
  | true => exact congrArg (· ++ _ ++ S.trailing) (hg S.global)
  | false =>
    exact congrArg (_ ++ · ++ S.trailing)
      (Roster.flatMap_change fun s _ _ => trivia_mapEntries hg s)

theorem trivia_upsertSection (hg : KeepsTrivia g) (name : Text) (S : Sheet) :
    (S.upsertSection d name g).trivia = S.trivia := by
  unfold upsertSection
  cases name.isEmpty with
  | true => exact congrArg (· ++ _ ++ S.trailing) (hg S.global)
  | false =>
    exact congrArg (_ ++ · ++ S.trailing)
      (Roster.flatMap_upsert (fun s _ _ => trivia_mapEntries hg s) (hg []))

/-- **A step that removes nothing keeps all trivia captured.** -/
theorem trivia_onSheet {step : Step} (h : step.removes = false) (S : Sheet) :
    (step.onSheet d S).trivia = S.trivia := by
  cases step with
  | query q => rfl
  | edit edit =>
    cases edit with
    | remove name key => exact Bool.noConfusion h
    | clear => exact Bool.noConfusion h
    | removeSection name => exact Bool.noConfusion h
    | set name key value => exact trivia_upsertSection (keepsTrivia_setKey d key value) name S
    | setScalar name key x => exact trivia_upsertSection (keepsTrivia_setKey d key x.raw) name S
    | insertSection name => exact trivia_upsertSection (fun _ => rfl) name S
    | ensureSection name => exact trivia_upsertSection (fun _ => rfl) name S
    | setEverywhere key value =>
      refine congrArg (_ ++ · ++ S.trailing) ((List.flatMap_map _ _ S.sections).trans ?_)
      exact List.flatMap_congr fun s _ => trivia_mapEntries (keepsTrivia_setKey d key value) s
    | inSection name change => exact trivia_changeSection (change.keepsTrivia d h) name S
    | setIfSection name key value =>
      exact trivia_changeSection (keepsTrivia_setKey d key value) name S

/-- **Nor do any number of such steps lose any.** -/
theorem trivia_after {steps : List Step} (h : ∀ step ∈ steps, step.removes = false) (S : Sheet) :
    (S.after d steps).trivia = S.trivia := by
  induction steps generalizing S with
  | nil => rfl
  | cons step rest ih =>
    exact (ih (fun s hs => h s (List.mem_cons_of_mem _ hs)) _).trans
      (trivia_onSheet (h step List.mem_cons_self) S)

end Sheet

/-! ## Written trivia -/

/-- What a style writes of blank and comment lines. -/
def Style.trivia : Style → List Text → List Text
  | .roundTrip, ls => ls
  | .canonical, ls => standaloneComments ls

namespace Style

theorem trivia_append (style : Style) (ls ms : List Text) :
    style.trivia (ls ++ ms) = style.trivia ls ++ style.trivia ms := by
  cases style with
  | roundTrip => rfl
  | canonical => rw [trivia, standaloneComments, List.map_append, List.filter_append]; rfl

theorem trivia_nil (style : Style) : style.trivia [] = [] := by
  cases style <;> rfl

end Style

/-- In front of a value stands what its captured line had in front. -/
theorem Slot.leading_written (d : Dialect) (style : Style) (key : Text) (slot : Slot) :
    (slot.written d style key).leading =
      style.trivia ((slot.line?.map EntryLine.leading).getD []) := by
  obtain ⟨value, line?, comment⟩ := slot
  cases line? <;> cases style <;> rfl

/-- Value by value, the lines in front of captured lines are written. -/
theorem slots_trivia_sublist (d : Dialect) (style : Style) (key : Text) (comment : Option Comment) :
    ∀ (values : List Text) (lines : List EntryLine),
      (style.trivia ((lines.take values.length).flatMap EntryLine.leading)).Sublist
        ((slots comment values lines).flatMap (·.lines d style key))
  | [], lines => by
      rw [List.length_nil, List.take_zero, List.flatMap_nil, Style.trivia_nil]
      exact List.nil_sublist _
  | _ :: _, [] => by
      rw [List.take_nil, List.flatMap_nil, Style.trivia_nil]
      exact List.nil_sublist _
  | value :: more, line :: rest => by
      have ih := slots_trivia_sublist d style key comment more rest
      rw [List.length_cons, List.take_succ_cons, List.flatMap_cons, Style.trivia_append, slots,
        List.flatMap_cons, Slot.lines_eq, EntryLine.block, Slot.leading_written]
      exact (List.sublist_append_left _ _).append ih

namespace Sheet

variable {d : Dialect} {style : Style}

theorem headerTrivia_sublist (written : Bool) (s : SheetSection) :
    (style.trivia s.headerTrivia).Sublist (s.headerLines style written) := by
  unfold SheetSection.headerTrivia SheetSection.headerLines
  cases s.header? with
  | none =>
    rw [Option.map_none, Option.getD_none, Style.trivia_nil]
    exact List.nil_sublist _
  | some line =>
    cases style with
    | roundTrip => exact List.sublist_append_left _ _
    | canonical => exact (List.sublist_append_right _ _).trans (List.sublist_append_left _ _)

theorem flatMap_trivia_sublist (es : List SheetEntry) :
    (style.trivia (es.flatMap SheetEntry.writtenTrivia)).Sublist
      (es.flatMap (SheetEntry.render d style)) := by
  induction es with
  | nil => rw [List.flatMap_nil, Style.trivia_nil]; exact List.nil_sublist _
  | cons e rest ih =>
    rw [List.flatMap_cons, List.flatMap_cons, Style.trivia_append]
    exact (slots_trivia_sublist d style e.key e.comment e.values e.lines).append ih

theorem sections_trivia_sublist (written : Bool) (ss : List SheetSection) :
    (style.trivia (ss.flatMap fun s =>
      s.headerTrivia ++ s.entries.flatMap SheetEntry.writtenTrivia)).Sublist
        (sectionLines d style written ss) := by
  induction ss generalizing written with
  | nil => rw [List.flatMap_nil, Style.trivia_nil]; exact List.nil_sublist _
  | cons s rest ih =>
    rw [List.flatMap_cons, Style.trivia_append, Style.trivia_append, sectionLines,
      SheetSection.render]
    exact ((headerTrivia_sublist written s).append (flatMap_trivia_sublist s.entries)).append (ih true)

/-- **All trivia that goes with a header, a value or the end of the text is written**, in either
    style. -/
theorem written_sublist_lines (d : Dialect) (style : Style) (S : Sheet) :
    (style.trivia (S.triviaBy SheetEntry.writtenTrivia)).Sublist (S.lines d style) := by
  have htrailing : style.trivia S.trailing = S.trailingLines style := by cases style <;> rfl
  rw [triviaBy, Style.trivia_append, Style.trivia_append, lines, htrailing]
  exact ((flatMap_trivia_sublist S.global).append (sections_trivia_sublist _ S.sections)).append
    (List.Sublist.refl _)

end Sheet

/-! ## Values for lines -/

/-- The entry has a value, and several captured lines only where values are appended. -/
structure SheetEntry.Valued (d : Dialect) (e : SheetEntry) : Prop where
  valued : e.values ≠ []
  single : d.keyPolicy ≠ .append → e.lines.length ≤ 1

theorem SheetEntry.edits_valued (d : Dialect) : SheetEntry.Edits (SheetEntry.Valued d) where
  set _ _ h := ⟨by simp [setValue], h.single⟩
  push _ _ h := ⟨by simp [pushValue], h.single⟩
  uncomment _ h := ⟨h.valued, h.single⟩

theorem SheetEntry.Valued.file {d : Dialect} {e : SheetEntry} (line : EntryLine) :
    (e.file d.keyPolicy line).Valued d := by
  cases hpolicy : d.keyPolicy with
  | append => exact ⟨by simp [SheetEntry.file, store, pushValue], fun h => absurd hpolicy h⟩
  | overwrite => exact ⟨by simp [SheetEntry.file, store, setValue], fun _ => Nat.le_refl 1⟩
  | reject => exact ⟨by simp [SheetEntry.file, store, setValue], fun _ => Nat.le_refl 1⟩

theorem valued_of_parse {d : Dialect} {text : Text} {p : Parsed} (h : parse d text = .ok p) :
    p.document.sheet.All (SheetEntry.Valued d) fun _ _ => True := by
  have hread : (Draft.ofText d text).1.All d (SheetEntry.Valued d) (fun _ _ => True) fun _ => True := by
    refine Draft.all_start.read fun raw _ => ⟨fun _ => trivial, fun _ _ => trivial,
      fun _ _ _ _ _ _ => trivial, fun key value c waiting _ _ => ?_,
      fun _ _ _ _ e _ _ _ _ => SheetEntry.Valued.file _⟩
    exact ⟨List.cons_ne_nil _ _, fun _ => Nat.le_refl 1⟩
  obtain ⟨-, -, hsheet, -⟩ := of_parse_eq_ok h
  rw [hsheet]
  exact ⟨hread.sheet.global, hread.sheet.entries, hread.sheet.headers⟩

/-- **Where values are not appended, none is ever missing**, whatever the history. -/
theorem Sheet.covered_after {d : Dialect} {S : Sheet}
    (h : S.All (SheetEntry.Valued d) fun _ _ => True) (hpolicy : d.keyPolicy ≠ .append)
    (steps : List Step) : (S.after d steps).Covered := by
  have hafter : (S.after d steps).All (SheetEntry.Valued d) fun _ _ => True :=
    h.after (SheetEntry.edits_valued d) steps
      (fun _ _ _ _ _ => ⟨List.cons_ne_nil _ _, fun _ => Nat.zero_le 1⟩)
      (fun _ _ _ _ _ he => ⟨he.valued, he.single⟩) fun _ _ _ _ _ => trivial
  have hvalued : ∀ e : SheetEntry, e.Valued d → e.lines.length ≤ e.values.length := by
    intro e he
    exact Nat.le_trans (he.single hpolicy) (List.length_pos_iff.mpr he.valued)
  intro e he
  rcases List.mem_append.mp he with he | he
  · exact hvalued e (hafter.global e he)
  · obtain ⟨s, hs, hmem⟩ := List.mem_flatMap.mp he
    exact hvalued e (hafter.entries s hs e hmem)

/-! ## Survival -/

/-- **Blank and comment lines survive** whatever removes nothing, as long as no entry is left with
    fewer values than captured lines, which can only happen where values are appended: each is
    written as often as it was captured, and trimmed in the canonical style, which leaves blank
    lines out. -/
theorem trivia_survives_value_edits {d : Dialect} {text : Text} {p : Parsed}
    (h : parse d text = .ok p) {steps : List Step} (hsteps : ∀ step ∈ steps, step.removes = false)
    (hcovered : d.keyPolicy = .append → (p.document.after steps).sheet.Covered)
    (ending : LineEnding) :
    (∃ lines, p.document.sheet.trivia.Sublist lines ∧
      (p.document.after steps).render ⟨.roundTrip, ending⟩ =
        p.document.sheet.mark .roundTrip ++ ending.join p.document.sheet.finalNewline lines) ∧
      ∃ lines, (standaloneComments p.document.sheet.trivia).Sublist lines ∧
        (p.document.after steps).render ⟨.canonical, ending⟩ = ending.join true lines := by
  have horigin : p.document.Origin d := .parsed h
  obtain ⟨-, hdialect, hsheet⟩ := horigin.after steps
  have hall : (p.document.after steps).sheet.Covered := by
    by_cases hpolicy : d.keyPolicy = .append
    · exact hcovered hpolicy
    · rw [hsheet]
      exact Sheet.covered_after (valued_of_parse h) hpolicy steps
  have hkept : (p.document.after steps).sheet.triviaBy SheetEntry.writtenTrivia =
      p.document.sheet.trivia := by
    rw [hall.triviaBy_eq, hsheet, Sheet.trivia_after hsteps]
  have hclear : ∀ step ∈ steps, step ≠ .edit .clear := by
    rintro step hstep rfl
    exact Bool.noConfusion (hsteps _ hstep)
  have hwritten := fun style => Sheet.written_sublist_lines d style (p.document.after steps).sheet
  rw [hkept] at hwritten
  refine ⟨⟨_, hwritten .roundTrip, ?_⟩, _, hwritten .canonical, ?_⟩
  · obtain ⟨-, hclosed, hbom⟩ := Sheet.edges_after (d := d) hclear p.document.sheet
    rw [Document.render_eq, hdialect, Sheet.render, Sheet.mark, Sheet.mark, Sheet.isClosed, hsheet,
      hclosed, hbom]
  · rw [Document.render_eq, hdialect]
    rfl

/-- A comment and a blank line in front of two values stay when a third is added and the last of
    them gets a comment. -/
theorem trivia_survives_value_edits_sample :
    ∃ p, parse { Dialect.standard with keyPolicy := .append } "; a\nk=1\n\nk=2\n# end".toList = .ok p ∧
      ∃ lines, ["; a".toList, [], "# end".toList].Sublist lines ∧
        (p.document.after [.edit (.inSection [] (.append ['k'] ['3'])),
          .edit (.inSection [] (.setComment ['k'] (some (.of ';' ['c']))))]).render
            ⟨.roundTrip, .crlf⟩ =
          p.document.sheet.mark .roundTrip ++
            LineEnding.crlf.join p.document.sheet.finalNewline lines := by
  have hread : (parse { Dialect.standard with keyPolicy := .append }
      "; a\nk=1\n\nk=2\n# end".toList).toOption.any (fun p =>
        p.document.sheet.trivia == ["; a".toList, [], "# end".toList] &&
          decide (p.document.after [.edit (.inSection [] (.append ['k'] ['3'])),
            .edit (.inSection [] (.setComment ['k'] (some (.of ';' ['c']))))]).sheet.Covered) =
      true := by
    decide +kernel
  obtain ⟨p, hparse, hboth⟩ := Except.exists_ok_of_any hread
  obtain ⟨htrivia, hcovered⟩ := Bool.and_eq_true_iff.mp hboth
  obtain ⟨⟨lines, hlines, hrender⟩, -⟩ :=
    trivia_survives_value_edits hparse (by simp [Step.removes, SectionEdit.removes])
      (fun _ => of_decide_eq_true hcovered) .crlf
  rw [eq_of_beq htrivia] at hlines
  exact ⟨p, hparse, lines, hlines, hrender⟩

/-- **A single value in place of two loses the comment above the second**, in either style. -/
theorem trivia_lost_by_single_value :
    ∃ p, parse { Dialect.standard with keyPolicy := .append } "; a\nk=1\n; b\nk=2\n".toList = .ok p ∧
      "; b".toList ∈ p.document.sheet.trivia ∧
        (Step.edit (.set [] ['k'] ['9'])).removes = false ∧
          ∀ style, "; b".toList ∉ Text.lines
            ((p.document.after [.edit (.set [] ['k'] ['9'])]).render ⟨style, .lf⟩) := by
  have hread : (parse { Dialect.standard with keyPolicy := .append }
      "; a\nk=1\n; b\nk=2\n".toList).toOption.any (fun p =>
        p.document.sheet.trivia.contains "; b".toList &&
          [Style.roundTrip, Style.canonical].all fun style => !(Text.lines
            ((p.document.after [.edit (.set [] ['k'] ['9'])]).render ⟨style, .lf⟩)).contains
              "; b".toList) = true := by
    decide +kernel
  obtain ⟨p, hparse, hboth⟩ := Except.exists_ok_of_any hread
  simp only [Bool.and_eq_true, List.all_cons, List.all_nil, Bool.not_eq_true',
    List.contains_eq_mem, decide_eq_true_eq, decide_eq_false_iff_not] at hboth
  obtain ⟨hcaptured, hroundTrip, hcanonical, -⟩ := hboth
  refine ⟨p, hparse, hcaptured, rfl, fun style => ?_⟩
  cases style with
  | roundTrip => exact hroundTrip
  | canonical => exact hcanonical

end IniFile
