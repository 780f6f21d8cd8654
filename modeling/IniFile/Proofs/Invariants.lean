/-
  Invariants of sheets.

  What holds of every entry and of every header is kept by a step when it is kept by the few things
  that a step can do to ONE entry, and holds of what the step brings in: keys, section names and
  comments.  `Sheet.All` is such a property, `Edits P` says that values may change, and

  1. `All.onSheet`, `All.after` carry it along steps and histories;
  2. `Draft.All.accept`, `Draft.All.read` carry it along lines and texts.
-/
import IniFile.Proofs.Drafts

namespace IniFile

/-! ## What steps bring in -/

/-- The keys that a change may make entries for. -/
def SectionEdit.keys : SectionEdit → List Text
  | .insert key _ | .set key _ | .setScalar key _ | .append key _ => [key]
  | _ => []

/-- The comments that a change may give to entries. -/
def SectionEdit.comments : SectionEdit → List Comment
  | .setComment _ (some c) => [c]
  | _ => []

namespace Step

/-- The keys that a step may make entries for. -/
def keys : Step → List Text
  | .edit (.set _ key _) | .edit (.setScalar _ key _) | .edit (.setEverywhere key _)
  | .edit (.setIfSection _ key _) => [key]
  | .edit (.inSection _ change) => change.keys
  | _ => []

/-- The names that a step may make sections for.  The empty name is the global section, which is not
    made. -/
def names : Step → List Text
  | .edit (.set name _ _) | .edit (.setScalar name _ _) | .edit (.insertSection name)
  | .edit (.ensureSection name) => [name]
  | _ => []

/-- The comments that a step may give to entries. -/
def comments : Step → List Comment
  | .edit (.inSection _ change) => change.comments
  | _ => []

end Step

/-! ## All entries and headers -/

/-- `P` holds of every entry, and `Q` of the name and the captured header of every section. -/
structure Sheet.All (P : SheetEntry → Prop) (Q : Text → Option HeaderLine → Prop) (S : Sheet) :
    Prop where
  global : ∀ e ∈ S.global, P e
  entries : ∀ s ∈ S.sections, ∀ e ∈ s.entries, P e
  headers : ∀ s ∈ S.sections, Q s.name s.header?

/-- `P` does not depend on the values of an entry and allows taking its comment away. -/
structure SheetEntry.Edits (P : SheetEntry → Prop) : Prop where
  set : ∀ e value, P e → P (e.setValue value)
  push : ∀ e value, P e → P (e.pushValue value)
  uncomment : ∀ e, P e → P (e.setComment none)

namespace Sheet

variable {P : SheetEntry → Prop} {Q : Text → Option HeaderLine → Prop} {S : Sheet} {d : Dialect}

theorem all_blank : Sheet.blank.All P Q := ⟨by simp [blank], by simp [blank], by simp [blank]⟩

theorem all_of_forall (hP : ∀ e, P e) (hQ : ∀ name header?, Q name header?) : S.All P Q :=
  ⟨fun e _ => hP e, fun _ _ e _ => hP e, fun _ _ => hQ _ _⟩

namespace All

theorem mono {P' : SheetEntry → Prop} {Q' : Text → Option HeaderLine → Prop} (h : S.All P Q)
    (hP : ∀ e, P e → P' e) (hQ : ∀ name header, Q name header → Q' name header) : S.All P' Q' :=
  ⟨fun e he => hP e (h.global e he), fun s hs e he => hP e (h.entries s hs e he),
    fun s hs => hQ _ _ (h.headers s hs)⟩

theorem and {P' : SheetEntry → Prop} {Q' : Text → Option HeaderLine → Prop} (h : S.All P Q)
    (h' : S.All P' Q') : S.All (fun e => P e ∧ P' e) fun name header? => Q name header? ∧ Q' name header? :=
  ⟨fun e he => ⟨h.global e he, h'.global e he⟩,
    fun s hs e he => ⟨h.entries s hs e he, h'.entries s hs e he⟩,
    fun s hs => ⟨h.headers s hs, h'.headers s hs⟩⟩

theorem changeSection (h : S.All P Q) (name : Text) {g : List SheetEntry → List SheetEntry}
    (hg : ∀ es, (∀ e ∈ es, P e) → ∀ e ∈ g es, P e) : (S.changeSection d name g).All P Q := by
  unfold Sheet.changeSection
  cases name.isEmpty with
  | true => exact ⟨hg _ h.global, h.entries, h.headers⟩
  | false =>
    exact ⟨h.global, Roster.forall_change h.entries fun s hs _ => hg _ (h.entries s hs),
      Roster.forall_change h.headers fun s hs _ => h.headers s hs⟩

theorem upsertSection (h : S.All P Q) {name : Text} {g : List SheetEntry → List SheetEntry}
    (hg : ∀ es, (∀ e ∈ es, P e) → ∀ e ∈ g es, P e) (hname : name ≠ [] → Q name none) :
    (S.upsertSection d name g).All P Q := by
  unfold Sheet.upsertSection
  by_cases hempty : name = []
  · rw [hempty]
    exact ⟨hg _ h.global, h.entries, h.headers⟩
  · rw [List.isEmpty_eq_false_iff.mpr hempty, if_neg Bool.false_ne_true]
    have hfresh : ∀ e ∈ g [], P e := hg [] fun e he => absurd he List.not_mem_nil
    exact ⟨h.global,
      Roster.forall_upsert h.entries (fun s hs _ => hg _ (h.entries s hs)) hfresh,
      Roster.forall_upsert h.headers (fun s hs _ => h.headers s hs) (hname hempty)⟩

theorem eraseSection (h : S.All P Q) (name : Text) : (S.eraseSection d name).All P Q := by
  unfold Sheet.eraseSection
  cases name.isEmpty with
  | true => exact ⟨fun e he => absurd he List.not_mem_nil, h.entries, h.headers⟩
  | false => exact ⟨h.global, Roster.forall_erase h.entries, Roster.forall_erase h.headers⟩

theorem mapSections (h : S.All P Q) {g : List SheetEntry → List SheetEntry}
    (hg : ∀ es, (∀ e ∈ es, P e) → ∀ e ∈ g es, P e) :
    Sheet.All P Q { S with sections := S.sections.map (.mapEntries g) } := by
  refine ⟨h.global, fun s hs => ?_, fun s hs => ?_⟩
  · obtain ⟨old, hold, rfl⟩ := List.mem_map.mp hs
    exact hg _ (h.entries old hold)
  · obtain ⟨old, hold, rfl⟩ := List.mem_map.mp hs
    exact h.headers old hold

/-! ### Steps -/

theorem setKey (hP : SheetEntry.Edits P) {key : Text} (hfresh : ∀ value, P (.fresh key value))
    (value : Text) (es : List SheetEntry) (h : ∀ e ∈ es, P e) : ∀ e ∈ d.setKey key value es, P e :=
  Roster.forall_upsert h (fun e he _ => hP.set e value (h e he)) (hfresh value)

/-- A change of a section keeps what holds of all its entries. -/
theorem onEntries (hP : SheetEntry.Edits P) (edit : SectionEdit)
    (hfresh : ∀ key ∈ edit.keys, ∀ value, P (.fresh key value))
    (hcomment : ∀ c ∈ edit.comments, ∀ e, P e → P (e.setComment (some c)))
    (es : List SheetEntry) (h : ∀ e ∈ es, P e) : ∀ e ∈ edit.onEntries d es, P e := by
  cases edit with
  | insert key value =>
    exact Roster.forall_upsert h (fun e he _ => h e he) (hfresh key (List.mem_singleton_self _) value)
  | set key value => exact setKey hP (hfresh key (List.mem_singleton_self _)) value es h
  | setScalar key x => exact setKey hP (hfresh key (List.mem_singleton_self _)) x.raw es h
  | append key value =>
    exact Roster.forall_upsert h (fun e he _ => hP.push e value (h e he))
      (hfresh key (List.mem_singleton_self _) value)
  | remove key => exact Roster.forall_erase h
  | clear => exact fun e he => absurd he List.not_mem_nil
  | pushIfPresent key value => exact Roster.forall_change h fun e he _ => hP.push e value (h e he)
  | pushAll value =>
    intro e he
    obtain ⟨old, hold, rfl⟩ := List.mem_map.mp he
    exact hP.push old value (h old hold)
  | setValue key value => exact Roster.forall_change h fun e he _ => hP.set e value (h e he)
  | setComment key comment =>
    apply Roster.forall_change h
    intro e he _
    cases comment with
    | none => exact hP.uncomment e (h e he)
    | some c => exact hcomment c (List.mem_singleton_self c) e (h e he)

/-- **A step keeps what holds of all entries and headers**, if it holds of what the step
    brings in. -/
theorem onSheet (h : S.All P Q) (hP : SheetEntry.Edits P) (step : Step)
    (hfresh : ∀ key ∈ step.keys, ∀ value, P (.fresh key value))
    (hcomment : ∀ c ∈ step.comments, ∀ e, P e → P (e.setComment (some c)))
    (hname : ∀ name ∈ step.names, name ≠ [] → Q name none) : (step.onSheet d S).All P Q := by
  cases step with
  | query q => exact h
  | edit edit =>
    cases edit with
    | set name key value =>
      exact h.upsertSection (setKey hP (hfresh key (List.mem_singleton_self _)) value)
        (hname name (List.mem_singleton_self _))
    | setScalar name key x =>
      exact h.upsertSection (setKey hP (hfresh key (List.mem_singleton_self _)) x.raw)
        (hname name (List.mem_singleton_self _))
    | remove name key => exact h.changeSection name fun es hes => Roster.forall_erase hes
    | clear => exact all_blank
    | insertSection name =>
      exact h.upsertSection (fun es hes => hes) (hname name (List.mem_singleton_self _))
    | ensureSection name =>
      exact h.upsertSection (fun es hes => hes) (hname name (List.mem_singleton_self _))
    | removeSection name => exact h.eraseSection name
    | setEverywhere key value =>
      exact h.mapSections (setKey hP (hfresh key (List.mem_singleton_self _)) value)
    | inSection name edit => exact h.changeSection name (onEntries hP edit hfresh hcomment)
    | setIfSection name key value =>
      exact h.changeSection name (setKey hP (hfresh key (List.mem_singleton_self _)) value)

/-- **After every history** that brings in nothing else, it still holds. -/
theorem after (h : S.All P Q) (hP : SheetEntry.Edits P) (steps : List Step)
    (hfresh : ∀ step ∈ steps, ∀ key ∈ step.keys, ∀ value, P (.fresh key value))
    (hcomment : ∀ step ∈ steps, ∀ c ∈ step.comments, ∀ e, P e → P (e.setComment (some c)))
    (hname : ∀ step ∈ steps, ∀ name ∈ step.names, name ≠ [] → Q name none) :
    (S.after d steps).All P Q := by
  induction steps generalizing S with
  | nil => exact h
  | cons step rest ih =>
    have hstep := h.onSheet (d := d) hP step (hfresh step List.mem_cons_self)
      (hcomment step List.mem_cons_self) (hname step List.mem_cons_self)
    exact ih hstep (fun s hs => hfresh s (List.mem_cons_of_mem _ hs))
      (fun s hs => hcomment s (List.mem_cons_of_mem _ hs))
      fun s hs => hname s (List.mem_cons_of_mem _ hs)

end All

/-! ### Lines -/

/-- Sections are only told apart by their names. -/
theorem hasSection_eq_any (name : Text) (S : Sheet) :
    S.hasSection d name =
      (name.isEmpty || (S.sections.map SheetSection.name).any fun other => d.sameSection other name) := by
  rw [hasSection, Roster.any_map fun _ _ => rfl]
  rfl

theorem names_changeSection (name : Text) (g : List SheetEntry → List SheetEntry) (S : Sheet) :
    (S.changeSection d name g).sections.map SheetSection.name = S.sections.map SheetSection.name := by
  unfold Sheet.changeSection
  cases name.isEmpty with
  | true => rfl
  | false =>
    show (Roster.change _ _ _).map _ = _
    rw [Roster.change, List.map_map]
    apply List.map_congr_left
    intro s _
    show (if d.isSection name s then s.mapEntries g else s).name = s.name
    by_cases hs : d.isSection name s = true
    · rw [if_pos hs]; rfl
    · rw [if_neg hs]

end Sheet

/-- What holds of all entries and headers of a draft, whose lines go to a section that is there. -/
structure Draft.All (d : Dialect) (P : SheetEntry → Prop) (Q : Text → Option HeaderLine → Prop)
    (W : Text → Prop) (D : Draft) : Prop where
  sheet : D.sheet.All P Q
  target : ∀ name, D.target = .inSection name → D.sheet.hasSection d name = true
  waiting : ∀ l ∈ D.waiting, W l

namespace Draft

variable {d : Dialect} {P : SheetEntry → Prop} {Q : Text → Option HeaderLine → Prop}
  {W : Text → Prop} {D : Draft}

theorem all_start : start.All d P Q W :=
  ⟨Sheet.all_blank, by rintro name ⟨⟩; rfl, fun _ h => absurd h List.not_mem_nil⟩

/-- What a line must be like for `P`, `Q` and `W` to go on. -/
structure Allows (d : Dialect) (P : SheetEntry → Prop) (Q : Text → Option HeaderLine → Prop)
    (W : Text → Prop) (raw : Text) (content : Content) : Prop where
  blank : content = .blank → W raw
  comment : ∀ c, content = .comment c → W raw
  header : ∀ name c waiting, content = .header name c → name ≠ [] → (∀ l ∈ waiting, W l) →
    Q name (some ⟨waiting, raw, c⟩)
  fresh : ∀ key value c waiting, content = .entry key value c → (∀ l ∈ waiting, W l) →
    P (.ofLine key ⟨waiting, raw, value, c⟩)
  again : ∀ key value c waiting e, content = .entry key value c → (∀ l ∈ waiting, W l) → P e →
    d.isKey key e = true → P (e.file d.keyPolicy ⟨waiting, raw, value, c⟩)

namespace All

/-- A header line makes a section that is not there yet. -/
theorem acceptHeader (h : D.All d P Q W) {raw name : Text} {c : Option Comment}
    (hline : Allows d P Q W raw (.header name c)) :
    (D.acceptHeader d raw name c).1.All d P Q W := by
  unfold Draft.acceptHeader
  cases hhas : D.sheet.hasSection d name with
  | true =>
    rw [if_pos rfl]
    cases d.sectionPolicy with
    | merge => exact ⟨h.sheet, by rintro other ⟨⟩; exact hhas, h.waiting⟩
    | reject => exact ⟨h.sheet, by rintro other ⟨⟩, h.waiting⟩
  | false =>
    have hname : name ≠ [] := (Sheet.of_hasSection_eq_false hhas).1
    refine ⟨⟨h.sheet.global, ?_, ?_⟩, ?_, fun _ hl => absurd hl List.not_mem_nil⟩
    · intro s hs
      rcases List.mem_append.mp hs with hs | hs
      · exact h.sheet.entries s hs
      · rw [List.mem_singleton.mp hs]
        intro e he
        exact absurd he List.not_mem_nil
    · intro s hs
      rcases List.mem_append.mp hs with hs | hs
      · exact h.sheet.headers s hs
      · rw [List.mem_singleton.mp hs]
        exact hline.header name c D.waiting rfl hname h.waiting
    · rintro other ⟨⟩
      have hself : d.isSection name ⟨name, some ⟨D.waiting, raw, c⟩, []⟩ = true :=
        d.sameSection_refl name
      simp [Sheet.hasSection, Sheet.pushHeader, hself]

/-- An entry line changes the section that lines go to. -/
theorem acceptEntry (h : D.All d P Q W) {raw key value : Text} {c : Option Comment}
    (hline : Allows d P Q W raw (.entry key value c)) :
    (D.acceptEntry d raw key value c).1.All d P Q W := by
  cases htarget : D.target with
  | discard =>
    simp only [Draft.acceptEntry, htarget]
    exact h
  | inSection name =>
    cases hrefuse : D.sheet.hasKey d name key && decide (d.keyPolicy = .reject) with
    | true =>
      simp only [Draft.acceptEntry, htarget, hrefuse]
      exact h
    | false =>
      have hhas := h.target name htarget
      have hput : ∀ es : List SheetEntry, (∀ e ∈ es, P e) →
          ∀ e ∈ d.putLine key ⟨D.waiting, raw, value, c⟩ es, P e := by
        intro es hes
        exact Roster.forall_upsert hes
          (fun e he hk => hline.again key value c D.waiting e rfl h.waiting (hes e he) hk)
          (hline.fresh key value c D.waiting rfl h.waiting)
      simp only [Draft.acceptEntry, htarget, hrefuse, Sheet.upsertSection_of_hasSection hhas,
        Bool.false_eq_true, if_false]
      refine ⟨h.sheet.changeSection name hput, ?_, fun _ hl => absurd hl List.not_mem_nil⟩
      -- the section that lines go to is still there: no name has changed
      rintro other ⟨⟩
      rw [Sheet.hasSection_eq_any, Sheet.names_changeSection, ← Sheet.hasSection_eq_any]
      exact hhas

/-- **A line keeps what holds of all entries and headers.** -/
theorem accept (h : D.All d P Q W) {raw : Text} {content : Content}
    (hline : Allows d P Q W raw content) : (D.accept d raw content).1.All d P Q W := by
  have hwait : W raw → (D.wait raw).All d P Q W := by
    intro hraw
    refine ⟨h.sheet, h.target, fun l hl => ?_⟩
    rcases List.mem_append.mp hl with hl | hl
    · exact h.waiting l hl
    · rw [List.mem_singleton.mp hl]
      exact hraw
  cases content with
  | blank => exact hwait (hline.blank rfl)
  | comment c => exact hwait (hline.comment c rfl)
  | header name c => exact h.acceptHeader hline
  | entry key value c => exact h.acceptEntry hline
  | malformed fault => exact h

/-- **A text keeps what holds of all entries and headers**, if each of its lines does. -/
theorem read (h : D.All d P Q W) {ls : List Text}
    (hlines : ∀ raw ∈ ls, Allows d P Q W raw (Line.scan d raw).1) : (D.read d ls).1.All d P Q W := by
  induction ls generalizing D with
  | nil => exact h
  | cons raw rest ih =>
    exact ih (h.accept (hlines raw List.mem_cons_self)) fun l hl => hlines l (List.mem_cons_of_mem _ hl)

end All
end Draft
end IniFile
