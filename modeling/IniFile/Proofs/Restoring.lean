/-
  Restoring what a document says restores its text.

  Captured lines are filed once, when a text is read, and values, comments and new keys come and go
  without touching them.  So it does not matter by which way a document has come to say what it says:
  as long as nothing that was read is taken out, its text depends on what it says now and on what
  was captured then.

  1. **Rosters that go on** — no member of an older roster is missing, and every member stands in a
     given relation to the older one of its label, if there was one (`Roster.GoesOn`).  Changes,
     new members and the loss of other members keep this.
  2. **Entries** — an entry has the lines of the older entry of its key, and a new one has none.
  3. **Sheets** — likewise a section has the header of the older section of its name, and its
     entries go on from the entries of that (`Sheet.GoesOn`).
  4. **Steps** — what takes nothing of the older sheet out (`Step.takesFrom`) lets a sheet go on from
     it (`Sheet.GoesOn.onSheet`), and so do any number of such steps (`Sheet.GoesOn.after`).
  5. **What is said determines the sheet** — of two sheets that go on from one and have the same
     content, neither has a line that the other has not (`Sheet.GoesOn.eq_of_content`).
  6. **With counters in words** — as long as none overflows, and what happens otherwise.
-/
import IniFile.Proofs.Renewal
import IniFile.Proofs.WrapAround

namespace IniFile

/-! ## Rosters that go on -/

namespace Roster

variable {α β : Type}

/-- A roster goes on from an older one: every label of the older one is still there, and `R` relates
    each member to the older one of its label. -/
structure GoesOn (label : α → Text) (R : Option α → α → Prop) (old l : List α) : Prop where
  kept : ∀ o ∈ old, l.any (fun a => label a == label o) = true
  members : ∀ a ∈ l, R (old.find? fun o => label o == label a) a

namespace GoesOn

variable {label : α → Text} {R : Option α → α → Prop} {old l : List α} {f : α → α}

theorem nil : GoesOn label R [] [] :=
  ⟨fun _ ho => absurd ho List.not_mem_nil, fun _ ha => absurd ha List.not_mem_nil⟩

/-- Every roster of distinct labels goes on from itself. -/
theorem refl (h : (old.map label).Nodup) (hR : ∀ o ∈ old, R (some o) o) :
    GoesOn label R old old := by
  refine ⟨fun o ho => List.any_eq_true.mpr ⟨o, ho, beq_self_eq_true _⟩, fun o ho => ?_⟩
  rw [find?_eq_some_of_mem h ho]
  exact hR o ho

/-- Members change and keep their labels. -/
theorem change (h : GoesOn label R old l) {p : α → Bool} (hlabel : ∀ a, label (f a) = label a)
    (hR : ∀ a, p a = true → R (old.find? fun o => label o == label a) a →
      R (old.find? fun o => label o == label a) (f a)) :
    GoesOn label R old (Roster.change p f l) := by
  constructor
  · intro o ho
    obtain ⟨a, ha, hsame⟩ := List.any_eq_true.mp (h.kept o ho)
    refine List.any_eq_true.mpr ⟨_, List.mem_map_of_mem ha, ?_⟩
    by_cases hp : p a = true
    · rw [if_pos hp, hlabel]; exact hsame
    · rw [if_neg hp]; exact hsame
  · refine forall_change h.members fun a ha hp => ?_
    rw [hlabel]
    exact hR a hp (h.members a ha)

theorem map (h : GoesOn label R old l) (hlabel : ∀ a, label (f a) = label a)
    (hR : ∀ o? a, R o? a → R o? (f a)) : GoesOn label R old (l.map f) :=
  h.change (p := fun _ => true) hlabel fun a _ => hR _ a

/-- A member comes with a label that was not there before. -/
theorem concat (h : GoesOn label R old l) {fresh : α}
    (hnew : ∀ o ∈ old, (label o == label fresh) = false) (hR : R none fresh) :
    GoesOn label R old (l ++ [fresh]) := by
  constructor
  · intro o ho
    rw [List.any_append, h.kept o ho, Bool.true_or]
  · intro a ha
    rcases List.mem_append.mp ha with ha | ha
    · exact h.members a ha
    · obtain rfl := List.mem_singleton.mp ha
      rw [List.find?_eq_none.mpr fun o ho => by rw [hnew o ho]; exact Bool.false_ne_true]
      exact hR

/-- The member of a label changes, or one comes at the end.  Then the label is new to the older
    roster too, since nobody of that is missing. -/
theorem upsert (h : GoesOn label R old l) {x : Text} {fresh : α}
    (hlabel : ∀ a, label (f a) = label a) (hR : ∀ o? a, R o? a → R o? (f a))
    (hfresh : label fresh = x) (hnone : R none fresh) :
    GoesOn label R old (Roster.upsert (fun a => label a == x) f fresh l) := by
  cases hany : l.any fun a => label a == x with
  | true =>
    rw [upsert_of_any f fresh hany]
    exact h.change hlabel fun a _ => hR _ a
  | false =>
    rw [upsert_of_not_any f fresh hany]
    refine h.concat (fun o ho => ?_) hnone
    rw [hfresh]
    refine eq_false_of_ne_true fun hsame => ?_
    have hkept := h.kept o ho
    rw [eq_of_beq hsame, hany] at hkept
    exact Bool.noConfusion hkept

/-- Members go whose label was not there before. -/
theorem erase (h : GoesOn label R old l) {x : Text} (hold : ∀ o ∈ old, (label o == x) = false) :
    GoesOn label R old (Roster.erase (fun a => label a == x) l) := by
  refine ⟨fun o ho => ?_, forall_erase h.members⟩
  obtain ⟨a, ha, hsame⟩ := List.any_eq_true.mp (h.kept o ho)
  refine List.any_eq_true.mpr ⟨a, List.mem_filter.mpr ⟨ha, ?_⟩, hsame⟩
  show (!(label a == x)) = true
  rw [eq_of_beq hsame, hold o ho]
  rfl

/-- **Rosters that go on from one are equal if they look equal**, when a look at a member tells its
    label, and tells it from the others that go on from the same older one. -/
theorem eq_of_map_eq {v : α → β} (hlabel : ∀ a b, v a = v b → label a = label b)
    (hR : ∀ o? a b, R o? a → R o? b → v a = v b → a = b) {m : List α} (hl : GoesOn label R old l)
    (hm : GoesOn label R old m) (hv : l.map v = m.map v) : l = m := by
  obtain ⟨-, hl⟩ := hl
  obtain ⟨-, hm⟩ := hm
  induction l generalizing m with
  | nil => exact (List.map_eq_nil_iff.mp hv.symm).symm
  | cons a rest ih =>
    obtain ⟨b, rest', rfl, hab, hrest⟩ := List.map_eq_cons_iff.mp hv.symm
    obtain ⟨ha, hl⟩ := List.forall_mem_cons.mp hl
    obtain ⟨hb, hm⟩ := List.forall_mem_cons.mp hm
    rw [hlabel b a hab] at hb
    rw [hR _ a b ha hb hab.symm, ih hrest.symm hl hm]

end GoesOn
end Roster

/-! ## Entries -/

/-- The entry has the lines of the older one, and none if there was no older one. -/
def SheetEntry.GoesOn (old? : Option SheetEntry) (e : SheetEntry) : Prop :=
  e.lines = (old?.map SheetEntry.lines).getD []

namespace Dialect

variable {d : Dialect} {old : List SheetEntry}

/-- Entries go on from older ones, key by key. -/
def EntriesGoOn (d : Dialect) (old es : List SheetEntry) : Prop :=
  Roster.GoesOn (fun e => d.foldKey e.key) SheetEntry.GoesOn old es

/-- A change of entries lets them go on from older ones. -/
def Carries (d : Dialect) (old : List SheetEntry) (g : List SheetEntry → List SheetEntry) : Prop :=
  ∀ es, d.EntriesGoOn old es → d.EntriesGoOn old (g es)

theorem EntriesGoOn.refl (h : d.DistinctKeys old) : d.EntriesGoOn old old :=
  Roster.GoesOn.refl h fun _ _ => rfl

theorem carries_setKey (d : Dialect) (old : List SheetEntry) (key value : Text) :
    d.Carries old (d.setKey key value) :=
  fun _ h => h.upsert (fun _ => rfl) (fun _ _ he => he) rfl rfl

end Dialect

/-- Does the change of a section take one of the entries out? -/
def SectionEdit.takesFrom (d : Dialect) (edit : SectionEdit) (es : List SheetEntry) : Bool :=
  match edit with
  | .remove key => es.any (d.isKey key)
  | .clear => !es.isEmpty
  | _ => false

/-- **A change of a section that takes none of the older entries out** lets entries go on from
    them. -/
theorem SectionEdit.carries {d : Dialect} {edit : SectionEdit} {old : List SheetEntry}
    (h : edit.takesFrom d old = false) : d.Carries old (edit.onEntries d) := by
  intro es hes
  cases edit with
  | insert key value => exact hes.upsert (fun _ => rfl) (fun _ _ he => he) rfl rfl
  | set key value => exact d.carries_setKey old key value es hes
  | setScalar key x => exact d.carries_setKey old key x.raw es hes
  | append key value => exact hes.upsert (fun _ => rfl) (fun _ _ he => he) rfl rfl
  | remove key => exact hes.erase fun o ho => eq_false_of_ne_true (List.any_eq_false.mp h o ho)
  | clear =>
    obtain rfl : old = [] := List.isEmpty_iff.mp (Bool.not_eq_false' _ ▸ h)
    exact Roster.GoesOn.nil
  | pushIfPresent key value => exact hes.change (fun _ => rfl) fun _ _ he => he
  | pushAll value => exact hes.map (fun _ => rfl) fun _ _ he => he
  | setValue key value => exact hes.change (fun _ => rfl) fun _ _ he => he
  | setComment key comment => exact hes.change (fun _ => rfl) fun _ _ he => he

/-! ## Sheets -/

/-- The entries of the section of a name; none if there is no such section. -/
def Sheet.entriesOf (d : Dialect) (name : Text) (S : Sheet) : List SheetEntry :=
  if name.isEmpty then S.global
  else ((S.sections.find? (d.isSection name)).map SheetSection.entries).getD []

/-- The section has the header of the older one, and its entries go on from those of the older
    one. -/
structure SheetSection.GoesOn (d : Dialect) (old? : Option SheetSection) (s : SheetSection) : Prop where
  header : s.header? = old?.bind SheetSection.header?
  entries : d.EntriesGoOn ((old?.map SheetSection.entries).getD []) s.entries

theorem SheetSection.GoesOn.mapEntries {d : Dialect} {old? : Option SheetSection} {s : SheetSection}
    {g : List SheetEntry → List SheetEntry} (h : s.GoesOn d old?)
    (hg : d.Carries ((old?.map SheetSection.entries).getD []) g) : (s.mapEntries g).GoesOn d old? :=
  ⟨h.header, hg s.entries h.entries⟩

/-- A sheet goes on from an older one: nothing of that is missing, and what is there has the lines
    that it had, if it was there before, and none otherwise. -/
structure Sheet.GoesOn (d : Dialect) (old S : Sheet) : Prop where
  global : d.EntriesGoOn old.global S.global
  sections : Roster.GoesOn (fun s => d.foldSection s.name) (SheetSection.GoesOn d) old.sections
    S.sections

/-! ## Steps -/

/-- Does the step take an entry or a section of the sheet out?  Clearing the document takes out
    whatever there is. -/
def Step.takesFrom (d : Dialect) (step : Step) (S : Sheet) : Bool :=
  match step with
  | .edit .clear => true
  | .edit (.remove name key) => (S.entriesOf d name).any (d.isKey key)
  | .edit (.removeSection name) =>
    if name.isEmpty then !S.global.isEmpty else S.sections.any (d.isSection name)
  | .edit (.inSection name change) => change.takesFrom d (S.entriesOf d name)
  | _ => false

namespace Sheet.GoesOn

variable {d : Dialect} {old S : Sheet} {name : Text} {g : List SheetEntry → List SheetEntry}

theorem refl (h : S.Distinct d) : S.GoesOn d S :=
  ⟨.refl h.global, .refl h.sections fun s hs => ⟨rfl, .refl (h.entries s hs)⟩⟩

/-- A section changes in a way that lets its entries go on. -/
theorem changeSection (h : old.GoesOn d S) (hg : d.Carries (old.entriesOf d name) g) :
    old.GoesOn d (S.changeSection d name g) := by
  unfold Sheet.changeSection
  unfold entriesOf at hg
  cases hname : name.isEmpty with
  | true =>
    rw [hname, if_pos rfl] at hg
    exact ⟨hg S.global h.global, h.sections⟩
  | false =>
    rw [hname, if_neg Bool.false_ne_true] at hg
    refine ⟨h.global, h.sections.change (fun _ => rfl) fun s hs hsection => ?_⟩
    -- the older section that is compared with is the one of the name given
    refine hsection.mapEntries ?_
    have hfold : d.foldSection s.name = d.foldSection name := eq_of_beq hs
    rw [hfold]
    exact hg

/-- A section changes or is made. -/
theorem upsertSection (h : old.GoesOn d S) (name : Text) (hg : ∀ es, d.Carries es g) :
    old.GoesOn d (S.upsertSection d name g) := by
  cases hhas : S.hasSection d name with
  | true =>
    rw [upsertSection_of_hasSection hhas]
    exact h.changeSection (hg _)
  | false =>
    obtain ⟨hname, -⟩ := of_hasSection_eq_false hhas
    unfold Sheet.upsertSection
    rw [List.isEmpty_eq_false_iff.mpr hname, if_neg Bool.false_ne_true]
    refine ⟨h.global, h.sections.upsert (fun _ => rfl) ?_ rfl ⟨rfl, hg [] [] .nil⟩⟩
    exact fun _ _ hs => hs.mapEntries (hg _)

/-- A section goes that was not there before. -/
theorem eraseSection (h : old.GoesOn d S)
    (hold : (if name.isEmpty then !old.global.isEmpty else old.sections.any (d.isSection name)) =
      false) : old.GoesOn d (S.eraseSection d name) := by
  unfold Sheet.eraseSection
  cases hname : name.isEmpty with
  | true =>
    rw [hname, if_pos rfl, Bool.not_eq_false', List.isEmpty_iff] at hold
    refine ⟨?_, h.sections⟩
    rw [hold]
    exact Roster.GoesOn.nil
  | false =>
    rw [hname, if_neg Bool.false_ne_true] at hold
    exact ⟨h.global, h.sections.erase fun s hs => eq_false_of_ne_true (List.any_eq_false.mp hold s hs)⟩

/-- **A step that takes nothing of the older sheet out** lets a sheet go on from it. -/
theorem onSheet (h : old.GoesOn d S) {step : Step} (hstep : step.takesFrom d old = false) :
    old.GoesOn d (step.onSheet d S) := by
  have hset : ∀ key value es, d.Carries es (d.setKey key value) :=
    fun key value es => d.carries_setKey es key value
  cases step with
  | query q => exact h
  | edit edit =>
    cases edit with
    | set name key value => exact h.upsertSection name (hset key value)
    | setScalar name key x => exact h.upsertSection name (hset key x.raw)
    | remove name key =>
      have hremove : (SectionEdit.remove key).takesFrom d (old.entriesOf d name) = false := hstep
      exact h.changeSection (SectionEdit.carries hremove)
    | clear => exact Bool.noConfusion hstep
    | insertSection name => exact h.upsertSection name fun _ _ hes => hes
    | ensureSection name => exact h.upsertSection name fun _ _ hes => hes
    | removeSection name => exact h.eraseSection hstep
    | setEverywhere key value =>
      exact ⟨h.global, h.sections.map (fun _ => rfl) fun _ _ hs => hs.mapEntries (hset key value _)⟩
    | inSection name change => exact h.changeSection (SectionEdit.carries hstep)
    | setIfSection name key value => exact h.changeSection (hset key value _)

/-- **So do any number of such steps.** -/
theorem after (h : old.GoesOn d S) {steps : List Step}
    (hsteps : ∀ step ∈ steps, step.takesFrom d old = false) : old.GoesOn d (S.after d steps) := by
  induction steps generalizing S with
  | nil => exact h
  | cons step rest ih =>
    obtain ⟨hstep, hrest⟩ := List.forall_mem_cons.mp hsteps
    exact ih (h.onSheet hstep) hrest

end Sheet.GoesOn

/-! ## What is said determines the sheet -/

/-- Entries that go on from one entry, and mean the same, have the same lines. -/
theorem Dialect.EntriesGoOn.eq_of_content {d : Dialect} {old es fs : List SheetEntry}
    (hes : d.EntriesGoOn old es) (hfs : d.EntriesGoOn old fs)
    (hcontent : es.map SheetEntry.toEntryContent = fs.map SheetEntry.toEntryContent) : es = fs := by
  refine Roster.GoesOn.eq_of_map_eq (fun e f hsame => ?_) (fun old? e f he hf hsame => ?_) hes hfs hcontent
  · exact congrArg (fun c : EntryContent => d.foldKey c.key) hsame
  · obtain ⟨e, lines⟩ := e
    obtain ⟨f, lines'⟩ := f
    obtain rfl : e = f := hsame
    obtain rfl : lines = lines' := Eq.trans he (Eq.symm hf)
    rfl

namespace Sheet

variable {d : Dialect} {old S T : Sheet}

/-- What stands around the sections of a sheet. -/
def edges (S : Sheet) : List Text × Bool × Bool := (S.trailing, S.finalNewline, S.bom)

/-- It stays unless the document is cleared, which would take everything out. -/
theorem edges_after_of_spared {steps : List Step}
    (hsteps : ∀ step ∈ steps, step.takesFrom d old = false) (S : Sheet) :
    (S.after d steps).edges = S.edges := by
  have hclear : ∀ step ∈ steps, step ≠ .edit .clear := by
    rintro step hstep rfl
    exact Bool.noConfusion (hsteps _ hstep)
  obtain ⟨htrailing, hclosed, hbom⟩ := edges_after (d := d) hclear S
  rw [edges, htrailing, hclosed, hbom]
  rfl

/-- **Two sheets that go on from one and have the same content** are equal, if what stands around
    their sections is. -/
theorem GoesOn.eq_of_content (hS : old.GoesOn d S) (hT : old.GoesOn d T)
    (hcontent : S.content = T.content) (hedges : S.edges = T.edges) : S = T := by
  have hglobal : S.global = T.global :=
    hS.global.eq_of_content hT.global (congrArg (fun c => c.global.entries) hcontent)
  have hsections : S.sections = T.sections := by
    refine Roster.GoesOn.eq_of_map_eq (fun s t hsame => ?_) (fun old? s t hs ht hsame => ?_)
      hS.sections hT.sections (congrArg DocumentContent.sections hcontent)
    · exact congrArg (fun c : SectionContent => d.foldSection c.name) hsame
    · have hentries := hs.entries.eq_of_content ht.entries (congrArg SectionContent.entries hsame)
      have hname : s.name = t.name := congrArg SectionContent.name hsame
      have hheader : s.header? = t.header? := hs.header.trans ht.header.symm
      obtain ⟨_, _, _⟩ := s
      obtain ⟨_, _, _⟩ := t
      obtain rfl := hname
      obtain rfl := hheader
      obtain rfl := hentries
      rfl
  obtain ⟨_, _, _, _, _⟩ := S
  obtain ⟨_, _, _, _, _⟩ := T
  obtain rfl := hglobal
  obtain rfl := hsections
  cases hedges
  rfl

end Sheet

/-! ## Documents that were read -/

namespace Document

variable {d : Dialect} {text : Text} {p : Parsed} {steps steps' : List Step}

/-- **It does not matter how a document has come to say what it says**: after two histories that take
    nothing out of what was read, documents that say the same are on one sheet. -/
theorem sameSheet_of_content_eq (h : parse d text = .ok p)
    (hsteps : ∀ step ∈ steps, step.takesFrom d p.document.sheet = false)
    (hsteps' : ∀ step ∈ steps', step.takesFrom d p.document.sheet = false)
    (hcontent : (p.document.after steps).content = (p.document.after steps').content) :
    (p.document.after steps).SameSheet (p.document.after steps') := by
  have horigin : p.document.Origin d := .parsed h
  have hgoesOn : p.document.sheet.GoesOn d p.document.sheet := by
    obtain ⟨hsound, hdialect⟩ := horigin.sound
    exact .refl (hdialect ▸ hsound.distinct_sheet)
  obtain ⟨hsound, hdialect, hsheet⟩ := horigin.after steps
  obtain ⟨hsound', hdialect', hsheet'⟩ := horigin.after steps'
  refine ⟨hsound, hsound', hdialect.trans hdialect'.symm, ?_⟩
  rw [← hsound.content_eq, ← hsound'.content_eq, hsheet, hsheet'] at hcontent
  rw [hsheet, hsheet']
  refine (hgoesOn.after hsteps).eq_of_content (hgoesOn.after hsteps') hcontent ?_
  rw [Sheet.edges_after_of_spared hsteps, Sheet.edges_after_of_spared hsteps']

end Document

/-! ## With counters in words -/

/-- **Restoring what a document says restores its text.**  Whatever a history changed, as long as it
    took out nothing that was read and no counter overflowed: if the document says again what it said,
    then it is written again as it was, in either style and with either line ending.  Programs do not
    differ in this, whatever they do on overflow. -/
theorem restored_content_restores_text {d : Dialect} {text : Text} {p : Parsed} {last : Document}
    {steps : List Step} (h : parseInWords .stops d text = some (.ok p))
    (hlast : p.document.afterInWords .stops steps = some last)
    (hsteps : ∀ step ∈ steps, step.takesFrom d p.document.sheet = false)
    (hcontent : last.content = p.document.content) (o : Overflow) :
    (parseInWords o d text = some (.ok p) ∧ p.document.afterInWords o steps = some last) ∧
      ∀ rendering, last.render rendering = p.document.render rendering := by
  obtain ⟨hparse, hread⟩ := parseInWords_of_stops h
  obtain ⟨rfl, hevery⟩ := Document.afterInWords_of_stops hlast
  have hsame : (p.document.after steps).SameSheet (p.document.after []) :=
    Document.sameSheet_of_content_eq hparse hsteps (fun _ hstep => absurd hstep List.not_mem_nil)
      hcontent
  exact ⟨⟨hread o, hevery o⟩, hsame.render_eq⟩

/-- A key with two values gets one value and then two again, comments go and come back, and a key and
    a section are added and removed. -/
theorem restored_content_restores_text_sample :
    let d : Dialect := { Dialect.standard with keyPolicy := .append }
    let text := "; a\nk  = 1\n; b\nk=\"2\" ;z\n[s]\nm =  x\n; end".toList
    let steps : List Step :=
      [.edit (.set [] ['k'] ['9']), .edit (.inSection [] (.setComment ['k'] none)),
        .edit (.set ['s'] ['n'] ['0']), .edit (.set ['t'] ['k'] ['0']),
        .edit (.inSection [] (.setValue ['k'] ['1'])), .edit (.removeSection ['t']),
        .edit (.inSection ['s'] (.remove ['n'])), .edit (.inSection [] (.append ['k'] ['2'])),
        .edit (.inSection [] (.setComment ['k'] (some (.of ';' ['z']))))]
    ∃ p last, parseInWords .wraps d text = some (.ok p) ∧
      p.document.afterInWords .wraps steps = some last ∧ last.render ⟨.roundTrip, .lf⟩ = text := by
  intro d text steps
  have hread : (parseInWords .stops d text).any (fun read => read.toOption.any fun p =>
      steps.all (fun step => !step.takesFrom d p.document.sheet) &&
        (p.document.afterInWords .stops steps).any fun last =>
          last.content == p.document.content && p.document.render ⟨.roundTrip, .lf⟩ == text) = true := by
    decide +kernel
  obtain ⟨p, hparse, htest⟩ := exists_parseInWords_of_any hread
  obtain ⟨hsteps, htest⟩ := Bool.and_eq_true_iff.mp htest
  obtain ⟨last, hlast, htest⟩ := (Option.any_eq_true _ _).mp htest
  obtain ⟨hcontent, htext⟩ := Bool.and_eq_true_iff.mp htest
  have hspared : ∀ step ∈ steps, step.takesFrom d p.document.sheet = false :=
    fun step hstep => Bool.not_eq_true' _ ▸ List.all_eq_true.mp hsteps step hstep
  obtain ⟨⟨hwraps, hedited⟩, hrender⟩ :=
    restored_content_restores_text hparse hlast hspared (eq_of_beq hcontent) .wraps
  exact ⟨p, last, hwraps, hedited, (hrender ⟨.roundTrip, .lf⟩).trans (eq_of_beq htext)⟩

/-- Where a counter has wrapped around, a new entry can have the number of one that was read, and when
    it is removed, the other one has lost its line: what the document says is restored, and its text
    is not. -/
theorem text_not_restored :
    let steps := Step.churn ['x'] 4294967295 ++
      [.edit (.set [] ['y'] ['1']), .edit (.remove [] ['y'])]
    ∃ p last, parseInWords .wraps .standard "a=1\n".toList = some (.ok p) ∧
      p.document.afterInWords .wraps steps = some last ∧
      (∀ step ∈ steps, step.takesFrom .standard p.document.sheet = false) ∧
      last.content = p.document.content ∧
      p.document.render ⟨.roundTrip, .lf⟩ = "a=1\n".toList ∧
      last.render ⟨.roundTrip, .lf⟩ = "a = 1\n".toList := by
  intro steps
  have hread : (parseInWords .wraps .standard "a=1\n".toList).any (fun read =>
      read.toOption.any fun p =>
        (!p.document.global.contains ['x'] && p.document.global.nextEntry + 4294967295 == UInt32.size) &&
          ((p.document.renumbered 0).afterInWords .wraps
            [.edit (.set [] ['y'] ['1']), .edit (.remove [] ['y'])]).any fun last =>
              (last.content == p.document.content &&
                p.document.render ⟨.roundTrip, .lf⟩ == "a=1\n".toList) &&
              (last.render ⟨.roundTrip, .lf⟩ == "a = 1\n".toList &&
                [Step.edit (.set [] ['x'] ['9']), .edit (.inSection [] (.remove ['x'])),
                  .edit (.set [] ['y'] ['1']), .edit (.remove [] ['y'])].all fun step =>
                    !step.takesFrom .standard p.document.sheet)) = true := by
    decide +kernel
  obtain ⟨p, last, hp, hlast, htest⟩ := exists_around hread
  obtain ⟨hbefore, hafter⟩ := Bool.and_eq_true_iff.mp htest
  obtain ⟨hcontent, hrender⟩ := Bool.and_eq_true_iff.mp hbefore
  obtain ⟨hlost, hspares⟩ := Bool.and_eq_true_iff.mp hafter
  refine ⟨p, last, hp, hlast, fun step hstep => ?_, eq_of_beq hcontent, eq_of_beq hrender,
    eq_of_beq hlost⟩
  exact Bool.not_eq_true' _ ▸ List.all_eq_true.mp hspares step (Step.mem_around hstep)

end IniFile
