/-
  Runs with counters in words.

  A run with counters in words is the plain run for as long as no counter overflows, and a program
  that stops on overflow is the judge of that: if it gets to the end, then so does one that wraps
  around, and both get to where counting without end gets.  Short texts and histories never overflow.

  1. **What is counted** — a step or a line moves no counter by more than one (`Below.run`,
     `Below.accept`).
  2. **Words that hold** — settling changes nothing while every counter is below the bound.
  3. **Runs that do not overflow** — histories, texts, and documents at their origin.
  4. **Few lines and steps** — with fewer than 2^32 of them nothing overflows.
  5. **Reading again** — reading gives out no more numbers than there are sections and entries in the
     end, so a document can be read if another one can count as many (`parseInWords_of_sizes`).
-/
import Mathlib.Data.List.Perm.Subperm
import Mathlib.Data.List.Range
import IniFile.Document.Counters
import IniFile.Proofs.Removals

namespace IniFile

/-! ## What is counted -/

namespace Section

variable {s s' : Section}

theorem nextEntry_upsert (s : Section) (key value : Text) (change : Entry → Entry) :
    s.nextEntry ≤ (s.upsert key value change).nextEntry ∧
      (s.upsert key value change).nextEntry ≤ s.nextEntry + 1 := by
  show s.nextEntry ≤ (if s.contains key then s.nextEntry else s.nextEntry + 1) ∧
    (if s.contains key then s.nextEntry else s.nextEntry + 1) ≤ s.nextEntry + 1
  split <;> omega

theorem nextEntry_store (s : Section) (policy : KeyPolicy) (key value : Text) :
    s.nextEntry ≤ (s.store policy key value).nextEntry ∧
      (s.store policy key value).nextEntry ≤ s.nextEntry + 1 := by
  cases policy <;> exact s.nextEntry_upsert key value _

/-- **A change of a section** moves its counter by one at most. -/
theorem nextEntry_run {edit : SectionEdit} {answer : Answer} (h : edit.run s = .ok (answer, s')) :
    s'.nextEntry ≤ s.nextEntry + 1 := by
  have honEntry : ∀ (key : Text) (change : Entry → Entry),
      SectionEdit.onEntry s key change = .ok (answer, s') → s'.nextEntry ≤ s.nextEntry + 1 := by
    intro key change hrun
    obtain ⟨e, -, hnext⟩ := Except.exists_of_map_eq_ok hrun
    rw [← (Prod.mk.inj hnext).2]
    exact Nat.le_succ _
  cases edit with
  | insert key value =>
    obtain ⟨made, hinsert, hnext⟩ := Except.exists_of_map_eq_ok h
    rw [← (Prod.mk.inj hnext).2]
    unfold Section.insert at hinsert
    split at hinsert
    · exact absurd hinsert nofun
    · rw [← Except.ok.inj hinsert]
      exact (s.nextEntry_upsert key value _).2
  | set key value =>
    obtain ⟨-, rfl⟩ := Prod.mk.inj (Except.ok.inj h)
    exact (s.nextEntry_upsert key value _).2
  | setScalar key x =>
    obtain ⟨-, rfl⟩ := Prod.mk.inj (Except.ok.inj h)
    exact (s.nextEntry_upsert key x.raw _).2
  | append key value =>
    obtain ⟨-, rfl⟩ := Prod.mk.inj (Except.ok.inj h)
    exact (s.nextEntry_upsert key value _).2
  | remove key =>
    obtain ⟨removed, hremove, hnext⟩ := Except.exists_of_map_eq_ok h
    obtain ⟨e, -, hrest⟩ := Except.exists_of_map_eq_ok hremove
    rw [← (Prod.mk.inj hnext).2, ← hrest]
    exact Nat.le_succ _
  | clear | pushIfPresent | pushAll =>
    obtain ⟨-, rfl⟩ := Prod.mk.inj (Except.ok.inj h)
    exact Nat.le_succ _
  | setValue key value => exact honEntry key _ h
  | setComment key comment => exact honEntry key _ h

end Section

namespace Document

variable {doc next : Document} {name : Text} {change : Section → Section} {n m : Nat}

theorem below_empty (d : Dialect) : (empty d).Below 2 :=
  ⟨Nat.lt_succ_self 1, Nat.zero_lt_two, fun _ hs => absurd hs List.not_mem_nil⟩

namespace Below

theorem mono (h : doc.Below n) (hle : n ≤ m) : doc.Below m :=
  ⟨Nat.lt_of_lt_of_le h.sections hle, Nat.lt_of_lt_of_le h.global hle,
    fun s hs => Nat.lt_of_lt_of_le (h.entries s hs) hle⟩

theorem of_section? (h : doc.Below n) {s : Section} (hs : doc.section? name = some s) :
    s.nextEntry < n := by
  unfold section? at hs
  split at hs
  · rw [← Option.some.inj hs]
    exact h.global
  · exact h.entries s (NameTable.mem_values_of_get?_eq_some hs)

theorem modifySection (h : doc.Below n)
    (hchange : ∀ s, doc.section? name = some s → (change s).nextEntry < n) :
    (doc.modifySection name change).Below n := by
  unfold section? at hchange
  unfold Document.modifySection
  cases hname : name.isEmpty with
  | true =>
    rw [hname, if_pos rfl] at hchange
    exact ⟨h.sections, hchange _ rfl, h.entries⟩
  | false =>
    rw [hname, if_neg Bool.false_ne_true] at hchange
    refine ⟨h.sections, h.global, fun s hs => ?_⟩
    rcases NameTable.mem_values_modify hs with hs | ⟨old, hold, rfl⟩
    · exact h.entries s hs
    · exact hchange old hold

/-- A section is made if there is none, and changes. -/
theorem upsertSection (h : doc.Below n)
    (hchange : ∀ s, s.nextEntry < n → (change s).nextEntry < n + 1) (name : Text) :
    (doc.upsertSection name change).Below (n + 1) := by
  have hmore := h.mono (Nat.le_succ n)
  unfold Document.upsertSection
  cases name.isEmpty with
  | true => exact ⟨hmore.sections, hchange _ h.global, hmore.entries⟩
  | false =>
    refine ⟨?_, hmore.global, fun s hs => ?_⟩
    · have hlt := h.sections
      show (if doc.sections.contains name then doc.nextSection else doc.nextSection + 1) < n + 1
      split <;> omega
    · rcases NameTable.mem_values_upsert hs with hs | ⟨old, hold, rfl⟩ | ⟨-, rfl⟩
      · exact hmore.entries s hs
      · exact hchange old (h.entries old (NameTable.mem_values_of_get?_eq_some hold))
      · exact hchange _ (Nat.zero_lt_of_lt h.sections)

theorem set (h : doc.Below n) (name key value : Text) : (doc.set name key value).Below (n + 1) :=
  h.upsertSection (fun s hs =>
    Nat.lt_of_le_of_lt (s.nextEntry_upsert key value _).2 (Nat.succ_lt_succ hs)) name

theorem ensureSection (h : doc.Below n) (name : Text) : (doc.ensureSection name).Below (n + 1) :=
  h.upsertSection (fun _ hs => Nat.lt_succ_of_lt hs) name

/-- **A change of a document** moves no counter by more than one. -/
theorem edit (h : doc.Below n) {edit : Edit} {answer : Answer}
    (hrun : edit.run doc = .ok (answer, next)) : next.Below (n + 1) := by
  have hmore := h.mono (Nat.le_succ n)
  cases edit with
  | set name key value =>
    obtain ⟨-, rfl⟩ := Prod.mk.inj (Except.ok.inj hrun)
    exact h.set name key value
  | setScalar name key x =>
    obtain ⟨-, rfl⟩ := Prod.mk.inj (Except.ok.inj hrun)
    exact h.set name key x.raw
  | remove name key =>
    obtain ⟨result, hremove, hnext⟩ := Except.exists_of_map_eq_ok hrun
    obtain ⟨s, -, hentry⟩ := Except.exists_of_bind_eq_ok hremove
    obtain ⟨e, -, hrest⟩ := Except.exists_of_bind_eq_ok hentry
    rw [← (Prod.mk.inj hnext).2, ← Except.ok.inj hrest]
    have herased : (doc.modifySection name (·.erase key)).Below (n + 1) :=
      hmore.modifySection fun t ht => show t.nextEntry < n + 1 from hmore.of_section? ht
    exact ⟨herased.sections, herased.global, herased.entries⟩
  | clear =>
    obtain ⟨-, rfl⟩ := Prod.mk.inj (Except.ok.inj hrun)
    exact ⟨hmore.sections, hmore.global, fun s hs => absurd hs List.not_mem_nil⟩
  | insertSection name =>
    obtain ⟨made, hinsert, hnext⟩ := Except.exists_of_map_eq_ok hrun
    rw [← (Prod.mk.inj hnext).2]
    unfold Document.insertSection at hinsert
    split at hinsert
    · exact absurd hinsert nofun
    · rw [← Except.ok.inj hinsert]
      exact h.ensureSection name
  | ensureSection name =>
    obtain ⟨-, rfl⟩ := Prod.mk.inj (Except.ok.inj hrun)
    exact h.ensureSection name
  | removeSection name =>
    obtain ⟨result, hremove, hnext⟩ := Except.exists_of_map_eq_ok hrun
    obtain ⟨s, -, hrest⟩ := Except.exists_of_bind_eq_ok hremove
    rw [← (Prod.mk.inj hnext).2, ← Except.ok.inj hrest]
    cases name.isEmpty with
    | true => exact ⟨hmore.sections, hmore.global, hmore.entries⟩
    | false =>
      exact ⟨hmore.sections, hmore.global,
        fun s hs => hmore.entries s (NameTable.mem_values_erase hs)⟩
  | setEverywhere key value =>
    obtain ⟨-, rfl⟩ := Prod.mk.inj (Except.ok.inj hrun)
    refine ⟨hmore.sections, hmore.global, fun s hs => ?_⟩
    rw [show (doc.mapSections (·.set key value)).sections.values =
      doc.sections.values.map (·.set key value) from NameTable.values_mapValues _ _] at hs
    obtain ⟨old, hold, rfl⟩ := List.mem_map.mp hs
    exact Nat.lt_of_le_of_lt (old.nextEntry_upsert key value _).2
      (Nat.succ_lt_succ (h.entries old hold))
  | inSection name change =>
    obtain ⟨s, hs, hrest⟩ := Except.exists_of_bind_eq_ok hrun
    obtain ⟨result, hedit, hnext⟩ := Except.exists_of_bind_eq_ok hrest
    rw [← (Prod.mk.inj (Except.ok.inj hnext)).2]
    refine hmore.modifySection fun t ht => ?_
    rw [getSection, ht] at hs
    have hlt := h.of_section? ht
    rw [Except.ok.inj hs] at hlt
    exact Nat.lt_of_le_of_lt (Section.nextEntry_run hedit) (Nat.succ_lt_succ hlt)
  | setIfSection name key value =>
    cases hhas : doc.hasSection name with
    | true =>
      rw [Edit.run_setIfSection_of_hasSection hhas] at hrun
      rw [← (Prod.mk.inj (Except.ok.inj hrun)).2]
      exact h.set name key value
    | false =>
      rw [Edit.run_setIfSection_of_not_hasSection hhas] at hrun
      rw [← (Prod.mk.inj (Except.ok.inj hrun)).2]
      exact hmore

/-- **A step** moves no counter by more than one. -/
theorem run (h : doc.Below n) (step : Step) : (step.run doc).2.Below (n + 1) := by
  cases step with
  | query q => exact h.mono (Nat.le_succ n)
  | edit edit =>
    cases hrun : edit.run doc with
    | error err =>
      simp only [Step.run, hrun]
      exact h.mono (Nat.le_succ n)
    | ok result =>
      simp only [Step.run, hrun]
      exact h.edit hrun

end Below
end Document

namespace Reader

variable {r : Reader} {n : Nat}

theorem below_putEntry (h : r.document.Below n) {name : Text} {s : Section} (hs : s.nextEntry < n)
    (raw key value : Text) (comment : Option Comment) :
    (r.putEntry name s raw key value comment).document.Below (n + 1) := by
  have hgrown := (s.nextEntry_store r.document.dialect.keyPolicy key value).2
  have hput : (r.document.upsertSection name fun _ =>
      (s.store r.document.dialect.keyPolicy key value).modify key (·.setComment comment)).Below (n + 1) := by
    refine h.upsertSection (fun _ _ => ?_) name
    exact Nat.lt_of_le_of_lt hgrown (Nat.succ_lt_succ hs)
  exact ⟨hput.sections, hput.global, hput.entries⟩

/-- **A line** moves no counter by more than one. -/
theorem below_accept (h : r.document.Below n) (token : Token) :
    (r.accept token).1.document.Below (n + 1) := by
  have hmore := h.mono (Nat.le_succ n)
  unfold accept
  cases token.content with
  | blank | comment | malformed => exact hmore
  | header name comment =>
    show (r.acceptHeader token.line token.raw name comment).1.document.Below (n + 1)
    unfold acceptHeader
    split
    · cases r.document.dialect.sectionPolicy <;> exact hmore
    · have hopened := h.ensureSection name
      exact ⟨hopened.sections, hopened.global, hopened.entries⟩
  | entry key value comment =>
    show (r.acceptEntry token.line token.column token.raw key value comment).1.document.Below (n + 1)
    unfold acceptEntry
    cases r.target with
    | discard => exact hmore
    | inSection name =>
      have hs : ((r.document.section? name).getD (r.document.newSection name)).nextEntry < n := by
        cases hsection : r.document.section? name with
        | none => exact Nat.zero_lt_of_lt h.sections
        | some s => exact h.of_section? hsection
      dsimp only
      split
      · exact hmore
      · exact below_putEntry h hs token.raw key value comment

end Reader

/-! ## Words that hold -/

namespace Document

variable {doc next last : Document} {steps : List Step} {o : Overflow}

theorem below_wrapped (doc : Document) : doc.wrapped.Below UInt32.size := by
  refine ⟨Nat.mod_lt _ (by decide), Nat.mod_lt _ (by decide), fun s hs => ?_⟩
  rw [show doc.wrapped.sections.values = doc.sections.values.map Section.wrapped from
    NameTable.values_mapValues _ _] at hs
  obtain ⟨old, -, rfl⟩ := List.mem_map.mp hs
  exact Nat.mod_lt _ (by decide)

/-- Counters that fit in words stay as they are. -/
theorem wrapped_of_below (h : doc.Below UInt32.size) : doc.wrapped = doc := by
  have hsection : ∀ s : Section, s.nextEntry < UInt32.size → s.wrapped = s := by
    intro s hs
    rw [Section.wrapped, Nat.mod_eq_of_lt hs]
  have hrows : (doc.sections.mapValues Section.wrapped).rows = doc.sections.rows := by
    refine (List.map_congr_left fun row hrow => ?_).trans (List.map_id' _)
    exact congrArg (Prod.mk row.1) (hsection row.2 (h.entries row.2 (List.mem_map_of_mem hrow)))
  have hsections : doc.sections.mapValues Section.wrapped = doc.sections :=
    NameTable.ext_rows rfl hrows
  rw [wrapped, hsection _ h.global, hsections, Nat.mod_eq_of_lt h.sections]

theorem settle_of_below (h : doc.Below UInt32.size) (o : Overflow) : doc.settle o = some doc := by
  cases o with
  | stops => exact if_pos h
  | wraps => exact congrArg some (wrapped_of_below h)

theorem of_settle_stops (h : doc.settle .stops = some next) : doc.Below UInt32.size ∧ next = doc := by
  change (if doc.Below UInt32.size then some doc else none) = some next at h
  split at h
  · exact ⟨‹_›, (Option.some.inj h).symm⟩
  · exact absurd h nofun

theorem below_of_settle (h : doc.settle o = some next) : next.Below UInt32.size := by
  cases o with
  | stops =>
    obtain ⟨hbelow, rfl⟩ := of_settle_stops h
    exact hbelow
  | wraps =>
    rw [← Option.some.inj h]
    exact below_wrapped doc

/-! ## Runs that do not overflow -/

theorem afterInWords_cons (o : Overflow) (doc : Document) (step : Step) (rest : List Step) :
    doc.afterInWords o (step :: rest) =
      ((step.run doc).2.settle o).bind fun next => next.afterInWords o rest := rfl

theorem below_afterInWords (hdoc : doc.Below UInt32.size) (h : doc.afterInWords o steps = some last) :
    last.Below UInt32.size := by
  induction steps generalizing doc with
  | nil => exact Option.some.inj h ▸ hdoc
  | cons step rest ih =>
    obtain ⟨next, hsettle, hrest⟩ := Option.bind_eq_some_iff.mp h
    exact ih (below_of_settle hsettle) hrest

/-- **A history that a program with checks gets through** is the plain one, and every program gets
    through it. -/
theorem afterInWords_of_stops (h : doc.afterInWords .stops steps = some last) :
    last = doc.after steps ∧ ∀ o, doc.afterInWords o steps = some last := by
  induction steps generalizing doc with
  | nil => exact ⟨(Option.some.inj h).symm, fun _ => h⟩
  | cons step rest ih =>
    obtain ⟨next, hsettle, hrest⟩ := Option.bind_eq_some_iff.mp h
    obtain ⟨hbelow, rfl⟩ := of_settle_stops hsettle
    obtain ⟨hlast, hevery⟩ := ih hrest
    refine ⟨hlast, fun o => ?_⟩
    rw [afterInWords_cons, settle_of_below hbelow]
    exact hevery o

end Document

namespace Reader

variable {r final : Reader} {token : Token} {ts : List Token} {mode : Mode} {o : Overflow}

/-- The reader that goes on after a line, or the error that ends the reading. -/
def step (mode : Mode) (r : Reader) (token : Token) : Except Error Reader :=
  match (r.accept token).2, mode with
  | none, _ => .ok (r.accept token).1
  | some e, .strict => .error e
  | some e, .lenient => .ok ((r.accept token).1.skip token e)

theorem run_eq_step (mode : Mode) (r : Reader) (token : Token) (rest : List Token) :
    r.run mode (token :: rest) = (r.step mode token).bind fun next => next.run mode rest := by
  rw [run_cons]
  unfold step
  cases (r.accept token).2 with
  | none => rfl
  | some e => cases mode <;> rfl

theorem runInWords_eq_step (o : Overflow) (mode : Mode) (r : Reader) (token : Token)
    (rest : List Token) :
    r.runInWords o mode (token :: rest) =
      match r.step mode token with
      | .error e => some (.error e)
      | .ok next => (next.settle o).bind fun settled => settled.runInWords o mode rest := by
  conv => lhs; unfold runInWords
  unfold step
  cases r.accept token with
  | mk next refused => cases refused <;> cases mode <;> rfl

theorem document_step {next : Reader} (h : r.step mode token = .ok next) :
    next.document = (r.accept token).1.document := by
  unfold step at h
  split at h
  · rw [← Except.ok.inj h]
  · exact absurd h nofun
  · rw [← Except.ok.inj h]
    rfl

theorem settle_of_below (h : r.document.Below UInt32.size) (o : Overflow) : r.settle o = some r := by
  rw [settle, Document.settle_of_below h]
  rfl

theorem of_settle_stops {next : Reader} (h : r.settle .stops = some next) :
    r.document.Below UInt32.size ∧ next = r := by
  obtain ⟨doc, hsettle, hnext⟩ := Option.bind_eq_some_iff.mp h
  obtain ⟨hbelow, rfl⟩ := Document.of_settle_stops hsettle
  exact ⟨hbelow, (Option.some.inj hnext).symm⟩

theorem below_of_settle {next : Reader} (h : r.settle o = some next) :
    next.document.Below UInt32.size := by
  obtain ⟨doc, hsettle, hnext⟩ := Option.bind_eq_some_iff.mp h
  rw [← Option.some.inj hnext]
  exact Document.below_of_settle hsettle

theorem below_runInWords (hr : r.document.Below UInt32.size)
    (h : r.runInWords o mode ts = some (.ok final)) : final.document.Below UInt32.size := by
  induction ts generalizing r with
  | nil => exact Except.ok.inj (Option.some.inj h) ▸ hr
  | cons token rest ih =>
    rw [runInWords_eq_step] at h
    cases hstep : r.step mode token with
    | error e =>
      rw [hstep] at h
      exact absurd h nofun
    | ok next =>
      rw [hstep] at h
      obtain ⟨settled, hsettle, hrest⟩ := Option.bind_eq_some_iff.mp h
      exact ih (below_of_settle hsettle) hrest

/-- **Reading that a program with checks gets through** is the plain one, and every program gets
    through it. -/
theorem runInWords_of_stops {result : Except Error Reader}
    (h : r.runInWords .stops mode ts = some result) :
    r.run mode ts = result ∧ ∀ o, r.runInWords o mode ts = some result := by
  induction ts generalizing r with
  | nil => exact ⟨Option.some.inj h, fun _ => h⟩
  | cons token rest ih =>
    rw [runInWords_eq_step] at h
    rw [run_eq_step]
    cases hstep : r.step mode token with
    | error e =>
      rw [hstep] at h
      refine ⟨Option.some.inj h, fun o => ?_⟩
      rw [runInWords_eq_step, hstep]
      exact h
    | ok next =>
      rw [hstep] at h
      obtain ⟨settled, hsettle, hrest⟩ := Option.bind_eq_some_iff.mp h
      obtain ⟨hbelow, rfl⟩ := of_settle_stops hsettle
      obtain ⟨hrun, hevery⟩ := ih hrest
      refine ⟨hrun, fun o => ?_⟩
      rw [runInWords_eq_step, hstep]
      dsimp only
      rw [settle_of_below hbelow]
      exact hevery o

end Reader

section Texts

variable {d : Dialect} {text : Text} {result : Except Error Parsed} {p : Parsed} {o : Overflow}

/-- **A text that a program with checks gets through** is read as it is without counters in words, by
    every program. -/
theorem parseInWords_of_stops (h : parseInWords .stops d text = some result) :
    parse d text = result ∧ ∀ o, parseInWords o d text = some result := by
  obtain ⟨read, hread, rfl⟩ := Option.map_eq_some_iff.mp h
  obtain ⟨hrun, hevery⟩ := Reader.runInWords_of_stops hread
  refine ⟨?_, fun o => ?_⟩
  · rw [parse, hrun]
  · rw [parseInWords, hevery o]
    rfl

/-- A result that passes a test is a result. -/
theorem exists_parseInWords_of_any {test : Parsed → Bool}
    (h : (parseInWords o d text).any (fun read => read.toOption.any test) = true) :
    ∃ p, parseInWords o d text = some (.ok p) ∧ test p = true := by
  obtain ⟨read, hread, htest⟩ := (Option.any_eq_true _ _).mp h
  obtain ⟨p, rfl, hp⟩ := Except.exists_ok_of_any htest
  exact ⟨p, hread, hp⟩

theorem below_parseInWords (h : parseInWords o d text = some (.ok p)) :
    p.document.Below UInt32.size := by
  obtain ⟨read, hread, hresult⟩ := Option.map_eq_some_iff.mp h
  obtain ⟨final, rfl, rfl⟩ := Except.exists_of_map_eq_ok hresult
  have hstart : (Reader.start d).document.Below UInt32.size := (Document.below_empty d).mono (by decide)
  have hfinal := Reader.below_runInWords hstart hread
  exact ⟨hfinal.sections, hfinal.global, hfinal.entries⟩

/-- A document at the start of its history, made by a program that counts in words. -/
inductive Document.OriginInWords (o : Overflow) (d : Dialect) : Document → Prop where
  | empty : OriginInWords o d (.empty d)
  | parsed {text : Text} {p : Parsed} (h : parseInWords o d text = some (.ok p)) :
    OriginInWords o d p.document

variable {doc : Document}

theorem Document.OriginInWords.below (h : doc.OriginInWords o d) : doc.Below UInt32.size := by
  cases h with
  | empty => exact (Document.below_empty d).mono (by decide)
  | parsed h => exact below_parseInWords h

/-- What a program with checks starts from is an origin, and every program may start from it. -/
theorem Document.OriginInWords.of_stops (h : doc.OriginInWords .stops d) :
    doc.Origin d ∧ ∀ o, doc.OriginInWords o d := by
  cases h with
  | empty => exact ⟨.empty, fun _ => .empty⟩
  | parsed h =>
    obtain ⟨hparse, hevery⟩ := parseInWords_of_stops h
    exact ⟨.parsed hparse, fun o => .parsed (hevery o)⟩

end Texts

/-! ## Few lines and steps -/

theorem Document.afterInWords_of_below {doc : Document} {steps : List Step} {n : Nat}
    (h : doc.Below n) (hfew : n + steps.length ≤ UInt32.size) (o : Overflow) :
    doc.afterInWords o steps = some (doc.after steps) := by
  induction steps generalizing doc n with
  | nil => rfl
  | cons step rest ih =>
    rw [List.length_cons] at hfew
    have hnext := h.run step
    rw [afterInWords_cons, settle_of_below (hnext.mono (by omega))]
    exact ih hnext (by omega)

theorem Reader.runInWords_of_below {r : Reader} {mode : Mode} {ts : List Token} {n : Nat}
    (h : r.document.Below n) (hfew : n + ts.length ≤ UInt32.size) (o : Overflow) :
    r.runInWords o mode ts = some (r.run mode ts) ∧
      ∀ final, r.run mode ts = .ok final → final.document.Below (n + ts.length) := by
  induction ts generalizing r n with
  | nil => exact ⟨rfl, fun final hfinal => Except.ok.inj hfinal ▸ h⟩
  | cons token rest ih =>
    rw [List.length_cons] at hfew ⊢
    rw [runInWords_eq_step, run_eq_step]
    cases hstep : r.step mode token with
    | error e => exact ⟨rfl, fun _ => nofun⟩
    | ok next =>
      have hnext : next.document.Below (n + 1) := document_step hstep ▸ below_accept h token
      obtain ⟨hrun, hfinal⟩ := ih hnext (by omega)
      dsimp only
      rw [settle_of_below (hnext.mono (by omega))]
      refine ⟨hrun, fun final hread => ?_⟩
      rw [← Nat.succ_add_eq_add_succ]
      exact hfinal final hread

/-- **Fewer than 2^32 lines and steps** never overflow a counter: a program that counts in words reads
    and changes a document as one that counts without end. -/
theorem inWords_of_few {d : Dialect} {text : Text} {p : Parsed} {steps : List Step}
    (hparse : parse d text = .ok p)
    (hfew : (tokens d text).length + steps.length + 2 ≤ UInt32.size) (o : Overflow) :
    parseInWords o d text = some (.ok p) ∧
      p.document.afterInWords o steps = some (p.document.after steps) := by
  have hboth : (Reader.start d).runInWords o d.mode (tokens d text) =
      some ((Reader.start d).run d.mode (tokens d text)) ∧
        ∀ final, (Reader.start d).run d.mode (tokens d text) = .ok final →
          final.document.Below (2 + (tokens d text).length) :=
    Reader.runInWords_of_below (Document.below_empty d) (by omega) o
  obtain ⟨hrun, hbelow⟩ := hboth
  obtain ⟨final, hread, rfl⟩ := Except.exists_of_map_eq_ok hparse
  have hfinal := hbelow final hread
  have hread : (final.finish text).document.Below (2 + (tokens d text).length) :=
    ⟨hfinal.sections, hfinal.global, hfinal.entries⟩
  refine ⟨?_, Document.afterInWords_of_below hread (by omega) o⟩
  rw [parseInWords, hrun]
  exact congrArg some hparse

/-! ## Reading again -/

namespace NameTable

variable {α : Type} {t : NameTable α} {name : Text} {f : α → α} {fresh a : α}

theorem size_modify (t : NameTable α) (name : Text) (f : α → α) : (t.modify name f).size = t.size :=
  List.length_map _

theorem size_upsert (t : NameTable α) (name : Text) (f : α → α) (fresh : α) :
    (t.upsert name f fresh).size = if t.contains name then t.size else t.size + 1 := by
  by_cases hname : t.contains name = true
  · rw [upsert, dif_pos hname, if_pos hname, size_modify]
  · rw [upsert, dif_neg hname, if_neg hname]
    exact List.length_append

/-- No value is lost: it stays, or it is the one that changes. -/
theorem mem_values_upsert_of_mem (h : a ∈ t.values) :
    a ∈ (t.upsert name f fresh).values ∨
      t.get? name = some a ∧ f a ∈ (t.upsert name f fresh).values := by
  obtain ⟨row, hrow, rfl⟩ := List.mem_map.mp h
  by_cases hname : t.contains name = true
  · rw [upsert, dif_pos hname]
    have hmem : (if row.1 == t.fold name then f row.2 else row.2) ∈ (t.modify name f).values :=
      List.mem_map_of_mem (List.mem_map_of_mem hrow)
    by_cases hsame : (row.1 == t.fold name) = true
    · rw [if_pos hsame] at hmem
      exact Or.inr ⟨get?_eq_some_of_mem hrow (beq_iff_eq.mp hsame), hmem⟩
    · rw [if_neg hsame] at hmem
      exact Or.inl hmem
  · rw [upsert, dif_neg hname]
    exact Or.inl (List.mem_map_of_mem (List.mem_append_left _ hrow))

end NameTable

/-- Every number that the section gave out is that of an entry. -/
def Section.Gapless (s : Section) : Prop := s.nextEntry = s.entries.size

/-- Every number that was given out is that of a section or an entry. -/
structure Document.Gapless (doc : Document) : Prop where
  sections : doc.nextSection = doc.sections.size + 1
  global : doc.global.Gapless
  entries : ∀ s ∈ doc.sections.values, s.Gapless

theorem Section.Gapless.upsert {s : Section} (h : s.Gapless) (key value : Text)
    (change : Entry → Entry) : (s.upsert key value change).Gapless := by
  show (if s.contains key then s.nextEntry else s.nextEntry + 1) = NameTable.size (.upsert _ _ _ _)
  rw [NameTable.size_upsert, h]
  rfl

theorem Section.Gapless.putLine {s : Section} (h : s.Gapless) (policy : KeyPolicy)
    (key value : Text) (comment : Option Comment) :
    ((s.store policy key value).modify key (·.setComment comment)).Gapless := by
  have hstore : (s.store policy key value).Gapless := by
    cases policy <;> exact h.upsert key value _
  exact Eq.trans hstore (NameTable.size_modify _ _ _).symm

namespace Document

variable {doc again : Document} {name : Text} {change : Section → Section} {n : Nat}

theorem gapless_empty (d : Dialect) : (empty d).Gapless :=
  ⟨rfl, rfl, fun _ hs => absurd hs List.not_mem_nil⟩

theorem Gapless.of_section? (h : doc.Gapless) {s : Section} (hs : doc.section? name = some s) :
    s.Gapless := by
  unfold section? at hs
  split at hs
  · rw [← Option.some.inj hs]
    exact h.global
  · exact h.entries s (NameTable.mem_values_of_get?_eq_some hs)

theorem Gapless.upsertSection (h : doc.Gapless) (hchange : ∀ s : Section, s.Gapless → (change s).Gapless)
    (name : Text) : (doc.upsertSection name change).Gapless := by
  unfold Document.upsertSection
  cases name.isEmpty with
  | true => exact ⟨h.sections, hchange _ h.global, h.entries⟩
  | false =>
    refine ⟨?_, h.global, fun s hs => ?_⟩
    · show (if doc.sections.contains name then doc.nextSection else doc.nextSection + 1) =
        NameTable.size (.upsert _ _ _ _) + 1
      rw [NameTable.size_upsert, h.sections]
      split <;> rfl
    · rcases NameTable.mem_values_upsert hs with hs | ⟨old, hold, rfl⟩ | ⟨-, rfl⟩
      · exact h.entries s hs
      · exact hchange old (h.entries old (NameTable.mem_values_of_get?_eq_some hold))
      · exact hchange _ rfl

/-- Where a section is made, or changes and counts on, the counters were no higher before. -/
theorem Below.of_upsertSection
    (hchange : ∀ s, doc.section? name = some s → s.nextEntry ≤ (change s).nextEntry)
    (h : (doc.upsertSection name change).Below n) : doc.Below n := by
  unfold section? at hchange
  unfold Document.upsertSection at h
  cases hname : name.isEmpty with
  | true =>
    rw [hname, if_pos rfl] at h hchange
    exact ⟨h.sections, Nat.lt_of_le_of_lt (hchange _ rfl) h.global, h.entries⟩
  | false =>
    rw [hname, if_neg Bool.false_ne_true] at h hchange
    refine ⟨Nat.lt_of_le_of_lt ?_ h.sections, h.global, fun s hs => ?_⟩
    · show doc.nextSection ≤ if doc.sections.contains name then doc.nextSection else doc.nextSection + 1
      split <;> omega
    · rcases NameTable.mem_values_upsert_of_mem hs with hmem | ⟨hfound, hmem⟩
      · exact h.entries s hmem
      · exact Nat.lt_of_le_of_lt (hchange s hfound) (h.entries _ hmem)

end Document

namespace Reader

variable {r final : Reader} {ts : List Token} {mode : Mode} {n : Nat}

theorem gapless_accept (h : r.document.Gapless) (token : Token) :
    (r.accept token).1.document.Gapless := by
  unfold accept
  cases token.content with
  | blank | comment | malformed => exact h
  | header name comment =>
    show (r.acceptHeader token.line token.raw name comment).1.document.Gapless
    unfold acceptHeader
    split
    · cases r.document.dialect.sectionPolicy <;> exact h
    · have hopened : (r.document.ensureSection name).Gapless := h.upsertSection (fun _ hs => hs) name
      exact ⟨hopened.sections, hopened.global, hopened.entries⟩
  | entry key value comment =>
    show (r.acceptEntry token.line token.column token.raw key value comment).1.document.Gapless
    unfold acceptEntry
    cases r.target with
    | discard => exact h
    | inSection name =>
      have hs : ((r.document.section? name).getD (r.document.newSection name)).Gapless := by
        cases hsection : r.document.section? name with
        | none => rfl
        | some s => exact h.of_section? hsection
      dsimp only
      split
      · exact h
      · have hput := h.upsertSection (fun _ _ =>
          hs.putLine r.document.dialect.keyPolicy key value comment) name
        exact ⟨hput.sections, hput.global, hput.entries⟩

/-- Reading only ever counts on. -/
theorem below_of_accept (token : Token) (h : (r.accept token).1.document.Below n) :
    r.document.Below n := by
  unfold accept at h
  cases hcontent : token.content with
  | blank | comment | malformed =>
    rw [hcontent] at h
    exact h
  | header name comment =>
    rw [hcontent] at h
    change (r.acceptHeader token.line token.raw name comment).1.document.Below n at h
    unfold acceptHeader at h
    split at h
    · cases hpolicy : r.document.dialect.sectionPolicy with
      | merge | reject =>
        rw [hpolicy] at h
        exact h
    · have hopened : (r.document.upsertSection name id).Below n :=
        ⟨h.sections, h.global, h.entries⟩
      exact hopened.of_upsertSection fun _ _ => Nat.le_refl _
  | entry key value comment =>
    rw [hcontent] at h
    change (r.acceptEntry token.line token.column token.raw key value comment).1.document.Below n at h
    unfold acceptEntry at h
    cases htarget : r.target with
    | discard =>
      rw [htarget] at h
      exact h
    | inSection name =>
      rw [htarget] at h
      dsimp only at h
      split at h
      · exact h
      · have hput : (r.document.upsertSection name fun _ => _).Below n :=
          ⟨h.sections, h.global, h.entries⟩
        refine hput.of_upsertSection fun s hs => ?_
        rw [hs]
        exact (s.nextEntry_store _ key value).1

theorem gapless_run (h : r.document.Gapless) (hrun : r.run mode ts = .ok final) :
    final.document.Gapless := by
  induction ts generalizing r with
  | nil => exact Except.ok.inj hrun ▸ h
  | cons token rest ih =>
    rw [run_eq_step] at hrun
    obtain ⟨next, hstep, hrest⟩ := Except.exists_of_bind_eq_ok hrun
    exact ih (document_step hstep ▸ gapless_accept h token) hrest

/-- **Reading gets through** if there is room for the numbers that it ends with. -/
theorem runInWords_of_run (hrun : r.run mode ts = .ok final)
    (hfinal : final.document.Below UInt32.size) (o : Overflow) :
    r.runInWords o mode ts = some (.ok final) ∧ r.document.Below UInt32.size := by
  induction ts generalizing r with
  | nil => exact ⟨congrArg some hrun, Except.ok.inj hrun ▸ hfinal⟩
  | cons token rest ih =>
    rw [run_eq_step] at hrun
    obtain ⟨next, hstep, hrest⟩ := Except.exists_of_bind_eq_ok hrun
    obtain ⟨hread, hnext⟩ := ih hrest
    rw [runInWords_eq_step, hstep]
    dsimp only
    rw [settle_of_below hnext]
    exact ⟨hread, below_of_accept token (document_step hstep ▸ hnext)⟩

end Reader

/-! ### Numbers that are in use -/

/-- There are no more than `n` numbers below `n`. -/
theorem length_le_of_forall_lt {n : Nat} {l : List Nat} (h : l.Nodup) (hlt : ∀ i ∈ l, i < n) :
    l.length ≤ n := by
  have hsub : l ⊆ List.range n := fun i hi => List.mem_range.mpr (hlt i hi)
  exact (List.subperm_of_subset h hsub).length_le.trans_eq List.length_range

theorem Section.Sound.size_le {d : Dialect} {c : Capture} {s : Section} (h : s.Sound d c) :
    s.entries.size ≤ s.nextEntry := by
  have hindices : ((s.entries.values.map Entry.id).map EntryId.index).Nodup := by
    refine h.distinct.map_on fun a ha b hb hsame => ?_
    obtain ⟨e, he, rfl⟩ := List.mem_map.mp ha
    obtain ⟨f, hf, rfl⟩ := List.mem_map.mp hb
    rw [h.id_eq he, h.id_eq hf, hsame]
  have hlength := length_le_of_forall_lt hindices fun i hi => by
    obtain ⟨id, hid, rfl⟩ := List.mem_map.mp hi
    obtain ⟨e, he, rfl⟩ := List.mem_map.mp hid
    exact h.numbered e he
  rwa [List.length_map, List.length_map, NameTable.values, List.length_map] at hlength

theorem Document.Sound.size_lt {doc : Document} (h : doc.Sound) :
    doc.sections.size < doc.nextSection := by
  have hindices : (doc.sectionIds.map SectionId.index).Nodup :=
    h.nodup_sectionIds.map_on fun a _ b _ hsame => congrArg SectionId.mk hsame
  have hlength := length_le_of_forall_lt hindices fun i hi => by
    obtain ⟨id, hid, rfl⟩ := List.mem_map.mp hi
    obtain ⟨s, hs, rfl⟩ := List.mem_map.mp hid
    exact h.index_lt hs
  rwa [List.length_map, Document.sectionIds, List.length_map, Document.everySection, List.length_cons,
    NameTable.values, List.length_map] at hlength

/-- How many entries there are in the global section, and in each of the others. -/
def DocumentContent.sizes (content : DocumentContent) : Nat × List Nat :=
  (content.global.entries.length, content.sections.map fun s => s.entries.length)

theorem Document.sizes_content (doc : Document) :
    doc.content.sizes = (doc.global.entries.size, doc.sections.values.map fun s => s.entries.size) := by
  have hsize : ∀ s : Section, s.content.entries.length = s.entries.size := fun s => by
    show (s.entries.values.map Entry.content).length = s.entries.rows.length
    rw [List.length_map, NameTable.values, List.length_map]
  show (doc.global.content.entries.length, (doc.sections.values.map Section.content).map _) = _
  rw [List.map_map, hsize]
  exact congrArg _ (List.map_congr_left fun s _ => hsize s)

/-- A document without gaps counts no further than one of the same size. -/
theorem Document.Gapless.below {doc again : Document} {n : Nat} (h : again.Gapless)
    (hsound : doc.Sound) (hbelow : doc.Below n) (hsizes : again.content.sizes = doc.content.sizes) :
    again.Below n := by
  rw [sizes_content, sizes_content] at hsizes
  obtain ⟨hglobal, hsections⟩ := Prod.mk.inj hsizes
  have hcount : again.sections.size = doc.sections.size := by
    have hlength := congrArg List.length hsections
    rwa [List.length_map, List.length_map, NameTable.values, NameTable.values, List.length_map,
      List.length_map] at hlength
  refine ⟨?_, ?_, fun s hs => ?_⟩
  · rw [h.sections, hcount]
    exact Nat.lt_of_le_of_lt hsound.size_lt hbelow.sections
  · rw [h.global, hglobal]
    exact Nat.lt_of_le_of_lt hsound.globalSound.size_le hbelow.global
  · have hmem : s.entries.size ∈ again.sections.values.map fun s => s.entries.size :=
      List.mem_map_of_mem hs
    rw [hsections] at hmem
    obtain ⟨t, ht, hsize⟩ := List.mem_map.mp hmem
    rw [h.entries s hs, ← hsize]
    exact Nat.lt_of_le_of_lt (hsound.sound t ht).size_le (hbelow.entries t ht)

/-- **A text is read** by every program that counts in words if a sound document has as many sections
    and entries, and its own counters fit in words. -/
theorem parseInWords_of_sizes {d : Dialect} {text : Text} {p : Parsed} {doc : Document}
    (hparse : parse d text = .ok p) (hsound : doc.Sound) (hbelow : doc.Below UInt32.size)
    (hsizes : p.document.content.sizes = doc.content.sizes) (o : Overflow) :
    parseInWords o d text = some (.ok p) := by
  obtain ⟨final, hread, rfl⟩ := Except.exists_of_map_eq_ok hparse
  have hgapless := Reader.gapless_run (Document.gapless_empty d) hread
  have hfinal : final.document.Below UInt32.size := hgapless.below hsound hbelow hsizes
  rw [parseInWords, (Reader.runInWords_of_run hread hfinal o).1]
  rfl

end IniFile
