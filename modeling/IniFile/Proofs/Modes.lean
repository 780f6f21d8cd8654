/-
  Strict and lenient reading.

  The two modes differ in ONE thing: what a refused line does.  So there is one account of a reading,
  and each mode reads its result off it:

  1. **Going on** — `Reader.note` takes a line and notes a refusal; `Reader.refusals` is all that is
     noted of some lines.
  2. **Results** — lenient reading goes on to the end (`run_lenient`), strict reading gives the first
     refusal instead if there is one (`run_strict`).
  3. **Places** — a refusal is noted where its error says it is.
  4. **Dialects in another mode** — a dialect's own mode plays no part in what a line does.
  5. **Agreement** — of strict reading, lenient reading and validation.
-/
import IniFile.Document.Content
import IniFile.Document.Page
import IniFile.Proofs.Drafts

namespace IniFile

/-! ## Going on -/

namespace Reader

/-- The reader after a line, of which it is noted if it is refused. -/
def note (r : Reader) (token : Token) : Reader :=
  match r.accept token with
  | (next, none) => next
  | (next, some e) => next.skip token e

/-- What is noted of lines. -/
def refusals (r : Reader) : List Token → List Diagnostic
  | [] => []
  | token :: rest =>
    ((r.accept token).2.map fun e => ⟨token.line, token.column, e⟩).toList ++
      (r.note token).refusals rest

theorem note_of_accepted {r : Reader} {token : Token} (h : (r.accept token).2 = none) :
    r.note token = (r.accept token).1 := by
  unfold note
  rw [← Prod.eta (r.accept token), h]

theorem note_of_refused {r : Reader} {token : Token} {e : Error}
    (h : (r.accept token).2 = some e) : r.note token = (r.accept token).1.skip token e := by
  unfold note
  rw [← Prod.eta (r.accept token), h]

theorem refusals_of_accepted {r : Reader} {token : Token} (h : (r.accept token).2 = none)
    (rest : List Token) : r.refusals (token :: rest) = (r.note token).refusals rest := by
  rw [refusals, h]
  rfl

theorem refusals_of_refused {r : Reader} {token : Token} {e : Error}
    (h : (r.accept token).2 = some e) (rest : List Token) :
    r.refusals (token :: rest) =
      ⟨token.line, token.column, e⟩ :: (r.note token).refusals rest := by
  rw [refusals, h]
  rfl

/-- A line by itself notes nothing. -/
theorem diagnostics_accept (r : Reader) (token : Token) :
    (r.accept token).1.diagnostics = r.diagnostics := by
  unfold accept
  cases token.content with
  | blank => rfl
  | comment c => rfl
  | malformed fault => rfl
  | header name comment =>
    show (r.acceptHeader _ _ _ _).1.diagnostics = _
    unfold acceptHeader
    cases r.document.hasSection name with
    | false => rfl
    | true => cases r.document.dialect.sectionPolicy <;> rfl
  | entry key value comment =>
    show (r.acceptEntry _ _ _ _ _ _).1.diagnostics = _
    unfold acceptEntry
    cases r.target with
    | discard => rfl
    | inSection name =>
      dsimp only
      split <;> rfl

theorem diagnostics_note (r : Reader) (token : Token) :
    (r.note token).diagnostics =
      r.diagnostics ++ ((r.accept token).2.map fun e => ⟨token.line, token.column, e⟩).toList := by
  cases hrefused : (r.accept token).2 with
  | none => rw [note_of_accepted hrefused, diagnostics_accept]; exact (List.append_nil _).symm
  | some e => rw [note_of_refused hrefused, skip, diagnostics_accept]; rfl

/-- **Line after line**, what is noted comes behind what was noted before. -/
theorem diagnostics_foldl_note (r : Reader) (tokens : List Token) :
    (tokens.foldl note r).diagnostics = r.diagnostics ++ r.refusals tokens := by
  induction tokens generalizing r with
  | nil => exact (List.append_nil _).symm
  | cons token rest ih => rw [List.foldl_cons, ih, diagnostics_note, refusals, List.append_assoc]

/-- Reading on with what is refused only noted, a reader stays with its draft. -/
theorem drafts_note {d : Dialect} {r : Reader} {D : Draft} (h : r.Drafts d D) (token : Token) :
    (r.note token).Drafts d (D.accept d token.raw token.content).1 := by
  obtain ⟨hnext, -, -⟩ := alike_accept h token
  cases hrefused : (r.accept token).2 with
  | none => rw [note_of_accepted hrefused]; exact hnext
  | some e =>
    rw [note_of_refused hrefused]
    exact ⟨hnext.sound, hnext.dialect, hnext.sheet, hnext.target, hnext.waiting⟩

/-! ## Results -/

/-- **Lenient reading goes on to the end.** -/
theorem run_lenient (r : Reader) (tokens : List Token) :
    r.run .lenient tokens = .ok (tokens.foldl note r) := by
  induction tokens generalizing r with
  | nil => rfl
  | cons token rest ih =>
    rw [run_cons, List.foldl_cons]
    cases hrefused : (r.accept token).2 with
    | none => rw [note_of_accepted hrefused]; exact ih _
    | some e => rw [note_of_refused hrefused]; exact ih _

/-- **Strict reading gives the first refusal**, or all there is when nothing is refused. -/
theorem run_strict (r : Reader) (tokens : List Token) :
    r.run .strict tokens =
      match r.refusals tokens with
      | [] => .ok (tokens.foldl note r)
      | first :: _ => .error first.error := by
  induction tokens generalizing r with
  | nil => rfl
  | cons token rest ih =>
    rw [run_cons, List.foldl_cons]
    cases hrefused : (r.accept token).2 with
    | none => rw [refusals_of_accepted hrefused, note_of_accepted hrefused]; exact ih _
    | some e => rw [refusals_of_refused hrefused]

/-- **A reading that gives a result** went on to the end, whatever its mode. -/
theorem eq_foldl_note_of_run {mode : Mode} {r r' : Reader} {tokens : List Token}
    (h : r.run mode tokens = .ok r') : r' = tokens.foldl note r := by
  cases mode with
  | lenient => rw [run_lenient] at h; exact (Except.ok.inj h).symm
  | strict =>
    rw [run_strict] at h
    cases hrefusals : r.refusals tokens with
    | nil => rw [hrefusals] at h; exact (Except.ok.inj h).symm
    | cons first rest => rw [hrefusals] at h; exact absurd h nofun

end Reader

/-! ## Places -/

/-- The diagnostic stands in the line that its error names, and in the column too if that names
    one. -/
def Diagnostic.Placed (diagnostic : Diagnostic) : Prop :=
  diagnostic.error.line? = some diagnostic.line ∧
    ∀ line column fault, diagnostic.error = .malformed line column fault →
      diagnostic.column = column

namespace Reader

theorem placed_accept {r : Reader} {token : Token} {e : Error} (h : (r.accept token).2 = some e) :
    Diagnostic.Placed ⟨token.line, token.column, e⟩ := by
  unfold accept at h
  cases hcontent : token.content with
  | blank => rw [hcontent] at h; exact absurd h nofun
  | comment c => rw [hcontent] at h; exact absurd h nofun
  | malformed fault =>
    rw [hcontent] at h
    obtain rfl := Option.some.inj h
    exact ⟨rfl, fun _ _ _ hmalformed => (Error.malformed.inj hmalformed).2.1⟩
  | header name comment =>
    rw [hcontent] at h
    change (r.acceptHeader _ _ _ _).2 = some e at h
    unfold acceptHeader at h
    split at h
    · cases hpolicy : r.document.dialect.sectionPolicy with
      | merge => rw [hpolicy] at h; exact absurd h nofun
      | reject =>
        rw [hpolicy] at h
        obtain rfl := Option.some.inj h
        exact ⟨rfl, fun _ _ _ hmalformed => absurd hmalformed nofun⟩
    · exact absurd h nofun
  | entry key value comment =>
    rw [hcontent] at h
    change (r.acceptEntry _ _ _ _ _ _).2 = some e at h
    unfold acceptEntry at h
    cases htarget : r.target with
    | discard =>
      rw [htarget] at h
      obtain rfl := Option.some.inj h
      exact ⟨rfl, fun _ _ _ hmalformed => (Error.malformed.inj hmalformed).2.1⟩
    | inSection name =>
      rw [htarget] at h
      dsimp only at h
      split at h
      · obtain rfl := Option.some.inj h
        exact ⟨rfl, fun _ _ _ hmalformed => absurd hmalformed nofun⟩
      · exact absurd h nofun

/-- **Every refusal is noted where its error is.** -/
theorem placed_of_mem_refusals {tokens : List Token} : ∀ {r : Reader} {diagnostic : Diagnostic},
    diagnostic ∈ r.refusals tokens → diagnostic.Placed := by
  induction tokens with
  | nil => intro _ _ h; exact absurd h List.not_mem_nil
  | cons token rest ih =>
    intro r diagnostic h
    rcases List.mem_append.mp h with h | h
    · obtain ⟨e, he, rfl⟩ := Option.map_eq_some_iff.mp (Option.mem_toList.mp h)
      exact placed_accept he
    · exact ih h

end Reader

/-! ## Dialects in another mode -/

/-- The dialect in a mode. -/
def Dialect.inMode (d : Dialect) (mode : Mode) : Dialect := { d with mode := mode }

/-- The document under its dialect in a mode. -/
def Document.inMode (doc : Document) (mode : Mode) : Document :=
  { doc with dialect := doc.dialect.inMode mode }

/-- The reader with its document under a dialect in a mode. -/
def Reader.inMode (r : Reader) (mode : Mode) : Reader := { r with document := r.document.inMode mode }

/-- What is seen of a document does not depend on a mode. -/
@[simp] theorem Document.content_inMode (doc : Document) (mode : Mode) :
    (doc.inMode mode).content = doc.content := rfl

/-- Nor does what is written of it. -/
@[simp] theorem Document.render_inMode (doc : Document) (mode : Mode) (r : Rendering) :
    (doc.inMode mode).render r = doc.render r := rfl

theorem tokensFrom_inMode (d : Dialect) (mode : Mode) (n : Nat) (ls : List Text) :
    tokensFrom (d.inMode mode) n ls = tokensFrom d n ls := by
  induction ls generalizing n with
  | nil => rfl
  | cons raw rest ih => exact congrArg (Token.ofLine d n raw :: ·) (ih (n + 1))

@[simp] theorem tokens_inMode (d : Dialect) (mode : Mode) (text : Text) :
    tokens (d.inMode mode) text = tokens d text :=
  tokensFrom_inMode d mode 1 _

/-- Changes of a section are the same in every mode. -/
theorem Document.upsertSection_inMode (doc : Document) (mode : Mode) (name : Text)
    (change : Section → Section) :
    (doc.inMode mode).upsertSection name change = (doc.upsertSection name change).inMode mode := by
  unfold upsertSection
  cases name.isEmpty <;> rfl

namespace Reader

/-- A line does the same in two modes: its reader is the one reader in both. -/
def AlikeIn (mode : Mode) (result result' : Reader × Option Error) : Prop :=
  result' = (result.1.inMode mode, result.2)

theorem acceptHeader_inMode (r : Reader) (mode : Mode) (line : Nat) (raw name : Text)
    (comment : Option Comment) :
    AlikeIn mode (r.acceptHeader line raw name comment)
      ((r.inMode mode).acceptHeader line raw name comment) := by
  have hopen : (r.inMode mode).openSection raw name comment =
      (r.openSection raw name comment).inMode mode := by
    unfold openSection Document.ensureSection
    dsimp only [inMode]
    rw [Document.upsertSection_inMode]
    rfl
  have hhas : (r.inMode mode).document.hasSection name = r.document.hasSection name := rfl
  have hpolicy : (r.inMode mode).document.dialect.sectionPolicy =
      r.document.dialect.sectionPolicy := rfl
  unfold acceptHeader
  rw [hopen, hhas, hpolicy]
  cases r.document.hasSection name with
  | true => cases r.document.dialect.sectionPolicy <;> rfl
  | false => rfl

theorem acceptEntry_inMode (r : Reader) (mode : Mode) (line column : Nat) (raw key value : Text)
    (comment : Option Comment) :
    AlikeIn mode (r.acceptEntry line column raw key value comment)
      ((r.inMode mode).acceptEntry line column raw key value comment) := by
  have hput : ∀ name s, (r.inMode mode).putEntry name s raw key value comment =
      (r.putEntry name s raw key value comment).inMode mode := by
    intro name s
    unfold putEntry
    dsimp only [inMode]
    rw [Document.upsertSection_inMode]
    rfl
  have htarget : (r.inMode mode).target = r.target := rfl
  unfold acceptEntry
  rw [htarget]
  cases r.target with
  | discard => rfl
  | inSection name =>
    dsimp only
    rw [hput]
    show AlikeIn mode (if _ then _ else _) (if ((r.document.section? name).getD
      (r.document.newSection name)).contains key &&
        decide (r.document.dialect.keyPolicy = .reject) then _ else _)
    cases ((r.document.section? name).getD (r.document.newSection name)).contains key &&
      decide (r.document.dialect.keyPolicy = .reject) <;> rfl

/-- **A line does the same in every mode.** -/
theorem accept_inMode (r : Reader) (mode : Mode) (token : Token) :
    AlikeIn mode (r.accept token) ((r.inMode mode).accept token) := by
  unfold accept
  cases token.content with
  | blank => rfl
  | comment c => rfl
  | malformed fault => rfl
  | header name comment => exact acceptHeader_inMode r mode _ _ _ _
  | entry key value comment => exact acceptEntry_inMode r mode _ _ _ _ _ _

theorem note_inMode (r : Reader) (mode : Mode) (token : Token) :
    (r.inMode mode).note token = (r.note token).inMode mode := by
  have haccept := r.accept_inMode mode token
  unfold note
  rw [show (r.inMode mode).accept token = _ from haccept]
  cases r.accept token with
  | mk next refused => cases refused <;> rfl

theorem foldl_note_inMode (r : Reader) (mode : Mode) (tokens : List Token) :
    tokens.foldl note (r.inMode mode) = (tokens.foldl note r).inMode mode := by
  induction tokens generalizing r with
  | nil => rfl
  | cons token rest ih => rw [List.foldl_cons, note_inMode, ih, List.foldl_cons]

end Reader

/-! ## Agreement -/

/-- Reading a text to its end, whatever is refused; the mode of the dialect plays no part. -/
def Parsed.ofText (d : Dialect) (text : Text) : Parsed :=
  ((tokens d text).foldl Reader.note (.start d)).finish text

theorem Parsed.diagnostics_ofText (d : Dialect) (text : Text) :
    (Parsed.ofText d text).diagnostics = (Reader.start d).refusals (tokens d text) :=
  Reader.diagnostics_foldl_note _ _

/-- **A text that reads at all** reads as what comes of reading it through. -/
theorem Parsed.eq_ofText_of_parse {d : Dialect} {text : Text} {p : Parsed}
    (h : parse d text = .ok p) : p = Parsed.ofText d text := by
  unfold parse at h
  cases hrun : (Reader.start d).run d.mode (tokens d text) with
  | error e => rw [hrun] at h; exact absurd h nofun
  | ok r =>
    rw [hrun] at h
    rw [← Except.ok.inj h, Reader.eq_foldl_note_of_run hrun]
    rfl

theorem Parsed.ofText_inMode (d : Dialect) (mode : Mode) (text : Text) :
    (Parsed.ofText (d.inMode mode) text).document = (Parsed.ofText d text).document.inMode mode ∧
      (Parsed.ofText (d.inMode mode) text).diagnostics = (Parsed.ofText d text).diagnostics := by
  have hfold : (tokens d text).foldl Reader.note (.start (d.inMode mode)) =
      ((tokens d text).foldl Reader.note (.start d)).inMode mode :=
    Reader.foldl_note_inMode (.start d) mode _
  unfold Parsed.ofText
  rw [tokens_inMode, hfold]
  exact ⟨rfl, rfl⟩

/-- **Lenient reading never fails.** -/
theorem parse_lenient (d : Dialect) (text : Text) :
    parse (d.inMode .lenient) text = .ok (Parsed.ofText (d.inMode .lenient) text) := by
  show ((Reader.start (d.inMode .lenient)).run .lenient _).map _ = _
  rw [Reader.run_lenient]
  rfl

/-- Strict reading gives what comes of reading through if nothing is refused. -/
theorem parse_strict (d : Dialect) (text : Text) :
    parse (d.inMode .strict) text =
      match (Parsed.ofText d text).diagnostics with
      | [] => .ok (Parsed.ofText (d.inMode .strict) text)
      | first :: _ => .error first.error := by
  show ((Reader.start (d.inMode .strict)).run .strict _).map _ = _
  rw [Reader.run_strict, ← (Parsed.ofText_inMode d .strict text).2, Parsed.diagnostics_ofText]
  cases (Reader.start (d.inMode .strict)).refusals (tokens (d.inMode .strict) text) <;> rfl

/-- Validation gives what is refused when the text is read through. -/
theorem validate_eq (d : Dialect) (text : Text) :
    validate d text = (Parsed.ofText d text).diagnostics := by
  have hlenient : parse { d with mode := .lenient } text = _ := parse_lenient d text
  unfold validate
  rw [hlenient]
  exact (Parsed.ofText_inMode d .lenient text).2

/-- **Strict reading, lenient reading and validation agree.**  Lenient reading never fails; strict
    reading fails exactly when there is something to report, with the error of the first diagnostic,
    which stands where that error is; and what both modes read is the same, seen or written. -/
theorem strict_lenient_validate_agree (d : Dialect) (text : Text) :
    ∃ lenient, parse (d.inMode .lenient) text = .ok lenient ∧
      validate d text = lenient.diagnostics ∧
      ((∃ e, parse (d.inMode .strict) text = .error e) ↔ lenient.diagnostics ≠ []) ∧
      (∀ e, parse (d.inMode .strict) text = .error e →
        ∃ first rest, lenient.diagnostics = first :: rest ∧ first.error = e ∧ first.Placed) ∧
      ∀ strict, parse (d.inMode .strict) text = .ok strict →
        strict.diagnostics = [] ∧ strict.document.content = lenient.document.content ∧
          ∀ r, strict.document.render r = lenient.document.render r := by
  obtain ⟨hlenient, hsame⟩ := Parsed.ofText_inMode d .lenient text
  obtain ⟨hstrict, hstrictSame⟩ := Parsed.ofText_inMode d .strict text
  refine ⟨_, parse_lenient d text, (validate_eq d text).trans hsame.symm, ?_, ?_, ?_⟩
  · rw [parse_strict, hsame]
    cases (Parsed.ofText d text).diagnostics with
    | nil => simp
    | cons first rest => simp
  · intro e he
    rw [parse_strict] at he
    rw [hsame]
    cases hnoted : (Parsed.ofText d text).diagnostics with
    | nil => rw [hnoted] at he; exact absurd he nofun
    | cons first rest =>
      rw [hnoted] at he
      refine ⟨first, rest, rfl, Except.error.inj he, ?_⟩
      rw [Parsed.diagnostics_ofText] at hnoted
      exact Reader.placed_of_mem_refusals (hnoted ▸ List.mem_cons_self)
  · intro strict hread
    rw [parse_strict] at hread
    cases hnoted : (Parsed.ofText d text).diagnostics with
    | cons first rest => rw [hnoted] at hread; exact absurd hread nofun
    | nil =>
      rw [hnoted] at hread
      obtain rfl := Except.ok.inj hread
      rw [hlenient, hstrict, hstrictSame, hnoted]
      refine ⟨rfl, ?_, fun r => ?_⟩
      · rw [Document.content_inMode, Document.content_inMode]
      · rw [Document.render_inMode, Document.render_inMode]

end IniFile
