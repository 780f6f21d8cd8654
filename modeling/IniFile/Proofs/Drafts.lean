/-
  Drafts: reading onto sheets.

  A reader builds a document, with identities for everything it files.  A `Draft` builds the SHEET
  of that document, and `Draft.accept` does to it what `Reader.accept` does to a reader: `true` says
  that the line is accepted, `false` that it is refused.

  1. **Drafts** — one line, and line after line.
  2. **Entry lines** — putting a line into a section changes its entries by `Dialect.putLine`.
  3. **Simulation** — a reader whose document is sound goes on with a sound document, and its draft
     is where the draft would have gone; so `parse` is determined by the draft of its lines.
-/
import IniFile.Document.Reader
import IniFile.Proofs.Lines
import IniFile.Proofs.Simulation

namespace IniFile

/-! ## Drafts -/

/-- The captured lines of an entry with one more line, as the policy says. -/
def EntryLine.file (policy : KeyPolicy) (line : EntryLine) (old : List EntryLine) : List EntryLine :=
  match policy with
  | .append => old ++ [line]
  | _ => [{ line with leading := old.flatMap EntryLine.leading ++ line.leading }]

/-- An entry with the value that a line gives it, as the policy says. -/
def SheetEntry.store (policy : KeyPolicy) (value : Text) (e : SheetEntry) : SheetEntry :=
  match policy with
  | .append => e.pushValue value
  | _ => e.setValue value

/-- An entry with one more line, as the policy says. -/
def SheetEntry.file (policy : KeyPolicy) (line : EntryLine) (e : SheetEntry) : SheetEntry :=
  { e.store policy line.value with
    comment := line.comment
    lines := line.file policy e.lines }

/-- An entry that was read from one line. -/
def SheetEntry.ofLine (key : Text) (line : EntryLine) : SheetEntry :=
  ⟨⟨key, [line.value], line.comment⟩, [line]⟩

/-- The entries of a section with one more line for a key. -/
def Dialect.putLine (d : Dialect) (key : Text) (line : EntryLine) (es : List SheetEntry) :
    List SheetEntry :=
  Roster.upsert (d.isKey key) (.file d.keyPolicy line) (.ofLine key line) es

namespace Sheet

/-- A new section with its header at the end. -/
def pushHeader (name : Text) (line : HeaderLine) (S : Sheet) : Sheet :=
  { S with sections := S.sections ++ [⟨name, some line, []⟩] }

/-- The sheet after the last line of a text; `waiting` are the lines that no header or
    entry took. -/
def finish (waiting : List Text) (text : Text) (S : Sheet) : Sheet :=
  { S with trailing := waiting, finalNewline := Text.isClosed text, bom := text.head? = some IniFile.bom }

end Sheet

/-- A sheet in the making. -/
structure Draft where
  sheet : Sheet
  target : Target
  waiting : List Text
deriving DecidableEq, Repr

namespace Draft

/-- The draft before the first line. -/
def start : Draft := ⟨.blank, .inSection [], []⟩

/-- A blank or comment line waits for the next header or entry. -/
def wait (D : Draft) (raw : Text) : Draft := { D with waiting := D.waiting ++ [raw] }

/-- A header line. -/
def acceptHeader (d : Dialect) (D : Draft) (raw name : Text) (comment : Option Comment) :
    Draft × Bool :=
  if D.sheet.hasSection d name then
    match d.sectionPolicy with
    | .merge => ({ D with target := .inSection name }, true)
    | .reject => ({ D with target := .discard }, false)
  else (⟨D.sheet.pushHeader name ⟨D.waiting, raw, comment⟩, .inSection name, []⟩, true)

/-- An entry line. -/
def acceptEntry (d : Dialect) (D : Draft) (raw key value : Text) (comment : Option Comment) :
    Draft × Bool :=
  match D.target with
  | .discard => (D, false)
  | .inSection name =>
    if D.sheet.hasKey d name key && d.keyPolicy = .reject then (D, false)
    else
      ({ D with
          sheet := D.sheet.upsertSection d name (d.putLine key ⟨D.waiting, raw, value, comment⟩)
          waiting := [] }, true)

/-- One line with its content: the draft after it, and whether it is accepted. -/
def accept (d : Dialect) (D : Draft) (raw : Text) : Content → Draft × Bool
  | .blank => (D.wait raw, true)
  | .comment _ => (D.wait raw, true)
  | .header name comment => D.acceptHeader d raw name comment
  | .entry key value comment => D.acceptEntry d raw key value comment
  | .malformed _ => (D, false)

/-- Line after line: the draft after them, and whether all are accepted. -/
def read (d : Dialect) (D : Draft) : List Text → Draft × Bool
  | [] => (D, true)
  | raw :: rest =>
    let next := D.accept d raw (Line.scan d raw).1
    let final := next.1.read d rest
    (final.1, next.2 && final.2)

theorem read_append (d : Dialect) (D : Draft) (ls ms : List Text) :
    D.read d (ls ++ ms) =
      (((D.read d ls).1.read d ms).1, (D.read d ls).2 && ((D.read d ls).1.read d ms).2) := by
  induction ls generalizing D with
  | nil => simp [read]
  | cons raw rest ih =>
    rw [List.cons_append, read, ih]
    simp [read, Bool.and_assoc]

end Draft

/-! ## Entry lines -/

/-- Storing a value and filing the line of it is putting the line. -/
theorem Dialect.change_store (d : Dialect) (key : Text) (line : EntryLine) (es : List SheetEntry) :
    Roster.change (d.isKey key)
        (fun e => { e with comment := line.comment, lines := line.file d.keyPolicy e.lines })
        (Roster.upsert (d.isKey key) (.store d.keyPolicy line.value) (.fresh key line.value) es) =
      d.putLine key line es := by
  have hkeep : ∀ e ∈ es, d.isKey key (e.store d.keyPolicy line.value) = d.isKey key e := by
    intro e _
    unfold SheetEntry.store
    cases d.keyPolicy <;> rfl
  have hfresh : d.isKey key (.fresh key line.value) = true := d.sameKey_refl key
  rw [Roster.change_upsert hkeep hfresh]
  have hfile : ∀ e : SheetEntry, ({ e.store d.keyPolicy line.value with
      comment := line.comment
      lines := line.file d.keyPolicy (e.store d.keyPolicy line.value).lines } : SheetEntry) =
      e.file d.keyPolicy line := by
    intro e
    unfold SheetEntry.file SheetEntry.store
    cases d.keyPolicy <;> rfl
  have hnew : ({ SheetEntry.fresh key line.value with
      comment := line.comment
      lines := line.file d.keyPolicy (SheetEntry.fresh key line.value).lines } : SheetEntry) =
      .ofLine key line := by
    show SheetEntry.mk _ (line.file d.keyPolicy []) = SheetEntry.mk _ [line]
    unfold EntryLine.file
    cases d.keyPolicy <;> rfl
  rw [funext hfile, hnew]
  rfl

namespace Section

variable {d : Dialect} {c c₁ c₂ : Capture} {s s₁ s₂ : Section}
  {g₁ g₂ : List SheetEntry → List SheetEntry}

theorem Becomes.trans (h₁ : s.Becomes d c c₁ g₁ s₁) (h₂ : s₁.Becomes d c₁ c₂ g₂ s₂) :
    s.Becomes d c c₂ (fun es => g₂ (g₁ es)) s₂ where
  id_eq := h₂.id_eq.trans h₁.id_eq
  name_eq := h₂.name_eq.trans h₁.name_eq
  sound := h₂.sound
  entries := by rw [h₂.entries, h₁.entries]

namespace Sound

/-- After an upsert there is an entry of the key, and it has the identity foretold. -/
theorem exists_isKey_upsert (h : s.Sound d c) (key value : Text) {f : Entry → Entry}
    (hid : ∀ e, (f e).id = e.id) (hkey : ∀ e, (f e).key = e.key) :
    ∃ e ∈ (s.upsert key value f).entries.values,
      d.isKey key (c.entry e) = true ∧ e.id = s.entryId key := by
  have hvalues : (s.upsert key value f).entries.values =
      Roster.upsert (s.entries.named Entry.key key) f (.fresh ⟨s.id, s.nextEntry⟩ key value)
        s.entries.values := NameTable.values_upsert h.keyed key f _
  have hany := NameTable.contains_eq h.keyed key
  cases hfind : s.find? key with
  | none =>
    have hcontains := contains_of_find?_eq_none hfind
    rw [hvalues, Roster.upsert_of_not_any _ _ (hany.symm.trans hcontains)]
    refine ⟨_, List.mem_append_right _ (List.mem_singleton_self _), d.sameKey_refl key, ?_⟩
    unfold entryId
    rw [hfind]
    rfl
  | some e =>
    have hcontains : s.contains key = true := by rw [← isSome_find?, hfind]; rfl
    obtain ⟨hmem, hk⟩ := h.of_find?_eq_some hfind
    rw [hvalues, Roster.upsert_of_any _ _ (hany.symm.trans hcontains)]
    refine ⟨f e, List.mem_map.mpr ⟨e, hmem, ?_⟩, ?_, ?_⟩
    · rw [h.named_eq, if_pos hk]
    · show d.sameKey (f e).key key = true
      rw [hkey]
      exact hk
    · unfold entryId
      rw [hid, hfind]

/-- Nothing is captured yet for an entry that is still to be made. -/
theorem lines_entryId (h : s.Sound d c) {key : Text} (hkey : s.contains key = false) :
    c.lines (s.entryId key) = [] := by
  have hfind : s.find? key = none := by
    rw [← Option.not_isSome_iff_eq_none, isSome_find?, hkey]
    exact Bool.false_ne_true
  unfold entryId
  rw [hfind]
  exact h.unwritten _ (Nat.le_refl _)

theorem sectionId_entryId (h : s.Sound d c) (key : Text) : (s.entryId key).sectionId = s.id := by
  unfold entryId
  cases hfind : s.find? key with
  | none => rfl
  | some e => exact h.owned e (h.of_find?_eq_some hfind).1

/-- Filing a line records the lines of its entry. -/
theorem file_eq (h : s.Sound d c) (policy : KeyPolicy) (key : Text) (line : EntryLine) :
    Reader.file policy (!s.contains key) c (s.entryId key) line =
      c.recordLines (s.entryId key) (line.file policy (c.lines (s.entryId key))) := by
  cases hcontains : s.contains key with
  | true => cases policy <;> rfl
  | false =>
    rw [h.lines_entryId hcontains]
    cases policy <;> rfl

/-- Storing a value is an upsert. -/
theorem becomes_store (h : s.Sound d c) (policy : KeyPolicy) (key value : Text) :
    s.Becomes d c c (Roster.upsert (d.isKey key) (.store policy value) (.fresh key value))
      (s.store policy key value) := by
  cases policy with
  | append => exact h.becomes_upsert key value (fun _ => rfl) (fun _ => rfl) fun _ => rfl
  | overwrite => exact h.becomes_upsert key value (fun _ => rfl) (fun _ => rfl) fun _ => rfl
  | reject => exact h.becomes_upsert key value (fun _ => rfl) (fun _ => rfl) fun _ => rfl

theorem exists_isKey_store (h : s.Sound d c) (policy : KeyPolicy) (key value : Text) :
    ∃ e ∈ (s.store policy key value).entries.values,
      d.isKey key (c.entry e) = true ∧ e.id = s.entryId key := by
  cases policy with
  | append => exact h.exists_isKey_upsert key value (fun _ => rfl) fun _ => rfl
  | overwrite => exact h.exists_isKey_upsert key value (fun _ => rfl) fun _ => rfl
  | reject => exact h.exists_isKey_upsert key value (fun _ => rfl) fun _ => rfl

/-- **Putting a line into a section** stores its value and comment and files the line. -/
theorem becomes_putLine (h : s.Sound d c) (key : Text) (line : EntryLine) :
    s.Becomes d c (Reader.file d.keyPolicy (!s.contains key) c (s.entryId key) line)
      (d.putLine key line)
      ((s.store d.keyPolicy key line.value).modify key (·.setComment line.comment)) := by
  have hstore := h.becomes_store d.keyPolicy key line.value
  obtain ⟨stored, hmem, hkey, hid⟩ := h.exists_isKey_store d.keyPolicy key line.value
  obtain ⟨filed, hfiled⟩ : ∃ filed, filed = line.file d.keyPolicy (c.lines (s.entryId key)) :=
    ⟨_, rfl⟩
  have hlines : ∀ id, (c.recordLines (s.entryId key) filed).lines id =
      if id = s.entryId key then filed else c.lines id := by
    intro id
    exact c.lines_recordLines _ _ id
  rw [h.file_eq, ← hfiled]
  -- the line goes to the entry that was stored, and to no other
  have hmodify : (s.store d.keyPolicy key line.value).Becomes d c
      (c.recordLines (s.entryId key) filed)
      (Roster.change (d.isKey key) fun e =>
        { e with comment := line.comment, lines := line.file d.keyPolicy e.lines })
      ((s.store d.keyPolicy key line.value).modify key (·.setComment line.comment)) := by
    refine hstore.sound.becomes_modify key (fun _ => rfl) (fun _ => rfl) (fun e he hk => ?_)
      (fun e he hk => ?_) fun i hi => ?_
    · have hsame : e.id = s.entryId key := by
        rw [hstore.sound.eq_of_isKey he hmem hk hkey, hid]
      show SheetEntry.mk _ _ = SheetEntry.mk _ _
      rw [show (Entry.setComment e line.comment).id = e.id from rfl, hlines, if_pos hsame, hfiled,
        ← hsame]
      rfl
    · rw [hlines, if_neg]
      intro hsame
      rw [hstore.sound.eq_of_id_eq he hmem (hsame.trans hid.symm), hkey] at hk
      exact Bool.noConfusion hk
    · have hfresh : (⟨(s.store d.keyPolicy key line.value).id, i⟩ : EntryId) ≠ s.entryId key := by
        intro heq
        have hnumber := hstore.sound.numbered stored hmem
        rw [hid, ← heq] at hnumber
        exact Nat.not_lt.mpr hi hnumber
      rw [hlines, if_neg hfresh]
      exact hstore.sound.unwritten i hi
  have hboth := hstore.trans hmodify
  exact ⟨hboth.id_eq, hboth.name_eq, hboth.sound, hboth.entries.trans (d.change_store key line _)⟩

end Sound
end Section

/-! ## Simulation -/

namespace Document.Sound

variable {doc : Document}

/-- The key is looked for in the section that a line of it would go to. -/
theorem hasKey_eq (h : doc.Sound) (name key : Text) :
    doc.sheet.hasKey doc.dialect name key =
      ((doc.section? name).getD (doc.newSection name)).contains key := by
  rw [(h.sound_getD name).contains_eq]
  cases hs : doc.section? name with
  | none =>
    obtain ⟨hname, hnone⟩ := Sheet.of_hasSection_eq_false (h.hasSection_of_section?_eq_none hs)
    rw [Sheet.hasKey, List.isEmpty_eq_false_iff.mpr hname, if_neg Bool.false_ne_true]
    apply List.any_eq_false.mpr
    intro t ht
    rw [hnone t ht, Bool.false_and]
    exact Bool.false_ne_true
  | some s =>
    rcases h.of_section?_eq_some hs with ⟨rfl, rfl⟩ | ⟨hname, hmem, hn⟩
    · rfl
    · rw [Sheet.hasKey, List.isEmpty_eq_false_iff.mpr hname, if_neg Bool.false_ne_true,
        Option.getD_some, Bool.eq_iff_iff, List.any_eq_true]
      constructor
      · rintro ⟨t, ht, hboth⟩
        obtain ⟨hnt, hany⟩ := Bool.and_eq_true_iff.mp hboth
        obtain ⟨old, hold, rfl⟩ := List.mem_map.mp ht
        rw [← h.eq_of_isSection hold hmem hnt hn]
        exact hany
      · intro hany
        exact ⟨_, List.mem_map_of_mem hmem, Bool.and_eq_true_iff.mpr ⟨hn, hany⟩⟩

end Document.Sound

namespace Reader

/-- The document of the reader is sound, and the draft of the reader is `D`. -/
structure Drafts (d : Dialect) (r : Reader) (D : Draft) : Prop where
  sound : r.document.Sound
  dialect : r.document.dialect = d
  sheet : r.document.sheet = D.sheet
  target : r.target = D.target
  waiting : r.waiting = D.waiting

variable {d : Dialect} {r : Reader} {D : Draft}

theorem drafts_start (d : Dialect) : (start d).Drafts d .start :=
  ⟨Document.sound_empty d, rfl, Document.sheet_empty d, rfl, rfl⟩

/-- A reader and a draft take a line alike. -/
def Alike (d : Dialect) (r : Reader) (result : Reader × Option Error) (next : Draft × Bool) : Prop :=
  result.1.Drafts d next.1 ∧ result.2.isNone = next.2 ∧ result.1.diagnostics = r.diagnostics

/-- A new section with its header. -/
theorem drafts_openSection (h : r.Drafts d D) {raw name : Text} {comment : Option Comment}
    (hnew : r.document.hasSection name = false) :
    (r.openSection raw name comment).Drafts d
      ⟨D.sheet.pushHeader name ⟨D.waiting, raw, comment⟩, .inSection name, []⟩ := by
  obtain ⟨hsound, hdialect, hsheet, htarget, hwaiting⟩ := h
  rw [Document.hasSection, Bool.or_eq_false_iff, List.isEmpty_eq_false_iff] at hnew
  obtain ⟨c', hc'⟩ : ∃ c', c' =
      r.document.capture.recordHeader ⟨r.document.nextSection⟩ ⟨r.waiting, raw, comment⟩ := ⟨_, rfl⟩
  have hlines : c'.lines = r.document.capture.lines := by rw [hc']; rfl
  have hfresh := hsound.sound_newSection name
  have hb : (r.document.newSection name).Becomes r.document.dialect r.document.capture c' id
      (r.document.newSection name) :=
    ⟨rfl, rfl, hfresh.congr fun id _ => by rw [hlines],
      hfresh.entriesOf_congr fun id _ => by rw [hlines]⟩
  have hpush := hsound.pushSection id hnew.1 hnew.2 hb
    (hc' ▸ Capture.agreeOutside_recordHeader ⟨r.waiting, raw, comment⟩)
  have hdocument : (r.openSection raw name comment).document =
      { r.document.upsertSection name id with capture := c' } := by
    rw [hc', openSection, Document.ensureSection, Document.capture_upsertSection]
  refine ⟨hdocument ▸ hpush.1, ?_, ?_, rfl, rfl⟩
  · rw [hdocument]
    exact (Document.dialect_upsertSection _ _ _).trans hdialect
  · rw [hdocument, hpush.2, Sheet.pushHeader, ← hsheet, ← hwaiting, hc',
      Capture.header?_recordHeader, if_pos rfl]
    rfl

/-- An entry line that is accepted. -/
theorem drafts_putEntry (h : r.Drafts d D) {name : Text} {s : Section}
    (hs : (r.document.section? name).getD (r.document.newSection name) = s)
    (raw key value : Text) (comment : Option Comment) :
    (r.putEntry name s raw key value comment).Drafts d
      ⟨D.sheet.upsertSection d name (d.putLine key ⟨D.waiting, raw, value, comment⟩), D.target, []⟩ := by
  obtain ⟨hsound, hdialect, hsheet, htarget, hwaiting⟩ := h
  have hsection : s.Sound r.document.dialect r.document.capture := hs ▸ hsound.sound_getD name
  have hput := hsection.becomes_putLine key ⟨r.waiting, raw, value, comment⟩
  have hc : r.document.capture.AgreeOutside s.id (file r.document.dialect.keyPolicy
      (!s.contains key) r.document.capture (s.entryId key) ⟨r.waiting, raw, value, comment⟩) := by
    rw [hsection.file_eq]
    exact Capture.agreeOutside_recordLines (hsection.sectionId_entryId key) _
  have hupsert := hsound.upsertSection (fun _ => _) hs hput hc (by rw [hsection.file_eq]; rfl)
  have hdocument : (r.putEntry name s raw key value comment).document =
      { r.document.upsertSection name fun _ =>
          (s.store r.document.dialect.keyPolicy key value).modify key (·.setComment comment) with
        capture := file r.document.dialect.keyPolicy (!s.contains key) r.document.capture
          (s.entryId key) ⟨r.waiting, raw, value, comment⟩ } := by
    rw [putEntry, Document.capture_upsertSection]
  refine ⟨hdocument ▸ hupsert.1, ?_, ?_, htarget, rfl⟩
  · rw [hdocument]
    exact (Document.dialect_upsertSection _ _ _).trans hdialect
  · rw [hdocument, hupsert.2, hsheet, hdialect, hwaiting]

theorem alike_acceptHeader (h : r.Drafts d D) (n : Nat) (raw name : Text)
    (comment : Option Comment) :
    Alike d r (r.acceptHeader n raw name comment) (D.acceptHeader d raw name comment) := by
  have hhas : D.sheet.hasSection d name = r.document.hasSection name := by
    rw [← h.sheet, ← h.dialect, h.sound.hasSection_eq]
  unfold acceptHeader Draft.acceptHeader
  rw [hhas, h.dialect]
  cases hname : r.document.hasSection name with
  | true =>
    rw [if_pos rfl, if_pos rfl]
    cases d.sectionPolicy with
    | merge => exact ⟨⟨h.sound, h.dialect, h.sheet, rfl, h.waiting⟩, rfl, rfl⟩
    | reject => exact ⟨⟨h.sound, h.dialect, h.sheet, rfl, h.waiting⟩, rfl, rfl⟩
  | false => exact ⟨drafts_openSection h hname, rfl, rfl⟩

theorem alike_acceptEntry (h : r.Drafts d D) (n column : Nat) (raw key value : Text)
    (comment : Option Comment) :
    Alike d r (r.acceptEntry n column raw key value comment)
      (D.acceptEntry d raw key value comment) := by
  have hkey : ∀ name, ((r.document.section? name).getD (r.document.newSection name)).contains key =
      D.sheet.hasKey d name key := by
    intro name
    rw [← h.sheet, ← h.dialect, h.sound.hasKey_eq]
  unfold acceptEntry Draft.acceptEntry
  rw [h.target]
  cases htarget : D.target with
  | discard => exact ⟨h, rfl, rfl⟩
  | inSection name =>
    obtain ⟨s, hs⟩ : ∃ s, (r.document.section? name).getD (r.document.newSection name) = s := ⟨_, rfl⟩
    have hrefuse := hkey name
    rw [hs] at hrefuse
    simp only [hs, hrefuse, h.dialect]
    cases D.sheet.hasKey d name key && decide (d.keyPolicy = .reject) with
    | true => exact ⟨h, rfl, rfl⟩
    | false => exact ⟨htarget ▸ drafts_putEntry h hs raw key value comment, rfl, rfl⟩

/-- **One line**: a reader and a draft take it alike. -/
theorem alike_accept (h : r.Drafts d D) (token : Token) :
    Alike d r (r.accept token) (D.accept d token.raw token.content) := by
  unfold accept
  cases token.content with
  | blank => exact ⟨⟨h.sound, h.dialect, h.sheet, h.target, by rw [wait, h.waiting]; rfl⟩, rfl, rfl⟩
  | comment c =>
    exact ⟨⟨h.sound, h.dialect, h.sheet, h.target, by rw [wait, h.waiting]; rfl⟩, rfl, rfl⟩
  | header name comment => exact alike_acceptHeader h _ _ _ _
  | entry key value comment => exact alike_acceptEntry h _ _ _ _ _ _
  | malformed fault => exact ⟨h, rfl, rfl⟩

/-- One line of a text, and what becomes of the rest. -/
theorem run_cons (mode : Mode) (r : Reader) (token : Token) (rest : List Token) :
    r.run mode (token :: rest) =
      match (r.accept token).2, mode with
      | none, _ => (r.accept token).1.run mode rest
      | some e, .strict => .error e
      | some e, .lenient => ((r.accept token).1.skip token e).run mode rest := by
  conv => lhs; unfold run
  cases r.accept token with
  | mk next refused => cases refused <;> cases mode <;> rfl

/-- **Line after line.**  Reading goes to its end when nothing is refused or refusals are only
    noted, and what is noted is more than before when a line was refused. -/
theorem drafts_of_run_eq_ok {mode : Mode} {r' : Reader} : ∀ {n : Nat} {ls : List Text} {r : Reader}
    {D : Draft}, r.Drafts d D → r.run mode (tokensFrom d n ls) = .ok r' →
      r'.Drafts d (D.read d ls).1 ∧ r.diagnostics.length ≤ r'.diagnostics.length ∧
        ((D.read d ls).2 = false → r.diagnostics.length < r'.diagnostics.length)
  | _, [], r, D, h, hrun => by
      obtain rfl : r = r' := Except.ok.inj hrun
      exact ⟨h, Nat.le_refl _, fun hfalse => Bool.noConfusion hfalse⟩
  | n, raw :: rest, r, D, h, hrun => by
      obtain ⟨hnext, hsome, hsame⟩ := alike_accept h (Token.ofLine d n raw)
      rw [tokensFrom, run_cons] at hrun
      rw [Draft.read]
      change _ = (D.accept d raw (Line.scan d raw).1).2 at hsome
      cases hrefused : (r.accept (Token.ofLine d n raw)).2 with
      | none =>
        rw [hrefused] at hrun hsome
        obtain ⟨hfinal, hle, hlt⟩ := drafts_of_run_eq_ok hnext hrun
        rw [hsame] at hle hlt
        refine ⟨hfinal, hle, fun hfalse => hlt ?_⟩
        rw [← hsome] at hfalse
        exact hfalse
      | some e =>
        rw [hrefused] at hrun
        cases mode with
        | strict => simp at hrun
        -- a line that is refused is noted and skipped; the draft has not moved either
        | lenient =>
          have hskip : ((r.accept (Token.ofLine d n raw)).1.skip (Token.ofLine d n raw) e).Drafts d
              (D.accept d raw (Line.scan d raw).1).1 :=
            ⟨hnext.sound, hnext.dialect, hnext.sheet, hnext.target, hnext.waiting⟩
          obtain ⟨hfinal, hle, -⟩ := drafts_of_run_eq_ok hskip hrun
          rw [skip, List.length_append, hsame, List.length_singleton] at hle
          exact ⟨hfinal, Nat.le_of_succ_le hle, fun _ => hle⟩

/-- Lines that a draft accepts are read without a diagnostic. -/
theorem exists_run_eq_ok (mode : Mode) : ∀ {n : Nat} {ls : List Text} {r : Reader} {D : Draft},
    r.Drafts d D → (D.read d ls).2 = true →
      ∃ r', r.run mode (tokensFrom d n ls) = .ok r' ∧ r'.diagnostics = r.diagnostics
  | _, [], r, _, _, _ => ⟨r, rfl, rfl⟩
  | n, raw :: rest, r, D, h, hread => by
      obtain ⟨hnext, hsome, hsame⟩ := alike_accept h (Token.ofLine d n raw)
      obtain ⟨hfirst, hrest⟩ := Bool.and_eq_true_iff.mp hread
      rw [show (D.accept d (Token.ofLine d n raw).raw (Token.ofLine d n raw).content).2 = true
        from hfirst, Option.isNone_iff_eq_none] at hsome
      obtain ⟨r', hrun, hdiagnostics⟩ := exists_run_eq_ok mode (n := n + 1) hnext hrest
      refine ⟨r', ?_, hdiagnostics.trans hsame⟩
      rw [tokensFrom, run_cons, hsome]
      exact hrun

end Reader

/-! ## Texts -/

/-- The draft of a text, and whether all of its lines are accepted. -/
def Draft.ofText (d : Dialect) (text : Text) : Draft × Bool :=
  Draft.start.read d (Text.lines (Text.dropBom text))

/-- **What a text reads as** is a sound document on the sheet of the text's draft, and there are
    diagnostics when a line is refused. -/
theorem of_parse_eq_ok {d : Dialect} {text : Text} {p : Parsed} (h : parse d text = .ok p) :
    p.document.Sound ∧ p.document.dialect = d ∧
      p.document.sheet =
        (Draft.ofText d text).1.sheet.finish (Draft.ofText d text).1.waiting text ∧
      (p.diagnostics = [] → (Draft.ofText d text).2 = true) := by
  unfold parse at h
  cases hrun : (Reader.start d).run d.mode (tokens d text) with
  | error e => simp [hrun, Except.map] at h
  | ok r =>
    rw [hrun] at h
    obtain rfl : r.finish text = p := Except.ok.inj h
    obtain ⟨hdrafts, -, hlt⟩ := Reader.drafts_of_run_eq_ok (Reader.drafts_start d) hrun
    change r.Drafts d (Draft.ofText d text).1 at hdrafts
    refine ⟨?_, hdrafts.dialect, ?_, fun hnone => ?_⟩
    · have hs := hdrafts.sound
      exact { hs with
        globalSound := hs.globalSound.congr fun _ _ => rfl
        sound := fun s hmem => (hs.sound s hmem).congr fun _ _ => rfl
        unwritten := hs.unwritten
        unheaded := hs.unheaded }
    · rw [← hdrafts.sheet, ← hdrafts.waiting]
      rfl
    · cases hread : (Draft.ofText d text).2 with
      | true => rfl
      | false =>
        have hless := hlt hread
        rw [show r.diagnostics = [] from hnone] at hless
        exact absurd hless (Nat.not_lt_zero _)

/-- A result that passes a test is a result. -/
theorem Except.exists_ok_of_any {ε α : Type} {x : Except ε α} {test : α → Bool}
    (h : x.toOption.any test = true) : ∃ a, x = .ok a ∧ test a = true := by
  cases x with
  | error fault => exact Bool.noConfusion h
  | ok a => exact ⟨a, rfl, h⟩

/-- **A text whose lines are all accepted** reads without a diagnostic. -/
theorem exists_parse_eq_ok {d : Dialect} {text : Text} (h : (Draft.ofText d text).2 = true) :
    ∃ doc, parse d text = .ok ⟨doc, []⟩ := by
  obtain ⟨r, hrun, hdiagnostics⟩ :=
    Reader.exists_run_eq_ok d.mode (n := 1) (Reader.drafts_start d) h
  refine ⟨(r.finish text).document, ?_⟩
  rw [parse, tokens, hrun]
  show Except.ok (r.finish text) = _
  rw [show r.finish text = ⟨(r.finish text).document, r.diagnostics⟩ from rfl, hdiagnostics]
  rfl

end IniFile
