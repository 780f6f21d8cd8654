/-
  Reading a sheet back.

  A FAITHFUL sheet says exactly what its captured lines say: put down line by line they are a text
  from which the very same sheet is read.  It is where two halves meet: here every faithful sheet is
  read back, and elsewhere whatever is written for a document is shown to be the page of a faithful
  sheet.

  The proof goes up through the sheet — a line, the lines of an entry, the entries of a section, the
  sections — and each level says what reading on does to the sheet so far (`Reads`).
-/
import IniFile.Proofs.Kept
import IniFile.Proofs.Places

namespace IniFile

/-! ## Faithful sheets -/

/-- The entry says what its captured lines say.  It has more than one only where values are
    appended. -/
structure SheetEntry.Faithful (d : Dialect) (e : SheetEntry) : Prop where
  fits : e.Matches
  lines : ∀ line ∈ e.lines, line.Kept d e.key
  first : ∀ line, e.lines.head? = some line →
    Line.Says d line.raw (.entry e.key line.value line.comment)
  policy : 2 ≤ e.lines.length → d.keyPolicy = .append

/-- **A sheet that says exactly what its captured lines say.** -/
structure Sheet.Faithful (d : Dialect) (S : Sheet) : Prop where
  distinct : S.Distinct d
  all : S.All (SheetEntry.Faithful d) fun name header? => ∃ line, header? = some line ∧ line.Kept d name
  trailing : ∀ l ∈ S.trailing, Line.Quiet d l

/-! ## Reading on -/

/-- The lines make the sheet, with nothing refused, and reading goes on in its last section; some
    quiet lines still wait. -/
def Reads (d : Dialect) (done : List Text) (S : Sheet) (waiting : List Text) : Prop :=
  Draft.start.read d done = (⟨S, .inSection S.lastName, waiting⟩, true)

namespace Reads

variable {d : Dialect} {done : List Text} {S : Sheet} {waiting : List Text}

theorem nil (d : Dialect) : Reads d [] .blank [] := rfl

theorem distinct (h : Reads d done S waiting) : S.Distinct d := by
  have hdistinct := Draft.distinct_read d done
  rw [h] at hdistinct
  exact hdistinct

/-- One more line that is accepted. -/
theorem concat (h : Reads d done S waiting) {raw : Text} {content : Content} {S' : Sheet}
    {waiting' : List Text} (hmeans : Line.Says d raw content)
    (haccept : Draft.accept d ⟨S, .inSection S.lastName, waiting⟩ raw content =
      (⟨S', .inSection S'.lastName, waiting'⟩, true)) : Reads d (done ++ [raw]) S' waiting' := by
  rw [Reads, Draft.read_append, h]
  simp [Draft.read, Line.scan_of_says hmeans, haccept]

theorem quiet (h : Reads d done S waiting) {ls : List Text} (hls : ∀ l ∈ ls, Line.Quiet d l) :
    Reads d (done ++ ls) S (waiting ++ ls) := by
  induction ls generalizing done waiting with
  | nil => rwa [List.append_nil, List.append_nil]
  | cons raw rest ih =>
    have hraw : Reads d (done ++ [raw]) S (waiting ++ [raw]) := by
      rcases (hls raw List.mem_cons_self).1 with hblank | ⟨c, hcomment⟩
      · exact h.concat hblank rfl
      · exact h.concat hcomment rfl
    rw [List.append_cons done, List.append_cons waiting]
    exact ih hraw fun l hl => hls l (List.mem_cons_of_mem _ hl)

/-! ### Entries -/

/-- One more line of the last entry. -/
theorem again (h : Reads d done S []) {es : List SheetEntry} {e : SheetEntry}
    (hlast : S.lastEntries = es ++ [e]) (hpolicy : d.keyPolicy = .append) {line : EntryLine}
    (hline : line.Kept d e.key) :
    Reads d (done ++ line.block) (S.setLast (es ++ [e.file .append line])) [] := by
  obtain ⟨key, hmeans, hkey⟩ := hline.meaning
  have hwaiting := h.quiet hline.quiet
  rw [EntryLine.block, ← List.append_assoc]
  refine hwaiting.concat hmeans ?_
  rw [Draft.accept_entry_again h.distinct line.raw line.value line.comment hlast
    (Dialect.sameKey_symm hkey) hpolicy, Sheet.lastName_setLast]
  rfl

/-- All further lines of the last entry. -/
theorem lines (h : Reads d done S []) {es : List SheetEntry} {e : SheetEntry}
    (hlast : S.lastEntries = es ++ [e]) {ls : List EntryLine}
    (hpolicy : ls ≠ [] → d.keyPolicy = .append) (hls : ∀ line ∈ ls, line.Kept d e.key) :
    Reads d (done ++ ls.flatMap EntryLine.block)
      (S.setLast (es ++ [ls.foldl (fun e line => e.file .append line) e])) [] := by
  induction ls generalizing done S e with
  | nil =>
    rw [List.flatMap_nil, List.append_nil, List.foldl_nil, ← hlast, Sheet.setLast_lastEntries]
    exact h
  | cons line rest ih =>
    have happend := hpolicy (List.cons_ne_nil _ _)
    have hnext := h.again hlast happend (hls line List.mem_cons_self)
    have hrest := ih hnext (Sheet.lastEntries_setLast _ _) (fun _ => happend) fun l hl => by
      rw [SheetEntry.key_file]
      exact hls l (List.mem_cons_of_mem _ hl)
    rw [Sheet.setLast_setLast] at hrest
    rw [List.flatMap_cons, ← List.append_assoc]
    exact hrest

end Reads

/-- Appending lines appends their values; the comment is that of the last line. -/
theorem SheetEntry.foldl_file (ls : List EntryLine) (e : SheetEntry) :
    ls.foldl (fun e line => e.file .append line) e =
      ⟨⟨e.key, e.values ++ ls.map EntryLine.value,
        (ls.getLast?.map EntryLine.comment).getD e.comment⟩, e.lines ++ ls⟩ := by
  induction ls generalizing e with
  | nil => simp
  | cons line rest ih =>
    rw [List.foldl_cons, ih]
    cases rest with
    | nil => simp [SheetEntry.file, store, pushValue, EntryLine.file]
    | cons next more =>
      rw [List.getLast?_cons_cons]
      cases hlast : (next :: more).getLast? with
      | none => simp at hlast
      | some last => simp [SheetEntry.file, store, pushValue, EntryLine.file]

/-- A matching entry is made of its first line and the lines appended to that. -/
theorem SheetEntry.Matches.eq_foldl {e : SheetEntry} (h : e.Matches) {line : EntryLine}
    {rest : List EntryLine} (hlines : e.lines = line :: rest) :
    rest.foldl (fun e line => e.file .append line) (ofLine e.key line) = e := by
  obtain ⟨⟨key, values, comment⟩, lines⟩ := e
  obtain ⟨-, hvalues, hcomment⟩ := h
  obtain rfl : lines = line :: rest := hlines
  obtain rfl : values = (line :: rest).map EntryLine.value := hvalues
  obtain rfl : comment = (line :: rest).getLast?.bind EntryLine.comment := hcomment
  rw [foldl_file]
  cases rest with
  | nil => rfl
  | cons next more =>
    rw [List.getLast?_cons_cons]
    cases hlast : (next :: more).getLast? with
    | none => simp at hlast
    | some last => simp [ofLine]

namespace Reads

variable {d : Dialect} {done : List Text} {S : Sheet}

/-- **A faithful entry** with a new key. -/
theorem entry (h : Reads d done S []) {e : SheetEntry} (he : e.Faithful d)
    (hnew : ∀ f ∈ S.lastEntries, d.isKey e.key f = false) :
    Reads d (done ++ e.block) (S.setLast (S.lastEntries ++ [e])) [] := by
  obtain ⟨line, rest, hlines⟩ := List.exists_cons_of_ne_nil he.fits.captured
  have hkept : ∀ l ∈ line :: rest, l.Kept d e.key := hlines ▸ he.lines
  have hmeans := he.first line (by rw [hlines]; rfl)
  have hfirst : Reads d (done ++ line.block)
      (S.setLast (S.lastEntries ++ [.ofLine e.key line])) [] := by
    rw [EntryLine.block, ← List.append_assoc]
    refine (h.quiet (hkept line List.mem_cons_self).quiet).concat hmeans ?_
    rw [Draft.accept_entry_new h.distinct line.raw line.value line.comment hnew,
      Sheet.lastName_setLast]
    rfl
  have hpolicy : rest ≠ [] → d.keyPolicy = .append := by
    intro hrest
    apply he.policy
    have hlength := List.length_pos_iff.mpr hrest
    rw [hlines, List.length_cons]
    omega
  have hall := hfirst.lines (Sheet.lastEntries_setLast _ _) hpolicy fun l hl =>
    hkept l (List.mem_cons_of_mem _ hl)
  rw [Sheet.setLast_setLast, he.fits.eq_foldl hlines] at hall
  rw [SheetEntry.block, hlines, List.flatMap_cons, ← List.append_assoc]
  exact hall

/-- **Faithful entries** with new keys. -/
theorem entries (h : Reads d done S []) {es : List SheetEntry} (hes : ∀ e ∈ es, e.Faithful d)
    (hkeys : d.DistinctKeys (S.lastEntries ++ es)) :
    Reads d (done ++ es.flatMap SheetEntry.block) (S.setLast (S.lastEntries ++ es)) [] := by
  induction es generalizing done S with
  | nil =>
    rw [List.flatMap_nil, List.append_nil, List.append_nil, Sheet.setLast_lastEntries]
    exact h
  | cons e rest ih =>
    rw [List.append_cons] at hkeys ⊢
    -- the key is new among the entries so far, and the rest of them are new behind it
    have hfront : d.DistinctKeys (S.lastEntries ++ [e]) := by
      rw [Dialect.DistinctKeys, List.map_append] at hkeys
      exact (List.nodup_append.mp hkeys).1
    have hnext := h.entry (hes e List.mem_cons_self) (hfront.isKey_last (d.sameKey_refl e.key))
    have hrest := ih hnext (fun f hf => hes f (List.mem_cons_of_mem _ hf))
      (by rw [Sheet.lastEntries_setLast]; exact hkeys)
    rw [Sheet.setLast_setLast, Sheet.lastEntries_setLast] at hrest
    rw [List.flatMap_cons, ← List.append_assoc]
    exact hrest

/-! ### Sections -/

/-- **A faithful section** with a new name. -/
theorem oneSection (h : Reads d done S []) {s : SheetSection} (hname : s.name ≠ [])
    (hnew : ∀ t ∈ S.sections, d.isSection s.name t = false) {line : HeaderLine}
    (hheader : s.header? = some line) (hline : line.Kept d s.name)
    (hes : ∀ e ∈ s.entries, e.Faithful d) (hkeys : d.DistinctKeys s.entries) :
    Reads d (done ++ s.block) { S with sections := S.sections ++ [s] } [] := by
  have hopen : Reads d (done ++ line.block) (S.pushHeader s.name line) [] := by
    rw [HeaderLine.block, ← List.append_assoc]
    refine (h.quiet hline.quiet).concat hline.meaning ?_
    rw [Draft.accept_header _ line.raw line.comment hname hnew, Sheet.lastName_pushHeader]
    rfl
  have hall := hopen.entries hes (by rw [Sheet.lastEntries_pushHeader]; exact hkeys)
  -- a section is opened empty and ends up with all of its entries
  have hset : (S.pushHeader s.name line).setLast ([] ++ s.entries) =
      { S with sections := S.sections ++ [s] } := by
    have hsection : SheetSection.mk s.name (some line) s.entries = s := by rw [← hheader]
    simp [Sheet.pushHeader, Sheet.setLast, hsection]
  rw [Sheet.lastEntries_pushHeader, hset] at hall
  rw [SheetSection.block, SheetSection.headerBlock, hheader, ← List.append_assoc]
  exact hall

/-- **Faithful sections** with new names. -/
theorem sections (h : Reads d done S []) {ss : List SheetSection} (hnamed : ∀ s ∈ ss, s.name ≠ [])
    (hnames : ((S.sections ++ ss).map fun s => d.foldSection s.name).Nodup)
    (hheaders : ∀ s ∈ ss, ∃ line, s.header? = some line ∧ line.Kept d s.name)
    (hes : ∀ s ∈ ss, ∀ e ∈ s.entries, e.Faithful d) (hkeys : ∀ s ∈ ss, d.DistinctKeys s.entries) :
    Reads d (done ++ ss.flatMap SheetSection.block) { S with sections := S.sections ++ ss } [] := by
  induction ss generalizing done S with
  | nil =>
    rw [List.flatMap_nil, List.append_nil, List.append_nil]
    exact h
  | cons s rest ih =>
    have hmem := @List.mem_cons_self _ s rest
    rw [List.append_cons] at hnames ⊢
    have hnew : ∀ t ∈ S.sections, d.isSection s.name t = false := by
      intro t ht
      apply eq_false_of_ne_true
      intro hsame
      rw [List.map_append, List.map_append] at hnames
      exact (List.nodup_append.mp (List.nodup_append.mp hnames).1).2.2 _ (List.mem_map_of_mem ht) _
        (List.mem_map_of_mem (List.mem_singleton_self s)) (Dialect.sameSection_iff.mp hsame)
    obtain ⟨line, hheader, hline⟩ := hheaders s hmem
    have hnext := h.oneSection (hnamed s hmem) hnew hheader hline (hes s hmem) (hkeys s hmem)
    have hrest := ih hnext (fun t ht => hnamed t (List.mem_cons_of_mem _ ht)) hnames
      (fun t ht => hheaders t (List.mem_cons_of_mem _ ht))
      (fun t ht => hes t (List.mem_cons_of_mem _ ht)) fun t ht => hkeys t (List.mem_cons_of_mem _ ht)
    rw [List.flatMap_cons, ← List.append_assoc]
    exact hrest

end Reads

/-- **A faithful sheet is read back** from its captured lines. -/
theorem Sheet.Faithful.reads {d : Dialect} {S : Sheet} (h : S.Faithful d) :
    Reads d (S.page ++ S.trailing) { S with trailing := [], finalNewline := true, bom := false }
      S.trailing := by
  have hglobal := (Reads.nil d).entries h.all.global h.distinct.global
  have hsections := hglobal.sections h.distinct.named h.distinct.sections h.all.headers h.all.entries
    h.distinct.entries
  have htrailing := hsections.quiet h.trailing
  rw [List.append_assoc [], List.nil_append, List.nil_append] at htrailing
  exact htrailing

/-- **A text of lines that make a sheet** reads as a document on that sheet, without
    a diagnostic. -/
theorem Reads.exists_parse {d : Dialect} {text : Text} {S : Sheet} {waiting : List Text}
    (h : Reads d (Text.lines (Text.dropBom text)) S waiting) :
    ∃ doc, parse d text = .ok ⟨doc, []⟩ ∧ doc.dialect = d ∧ doc.sheet = S.finish waiting text := by
  have hdraft : Draft.ofText d text = (⟨S, .inSection S.lastName, waiting⟩, true) := h
  obtain ⟨doc, hparse⟩ := exists_parse_eq_ok (show (Draft.ofText d text).2 = true by rw [hdraft])
  obtain ⟨-, hdialect, hsheet, -⟩ := of_parse_eq_ok hparse
  rw [hdraft] at hsheet
  exact ⟨doc, hparse, hdialect, hsheet⟩

end IniFile
