/-
  What captured lines say.

  A captured line is only worth putting back if it still SAYS what the document means: the line of
  an entry gives a value to the key of that entry, the line of a header opens its section, and
  whatever is captured in front of them is blank or a comment.

  1. **Kept entries and headers** — these properties do not depend on the values that an entry has
     now, so no edit breaks them.
  2. **Matching entries** — the entry has just the values and the comment of its lines; an edit of
     the entry ends that.
  3. **Reading** — entries fresh from a text are kept and matching, and their names can be written.
-/
import IniFile.Proofs.Invariants
import IniFile.Proofs.LineContent

namespace IniFile

/-! ## Kept entries and headers -/

/-- Blank and comment lines. -/
def Line.Quiet (d : Dialect) (l : Text) : Prop := Line.IsTrivia d l ∧ '\n' ∉ l

/-- The captured line gives a value to the key. -/
structure EntryLine.Kept (d : Dialect) (key : Text) (line : EntryLine) : Prop where
  quiet : ∀ l ∈ line.leading, Line.Quiet d l
  meaning : ∃ k, Line.Says d line.raw (.entry k line.value line.comment) ∧ d.sameKey k key = true
  noFeed : '\n' ∉ line.raw

/-- The captured lines of the entry give values to its key. -/
structure SheetEntry.Kept (d : Dialect) (e : SheetEntry) : Prop where
  valued : e.values ≠ []
  comment : ∀ c, e.comment = some c → c.Written d
  lines : ∀ line ∈ e.lines, line.Kept d e.key

/-- The captured header opens the section of the name. -/
structure HeaderLine.Kept (d : Dialect) (name : Text) (line : HeaderLine) : Prop where
  quiet : ∀ l ∈ line.leading, Line.Quiet d l
  meaning : Line.Says d line.raw (.header name line.comment)
  noFeed : '\n' ∉ line.raw

theorem EntryLine.Kept.comment {d : Dialect} {key : Text} {line : EntryLine} (h : line.Kept d key) :
    ∀ c, line.comment = some c → c.Written d := by
  obtain ⟨k, hmeans, -⟩ := h.meaning
  exact (Line.says_entry hmeans h.noFeed).2

theorem HeaderLine.Kept.comment {d : Dialect} {name : Text} {line : HeaderLine}
    (h : line.Kept d name) : ∀ c, line.comment = some c → c.Written d :=
  (Line.says_header h.meaning h.noFeed).2

/-- A header that is captured is the one that is kept. -/
theorem HeaderLine.kept_of_eq_some {d : Dialect} {name : Text} {header? : Option HeaderLine}
    {line : HeaderLine} (h : ∃ line, header? = some line ∧ line.Kept d name)
    (hline : header? = some line) : line.Kept d name := by
  obtain ⟨kept, hsome, hkept⟩ := h
  rw [hsome] at hline
  rw [← Option.some.inj hline]
  exact hkept

namespace SheetEntry

variable {d : Dialect} {e : SheetEntry}

theorem kept_fresh (key value : Text) : (fresh key value).Kept d where
  valued := by simp [fresh]
  comment := by simp [fresh]
  lines := by simp [fresh]

theorem Kept.setComment (h : e.Kept d) {comment : Option Comment}
    (hc : ∀ c, comment = some c → c.Written d) : (e.setComment comment).Kept d :=
  ⟨h.valued, hc, h.lines⟩

theorem edits_kept (d : Dialect) : Edits (Kept d) where
  set _ _ h := ⟨by simp [setValue], h.comment, h.lines⟩
  push _ _ h := ⟨by simp [pushValue], h.comment, h.lines⟩
  uncomment _ h := h.setComment fun c hc => by simp at hc

theorem kept_ofLine {key : Text} {line : EntryLine} (h : line.Kept d key) :
    (ofLine key line).Kept d where
  valued := by simp [ofLine]
  comment := h.comment
  lines l hl := by rw [List.mem_singleton.mp hl]; exact h

theorem key_file (policy : KeyPolicy) (line : EntryLine) (e : SheetEntry) :
    (e.file policy line).key = e.key := by
  cases policy <;> rfl

theorem Kept.file (h : e.Kept d) (policy : KeyPolicy) {line : EntryLine} (hline : line.Kept d e.key) :
    (e.file policy line).Kept d := by
  have hquiet : ∀ l ∈ e.lines.flatMap EntryLine.leading ++ line.leading, Line.Quiet d l := by
    intro l hl
    rcases List.mem_append.mp hl with hl | hl
    · obtain ⟨old, hold, hmem⟩ := List.mem_flatMap.mp hl
      exact (h.lines old hold).quiet l hmem
    · exact hline.quiet l hl
  -- a line that takes the place of others takes over what stood in front of them
  have hreplace : (EntryLine.mk (e.lines.flatMap EntryLine.leading ++ line.leading) line.raw
      line.value line.comment).Kept d e.key := ⟨hquiet, hline.meaning, hline.noFeed⟩
  cases policy with
  | append =>
    refine ⟨by simp [SheetEntry.file, store, pushValue], hline.comment, fun l hl => ?_⟩
    rcases List.mem_append.mp hl with hl | hl
    · exact h.lines l hl
    · rw [List.mem_singleton.mp hl]; exact hline
  | overwrite =>
    refine ⟨by simp [SheetEntry.file, store, setValue], hline.comment, fun l hl => ?_⟩
    rw [List.mem_singleton.mp hl]
    exact hreplace
  | reject =>
    refine ⟨by simp [SheetEntry.file, store, setValue], hline.comment, fun l hl => ?_⟩
    rw [List.mem_singleton.mp hl]
    exact hreplace

end SheetEntry

/-! ## Matching entries -/

/-- The entry has the values of its captured lines, and the comment of the last of them. -/
structure SheetEntry.Matches (e : SheetEntry) : Prop where
  captured : e.lines ≠ []
  values : e.values = e.lines.map EntryLine.value
  comment : e.comment = e.lines.getLast?.bind EntryLine.comment

namespace SheetEntry

theorem matches_ofLine (key : Text) (line : EntryLine) : (ofLine key line).Matches :=
  ⟨by simp [ofLine], rfl, rfl⟩

theorem Matches.file {e : SheetEntry} (h : e.Matches) (policy : KeyPolicy) (line : EntryLine) :
    (e.file policy line).Matches := by
  cases policy with
  | append =>
    refine ⟨by simp [SheetEntry.file, EntryLine.file], ?_, ?_⟩
    · show e.values ++ [line.value] = (e.lines ++ [line]).map EntryLine.value
      rw [h.values, List.map_append, List.map_singleton]
    · show line.comment = (e.lines ++ [line]).getLast?.bind EntryLine.comment
      rw [List.getLast?_concat]
      rfl
  | overwrite => exact ⟨by simp [SheetEntry.file, EntryLine.file], rfl, rfl⟩
  | reject => exact ⟨by simp [SheetEntry.file, EntryLine.file], rfl, rfl⟩

end SheetEntry

/-! ## Reading -/

/-- What holds of an entry fresh from a text. -/
structure SheetEntry.Read (d : Dialect) (e : SheetEntry) : Prop where
  kept : e.Kept d
  fits : e.Matches
  written : Key.Written d e.key

/-- What holds of a section's name and header fresh from a text. -/
structure HeaderLine.Read (d : Dialect) (name : Text) (header? : Option HeaderLine) : Prop where
  written : Name.Written name
  kept : ∃ line, header? = some line ∧ line.Kept d name

/-- **Every line goes on with what lines say.** -/
theorem Draft.allows_read {d : Dialect} {raw : Text} (hraw : '\n' ∉ raw) :
    Draft.Allows d (SheetEntry.Read d) (HeaderLine.Read d) (Line.Quiet d) raw
      (Line.scan d raw).1 := by
  have hmeans : ∀ content, (Line.scan d raw).1 = content → (∀ fault, content ≠ .malformed fault) →
      Line.Says d raw content := by
    intro content h hgood
    exact Line.says_of_scan h hgood
  constructor
  · intro h
    exact ⟨Or.inl (hmeans _ h (by simp)), hraw⟩
  · intro c h
    exact ⟨Or.inr ⟨c, hmeans _ h (by simp)⟩, hraw⟩
  · intro name c waiting h _ hwaiting
    have hheader := hmeans _ h (by simp)
    exact ⟨(Line.says_header hheader hraw).1, _, rfl, hwaiting, hheader, hraw⟩
  · intro key value c waiting h hwaiting
    have hentry := hmeans _ h (by simp)
    have hline : (EntryLine.mk waiting raw value c).Kept d key :=
      ⟨hwaiting, ⟨key, hentry, d.sameKey_refl key⟩, hraw⟩
    exact ⟨SheetEntry.kept_ofLine hline, SheetEntry.matches_ofLine _ _,
      (Line.says_entry hentry hraw).1⟩
  · intro key value c waiting e h hwaiting he hkey
    have hentry := hmeans _ h (by simp)
    have hline : (EntryLine.mk waiting raw value c).Kept d e.key :=
      ⟨hwaiting, ⟨key, hentry, Dialect.sameKey_symm hkey⟩, hraw⟩
    exact ⟨he.kept.file _ hline, he.fits.file _ _, by rw [SheetEntry.key_file]; exact he.written⟩

/-- What a text's draft is like. -/
theorem Draft.read_ofText (d : Dialect) (text : Text) :
    (Draft.ofText d text).1.All d (SheetEntry.Read d) (HeaderLine.Read d) (Line.Quiet d) :=
  Draft.all_start.read fun _ hraw => Draft.allows_read (Text.not_mem_of_mem_lines hraw)

/-- **What is read from a text** is kept and matching, and its names can be written. -/
theorem read_of_parse {d : Dialect} {text : Text} {p : Parsed} (h : parse d text = .ok p) :
    p.document.sheet.All (SheetEntry.Read d) (HeaderLine.Read d) ∧
      ∀ l ∈ p.document.sheet.trailing, Line.Quiet d l := by
  obtain ⟨-, -, hsheet, -⟩ := of_parse_eq_ok h
  have hread := Draft.read_ofText d text
  rw [hsheet]
  exact ⟨⟨hread.sheet.global, hread.sheet.entries, hread.sheet.headers⟩, hread.waiting⟩

end IniFile
