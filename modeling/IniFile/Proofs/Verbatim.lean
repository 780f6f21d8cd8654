/-
  Writing back what was read.

  A text in which nothing repeats is written back character by character.

  1. **No repetition** — `Unrepeated` says it of the contents of the lines: no header comes twice,
     and a key comes twice in a section only where values are appended, right behind its last line.
  2. **Matching entries are put back** — the round-trip lines of an entry that matches its captured
     lines are those lines.
  3. **The invariant** (`Draft.Verbatim`) — captured lines and waiting lines together are all lines
     read so far.  What is read goes to the end because nothing repeats, and that is why the
     invariant also remembers which contents the last section and the last entry come from.
  4. **Line endings** — joined again, the lines are the text.
-/
import IniFile.Proofs.Kept
import IniFile.Proofs.Outline
import IniFile.Proofs.Places
import IniFile.Proofs.Rendering

namespace IniFile

/-! ## No repetition -/

/-- Blank and comment lines, which neither open nor set anything. -/
def Content.isQuiet : Content → Bool
  | .blank => true
  | .comment _ => true
  | _ => false

/-- The contents behind the last header. -/
def sinceHeader (before : List Content) : List Content :=
  before.foldl (fun since content => match content with
    | .header _ _ => []
    | other => since ++ [other]) []

/-- What may follow the given contents without repeating any of them: a header with a new name, an
    entry whose key is new below the last header — or is APPENDED to the entry line right
    before it. -/
def Dialect.Continues (d : Dialect) (before : List Content) : Content → Prop
  | .header name _ => ∀ other comment, .header other comment ∈ before → d.sameSection other name = false
  | .entry key _ _ => ∀ other value comment, .entry other value comment ∈ sinceHeader before →
      d.sameKey other key = true →
        d.keyPolicy = .append ∧ ∃ front last value comment between,
          before = front ++ .entry last value comment :: between ∧ d.sameKey last key = true ∧
            ∀ content ∈ between, content.isQuiet = true
  | _ => True

/-- Nothing repeats what came before it. -/
def Dialect.Unrepeated (d : Dialect) (contents : List Content) : Prop :=
  ∀ before content after, contents = before ++ content :: after → d.Continues before content

theorem Dialect.unrepeated_nil (d : Dialect) : d.Unrepeated [] := by
  intro before content after h
  simp at h

/-- A list that does not repeat anything goes on with what does not repeat anything of it. -/
theorem Dialect.Unrepeated.concat {d : Dialect} {contents : List Content} {last : Content}
    (h : d.Unrepeated contents) (hlast : d.Continues contents last) :
    d.Unrepeated (contents ++ [last]) := by
  intro before content after heq
  -- what comes last is the new content, or the split lies within the old list
  rcases List.eq_nil_or_concat after with rfl | ⟨rest, end', rfl⟩
  · obtain ⟨rfl, hsame⟩ := List.append_inj' heq rfl
    rw [← List.cons.inj hsame |>.1]
    exact hlast
  · rw [List.concat_eq_append, ← List.cons_append, ← List.append_assoc] at heq
    exact h before content rest (List.append_inj' heq rfl).1

theorem sinceHeader_concat (before : List Content) (content : Content) :
    sinceHeader (before ++ [content]) =
      match content with
      | .header _ _ => []
      | other => sinceHeader before ++ [other] := by
  rw [sinceHeader, List.foldl_append]
  rfl

/-- The key of the last entry line, if only quiet lines follow it. -/
def adjoiningKey (before : List Content) : Option Text :=
  before.foldl (fun key content => match content with
    | .entry key _ _ => some key
    | .blank => key
    | .comment _ => key
    | _ => none) none

theorem adjoiningKey_concat (before : List Content) (content : Content) :
    adjoiningKey (before ++ [content]) =
      match content with
      | .entry key _ _ => some key
      | .blank => adjoiningKey before
      | .comment _ => adjoiningKey before
      | _ => none := by
  rw [adjoiningKey, List.foldl_append]
  cases content <;> rfl

theorem adjoiningKey_append {before between : List Content} {key : Text}
    (h : adjoiningKey before = some key) (hquiet : ∀ content ∈ between, content.isQuiet = true) :
    adjoiningKey (before ++ between) = some key := by
  induction between generalizing before with
  | nil => rw [List.append_nil, h]
  | cons content rest ih =>
    have hcontent := hquiet content List.mem_cons_self
    rw [List.append_cons]
    refine ih ?_ fun c hc => hquiet c (List.mem_cons_of_mem _ hc)
    rw [adjoiningKey_concat]
    cases content with
    | blank => exact h
    | comment c => exact h
    | header _ _ => exact Bool.noConfusion hcontent
    | entry _ _ _ => exact Bool.noConfusion hcontent
    | malformed _ => exact Bool.noConfusion hcontent

/-! ## Matching entries are put back -/

theorem flatMap_slots_matching (d : Dialect) (key : Text) : ∀ {lines : List EntryLine}
    {comment : Option Comment}, comment = lines.getLast?.bind EntryLine.comment →
      (slots comment (lines.map EntryLine.value) lines).flatMap (·.lines d .roundTrip key) =
        lines.flatMap EntryLine.block
  | [], _, _ => rfl
  | [line], comment, h => by
      have hcomment : line.comment = comment := h.symm
      simp [slots, Slot.lines, EntryLine.block, hcomment]
  | line :: next :: rest, comment, h => by
      have hrest : comment = (next :: rest).getLast?.bind EntryLine.comment := by
        rw [h, List.getLast?_cons_cons]
      have ih := flatMap_slots_matching d key hrest
      rw [List.map_cons] at ih
      rw [List.map_cons, List.map_cons, slots, List.flatMap_cons, List.flatMap_cons, List.head?_cons,
        List.tail_cons, ih]
      simp [Slot.lines, EntryLine.block]

/-- **An entry that matches its captured lines is written back as they are.** -/
theorem SheetEntry.Matches.render_eq {e : SheetEntry} (h : e.Matches) (d : Dialect) :
    e.render d .roundTrip = e.block := by
  rw [SheetEntry.render, h.values, flatMap_slots_matching d e.key h.comment, SheetEntry.block]

theorem SheetSection.headerLines_captured {s : SheetSection} {line : HeaderLine}
    (h : s.header? = some line) (written : Bool) :
    s.headerLines .roundTrip written = s.headerBlock := by
  unfold headerLines headerBlock
  rw [h]
  rfl

/-- **A sheet whose entries match is written back as it was captured.** -/
theorem Sheet.lines_roundTrip {d : Dialect} {S : Sheet}
    (h : S.All SheetEntry.Matches fun _ header? => ∃ line, header? = some line) :
    S.lines d .roundTrip = S.page ++ S.trailing := by
  have hentries : ∀ es : List SheetEntry, (∀ e ∈ es, e.Matches) →
      es.flatMap (SheetEntry.render d .roundTrip) = es.flatMap SheetEntry.block := by
    intro es hes
    exact List.flatMap_congr fun e he => (hes e he).render_eq d
  have hsections : ∀ (ss : List SheetSection) (written : Bool), (∀ s ∈ ss, s ∈ S.sections) →
      sectionLines d .roundTrip written ss = ss.flatMap SheetSection.block := by
    intro ss
    induction ss with
    | nil =>
      intro _ _
      rfl
    | cons s rest ih =>
      intro written hss
      have hs := hss s List.mem_cons_self
      obtain ⟨line, hline⟩ := h.headers s hs
      rw [sectionLines, ih true fun t ht => hss t (List.mem_cons_of_mem _ ht), List.flatMap_cons,
        SheetSection.render, hentries s.entries (h.entries s hs),
        SheetSection.headerLines_captured hline, SheetSection.block]
  rw [Sheet.lines, Sheet.globalLines, hentries S.global h.global, hsections _ _ fun s hs => hs]
  rfl

/-! ## The invariant -/

theorem Line.contents_concat (d : Dialect) (ls : List Text) (raw : Text) :
    contents d (ls ++ [raw]) = contents d ls ++ [(scan d raw).1] := by
  rw [contents, contents, List.map_append, List.map_singleton]

/-- The invariant of reading lines that do not repeat anything. -/
structure Draft.Verbatim (d : Dialect) (done : List Text) (D : Draft) : Prop where
  page : D.sheet.page ++ D.waiting = done
  target : D.target = .inSection D.sheet.lastName
  names : ∀ s ∈ D.sheet.sections, ∃ comment, .header s.name comment ∈ Line.contents d done
  keys : ∀ e ∈ D.sheet.lastEntries, ∃ key value comment,
    .entry key value comment ∈ sinceHeader (Line.contents d done) ∧ d.sameKey key e.key = true
  adjoins : ∀ key, adjoiningKey (Line.contents d done) = some key →
    ∃ es e, D.sheet.lastEntries = es ++ [e] ∧ d.isKey key e = true

namespace Draft.Verbatim

variable {d : Dialect} {done : List Text} {D : Draft} {raw : Text}

/-- A quiet line waits. -/
theorem wait (h : D.Verbatim d done) (hquiet : (Line.scan d raw).1.isQuiet = true) :
    (D.wait raw).Verbatim d (done ++ [raw]) := by
  have hsince : sinceHeader (Line.contents d (done ++ [raw])) =
      sinceHeader (Line.contents d done) ++ [(Line.scan d raw).1] := by
    rw [Line.contents_concat, sinceHeader_concat]
    cases hcontent : (Line.scan d raw).1 with
    | header name comment => rw [hcontent] at hquiet; exact Bool.noConfusion hquiet
    | _ => rfl
  have hadjoining : adjoiningKey (Line.contents d (done ++ [raw])) =
      adjoiningKey (Line.contents d done) := by
    rw [Line.contents_concat, adjoiningKey_concat]
    cases hcontent : (Line.scan d raw).1 with
    | blank => rfl
    | comment c => rfl
    | _ => rw [hcontent] at hquiet; exact Bool.noConfusion hquiet
  refine ⟨?_, h.target, fun s hs => ?_, fun e he => ?_, fun key hkey => ?_⟩
  · show D.sheet.page ++ (D.waiting ++ [raw]) = done ++ [raw]
    rw [← List.append_assoc, h.page]
  · obtain ⟨comment, hmem⟩ := h.names s hs
    exact ⟨comment, Line.contents_concat d done raw ▸ List.mem_append_left _ hmem⟩
  · obtain ⟨key, value, comment, hmem, hsame⟩ := h.keys e he
    exact ⟨key, value, comment, hsince ▸ List.mem_append_left _ hmem, hsame⟩
  · exact h.adjoins key (hadjoining ▸ hkey)

/-- A header opens a new section at the end. -/
theorem header (h : D.Verbatim d done) {name : Text} {comment : Option Comment}
    (hcontent : (Line.scan d raw).1 = .header name comment) :
    Verbatim d (done ++ [raw])
      ⟨D.sheet.pushHeader name ⟨D.waiting, raw, comment⟩, .inSection name, []⟩ := by
  refine ⟨?_, ?_, fun s hs => ?_, fun e he => ?_, fun key hkey => ?_⟩
  · show (D.sheet.pushHeader name ⟨D.waiting, raw, comment⟩).page ++ [] = done ++ [raw]
    rw [Sheet.page_pushHeader, HeaderLine.block, List.append_nil, ← List.append_assoc, h.page]
  · rw [Sheet.lastName_pushHeader]
  · rw [Line.contents_concat]
    rcases List.mem_append.mp hs with hs | hs
    · obtain ⟨other, hmem⟩ := h.names s hs
      exact ⟨other, List.mem_append_left _ hmem⟩
    · rw [List.mem_singleton.mp hs, hcontent]
      exact ⟨comment, List.mem_append_right _ (List.mem_singleton_self _)⟩
  · rw [Sheet.lastEntries_pushHeader] at he
    exact absurd he List.not_mem_nil
  · rw [Line.contents_concat, adjoiningKey_concat, hcontent] at hkey
    exact absurd hkey (by simp)

/-- An entry line changes the entries at the end, where its own entry is then the last. -/
theorem entry (h : D.Verbatim d done) {key value : Text} {comment : Option Comment}
    (hcontent : (Line.scan d raw).1 = .entry key value comment) {es : List SheetEntry}
    {e : SheetEntry} (hkey : d.isKey key e = true)
    (hes : ∀ f ∈ es, f ∈ D.sheet.lastEntries)
    (hblock : D.sheet.lastEntries.flatMap SheetEntry.block ++ (D.waiting ++ [raw]) =
      (es ++ [e]).flatMap SheetEntry.block) :
    Verbatim d (done ++ [raw]) ⟨D.sheet.setLast (es ++ [e]), .inSection D.sheet.lastName, []⟩ := by
  have hsince : sinceHeader (Line.contents d (done ++ [raw])) =
      sinceHeader (Line.contents d done) ++ [.entry key value comment] := by
    rw [Line.contents_concat, sinceHeader_concat, hcontent]
  refine ⟨?_, ?_, fun s hs => ?_, fun f hf => ?_, fun other hother => ?_⟩
  · show (D.sheet.setLast (es ++ [e])).page ++ [] = done ++ [raw]
    rw [Sheet.page_setLast, ← hblock, List.append_nil, ← List.append_assoc, ← List.append_assoc,
      ← Sheet.page_eq, h.page]
  · rw [Sheet.lastName_setLast]
  · have hname : s.name ∈ D.sheet.sections.map SheetSection.name := by
      rw [← Sheet.names_setLast (es ++ [e])]
      exact List.mem_map_of_mem hs
    obtain ⟨t, ht, hsame⟩ := List.mem_map.mp hname
    obtain ⟨c, hmem⟩ := h.names t ht
    exact ⟨c, Line.contents_concat d done raw ▸ List.mem_append_left _ (hsame ▸ hmem)⟩
  · rw [Sheet.lastEntries_setLast] at hf
    rw [hsince]
    rcases List.mem_append.mp hf with hf | hf
    · obtain ⟨k, v, c, hmem, hsame⟩ := h.keys f (hes f hf)
      exact ⟨k, v, c, List.mem_append_left _ hmem, hsame⟩
    · rw [List.mem_singleton.mp hf]
      exact ⟨key, value, comment, List.mem_append_right _ (List.mem_singleton_self _),
        Dialect.sameKey_symm hkey⟩
  · rw [Line.contents_concat, adjoiningKey_concat, hcontent, Option.some.injEq] at hother
    subst hother
    exact ⟨es, e, Sheet.lastEntries_setLast _ _, hkey⟩

/-- **One line** that does not repeat what came before it. -/
theorem accept (h : D.Verbatim d done) (hdistinct : D.sheet.Distinct d)
    (hcontinues : d.Continues (Line.contents d done) (Line.scan d raw).1)
    (haccepted : (D.accept d raw (Line.scan d raw).1).2 = true) :
    (D.accept d raw (Line.scan d raw).1).1.Verbatim d (done ++ [raw]) := by
  obtain ⟨S, target, waiting⟩ := D
  obtain rfl : target = .inSection S.lastName := h.target
  cases hcontent : (Line.scan d raw).1 with
  | blank => exact h.wait (by rw [hcontent]; rfl)
  | comment c => exact h.wait (by rw [hcontent]; rfl)
  | malformed fault => rw [hcontent] at haccepted; exact Bool.noConfusion haccepted
  | header name comment =>
    rw [hcontent] at hcontinues
    have hnew : ∀ s ∈ S.sections, d.isSection name s = false := by
      intro s hs
      obtain ⟨other, hmem⟩ := h.names s hs
      exact hcontinues s.name other hmem
    rw [Draft.accept_header _ raw comment (Line.name_ne_nil hcontent) hnew]
    exact h.header hcontent
  | entry key value comment =>
    rw [hcontent] at hcontinues
    cases hany : S.lastEntries.any (d.isKey key) with
    | false =>
      have hnew : ∀ e ∈ S.lastEntries, d.isKey key e = false := by
        intro e he
        exact eq_false_of_ne_true (List.any_eq_false.mp hany e he)
      rw [Draft.accept_entry_new hdistinct raw value comment hnew]
      exact h.entry hcontent (d.sameKey_refl key) (fun f hf => hf) (by
        rw [List.flatMap_append]
        simp [SheetEntry.block, SheetEntry.ofLine, EntryLine.block])
    | true =>
      -- the repeated key is the key of the last entry
      obtain ⟨e, he, hkey⟩ := List.any_eq_true.mp hany
      obtain ⟨k, v, c, hmem, hsame⟩ := h.keys e he
      obtain ⟨hpolicy, front, last, v', c', between, hbefore, hlast, hquiet⟩ :=
        hcontinues k v c hmem (Dialect.sameKey_trans hsame hkey)
      have hadjoining : adjoiningKey (Line.contents d done) = some last := by
        rw [hbefore, List.append_cons]
        exact adjoiningKey_append (by rw [adjoiningKey_concat]) hquiet
      obtain ⟨es, e', hes, hkey'⟩ := h.adjoins last hadjoining
      have hkey'' : d.isKey key e' = true := Dialect.sameKey_trans hkey' hlast
      rw [Draft.accept_entry_again hdistinct raw value comment hes hkey'' hpolicy]
      refine h.entry hcontent (by rw [Dialect.isKey, SheetEntry.key_file]; exact hkey'')
        (fun f hf => by rw [show S.lastEntries = es ++ [e'] from hes]; exact List.mem_append_left _ hf) ?_
      show S.lastEntries.flatMap SheetEntry.block ++ (waiting ++ [raw]) = _
      rw [hes]
      simp [SheetEntry.block, SheetEntry.file, EntryLine.file, EntryLine.block]

end Draft.Verbatim

theorem Draft.verbatim_start (d : Dialect) : Draft.start.Verbatim d [] where
  page := rfl
  target := rfl
  names s hs := absurd hs List.not_mem_nil
  keys e he := absurd he List.not_mem_nil
  adjoins key hkey := absurd hkey (by simp [Line.contents, adjoiningKey])

/-- **Line after line**: the lines read so far are all on the sheet, in order. -/
theorem Draft.verbatim_read {d : Dialect} : ∀ (rest : List Text) {done : List Text},
    (start.read d done).1.Verbatim d done → d.Unrepeated (Line.contents d (done ++ rest)) →
      (start.read d (done ++ rest)).2 = true →
        (start.read d (done ++ rest)).1.Verbatim d (done ++ rest)
  | [], done, h, _, _ => by rwa [List.append_nil]
  | raw :: rest, done, h, hunrepeated, haccepted => by
      have hcontinues : d.Continues (Line.contents d done) (Line.scan d raw).1 :=
        hunrepeated _ _ (Line.contents d rest) (by rw [Line.contents, List.map_append]; rfl)
      have hstep : start.read d (done ++ [raw]) =
          (((start.read d done).1.accept d raw (Line.scan d raw).1).1,
            (start.read d done).2 && ((start.read d done).1.accept d raw (Line.scan d raw).1).2) := by
        rw [read_append]
        simp [read]
      rw [List.append_cons] at hunrepeated haccepted ⊢
      have hfirst : ((start.read d done).1.accept d raw (Line.scan d raw).1).2 = true := by
        rw [read_append, hstep] at haccepted
        simp only [Bool.and_eq_true] at haccepted
        exact haccepted.1.2
      refine verbatim_read rest ?_ hunrepeated haccepted
      rw [hstep]
      exact h.accept (distinct_read d done) hcontinues hfirst

/-! ## Line endings -/

namespace Text

/-- The byte order mark of a text, and the rest of it. -/
theorem mark_append_dropBom (t : Text) :
    (if t.head? = some bom then [bom] else []) ++ dropBom t = t := by
  cases t with
  | nil => rfl
  | cons c rest =>
    by_cases hc : c = bom
    · simp [dropBom, hc]
    · simp [dropBom, hc]

/-- Joining the pieces behind the mark, ended as the text is, gives the rest of the text back. -/
theorem join_pieces_dropBom (t : Text) :
    LineEnding.lf.join (isClosed t) (pieces (dropBom t)) = dropBom t := by
  cases t with
  | nil => rfl
  | cons c rest =>
    by_cases hc : c = bom
    · rw [dropBom, if_pos hc]
      by_cases hrest : rest = []
      · rw [hrest]; rfl
      · rw [isClosed_cons hrest, join_pieces]
    · rw [dropBom, if_neg hc, join_pieces]

/-- A piece behind the mark that ends in a carriage return belongs to a piece of the text
    that does. -/
theorem getLast?_piece_dropBom {t : Text} (h : ∀ piece ∈ pieces t, piece.getLast? ≠ some '\r') :
    ∀ piece ∈ pieces (dropBom t), piece.getLast? ≠ some '\r' := by
  cases t with
  | nil => exact h
  | cons c rest =>
    by_cases hc : c = bom
    · rw [dropBom, if_pos hc]
      have hfeed : c ≠ '\n' := by rw [hc]; decide
      rw [pieces, if_neg hfeed] at h
      cases hpieces : pieces rest with
      | nil =>
        intro _ hp
        exact absurd hp List.not_mem_nil
      | cons piece more =>
        rw [hpieces] at h
        intro p hp
        rcases List.mem_cons.mp hp with rfl | hp
        · intro hlast
          refine h (c :: p) List.mem_cons_self ?_
          rw [List.getLast?_cons, hlast]
          rfl
        · exact h p (List.mem_cons_of_mem _ hp)
    · rwa [dropBom, if_neg hc]

/-- The lines of a text without carriage returns at their ends, joined again. -/
theorem join_lines_lf {t : Text} (h : ∀ piece ∈ pieces t, piece.getLast? ≠ some '\r') :
    (if t.head? = some bom then [bom] else []) ++
      LineEnding.lf.join (isClosed t) (lines (dropBom t)) = t := by
  have hkeep : lines (dropBom t) = pieces (dropBom t) := by
    rw [lines, List.map_congr_left fun piece hp =>
      dropReturn_of_getLast? (getLast?_piece_dropBom h piece hp), List.map_id']
  rw [hkeep, join_pieces_dropBom, mark_append_dropBom]

/-- The lines of a text with carriage returns at the ends of all of them, joined again. -/
theorem join_lines_crlf {t : Text} (h : ReturnsBeforeFeeds t) (hlast : t.getLast? ≠ some '\r') :
    (if t.head? = some bom then [bom] else []) ++
      LineEnding.crlf.join (isClosed t) (lines (dropBom t)) = t := by
  have hjoin := join_pieces_dropBom t
  have hsplit := mark_append_dropBom t
  obtain ⟨front, hfront⟩ : ∃ front, front = if t.head? = some bom then [bom] else [] := ⟨_, rfl⟩
  rw [← hfront] at hsplit ⊢
  have hmark : front.getLast? ≠ some '\r' := by
    rw [hfront]
    split <;> simp [bom]
  -- a carriage return in front of a line feed is never the mark, so it belongs to a piece
  have hreturns : ReturnsBeforeFeeds (front ++ LineEnding.lf.join (isClosed t) (pieces (dropBom t))) := by
    rw [hjoin, hsplit]
    exact h
  have hend : (LineEnding.lf.join (isClosed t) (pieces (dropBom t))).getLast? ≠ some '\r' := by
    rw [hjoin]
    intro hreturn
    refine hlast ?_
    rw [← hsplit, List.getLast?_append, hreturn]
    rfl
  rw [lines, join_crlf_dropReturn (isClosed t) hmark hreturns hend, hjoin, hsplit]

end Text

/-- A text in which nothing repeats is put back line by line, with the line ending that is asked
    for. -/
theorem render_of_unrepeated {d : Dialect} {text : Text} {doc : Document}
    (h : parse d text = .ok ⟨doc, []⟩)
    (hunrepeated : d.Unrepeated ((tokens d text).map Token.content)) (e : LineEnding) :
    doc.render ⟨.roundTrip, e⟩ =
      (if text.head? = some bom then [bom] else []) ++
        e.join (Text.isClosed text) (Text.lines (Text.dropBom text)) := by
  obtain ⟨-, hdialect, hsheet, haccepted⟩ := of_parse_eq_ok h
  rw [tokens, contents_tokensFrom] at hunrepeated
  -- the page is all that was read, and every entry on it is written back as it was captured
  have hverbatim : (Draft.ofText d text).1.Verbatim d (Text.lines (Text.dropBom text)) :=
    Draft.verbatim_read _ (Draft.verbatim_start d) hunrepeated (haccepted rfl)
  have hmatches : doc.sheet.All SheetEntry.Matches fun _ header? => ∃ line, header? = some line :=
    (read_of_parse h).1.mono (fun _ he => he.fits) fun _ _ hheader =>
      hheader.kept.imp fun _ hline => hline.1
  have hlines : doc.sheet.lines d .roundTrip = Text.lines (Text.dropBom text) := by
    rw [Sheet.lines_roundTrip hmatches, ← hverbatim.page, show doc.sheet = _ from hsheet]
    rfl
  rw [Document.render_eq, show doc.dialect = d from hdialect, Sheet.render, hlines,
    show doc.sheet = _ from hsheet]
  simp [Sheet.mark, Sheet.finish, Sheet.isClosed]

/-- **A text in which nothing repeats is written back character by character**, with the line ending
    that it uses itself. -/
theorem render_roundTrip_of_unrepeated {d : Dialect} {text : Text} {doc : Document}
    (h : parse d text = .ok ⟨doc, []⟩)
    (hunrepeated : d.Unrepeated ((tokens d text).map Token.content)) :
    ((∀ piece ∈ Text.pieces text, piece.getLast? ≠ some '\r') →
      doc.render ⟨.roundTrip, .lf⟩ = text) ∧
    (Text.ReturnsBeforeFeeds text → text.getLast? ≠ some '\r' →
      doc.render ⟨.roundTrip, .crlf⟩ = text) := by
  constructor
  · intro hplain
    rw [render_of_unrepeated h hunrepeated]
    exact Text.join_lines_lf hplain
  · intro hreturns hlast
    rw [render_of_unrepeated h hunrepeated]
    exact Text.join_lines_crlf hreturns hlast

/-- A byte order mark, quoting, a comment and an unfinished last line are all put back. -/
theorem render_roundTrip_of_unrepeated_sample :
    ∃ doc, parse .standard "\ufeffx = \"1\"\n\n[s] ; c\nx=2".toList = .ok ⟨doc, []⟩ ∧
      doc.render ⟨.roundTrip, .lf⟩ = "\ufeffx = \"1\"\n\n[s] ; c\nx=2".toList := by
  have haccepted : (Draft.ofText .standard "\ufeffx = \"1\"\n\n[s] ; c\nx=2".toList).2 = true := by
    decide +kernel
  obtain ⟨doc, hparse⟩ := exists_parse_eq_ok haccepted
  have hcontents : (tokens .standard "\ufeffx = \"1\"\n\n[s] ; c\nx=2".toList).map Token.content =
      [] ++ [.entry ['x'] ['1'] none] ++ [.blank] ++ [.header ['s'] (some (.of ';' " c".toList))] ++
        [.entry ['x'] ['2'] none] := by
    decide +kernel
  have hunrepeated : Dialect.standard.Unrepeated ((tokens .standard
      "\ufeffx = \"1\"\n\n[s] ; c\nx=2".toList).map Token.content) := by
    rw [hcontents]
    refine (((Dialect.unrepeated_nil _).concat ?_).concat ?_ |>.concat ?_).concat ?_
    · simp [Dialect.Continues, sinceHeader]
    · trivial
    · simp [Dialect.Continues]
    · simp [Dialect.Continues, sinceHeader]
  have hplain : ∀ piece ∈ Text.pieces "\ufeffx = \"1\"\n\n[s] ; c\nx=2".toList,
      piece.getLast? ≠ some '\r' := by decide +kernel
  exact ⟨doc, hparse, (render_roundTrip_of_unrepeated hparse hunrepeated).1 hplain⟩

end IniFile
