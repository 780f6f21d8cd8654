/-
  Reading and writing back once is enough.

  What is written for a document that was read from a text need not be that text: sections are
  merged, lines that give values to one key come together, and what was rejected is gone.  But it is
  a NORMAL FORM: reading it rejects nothing, and writes it back as it stands.

  1. **Characters** — the lines of a text hold no line feeds, and no carriage returns and marks
     either, if these stand in a text only where lines and texts end and begin.
  2. **Respelled sheets** — an entry is read back under the key of its FIRST captured line, which may
     be another spelling of its own.  With that key the sheet of a text is faithful
     (`Sheet.faithful_respelled`), so that its lines read as it.
  3. **The last line** — where the text stops without an ending, an EMPTY last line leaves nothing
     behind.  Such a line is one of those that wait at the end of the sheet, and reading the text
     back only loses that (`Reads.of_concat_nil`).
  4. **The normal form** — `roundTrip_is_normal_form`.

  Only captured lines are written, so nothing is asked of the dialect: a comment marker may be a
  blank, a quote or a bracket.
-/
import IniFile.Proofs.Canonical
import IniFile.Proofs.Trivia
import IniFile.Proofs.Untouched

namespace IniFile

/-! ## Characters -/

namespace Text

/-- Every carriage return of a text has a line feed behind it. -/
def ReturnsOnlyBeforeFeeds (t : Text) : Prop :=
  ∀ before after, t = before ++ '\r' :: after → after.head? = some '\n'

theorem returnsOnlyBeforeFeeds_cons_iff {c : Char} {t : Text} :
    ReturnsOnlyBeforeFeeds (c :: t) ↔
      (c = '\r' → t.head? = some '\n') ∧ ReturnsOnlyBeforeFeeds t := by
  constructor
  · intro h
    constructor
    · rintro rfl
      exact h [] t rfl
    · rintro before after rfl
      exact h (c :: before) after rfl
  · rintro ⟨hfirst, hrest⟩ before after hsplit
    cases before with
    | nil =>
      obtain ⟨rfl, rfl⟩ := List.cons.inj hsplit
      exact hfirst rfl
    | cons b before => exact hrest before after (List.cons.inj hsplit).2

instance decidableReturnsOnlyBeforeFeeds : ∀ t : Text, Decidable (ReturnsOnlyBeforeFeeds t)
  | [] => isTrue fun before after h => absurd h (by simp)
  | c :: t =>
    have := decidableReturnsOnlyBeforeFeeds t
    decidable_of_iff _ returnsOnlyBeforeFeeds_cons_iff.symm

theorem ReturnsOnlyBeforeFeeds.dropBom {t : Text} (h : ReturnsOnlyBeforeFeeds t) :
    ReturnsOnlyBeforeFeeds (dropBom t) := by
  cases t with
  | nil => exact h
  | cons c rest =>
    by_cases hc : c = bom
    · rw [Text.dropBom, if_pos hc]
      exact (returnsOnlyBeforeFeeds_cons_iff.mp h).2
    · rw [Text.dropBom, if_neg hc]
      exact h

/-- A carriage return in a piece ends it: the line feed behind it ended the piece. -/
theorem return_not_mem_dropReturn : ∀ {t : Text}, ReturnsOnlyBeforeFeeds t →
    ∀ piece ∈ pieces t, '\r' ∉ dropReturn piece
  | [], _, _, hpiece => absurd hpiece List.not_mem_nil
  | c :: rest, h, piece, hpiece => by
      have ih := return_not_mem_dropReturn (returnsOnlyBeforeFeeds_cons_iff.mp h).2
      by_cases hfeed : c = '\n'
      · rw [pieces, if_pos hfeed] at hpiece
        rcases List.mem_cons.mp hpiece with rfl | hpiece
        · exact List.not_mem_nil
        · exact ih piece hpiece
      rw [pieces, if_neg hfeed] at hpiece
      by_cases hreturn : c = '\r'
      · -- the line feed comes next, and the first piece is the carriage return alone
        subst hreturn
        obtain ⟨after, rfl⟩ := List.head?_eq_some_iff.mp (h [] rest rfl)
        rw [pieces, if_pos rfl] at hpiece ih
        rcases List.mem_cons.mp hpiece with rfl | hpiece
        · decide
        · exact ih piece (List.mem_cons_of_mem _ hpiece)
      · cases hpieces : pieces rest with
        | nil =>
          rw [hpieces, List.mem_singleton] at hpiece
          subst hpiece
          rw [dropReturn_cons hreturn]
          simpa [dropReturn] using Ne.symm hreturn
        | cons first more =>
          rw [hpieces] at hpiece ih
          rcases List.mem_cons.mp hpiece with rfl | hpiece
          · rw [dropReturn_cons hreturn]
            simpa [Ne.symm hreturn] using ih first List.mem_cons_self
          · exact ih piece (List.mem_cons_of_mem _ hpiece)

/-- Lines with nothing on them but what belongs to the line. -/
structure Clean (l : Text) : Prop where
  noFeed : '\n' ∉ l
  noReturn : '\r' ∉ l
  noBom : bom ∉ l

theorem clean_of_mem_lines {t : Text} (hreturns : ReturnsOnlyBeforeFeeds t) (hbom : bom ∉ t.tail) :
    ∀ l ∈ lines (dropBom t), Clean l := by
  intro l hl
  obtain ⟨piece, hpiece, rfl⟩ := List.mem_map.mp hl
  refine ⟨not_mem_of_mem_lines hl, return_not_mem_dropReturn hreturns.dropBom piece hpiece, ?_⟩
  intro hmem
  exact bom_not_mem_dropBom hbom (mem_of_mem_pieces hpiece (mem_of_mem_dropReturn hmem))

/-- **Clean lines are read back**, but for an empty last line without an ending. -/
theorem lines_join_clean (closed : Bool) {ls : List Text} (h : ∀ l ∈ ls, Clean l) :
    lines (LineEnding.lf.join closed ls) = ls ∨
      ∃ init, ls = init ++ [[]] ∧ lines (LineEnding.lf.join closed ls) = init := by
  have hkeep : ∀ l ∈ ls, dropReturn l = l := by
    intro l hl
    exact dropReturn_of_getLast? fun hlast => (h l hl).noReturn (List.mem_of_getLast? hlast)
  cases closed with
  | true =>
    left
    rw [lines_join_closed _ fun l hl => (h l hl).noFeed]
    exact (List.map_congr_left hkeep).trans (List.map_id' ls)
  | false =>
    rcases List.eq_nil_or_concat ls with rfl | ⟨init, last, rfl⟩
    · exact Or.inl rfl
    rw [List.concat_eq_append] at h hkeep ⊢
    have hinit : init.map (reread .lf) = init :=
      (List.map_congr_left fun l hl => hkeep l (List.mem_append_left _ hl)).trans (List.map_id' init)
    have hlast := h last (List.mem_append_right _ (List.mem_singleton_self last))
    rw [lines_join_open _ (fun l hl => (h l (List.mem_append_left _ hl)).noFeed) hlast.noFeed, hinit]
    by_cases hempty : last = []
    · subst hempty
      exact Or.inr ⟨init, rfl, by rw [if_pos rfl, List.append_nil]⟩
    · rw [if_neg hempty, hkeep last (List.mem_append_right _ (List.mem_singleton_self last))]
      exact Or.inl rfl

end Text

/-- What was captured from a text, and what still waits, are lines of the text. -/
theorem Draft.mem_lines_of_mem_page (d : Dialect) (text : Text) :
    ∀ l ∈ (Draft.ofText d text).1.sheet.page ++ (Draft.ofText d text).1.waiting,
      l ∈ Text.lines (Text.dropBom text) := by
  have hsource : (Draft.ofText d text).1.All d _ _ (· ∈ Text.lines (Text.dropBom text)) :=
    Draft.all_start.read fun _ hraw => Draft.allows_source hraw
  intro l hl
  rcases List.mem_append.mp hl with hl | hl
  · refine Sheet.forall_page (hsource.sheet.mono ?_ ?_) l hl
    · intro e he line hline l hl
      exact he l (List.mem_flatMap.mpr ⟨line, hline, hl⟩)
    · intro name header? hheader
      exact hheader
  · exact hsource.waiting l hl

/-! ## Respelled sheets -/

/-- The entry under the key of its first captured line. -/
def SheetEntry.respelled (d : Dialect) (e : SheetEntry) : SheetEntry :=
  { e with key := (e.lines.head?.map fun line => Line.keyOf d line.raw).getD e.key }

/-- The section with its keys respelled. -/
def SheetSection.respelled (d : Dialect) (s : SheetSection) : SheetSection :=
  { s with entries := s.entries.map (.respelled d) }

/-- The sheet with its keys respelled. -/
def Sheet.respelled (d : Dialect) (S : Sheet) : Sheet :=
  { S with global := S.global.map (.respelled d), sections := S.sections.map (.respelled d) }

namespace SheetEntry.Read

variable {d : Dialect} {e : SheetEntry}

/-- The key of the first captured line is another spelling of the entry's, and that line says so. -/
theorem says_respelled (h : e.Read d) : d.sameKey (e.respelled d).key e.key = true ∧
    ∀ line, e.lines.head? = some line →
      Line.Says d line.raw (.entry (e.respelled d).key line.value line.comment) := by
  obtain ⟨line, rest, hlines⟩ := List.exists_cons_of_ne_nil h.fits.captured
  obtain ⟨key, hsays, hsame⟩ := (h.kept.lines line (hlines ▸ List.mem_cons_self)).meaning
  have hkey : (e.respelled d).key = key := by
    show ((e.lines.head?.map fun line => Line.keyOf d line.raw).getD e.key) = key
    rw [hlines]
    exact Line.keyOf_of_says hsays
  rw [hkey, hlines]
  refine ⟨hsame, fun first hfirst => ?_⟩
  obtain rfl : line = first := Option.some.inj hfirst
  exact hsays

theorem faithful_respelled (h : e.Read d) (hvalued : e.Valued d) : (e.respelled d).Faithful d := by
  obtain ⟨hsame, hfirst⟩ := h.says_respelled
  refine ⟨⟨h.fits.captured, h.fits.values, h.fits.comment⟩, fun line hline => ?_, hfirst, ?_⟩
  · have hkept := h.kept.lines line hline
    obtain ⟨key, hsays, hkey⟩ := hkept.meaning
    exact ⟨hkept.quiet, ⟨key, hsays, Dialect.sameKey_trans hkey (Dialect.sameKey_symm hsame)⟩,
      hkept.noFeed⟩
  · intro htwo
    apply Decidable.byContradiction
    intro hpolicy
    have hone := hvalued.single hpolicy
    change 2 ≤ e.lines.length at htwo
    omega

end SheetEntry.Read

namespace Sheet

variable {d : Dialect} {S : Sheet}

theorem page_respelled (d : Dialect) (S : Sheet) : (S.respelled d).page = S.page := by
  have hentries : ∀ es : List SheetEntry,
      (es.map (SheetEntry.respelled d)).flatMap SheetEntry.block = es.flatMap SheetEntry.block := by
    intro es
    rw [List.flatMap_map]
    rfl
  have hsection : ∀ s : SheetSection, (s.respelled d).block = s.block := by
    intro s
    exact congrArg (s.headerBlock ++ ·) (hentries s.entries)
  show (S.global.map (SheetEntry.respelled d)).flatMap SheetEntry.block ++
    (S.sections.map (SheetSection.respelled d)).flatMap SheetSection.block = S.page
  rw [hentries, List.flatMap_map, List.flatMap_congr fun s _ => hsection s]
  rfl

theorem Distinct.respelled (h : S.Distinct d) (hall : S.All (SheetEntry.Read d) (HeaderLine.Read d)) :
    (S.respelled d).Distinct d := by
  have hkeys : ∀ es : List SheetEntry, (∀ e ∈ es, e.Read d) → d.DistinctKeys es →
      d.DistinctKeys (es.map (.respelled d)) := by
    intro es hes hdistinct
    have hfold : es.map ((fun e : SheetEntry => d.foldKey e.key) ∘ SheetEntry.respelled d) =
        es.map fun e => d.foldKey e.key :=
      List.map_congr_left fun e he => Dialect.sameKey_iff.mp (hes e he).says_respelled.1
    rw [Dialect.DistinctKeys, List.map_map, hfold]
    exact hdistinct
  constructor
  · intro s' hs'
    obtain ⟨s, hs, rfl⟩ := List.mem_map.mp hs'
    exact h.named s hs
  · show ((S.sections.map (SheetSection.respelled d)).map fun s => d.foldSection s.name).Nodup
    rw [List.map_map]
    exact h.sections
  · exact hkeys S.global hall.global h.global
  · intro s' hs'
    obtain ⟨s, hs, rfl⟩ := List.mem_map.mp hs'
    exact hkeys s.entries (hall.entries s hs) (h.entries s hs)

end Sheet

/-- **The sheet of a text is faithful**, up to the spelling of its keys. -/
theorem faithful_respelled_of_parse {d : Dialect} {text : Text} {p : Parsed}
    (h : parse d text = .ok p) : (p.document.sheet.respelled d).Faithful d := by
  obtain ⟨hall, htrailing⟩ := read_of_parse h
  obtain ⟨hsound, hdialect, -, -⟩ := of_parse_eq_ok h
  have hboth := hall.and (valued_of_parse h)
  have hentries : ∀ es : List SheetEntry, (∀ e ∈ es, e.Read d ∧ e.Valued d) →
      ∀ e' ∈ es.map (SheetEntry.respelled d), e'.Faithful d := by
    intro es hes e' he'
    obtain ⟨e, he, rfl⟩ := List.mem_map.mp he'
    exact (hes e he).1.faithful_respelled (hes e he).2
  refine ⟨(hdialect ▸ hsound.distinct_sheet).respelled hall, ⟨?_, ?_, ?_⟩, htrailing⟩
  · exact hentries _ hboth.global
  · intro s' hs'
    obtain ⟨s, hs, rfl⟩ := List.mem_map.mp hs'
    exact hentries _ (hboth.entries s hs)
  · intro s' hs'
    obtain ⟨s, hs, rfl⟩ := List.mem_map.mp hs'
    exact (hall.headers s hs).kept

/-! ## The last line -/

/-- Without the empty line at its end a text makes the same sheet, and one line less waits. -/
theorem Reads.of_concat_nil {d : Dialect} {init : List Text} {S : Sheet} {waiting : List Text}
    (h : Reads d (init ++ [[]]) S waiting) :
    ∃ rest, waiting = rest ++ [[]] ∧ Reads d init S rest := by
  obtain ⟨D, accepted, hD⟩ : ∃ D accepted, Draft.start.read d init = (D, accepted) := ⟨_, _, rfl⟩
  have hlast : D.read d [[]] = (D.wait [], true) := rfl
  rw [Reads, Draft.read_append, hD, hlast, Prod.mk.injEq, Bool.and_true] at h
  obtain ⟨hdraft, rfl⟩ := h
  obtain ⟨sheet, target, rest⟩ := D
  simp only [Draft.wait, Draft.mk.injEq] at hdraft
  obtain ⟨rfl, rfl, rfl⟩ := hdraft
  exact ⟨rest, rfl, hD⟩

/-- **A text that makes a sheet line by line** is written back as it stands, if there is no carriage
    return in it. -/
theorem Reads.exists_render_eq {d : Dialect} {text : Text} {S : Sheet} {waiting : List Text}
    (h : Reads d (Text.lines (Text.dropBom text)) S waiting)
    (hall : S.All SheetEntry.Matches fun _ header? => ∃ line, header? = some line)
    (hpage : Text.lines (Text.dropBom text) = S.page ++ waiting) (hreturn : '\r' ∉ text) :
    ∃ again, parse d text = .ok ⟨again, []⟩ ∧ again.render ⟨.roundTrip, .lf⟩ = text := by
  obtain ⟨again, hparse, hdialect, hsheet⟩ := h.exists_parse
  refine ⟨again, hparse, ?_⟩
  have hlines : again.sheet.lines d .roundTrip = Text.lines (Text.dropBom text) := by
    rw [hsheet, Sheet.lines_roundTrip (show (S.finish waiting text).All _ _ from
      ⟨hall.global, hall.entries, hall.headers⟩), hpage]
    rfl
  have hjoin : _ = text := Text.join_lines_lf fun piece hpiece hlast =>
    hreturn (Text.mem_of_mem_pieces hpiece (List.mem_of_getLast? hlast))
  rw [Document.render_eq, hdialect, Sheet.render, hlines, hsheet]
  simpa [Sheet.mark, Sheet.finish, Sheet.isClosed] using hjoin

/-! ## The normal form -/

/-- What is written for a document in a round trip is its captured lines. -/
theorem Document.render_roundTrip_of_parse {d : Dialect} {text : Text} {p : Parsed}
    (h : parse d text = .ok p) (e : LineEnding) :
    p.document.render ⟨.roundTrip, e⟩ = p.document.sheet.mark .roundTrip ++
      e.join p.document.sheet.finalNewline (p.document.sheet.page ++ p.document.sheet.trailing) := by
  obtain ⟨-, hdialect, -, -⟩ := of_parse_eq_ok h
  have hcaptured : p.document.sheet.All SheetEntry.Matches fun _ header? =>
      ∃ line, header? = some line :=
    (read_of_parse h).1.mono (fun _ he => he.fits) fun _ _ hheader =>
      hheader.kept.imp fun _ hline => hline.1
  rw [Document.render_eq, hdialect, Sheet.render, Sheet.lines_roundTrip hcaptured]
  rfl

section Clean

variable (S : Sheet) (closed : Bool) {ls : List Text}

/-- The mark that is written in front of clean lines is the mark that is dropped. -/
theorem Sheet.dropBom_mark_append (h : ∀ l ∈ ls, Text.Clean l) :
    Text.dropBom (S.mark .roundTrip ++ LineEnding.lf.join closed ls) =
      LineEnding.lf.join closed ls := by
  rw [mark]
  cases S.bom with
  | true => rfl
  | false =>
    exact LineEnding.dropBom_join _ _ fun l hl hhead => (h l hl).noBom (List.mem_of_head? hhead)

theorem Sheet.return_not_mem_mark_append (h : ∀ l ∈ ls, Text.Clean l) :
    '\r' ∉ S.mark .roundTrip ++ LineEnding.lf.join closed ls := by
  intro hmem
  rcases List.mem_append.mp hmem with hmem | hmem
  · have hmark : '\r' ∉ S.mark .roundTrip := by
      rw [mark]
      cases S.bom <;> decide
    exact hmark hmem
  · rcases LineEnding.mem_of_mem_join hmem with hmem | ⟨l, hl, hmem⟩
    · exact absurd hmem (by decide)
    · exact (h l hl).noReturn hmem

end Clean

/-- **Reading and writing back is a normal form.**  Whatever was skipped, merged or replaced in
    reading a text, what is written for it in a round trip is read without a diagnostic and written
    back as it stands. -/
theorem roundTrip_is_normal_form {d : Dialect} {text : Text} {p : Parsed}
    (hreturns : Text.ReturnsOnlyBeforeFeeds text) (hbom : bom ∉ text.tail)
    (h : parse d text = .ok p) :
    ∃ again, parse d (p.document.render ⟨.roundTrip, .lf⟩) = .ok ⟨again, []⟩ ∧
      again.render ⟨.roundTrip, .lf⟩ = p.document.render ⟨.roundTrip, .lf⟩ := by
  obtain ⟨S, hS⟩ : ∃ S, S = p.document.sheet := ⟨_, rfl⟩
  have hclean : ∀ l ∈ S.page ++ S.trailing, Text.Clean l := by
    intro l hl
    refine Text.clean_of_mem_lines hreturns hbom l (Draft.mem_lines_of_mem_page d text l ?_)
    rw [hS, (of_parse_eq_ok h).2.2.1] at hl
    exact hl
  rw [Document.render_roundTrip_of_parse h, ← hS]
  have hdrop := S.dropBom_mark_append S.finalNewline hclean
  have hreturn := S.return_not_mem_mark_append S.finalNewline hclean
  -- the respelled sheet has the same lines, and they are read as it
  have hfaithful : (S.respelled d).Faithful d := hS ▸ faithful_respelled_of_parse h
  have hreads := hfaithful.reads
  rw [Sheet.page_respelled] at hreads
  have hcaptured : Sheet.All SheetEntry.Matches (fun _ header? => ∃ line, header? = some line)
      { S.respelled d with trailing := [], finalNewline := true, bom := false } :=
    ⟨fun e he => (hfaithful.all.global e he).fits,
      fun s hs e he => (hfaithful.all.entries s hs e he).fits,
      fun s hs => (hfaithful.all.headers s hs).imp fun _ hline => hline.1⟩
  rcases Text.lines_join_clean S.finalNewline hclean with hlines | ⟨init, hinit, hlines⟩
  · rw [← hdrop] at hlines
    refine Reads.exists_render_eq (hlines ▸ hreads) hcaptured ?_ hreturn
    rw [hlines, ← Sheet.page_respelled d S]
    rfl
  · -- the empty last line is not read again, and it was one of those that waited
    rw [← hdrop] at hlines
    rw [show (S.respelled d).trailing = S.trailing from rfl, hinit] at hreads
    obtain ⟨rest, htrailing, hreads⟩ := hreads.of_concat_nil
    refine Reads.exists_render_eq (hlines ▸ hreads) hcaptured ?_ hreturn
    rw [htrailing, ← List.append_assoc] at hinit
    rw [hlines, ← List.append_cancel_right hinit, ← Sheet.page_respelled d S]
    rfl

/-- A rejected line, a merged section and a replaced value are gone, and with them the empty line
    at the end; what is left stays. -/
theorem roundTrip_is_normal_form_sample :
    ∃ p, parse .lenient "\ufeffK=1\r\n[s]\r\na=1\n[t]\n[s]\na=2\n\n]".toList = .ok p ∧
      p.document.render ⟨.roundTrip, .lf⟩ = "\ufeffK=1\n[s]\na=2\n[t]\n".toList ∧
      ∃ again, parse .lenient "\ufeffK=1\n[s]\na=2\n[t]\n".toList = .ok ⟨again, []⟩ ∧
        again.render ⟨.roundTrip, .lf⟩ = "\ufeffK=1\n[s]\na=2\n[t]\n".toList := by
  have hread : (parse .lenient "\ufeffK=1\r\n[s]\r\na=1\n[t]\n[s]\na=2\n\n]".toList).toOption.any
      (fun p => p.document.render ⟨.roundTrip, .lf⟩ == "\ufeffK=1\n[s]\na=2\n[t]\n".toList) =
        true := by
    decide +kernel
  obtain ⟨p, hparse, hrender⟩ := Except.exists_ok_of_any hread
  rw [beq_iff_eq] at hrender
  have hreturns : Text.ReturnsOnlyBeforeFeeds
      "\ufeffK=1\r\n[s]\r\na=1\n[t]\n[s]\na=2\n\n]".toList := by
    decide +kernel
  have hnormal := roundTrip_is_normal_form hreturns (by decide) hparse
  rw [hrender] at hnormal
  exact ⟨p, hparse, hrender, hnormal⟩

end IniFile
