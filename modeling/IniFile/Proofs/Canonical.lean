/-
  Canonical output is a fixed point.

  Canonical output has no spacing of its own: every line is written afresh, trimmed, or blank.  So
  it is read back line by line as it was written, each line is captured where it stood, and writing
  it canonically again gives the same lines.

  1. **Lines** — what holds of every line of a written sheet; canonical lines end in no blank.
  2. **Stability** — the sheet that is read back has the same canonical lines.
  3. **The fixed point** — for texts, over every history.
-/
import IniFile.Proofs.Histories
import IniFile.Proofs.Mark

namespace IniFile

/-! ## Lines -/

/-- What holds of the lines of all entries and headers holds of the whole page. -/
theorem Sheet.forall_page {R : Text → Prop} {S : Sheet}
    (h : S.All (fun e => ∀ line ∈ e.lines, ∀ l ∈ line.block, R l) fun _ header? =>
      ∀ line, header? = some line → ∀ l ∈ line.block, R l) : ∀ l ∈ S.page, R l := by
  intro l hl
  rcases List.mem_append.mp hl with hl | hl
  · obtain ⟨e, he, hl⟩ := List.mem_flatMap.mp hl
    obtain ⟨line, hline, hl⟩ := List.mem_flatMap.mp hl
    exact h.global e he line hline l hl
  · obtain ⟨s, hs, hl⟩ := List.mem_flatMap.mp hl
    rcases List.mem_append.mp hl with hl | hl
    · unfold SheetSection.headerBlock at hl
      cases hheader : s.header? with
      | none => rw [hheader] at hl; exact absurd hl List.not_mem_nil
      | some line => rw [hheader] at hl; exact h.headers s hs line hheader l hl
    · obtain ⟨e, he, hl⟩ := List.mem_flatMap.mp hl
      obtain ⟨line, hline, hl⟩ := List.mem_flatMap.mp hl
      exact h.entries s hs e he line hline l hl

/-- What holds of leading lines and of the line itself holds of the block. -/
theorem forall_block {R : Text → Prop} {leading : List Text} {raw : Text}
    (hleading : ∀ l ∈ leading, R l) (hraw : R raw) : ∀ l ∈ leading ++ [raw], R l := by
  intro l hl
  rcases List.mem_append.mp hl with hl | hl
  · exact hleading l hl
  · rw [List.mem_singleton.mp hl]; exact hraw

/-- A quiet line does not begin with the mark. -/
theorem Line.Quiet.head?_ne_bom {d : Dialect} (hd : d.Plain) {l : Text} (h : Line.Quiet d l) :
    l.head? ≠ some bom := by
  rcases h.1 with hblank | ⟨c, hcomment⟩
  · exact Line.head?_ne_bom hd hblank fun _ _ _ hcontent => by simp at hcontent
  · exact Line.head?_ne_bom hd hcomment fun _ _ _ hcontent => by simp at hcontent

namespace Sheet.Faithful

variable {d : Dialect} {S : Sheet}

/-- What holds of quiet lines, of lines of keys and of lines of headers holds of all lines. -/
theorem forall_lines {P : SheetEntry → Prop} {R : Text → Prop} (h : S.Faithful d)
    (hP : S.All P fun _ _ => True) (hquiet : ∀ l, Line.Quiet d l → R l)
    (hentry : ∀ (e : SheetEntry) (line : EntryLine), P e → line.Kept d e.key → R line.raw)
    (hheader : ∀ (name : Text) (line : HeaderLine), line.Kept d name → R line.raw) :
    ∀ l ∈ S.page ++ S.trailing, R l := by
  have hpage : ∀ l ∈ S.page, R l := by
    refine Sheet.forall_page ((h.all.and hP).mono ?_ ?_)
    · rintro e ⟨he, hPe⟩ line hline
      have hkept := he.lines line hline
      exact forall_block (fun l hl => hquiet l (hkept.quiet l hl)) (hentry e line hPe hkept)
    · rintro name header? ⟨hsome, -⟩ line hline
      have hkept := HeaderLine.kept_of_eq_some hsome hline
      exact forall_block (fun l hl => hquiet l (hkept.quiet l hl)) (hheader name line hkept)
  intro l hl
  rcases List.mem_append.mp hl with hl | hl
  · exact hpage l hl
  · exact hquiet l (h.trailing l hl)

theorem noFeed (h : S.Faithful d) : ∀ l ∈ S.page ++ S.trailing, '\n' ∉ l := by
  have hall : S.All (fun _ => True) fun _ _ => True :=
    Sheet.all_of_forall (fun _ => trivial) fun _ _ => trivial
  exact h.forall_lines hall (fun _ hquiet => hquiet.2) (fun _ _ _ hkept => hkept.noFeed)
    fun _ _ hkept => hkept.noFeed

/-- Unless a key does, no line begins with the mark. -/
theorem head?_ne_bom (hd : d.Plain) (h : S.Faithful d)
    (hkeys : S.All (fun e => e.key.head? ≠ some IniFile.bom) fun _ _ => True) :
    ∀ l ∈ S.page ++ S.trailing, l.head? ≠ some IniFile.bom := by
  refine h.forall_lines hkeys (fun l hquiet => hquiet.head?_ne_bom hd) ?_ ?_
  · intro e line hkey hkept
    obtain ⟨key, hmeans, hsame⟩ := hkept.meaning
    refine Line.head?_ne_bom hd hmeans fun k v c hcontent => ?_
    rw [← (Content.entry.inj hcontent).1]
    exact Dialect.head?_ne_bom_of_sameKey hsame hkey
  · intro name line hkept
    exact Line.head?_ne_bom hd hkept.meaning fun _ _ _ hcontent => by simp at hcontent

end Sheet.Faithful

/-- Standalone comments end in no blank. -/
theorem trimEnd_standaloneComments {ls : List Text} :
    ∀ l ∈ standaloneComments ls, Text.trimEnd l = l := by
  intro l hl
  obtain ⟨raw, -, rfl, -⟩ := mem_standaloneComments.mp hl
  exact Text.trimEnd_of_trim (Text.trim_trim raw)

/-- A canonical line is written afresh, behind standalone comments. -/
theorem Slot.written_canonical (d : Dialect) (key : Text) (slot : Slot) :
    (slot.written d .canonical key).raw = renderEntry d key slot.value slot.comment ∧
      (slot.written d .canonical key).leading =
        standaloneComments ((slot.line?.map EntryLine.leading).getD []) := by
  obtain ⟨value, line?, comment⟩ := slot
  cases line? <;> exact ⟨rfl, rfl⟩

theorem SheetEntry.Writable.trimEnd_written {d : Dialect} (hd : d.Plain) {e : SheetEntry}
    (h : e.Writable d) : ∀ line ∈ (e.written d .canonical).lines,
      ∀ l ∈ line.block, Text.trimEnd l = l := by
  intro line hline
  have hcomment := (h.kept_lines hd .canonical line hline).comment
  obtain ⟨slot, -, rfl⟩ := List.mem_map.mp hline
  obtain ⟨hraw, hleading⟩ := slot.written_canonical d e.key
  rw [Slot.comment_written] at hcomment
  refine forall_block ?_ ?_
  · rw [hleading]
    exact trimEnd_standaloneComments
  · rw [hraw]
    exact trimEnd_renderEntry e.key slot.value (hd.closesWith hcomment)

theorem SheetSection.trimEnd_headerWritten {d : Dialect} (hd : d.Plain) {s : SheetSection}
    (h : HeaderLine.Writable d s.name s.header?) (flag : Bool) :
    ∀ l ∈ (s.headerWritten .canonical flag).block, Text.trimEnd l = l := by
  have hblank : ∀ l ∈ (if flag then [[]] else [] : List Text), Text.trimEnd l = l := by
    intro l hl
    cases flag with
    | false => exact absurd hl List.not_mem_nil
    | true =>
      rw [List.mem_singleton.mp hl]
      rfl
  unfold headerWritten
  cases hline : s.header? with
  | none => exact forall_block hblank (trimEnd_renderHeader s.name d.closesWith_none)
  | some line =>
    have hcloses := hd.closesWith (h.kept line hline).comment
    refine forall_block (fun l hl => ?_) (trimEnd_renderHeader s.name hcloses)
    rcases List.mem_append.mp hl with hl | hl
    · exact hblank l hl
    · exact trimEnd_standaloneComments l hl

/-- **Canonical lines end in no blank.** -/
theorem Sheet.Writable.trimEnd_lines {d : Dialect} (hd : d.Plain) {S : Sheet} (h : S.Writable d) :
    ∀ l ∈ S.lines d .canonical, Text.trimEnd l = l := by
  have hpage : ∀ l ∈ (S.written d .canonical).page, Text.trimEnd l = l := by
    refine Sheet.forall_page (h.all.written .canonical (fun e he => he.trimEnd_written hd) ?_)
    intro s flag hs line hline
    rw [← Option.some.inj hline]
    exact SheetSection.trimEnd_headerWritten hd hs flag
  intro l hl
  rw [← page_written] at hl
  rcases List.mem_append.mp hl with hl | hl
  · exact hpage l hl
  · exact trimEnd_standaloneComments l hl

/-! ## Stability -/

/-- What is left of standalone comments is all of them. -/
theorem standaloneComments_standaloneComments (ls : List Text) :
    standaloneComments (standaloneComments ls) = standaloneComments ls := by
  have htrim : (standaloneComments ls).map Text.trim = standaloneComments ls := by
    have hsame : ∀ l ∈ standaloneComments ls, Text.trim l = l := by
      intro l hl
      obtain ⟨raw, -, rfl, -⟩ := mem_standaloneComments.mp hl
      exact Text.trim_trim raw
    rw [List.map_congr_left hsame, List.map_id']
  have hkeep : ∀ l ∈ standaloneComments ls, (!l.isEmpty) = true := by
    intro l hl
    obtain ⟨raw, -, -, hne⟩ := mem_standaloneComments.mp hl
    simpa using hne
  rw [standaloneComments, htrim, List.filter_eq_self.mpr hkeep]

/-- A blank line in front is left out. -/
theorem standaloneComments_separator (flag : Bool) (ls : List Text) :
    standaloneComments ((if flag then [[]] else []) ++ ls) = standaloneComments ls := by
  cases flag <;> rfl

/-- A slot with the line that was written for it is written the same. -/
theorem Slot.lines_written_canonical (d : Dialect) (key : Text) (slot : Slot) :
    Slot.lines d .canonical key ⟨slot.value, some (slot.written d .canonical key), slot.comment⟩ =
      slot.lines d .canonical key := by
  obtain ⟨hraw, hleading⟩ := slot.written_canonical d key
  rw [Slot.lines_eq d .canonical key slot, EntryLine.block, hraw, hleading]
  show standaloneComments (slot.written d .canonical key).leading ++ [_] = _
  rw [hleading, standaloneComments_standaloneComments]

/-- The canonical lines of slots do not change when these lines are captured. -/
theorem flatMap_slots_written (d : Dialect) (key : Text) (comment : Option Comment) :
    ∀ (values : List Text) (lines : List EntryLine),
      (slots comment values ((slots comment values lines).map (·.written d .canonical key))).flatMap
          (·.lines d .canonical key) =
        (slots comment values lines).flatMap (·.lines d .canonical key)
  | [], _ => rfl
  | value :: more, lines => by
      have ih := flatMap_slots_written d key comment more lines.tail
      obtain ⟨slot, hslot⟩ : ∃ slot, slot = Slot.mk value lines.head?
          (if more.isEmpty then comment else lines.head?.bind EntryLine.comment) := ⟨_, rfl⟩
      have hslots : slots comment (value :: more) lines = slot :: slots comment more lines.tail := by
        rw [hslot]; rfl
      -- the slot that is captured has the same value and comment
      have hagain : slots comment (value :: more) ((slot :: slots comment more lines.tail).map
          (·.written d .canonical key)) =
            ⟨slot.value, some (slot.written d .canonical key), slot.comment⟩ ::
              slots comment more ((slots comment more lines.tail).map (·.written d .canonical key)) := by
        have hcomment : (if more.isEmpty then comment else slot.comment) = slot.comment := by
          rw [hslot]
          cases more <;> rfl
        have hvalue : slot.value = value := by rw [hslot]
        rw [List.map_cons, slots, List.head?_cons, List.tail_cons, Option.bind_some,
          Slot.comment_written, hcomment, hvalue]
      rw [hslots, hagain, List.flatMap_cons, List.flatMap_cons, ih, Slot.lines_written_canonical]

namespace SheetEntry.Writable

variable {d : Dialect} {e : SheetEntry}

/-- The key captured for canonical lines is the key itself. -/
theorem key_written_canonical (hd : d.Plain) (h : e.Writable d) :
    (e.written d .canonical).key = e.key := by
  obtain ⟨line, rest, hlines⟩ :=
    List.exists_cons_of_ne_nil (fits_written h.kept.valued d .canonical).captured
  have hmem : line ∈ (e.written d .canonical).lines := by
    rw [hlines]
    exact List.mem_cons_self
  have hcomment := (h.kept_lines hd .canonical line hmem).comment
  show ((e.written d .canonical).lines.head?.map fun line => Line.keyOf d line.raw).getD e.key = e.key
  rw [hlines]
  obtain ⟨slot, -, rfl⟩ := List.mem_map.mp hmem
  rw [Slot.comment_written] at hcomment
  show Line.keyOf d (slot.written d .canonical e.key).raw = e.key
  rw [(slot.written_canonical d e.key).1]
  exact Line.keyOf_of_says (Line.says_renderEntry h.key slot.value (hd.closesWith hcomment))

theorem render_written_canonical (hd : d.Plain) (h : e.Writable d) :
    (e.written d .canonical).render d .canonical = e.render d .canonical := by
  rw [SheetEntry.render, h.key_written_canonical hd]
  exact flatMap_slots_written d e.key e.comment e.values e.lines

end SheetEntry.Writable

theorem SheetSection.headerLines_written_canonical (d : Dialect) (s : SheetSection) (flag : Bool) :
    (s.written d .canonical flag).headerLines .canonical flag = s.headerLines .canonical flag := by
  unfold headerLines written headerWritten
  cases s.header? with
  | none =>
    simp only [List.append_assoc]
    rw [← List.append_nil (if flag = true then [[]] else []), standaloneComments_separator]
    simp [standaloneComments]
  | some line =>
    simp only [standaloneComments_separator, standaloneComments_standaloneComments]

/-- **The sheet that is captured from canonical lines has the same canonical lines.** -/
theorem Sheet.Writable.lines_written_canonical {d : Dialect} (hd : d.Plain) {S : Sheet}
    (h : S.Writable d) : (S.written d .canonical).lines d .canonical = S.lines d .canonical := by
  have hentries : ∀ es : List SheetEntry, (∀ e ∈ es, e.Writable d) →
      (es.map (SheetEntry.written d .canonical)).flatMap (SheetEntry.render d .canonical) =
        es.flatMap (SheetEntry.render d .canonical) := by
    intro es hes
    rw [List.flatMap_map]
    exact List.flatMap_congr fun e he => (hes e he).render_written_canonical hd
  have hsections : ∀ (ss : List SheetSection) (flag : Bool), (∀ s ∈ ss, s ∈ S.sections) →
      sectionLines d .canonical flag (writtenSections d .canonical flag ss) =
        sectionLines d .canonical flag ss := by
    intro ss
    induction ss with
    | nil =>
      intro _ _
      rfl
    | cons s rest ih =>
      intro flag hss
      have hs := hss s List.mem_cons_self
      have hbody := hentries s.entries (h.all.entries s hs)
      rw [writtenSections, sectionLines, ih true fun t ht => hss t (List.mem_cons_of_mem _ ht),
        sectionLines, SheetSection.render, SheetSection.headerLines_written_canonical]
      show _ ++ (s.entries.map _).flatMap _ ++ _ = _
      rw [hbody]
      rfl
  have hglobal : (S.written d .canonical).globalLines d .canonical = S.globalLines d .canonical :=
    hentries S.global h.all.global
  rw [Sheet.lines, hglobal, Sheet.lines]
  show _ ++ sectionLines d .canonical _ (writtenSections d .canonical _ S.sections) ++
    standaloneComments (standaloneComments S.trailing) = _
  rw [hsections _ _ fun s hs => hs, standaloneComments_standaloneComments]
  rfl

/-! ## The fixed point -/

/-- No line written for the sheet begins with the mark, unless a key does. -/
theorem Sheet.Writable.head?_lines {d : Dialect} (hd : d.Plain) {S : Sheet} (h : S.Writable d)
    (hbom : S.All (fun e => e.key.head? ≠ some IniFile.bom) fun _ _ => True) (style : Style) :
    ∀ l ∈ S.lines d style, l.head? ≠ some IniFile.bom := by
  have hkeys : (S.written d style).All (fun e => e.key.head? ≠ some IniFile.bom) fun _ _ => True :=
    (h.all.and hbom).written style (fun e ⟨he, hkey⟩ =>
      Dialect.head?_ne_bom_of_sameKey (he.first hd style).1 hkey) fun _ _ _ => trivial
  rw [← page_written]
  exact (h.faithful_written hd style).head?_ne_bom hd hkeys

/-- The lines that are joined canonically are the lines of the text. -/
theorem Sheet.Writable.lines_join_canonical {d : Dialect} (hd : d.Plain) {S : Sheet}
    (h : S.Writable d) (e : LineEnding) :
    Text.lines (e.join true (S.lines d .canonical)) = S.lines d .canonical := by
  have hfeed : ∀ l ∈ S.lines d .canonical, '\n' ∉ l := by
    rw [← page_written]
    exact (h.faithful_written hd .canonical).noFeed
  -- no line ends in a carriage return, so no line ending takes one along
  have hreread : ∀ l ∈ S.lines d .canonical, Text.reread e l = l := by
    intro l hl
    exact Text.reread_of_trimEnd (h.trimEnd_lines hd l hl) e
  rw [Text.lines_join_closed e hfeed, List.map_congr_left hreread, List.map_id']

/-- The lines of canonical text are the lines that were written. -/
theorem Sheet.Writable.lines_render_canonical {d : Dialect} (hd : d.Plain) {S : Sheet}
    (h : S.Writable d) (hbom : S.All (fun e => e.key.head? ≠ some IniFile.bom) fun _ _ => True)
    (e : LineEnding) :
    Text.lines (Text.dropBom (S.render d ⟨.canonical, e⟩)) = S.lines d .canonical := by
  show Text.lines (Text.dropBom (e.join true (S.lines d .canonical))) = _
  rw [LineEnding.dropBom_join e true (h.head?_lines hd hbom .canonical),
    h.lines_join_canonical hd e]

/-- **What is written canonically is read back**: a document on the sheet of the canonical lines. -/
theorem Sheet.Writable.exists_parse_canonical {d : Dialect} (hd : d.Plain) {S : Sheet}
    (h : S.Writable d) (hbom : S.All (fun e => e.key.head? ≠ some IniFile.bom) fun _ _ => True)
    (e : LineEnding) :
    ∃ again, parse d (S.render d ⟨.canonical, e⟩) = .ok ⟨again, []⟩ ∧ again.dialect = d ∧
      again.sheet = (S.written d .canonical).finish (S.trailingLines .canonical)
        (S.render d ⟨.canonical, e⟩) := by
  have hreads := h.reads hd .canonical
  rw [← h.lines_render_canonical hd hbom e] at hreads
  exact hreads.exists_parse

/-- **Canonical output is a fixed point.**  However a document that was read from a text was
    changed, its canonical text reads without a diagnostic, and the document read from it has that
    canonical text again. -/
theorem canonical_render_parse_render {d : Dialect} {text : Text} {p : Parsed} {steps : List Step}
    (hd : d.Plain) (h : parse d text = .ok p) (hsteps : ∀ step ∈ steps, step.Writable d)
    (hbom : ∀ e ∈ (p.document.after steps).content.entries, e.key.head? ≠ some bom)
    (hsingle : (p.document.after steps).SingleValued) (e : LineEnding) :
    ∃ again, parse (p.document.after steps).dialect
        ((p.document.after steps).render ⟨.canonical, e⟩) = .ok ⟨again, []⟩ ∧
      again.render ⟨.canonical, e⟩ = (p.document.after steps).render ⟨.canonical, e⟩ := by
  have horigin : p.document.Origin d := .parsed h
  obtain ⟨hsound, hdialect, -⟩ := horigin.after steps
  have hwritable := horigin.writable_after (fun step hstep => (hsteps step hstep).comments)
    (horigin.keys_after hsteps) hsingle
  have hmark : (p.document.after steps).sheet.All (fun e => e.key.head? ≠ some bom)
      fun _ _ => True := hsound.all_of_content hbom fun _ _ => trivial
  obtain ⟨again, hparse, hagain, hsheet⟩ := hwritable.exists_parse_canonical hd hmark e
  rw [Document.render_eq, hdialect]
  refine ⟨again, hparse, ?_⟩
  rw [Document.render_eq, hagain, hsheet]
  show e.join true ((Sheet.finish _ _ _).lines d .canonical) = e.join true (Sheet.lines d .canonical _)
  -- what finishing a sheet adds is not written in this style, but for the standalone comments
  have hsame : ((Sheet.written d .canonical (p.document.after steps).sheet).finish
      ((p.document.after steps).sheet.trailingLines .canonical)
        ((p.document.after steps).sheet.render d ⟨.canonical, e⟩)).lines d .canonical =
      (Sheet.written d .canonical (p.document.after steps).sheet).lines d .canonical := rfl
  rw [hsame, hwritable.lines_written_canonical hd]

/-- Comments, quoting and an appended value settle at once. -/
theorem canonical_render_parse_render_sample :
    ∃ p, parse { keyPolicy := .append } "; t\n[s] #h\na='1'\n\n;u".toList = .ok p ∧
      ∃ doc again, doc = p.document.after [.edit (.inSection ['s'] (.append ['a'] " 2".toList)),
          .edit (.inSection ['s'] (.setComment ['a'] (some (.of '#' ['c']))))] ∧
        parse doc.dialect (doc.render ⟨.canonical, .crlf⟩) = .ok ⟨again, []⟩ ∧
          again.render ⟨.canonical, .crlf⟩ = doc.render ⟨.canonical, .crlf⟩ := by
  have hread : (parse { keyPolicy := .append } "; t\n[s] #h\na='1'\n\n;u".toList).toOption.any
      (fun p => decide ((∀ e ∈ (p.document.after
          [.edit (.inSection ['s'] (.append ['a'] " 2".toList)),
            .edit (.inSection ['s'] (.setComment ['a'] (some (.of '#' ['c']))))]).content.entries,
              e.key.head? ≠ some bom) ∧
        (p.document.after [.edit (.inSection ['s'] (.append ['a'] " 2".toList)),
          .edit (.inSection ['s'] (.setComment ['a'] (some (.of '#' ['c']))))]).SingleValued)) =
        true := by
    decide +kernel
  have hsteps : ∀ step ∈ [Step.edit (.inSection ['s'] (.append ['a'] " 2".toList)),
      .edit (.inSection ['s'] (.setComment ['a'] (some (.of '#' ['c']))))],
        step.Writable { keyPolicy := .append } := by
    decide +kernel
  obtain ⟨p, hparse, hholds⟩ := Except.exists_ok_of_any hread
  obtain ⟨hbom, hsingle⟩ := of_decide_eq_true hholds
  obtain ⟨again, hagain, hfixed⟩ :=
    canonical_render_parse_render (by decide +kernel) hparse hsteps hbom hsingle .crlf
  exact ⟨p, hparse, _, again, rfl, hagain, hfixed⟩

end IniFile
