/-
  What is written is the page of a faithful sheet.

  A document is written partly from captured lines and partly afresh.  `Sheet.written` captures the
  outcome: the sheet with the lines that are WRITTEN for it in place of those captured when it was
  read.

  1. **Slots** — the line written for one value (`Slot.written`), and what it says.
  2. **Sheets** — the page of the written sheet is what is written.
  3. **Faithfulness** — the written sheet says what its lines say, provided that names, keys and
     comments can be written; so it can be read back.
-/
import IniFile.Proofs.FreshLines
import IniFile.Proofs.Readback
import IniFile.Proofs.Rendering

namespace IniFile

/-! ## Quiet lines -/

theorem Line.quiet_nil (d : Dialect) : Line.Quiet d [] := ⟨Or.inl rfl, List.not_mem_nil⟩

/-- Standalone comments are trimmed and not empty. -/
theorem mem_standaloneComments {ls : List Text} {l : Text} :
    l ∈ standaloneComments ls ↔ ∃ raw ∈ ls, Text.trim raw = l ∧ l ≠ [] := by
  unfold standaloneComments
  rw [List.mem_filter, List.mem_map]
  constructor
  · rintro ⟨⟨raw, hraw, rfl⟩, hne⟩
    exact ⟨raw, hraw, rfl, by simpa using hne⟩
  · rintro ⟨raw, hraw, rfl, hne⟩
    exact ⟨⟨raw, hraw, rfl⟩, by simpa using hne⟩

/-- A quiet line without its blanks is a comment, or nothing is left of it. -/
theorem Line.Quiet.trim {d : Dialect} {l : Text} (h : Line.Quiet d l) (hne : Text.trim l ≠ []) :
    Line.Quiet d (Text.trim l) := by
  refine ⟨?_, fun hmem => h.2 (Text.mem_of_mem_trim hmem)⟩
  rcases h.1 with hblank | ⟨c, hcomment⟩
  · have hstart : Text.trimStart l = [] := Line.says_blank_iff.mp hblank
    exact absurd (by rw [Text.trim, hstart]; rfl) hne
  · exact Or.inr ⟨c, Line.says_comment_trim hcomment⟩

theorem Line.quiet_standaloneComments {d : Dialect} {ls : List Text}
    (h : ∀ l ∈ ls, Line.Quiet d l) : ∀ l ∈ standaloneComments ls, Line.Quiet d l := by
  intro l hl
  obtain ⟨raw, hraw, rfl, hne⟩ := mem_standaloneComments.mp hl
  exact (h raw hraw).trim hne

/-! ## Slots -/

/-- The key that an entry line gives a value to. -/
def Line.keyOf (d : Dialect) (raw : Text) : Text :=
  match (Line.scan d raw).1 with
  | .entry key _ _ => key
  | _ => []

theorem Line.keyOf_of_says {d : Dialect} {raw key value : Text} {comment : Option Comment}
    (h : Line.Says d raw (.entry key value comment)) : Line.keyOf d raw = key := by
  rw [Line.keyOf, Line.scan_of_says h]

/-- The line that is written for a slot, with the lines in front of it. -/
def Slot.written (d : Dialect) (style : Style) (key : Text) (slot : Slot) : EntryLine :=
  let afresh := renderEntry d key slot.value slot.comment
  match slot.line?, style with
  | none, _ => ⟨[], afresh, slot.value, slot.comment⟩
  | some line, .roundTrip =>
    let kept := line.value = slot.value ∧ line.comment = slot.comment
    ⟨line.leading, if kept then line.raw else afresh, slot.value, slot.comment⟩
  | some line, .canonical =>
    ⟨standaloneComments line.leading, afresh, slot.value, slot.comment⟩

namespace Slot

variable {d : Dialect} {style : Style} {key : Text} {slot : Slot}

@[simp] theorem value_written (d : Dialect) (style : Style) (key : Text) (slot : Slot) :
    (slot.written d style key).value = slot.value := by
  obtain ⟨value, line?, comment⟩ := slot
  cases line? <;> cases style <;> rfl

@[simp] theorem comment_written (d : Dialect) (style : Style) (key : Text) (slot : Slot) :
    (slot.written d style key).comment = slot.comment := by
  obtain ⟨value, line?, comment⟩ := slot
  cases line? <;> cases style <;> rfl

theorem lines_eq (d : Dialect) (style : Style) (key : Text) (slot : Slot) :
    slot.lines d style key = (slot.written d style key).block := by
  obtain ⟨value, line?, comment⟩ := slot
  cases line? <;> cases style <;> rfl

/-- What is written for a slot gives its value to the key. -/
theorem kept_written (hd : d.Plain) (hkey : Key.Written d key)
    (hline : ∀ line, slot.line? = some line → line.Kept d key)
    (hcomment : ∀ c, slot.comment = some c → c.Written d) :
    (slot.written d style key).Kept d key := by
  obtain ⟨value, line?, comment⟩ := slot
  have hcloses : d.ClosesWith comment := hd.closesWith hcomment
  have hmeans : ∃ k, Line.Says d (renderEntry d key value comment) (.entry k value comment) ∧
      d.sameKey k key = true :=
    ⟨key, Line.says_renderEntry hkey value hcloses, d.sameKey_refl key⟩
  have hfeed := lf_not_mem_renderEntry hkey value hcloses
  cases line? with
  | none => exact ⟨fun l hl => absurd hl List.not_mem_nil, hmeans, hfeed⟩
  | some line =>
    have hkept := hline line rfl
    cases style with
    | canonical => exact ⟨Line.quiet_standaloneComments hkept.quiet, hmeans, hfeed⟩
    | roundTrip =>
      unfold written
      -- a captured line is put back only where it says what the entry now says
      by_cases hsame : line.value = value ∧ line.comment = comment
      · have hmeaning := hkept.meaning
        rw [hsame.1, hsame.2] at hmeaning
        simp only [hsame, and_self, if_true]
        exact ⟨hkept.quiet, hmeaning, hkept.noFeed⟩
      · simp only [hsame, if_false]
        exact ⟨hkept.quiet, hmeans, hfeed⟩

end Slot

/-- A slot has a captured line of the entry or none, and the comment of the entry or of
    that line. -/
theorem mem_slots {comment : Option Comment} {slot : Slot} : ∀ {values : List Text}
    {lines : List EntryLine}, slot ∈ slots comment values lines →
      (∀ line, slot.line? = some line → line ∈ lines) ∧
        (slot.comment = comment ∨ slot.comment = slot.line?.bind EntryLine.comment)
  | [], _, h => absurd h List.not_mem_nil
  | value :: more, lines, h => by
      rcases List.mem_cons.mp h with rfl | h
      · refine ⟨fun line hline => List.mem_of_head? hline, ?_⟩
        cases more with
        | nil => exact Or.inl rfl
        | cons _ _ => exact Or.inr rfl
      · obtain ⟨hline, hcomment⟩ := mem_slots h
        exact ⟨fun line hl => List.mem_of_mem_tail (hline line hl), hcomment⟩

theorem map_value_slots (comment : Option Comment) : ∀ (values : List Text) (lines : List EntryLine),
    (slots comment values lines).map Slot.value = values
  | [], _ => rfl
  | value :: more, lines => congrArg (value :: ·) (map_value_slots comment more lines.tail)

theorem getLast?_slots (comment : Option Comment) : ∀ {values : List Text} (lines : List EntryLine),
    values ≠ [] → (slots comment values lines).getLast?.bind Slot.comment = comment
  | [], _, h => absurd rfl h
  | [value], _, _ => rfl
  | value :: next :: more, lines, _ => by
      have ih := getLast?_slots comment lines.tail (List.cons_ne_nil next more)
      rw [slots, slots, List.getLast?_cons_cons, ← slots]
      exact ih

/-! ## Sheets -/

/-- The entry with the lines that are written for it. -/
def SheetEntry.written (d : Dialect) (style : Style) (e : SheetEntry) : SheetEntry :=
  let lines := (slots e.comment e.values e.lines).map (·.written d style e.key)
  ⟨⟨(lines.head?.map fun line => Line.keyOf d line.raw).getD e.key, e.values, e.comment⟩, lines⟩

/-- The header that is written for a section. -/
def SheetSection.headerWritten (style : Style) (written : Bool) (s : SheetSection) : HeaderLine :=
  let blank : List Text := if written then [[]] else []
  match s.header?, style with
  | none, _ => ⟨blank, renderHeader s.name none, none⟩
  | some line, .roundTrip => line
  | some line, .canonical =>
    ⟨blank ++ standaloneComments line.leading, renderHeader s.name line.comment, line.comment⟩

/-- The section with the lines that are written for it. -/
def SheetSection.written (d : Dialect) (style : Style) (written : Bool) (s : SheetSection) :
    SheetSection :=
  ⟨s.name, some (s.headerWritten style written), s.entries.map (.written d style)⟩

namespace Sheet

/-- The sections with the lines that are written for them. -/
def writtenSections (d : Dialect) (style : Style) : Bool → List SheetSection → List SheetSection
  | _, [] => []
  | written, s :: rest => s.written d style written :: writtenSections d style true rest

/-- **The sheet with the lines that are written for it.** -/
def written (d : Dialect) (style : Style) (S : Sheet) : Sheet where
  global := S.global.map (.written d style)
  sections := writtenSections d style (!(S.globalLines d style).isEmpty) S.sections
  trailing := S.trailingLines style
  finalNewline := S.isClosed style
  bom := !(S.mark style).isEmpty

end Sheet

theorem SheetEntry.block_written (d : Dialect) (style : Style) (e : SheetEntry) :
    (e.written d style).block = e.render d style := by
  rw [SheetEntry.block, SheetEntry.written, SheetEntry.render, List.flatMap_map]
  exact List.flatMap_congr fun slot _ => (slot.lines_eq d style e.key).symm

theorem SheetSection.block_headerWritten (style : Style) (written : Bool) (s : SheetSection) :
    (s.headerWritten style written).block = s.headerLines style written := by
  unfold headerWritten headerLines HeaderLine.block
  cases s.header? with
  | none => rfl
  | some line => cases style <;> rfl

theorem SheetSection.block_written (d : Dialect) (style : Style) (written : Bool) (s : SheetSection) :
    (s.written d style written).block = s.render d style written := by
  have hentries : (s.entries.map (.written d style)).flatMap SheetEntry.block =
      s.entries.flatMap (SheetEntry.render d style) := by
    rw [List.flatMap_map]
    exact List.flatMap_congr fun e _ => e.block_written d style
  rw [SheetSection.render, ← hentries, ← block_headerWritten]
  rfl

/-- **The page of the written sheet is what is written.** -/
theorem Sheet.page_written (d : Dialect) (style : Style) (S : Sheet) :
    (S.written d style).page ++ (S.written d style).trailing = S.lines d style := by
  have hsections : ∀ (ss : List SheetSection) (flag : Bool),
      (writtenSections d style flag ss).flatMap SheetSection.block = sectionLines d style flag ss := by
    intro ss
    induction ss with
    | nil =>
      intro _
      rfl
    | cons s rest ih =>
      intro flag
      rw [writtenSections, List.flatMap_cons, SheetSection.block_written, ih, sectionLines]
  have hglobal : (S.global.map (.written d style)).flatMap SheetEntry.block = S.globalLines d style := by
    rw [List.flatMap_map, Sheet.globalLines]
    exact List.flatMap_congr fun e _ => e.block_written d style
  show (S.global.map (.written d style)).flatMap SheetEntry.block ++
    (writtenSections d style (!(S.globalLines d style).isEmpty) S.sections).flatMap
      SheetSection.block ++ S.trailingLines style = _
  rw [hglobal, hsections]
  rfl

/-! ## Faithfulness -/

/-- **An entry that can be written**: its key is within what the grammar can hold, what was captured
    still says what it said, and it has several values only where values are appended. -/
structure SheetEntry.Writable (d : Dialect) (e : SheetEntry) : Prop where
  kept : e.Kept d
  key : Key.Written d e.key
  single : 2 ≤ e.values.length → d.keyPolicy = .append

/-- The same for the name and the header of a section. -/
structure HeaderLine.Writable (d : Dialect) (name : Text) (header? : Option HeaderLine) : Prop where
  written : Name.Written name
  kept : ∀ line, header? = some line → line.Kept d name

/-- **A sheet that can be written**: names and keys are told apart, and all of it can be written. -/
structure Sheet.Writable (d : Dialect) (S : Sheet) : Prop where
  distinct : S.Distinct d
  all : S.All (SheetEntry.Writable d) (HeaderLine.Writable d)
  trailing : ∀ l ∈ S.trailing, Line.Quiet d l

namespace SheetEntry

variable {d : Dialect} {e : SheetEntry}

theorem fits_written (h : e.values ≠ []) (d : Dialect) (style : Style) : (e.written d style).Matches := by
  have hvalues : ((slots e.comment e.values e.lines).map (·.written d style e.key)).map
      EntryLine.value = e.values := by
    have hcomp : (EntryLine.value ∘ fun slot : Slot => slot.written d style e.key) = Slot.value :=
      funext fun slot => slot.value_written d style e.key
    rw [List.map_map, hcomp, map_value_slots]
  refine ⟨?_, hvalues.symm, ?_⟩
  · intro hnil
    refine h ?_
    rw [← hvalues, show (slots e.comment e.values e.lines).map (·.written d style e.key) = [] from hnil]
    rfl
  · show e.comment = ((slots e.comment e.values e.lines).map _).getLast?.bind EntryLine.comment
    have hcomp : (EntryLine.comment ∘ fun slot : Slot => slot.written d style e.key) = Slot.comment :=
      funext fun slot => slot.comment_written d style e.key
    rw [List.getLast?_map, Option.bind_map, hcomp, getLast?_slots _ _ h]

namespace Writable

/-- The lines written for an entry give values to its key. -/
theorem kept_lines (hd : d.Plain) (h : e.Writable d) (style : Style) :
    ∀ line ∈ (e.written d style).lines, line.Kept d e.key := by
  intro line hline
  obtain ⟨slot, hslot, rfl⟩ := List.mem_map.mp hline
  obtain ⟨hlines, hcomment⟩ := mem_slots hslot
  apply Slot.kept_written hd h.key (fun l hl => h.kept.lines l (hlines l hl))
  intro c hc
  rcases hcomment with hsame | hsame
  · exact h.kept.comment c (hsame.symm.trans hc)
  · obtain ⟨l, hl, hlc⟩ := Option.bind_eq_some_iff.mp (hsame.symm.trans hc)
    exact (h.kept.lines l (hlines l hl)).comment c hlc

/-- The first line written gives its value to the key that is captured for it. -/
theorem first (hd : d.Plain) (h : e.Writable d) (style : Style) :
    d.sameKey (e.written d style).key e.key = true ∧
      ∀ line, (e.written d style).lines.head? = some line →
        Line.Says d line.raw (.entry (e.written d style).key line.value line.comment) := by
  obtain ⟨line, rest, hlines⟩ :=
    List.exists_cons_of_ne_nil (fits_written h.kept.valued d style).captured
  have hline := h.kept_lines hd style line (by rw [hlines]; exact List.mem_cons_self)
  obtain ⟨key, hmeans, hsame⟩ := hline.meaning
  have hname : (e.written d style).key = key := by
    show (((e.written d style).lines.head?.map fun line => Line.keyOf d line.raw).getD e.key) = key
    rw [hlines]
    exact Line.keyOf_of_says hmeans
  rw [hname, hlines]
  refine ⟨hsame, ?_⟩
  intro l hl
  obtain rfl : line = l := Option.some.inj hl
  exact hmeans

/-- **The written entry is faithful.** -/
theorem faithful (hd : d.Plain) (h : e.Writable d) (style : Style) :
    (e.written d style).Faithful d := by
  have hfits := fits_written h.kept.valued d style
  obtain ⟨hsame, hfirst⟩ := h.first hd style
  refine ⟨hfits, fun line hline => ?_, hfirst, fun htwo => h.single ?_⟩
  · have hkept := h.kept_lines hd style line hline
    obtain ⟨k, hmeans, hk⟩ := hkept.meaning
    exact ⟨hkept.quiet, ⟨k, hmeans, Dialect.sameKey_trans hk (Dialect.sameKey_symm hsame)⟩,
      hkept.noFeed⟩
  · have hvalues := congrArg List.length hfits.values
    rw [List.length_map] at hvalues
    rw [← hvalues] at htwo
    exact htwo

end Writable
end SheetEntry

theorem quiet_separator (d : Dialect) (written : Bool) :
    ∀ l ∈ (if written then [[]] else [] : List Text), Line.Quiet d l := by
  intro l hl
  cases written with
  | false => exact absurd hl List.not_mem_nil
  | true => rw [List.mem_singleton.mp hl]; exact Line.quiet_nil d

/-- The header written for a section opens it. -/
theorem SheetSection.kept_headerWritten {d : Dialect} (hd : d.Plain) {s : SheetSection}
    (h : HeaderLine.Writable d s.name s.header?) (style : Style) (written : Bool) :
    (s.headerWritten style written).Kept d s.name := by
  have hfresh : ∀ (leading : List Text) (comment : Option Comment),
      (∀ l ∈ leading, Line.Quiet d l) → (∀ c, comment = some c → c.Written d) →
        (HeaderLine.mk leading (renderHeader s.name comment) comment).Kept d s.name :=
    fun _ _ hquiet hcomment =>
      ⟨hquiet, Line.says_renderHeader hd.notBracket h.written (hd.closesWith hcomment),
        lf_not_mem_renderHeader h.written (hd.closesWith hcomment)⟩
  have hblank := quiet_separator d written
  unfold headerWritten
  cases hheader : s.header? with
  | none => exact hfresh _ none hblank (by simp)
  | some line =>
    have hkept := h.kept line hheader
    cases style with
    | roundTrip => exact hkept
    | canonical =>
      refine hfresh _ line.comment (fun l hl => ?_) hkept.comment
      rcases List.mem_append.mp hl with hl | hl
      · exact hblank l hl
      · exact Line.quiet_standaloneComments hkept.quiet l hl

namespace Sheet

theorem mem_writtenSections {d : Dialect} {style : Style} {s' : SheetSection} :
    ∀ {ss : List SheetSection} {flag : Bool}, s' ∈ writtenSections d style flag ss →
      ∃ s ∈ ss, ∃ flag', s' = s.written d style flag'
  | [], _, h => absurd h List.not_mem_nil
  | s :: rest, flag, h => by
      rcases List.mem_cons.mp h with rfl | h
      · exact ⟨s, List.mem_cons_self, flag, rfl⟩
      · obtain ⟨t, ht, hsame⟩ := mem_writtenSections h
        exact ⟨t, List.mem_cons_of_mem _ ht, hsame⟩

theorem map_name_writtenSections (d : Dialect) (style : Style) : ∀ (ss : List SheetSection)
    (flag : Bool), (writtenSections d style flag ss).map SheetSection.name = ss.map SheetSection.name
  | [], _ => rfl
  | s :: rest, _ => congrArg (s.name :: ·) (map_name_writtenSections d style rest true)

/-- What can be said of every written entry and header can be said of the written sheet. -/
theorem All.written {P P' : SheetEntry → Prop} {Q Q' : Text → Option HeaderLine → Prop}
    {d : Dialect} {S : Sheet} (h : S.All P Q) (style : Style)
    (hP : ∀ e, P e → P' (e.written d style))
    (hQ : ∀ (s : SheetSection) (flag : Bool), Q s.name s.header? →
      Q' s.name (some (s.headerWritten style flag))) : (S.written d style).All P' Q' := by
  have hentries : ∀ es : List SheetEntry, (∀ e ∈ es, P e) →
      ∀ e' ∈ es.map (SheetEntry.written d style), P' e' := by
    intro es hes e' he'
    obtain ⟨e, he, rfl⟩ := List.mem_map.mp he'
    exact hP e (hes e he)
  constructor
  · exact hentries S.global h.global
  · intro s' hs'
    obtain ⟨s, hs, flag, rfl⟩ := mem_writtenSections hs'
    exact hentries s.entries (h.entries s hs)
  · intro s' hs'
    obtain ⟨s, hs, flag, rfl⟩ := mem_writtenSections hs'
    exact hQ s flag (h.headers s hs)

namespace Writable

variable {d : Dialect} {S : Sheet}

/-- Written keys are told apart as the keys are. -/
theorem distinctKeys_written (hd : d.Plain) {es : List SheetEntry} (hes : ∀ e ∈ es, e.Writable d)
    (style : Style) (h : d.DistinctKeys es) : d.DistinctKeys (es.map (.written d style)) := by
  have hfold : es.map ((fun e : SheetEntry => d.foldKey e.key) ∘ SheetEntry.written d style) =
      es.map fun e => d.foldKey e.key :=
    List.map_congr_left fun e he => Dialect.sameKey_iff.mp ((hes e he).first hd style).1
  rw [Dialect.DistinctKeys, List.map_map, hfold]
  exact h

theorem distinct_written (hd : d.Plain) (h : S.Writable d) (style : Style) :
    (S.written d style).Distinct d := by
  constructor
  · intro s' hs'
    obtain ⟨s, hs, flag, rfl⟩ := mem_writtenSections hs'
    exact h.distinct.named s hs
  · have hfold : ∀ ss : List SheetSection, ss.map (fun s => d.foldSection s.name) =
        (ss.map SheetSection.name).map d.foldSection := by
      intro ss
      rw [List.map_map]
      rfl
    rw [hfold]
    show ((writtenSections d style _ S.sections).map SheetSection.name |>.map d.foldSection).Nodup
    rw [map_name_writtenSections, ← hfold]
    exact h.distinct.sections
  · exact distinctKeys_written hd h.all.global style h.distinct.global
  · intro s' hs'
    obtain ⟨s, hs, flag, rfl⟩ := mem_writtenSections hs'
    exact distinctKeys_written hd (h.all.entries s hs) style (h.distinct.entries s hs)

/-- **What is written for a sheet is faithful.** -/
theorem faithful_written (hd : d.Plain) (h : S.Writable d) (style : Style) :
    (S.written d style).Faithful d := by
  refine ⟨h.distinct_written hd style, ?_, ?_⟩
  · exact h.all.written style (fun e he => he.faithful hd style) fun s flag hs =>
      ⟨_, rfl, SheetSection.kept_headerWritten hd hs style flag⟩
  · show ∀ l ∈ S.trailingLines style, Line.Quiet d l
    cases style with
    | roundTrip => exact h.trailing
    | canonical => exact Line.quiet_standaloneComments h.trailing

/-- **What is written for a sheet is read back.** -/
theorem reads (hd : d.Plain) (h : S.Writable d) (style : Style) :
    Reads d (S.lines d style)
      { S.written d style with trailing := [], finalNewline := true, bom := false }
      (S.trailingLines style) := by
  rw [← page_written]
  exact (h.faithful_written hd style).reads

end Writable
end Sheet
end IniFile
