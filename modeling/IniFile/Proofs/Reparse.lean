/-
  Rendering and reading again gives the same model.

  What is written is the page of a faithful sheet, so read line by line it gives that sheet.  The
  text is not quite that page: line endings may take a carriage return off a line, and an empty last
  line without an ending is no line at all.  Neither changes what the lines SAY, and what is seen
  depends on nothing else.

  1. **Contents** — keys up to folding, which is how round-trip output keeps them.
  2. **Lines of a text** — they say what the lines joined in it say.
  3. **Reading again** — over every history, in both styles and with both line endings.
  4. **With counters in words** — as long as none overflows, and what happens otherwise.
-/
import IniFile.Proofs.Canonical
import IniFile.Proofs.Outline
import IniFile.Proofs.WrapAround

namespace IniFile

/-! ## Contents -/

/-- The entry under another form of its key. -/
def EntryContent.mapKey (f : Text → Text) (e : EntryContent) : EntryContent := { e with key := f e.key }

/-- The section with other forms of its keys. -/
def SectionContent.mapKeys (f : Text → Text) (s : SectionContent) : SectionContent :=
  { s with entries := s.entries.map (.mapKey f) }

/-- What is seen of a document, with other forms of its keys. -/
def DocumentContent.mapKeys (f : Text → Text) (c : DocumentContent) : DocumentContent :=
  ⟨c.global.mapKeys f, c.sections.map (.mapKeys f)⟩

namespace Sheet

variable {d : Dialect} {S : Sheet}

/-- If entries show alike when written, sections do. -/
theorem content_written_of (style : Style) {f : Text → Text}
    (h : S.All (fun e => (e.written d style).toEntryContent.mapKey f = e.toEntryContent.mapKey f)
      fun _ _ => True) : (S.written d style).content.mapKeys f = S.content.mapKeys f := by
  have hentries : ∀ es : List SheetEntry,
      (∀ e ∈ es, (e.written d style).toEntryContent.mapKey f = e.toEntryContent.mapKey f) →
      ((es.map (SheetEntry.written d style)).map SheetEntry.toEntryContent).map (.mapKey f) =
        (es.map SheetEntry.toEntryContent).map (EntryContent.mapKey f) := by
    intro es hes
    rw [List.map_map, List.map_map, List.map_map]
    exact List.map_congr_left hes
  have hsections : ∀ (ss : List SheetSection) (flag : Bool), (∀ s ∈ ss, s ∈ S.sections) →
      ((writtenSections d style flag ss).map fun s => SectionContent.mapKeys f
          ⟨s.name, s.entries.map SheetEntry.toEntryContent⟩) =
        ss.map fun s => SectionContent.mapKeys f ⟨s.name, s.entries.map SheetEntry.toEntryContent⟩ := by
    intro ss
    induction ss with
    | nil =>
      intro _ _
      rfl
    | cons s rest ih =>
      intro flag hss
      rw [writtenSections, List.map_cons, List.map_cons,
        ih true fun t ht => hss t (List.mem_cons_of_mem _ ht)]
      refine congrArg (· :: _) (congrArg (SectionContent.mk s.name) ?_)
      exact hentries s.entries (h.entries s (hss s List.mem_cons_self))
  show DocumentContent.mk (SectionContent.mk [] _) _ = DocumentContent.mk (SectionContent.mk [] _) _
  refine congrArg₂ DocumentContent.mk (congrArg (SectionContent.mk []) ?_) ?_
  · exact hentries S.global h.global
  · show ((writtenSections d style _ S.sections).map _).map _ = (S.sections.map _).map _
    rw [List.map_map, List.map_map]
    exact hsections S.sections _ fun s hs => hs

/-- What is written shows the same, up to the folding of keys. -/
theorem Writable.content_written (hd : d.Plain) (h : S.Writable d) (style : Style) :
    (S.written d style).content.mapKeys d.foldKey = S.content.mapKeys d.foldKey := by
  refine content_written_of style (h.all.mono ?_ fun _ _ _ => trivial)
  intro e he
  have hsame := Dialect.sameKey_iff.mp (he.first hd style).1
  exact congrArg (EntryContent.mk · e.values e.comment) hsame

/-- What is written canonically shows the same. -/
theorem Writable.content_written_canonical (hd : d.Plain) (h : S.Writable d) :
    (S.written d .canonical).content = S.content := by
  have hid : ∀ c : DocumentContent, c.mapKeys id = c := by
    intro c
    have hentry : (EntryContent.mapKey id) = id := rfl
    have hsection : (SectionContent.mapKeys id) = id := funext fun s => by
      rw [SectionContent.mapKeys, hentry, List.map_id]
      rfl
    rw [DocumentContent.mapKeys, hsection, List.map_id]
    rfl
  rw [← hid (S.written d .canonical).content, ← hid S.content]
  refine content_written_of .canonical (h.all.mono ?_ fun _ _ _ => trivial)
  intro e he
  exact congrArg (EntryContent.mk · e.values e.comment) (he.key_written_canonical hd)

/-! ## Lines of a text -/

/-- No line of a faithful sheet is malformed. -/
theorem Faithful.says (h : S.Faithful d) :
    ∀ l ∈ S.page ++ S.trailing, ∃ content, Line.Says d l content := by
  have hquiet : ∀ l, Line.Quiet d l → ∃ content, Line.Says d l content := by
    rintro l ⟨hblank | ⟨c, hcomment⟩, -⟩
    · exact ⟨_, hblank⟩
    · exact ⟨_, hcomment⟩
  have hall : S.All (fun _ => True) fun _ _ => True :=
    Sheet.all_of_forall (fun _ => trivial) fun _ _ => trivial
  refine h.forall_lines hall hquiet ?_ fun _ _ hkept => ⟨_, hkept.meaning⟩
  intro e line _ hkept
  obtain ⟨key, hmeans, -⟩ := hkept.meaning
  exact ⟨_, hmeans⟩

end Sheet

/-- A carriage return that goes with a line ending changes nothing of what the line means. -/
theorem Line.scan_dropReturn {d : Dialect} (hd : d.Plain) {l : Text}
    (h : ∃ content, Line.Says d l content) :
    (Line.scan d (Text.dropReturn l)).1 = (Line.scan d l).1 := by
  obtain ⟨content, hmeans⟩ := h
  rw [Line.scan_of_says hmeans, Line.scan_of_says (Line.says_dropReturn hd hmeans)]

theorem Line.contents_reread {d : Dialect} (hd : d.Plain) (e : LineEnding) {ls : List Text}
    (h : ∀ l ∈ ls, ∃ content, Line.Says d l content) :
    Line.contents d (ls.map (Text.reread e)) = Line.contents d ls := by
  rw [Line.contents, List.map_map]
  apply List.map_congr_left
  intro l hl
  show (Line.scan d (Text.reread e l)).1 = _
  rcases Text.eq_reread_or e l with hsame | hdrop
  · rw [hsame]
  · rw [hdrop, Line.scan_dropReturn hd (h l hl)]

/-- **The lines of a joined text say what was joined**: they read to the same outline. -/
theorem Outline.read_lines_join {d : Dialect} (hd : d.Plain) (o : Outline) (e : LineEnding)
    (closed : Bool) {ls : List Text} (hfeed : ∀ l ∈ ls, '\n' ∉ l)
    (h : ∀ l ∈ ls, ∃ content, Line.Says d l content) :
    o.read d (Line.contents d (Text.lines (e.join closed ls))) = o.read d (Line.contents d ls) := by
  cases closed with
  | true => rw [Text.lines_join_closed e hfeed, Line.contents_reread hd e h]
  | false =>
    rcases List.eq_nil_or_concat ls with rfl | ⟨init, last, rfl⟩
    · rfl
    · rw [List.concat_eq_append] at hfeed h ⊢
      have hlast : last ∈ init ++ [last] := List.mem_append_right _ (List.mem_singleton_self last)
      have hinit : ∀ l ∈ init, l ∈ init ++ [last] := by
        intro l hl
        exact List.mem_append_left _ hl
      -- the ending of the last line is missing, so that line keeps to itself
      rw [Text.lines_join_open e (fun l hl => hfeed l (hinit l hl)) (hfeed last hlast),
        Line.contents_append, Line.contents_reread hd e fun l hl => h l (hinit l hl),
        Line.contents_append]
      by_cases hempty : last = []
      · -- an empty last line is not there in the text
        rw [hempty, if_pos rfl]
        show _ = o.read d (Line.contents d init ++ [.blank])
        rw [Outline.read_concat_blank]
        show o.read d (_ ++ []) = _
        rw [List.append_nil]
      · rw [if_neg hempty]
        show o.read d (_ ++ [(Line.scan d (Text.dropReturn last)).1]) = _
        rw [Line.scan_dropReturn hd (h last hlast)]
        rfl

/-! ## Reading again -/

/-- The mark of a sheet is dropped when its text is read, and nothing else is. -/
theorem Sheet.Writable.dropBom_render {d : Dialect} (hd : d.Plain) {S : Sheet} (h : S.Writable d)
    (hbom : S.All (fun e => e.key.head? ≠ some IniFile.bom) fun _ _ => True) (r : Rendering) :
    Text.dropBom (S.render d r) = r.ending.join (S.isClosed r.style) (S.lines d r.style) := by
  have hjoin := LineEnding.dropBom_join r.ending (S.isClosed r.style) (h.head?_lines hd hbom r.style)
  have hmark : S.mark r.style = [] ∨ S.mark r.style = [IniFile.bom] := by
    unfold mark
    cases r.style with
    | canonical => exact Or.inl rfl
    | roundTrip => cases S.bom <;> simp
  rw [Sheet.render]
  rcases hmark with hnone | hsome
  · rw [hnone, List.nil_append, hjoin]
  · rw [hsome]
    show Text.dropBom (IniFile.bom :: r.ending.join _ _) = _
    rw [Text.dropBom, if_pos rfl]

/-- **A sheet that is written is read back** as far as can be seen, in either style and with either
    line ending. -/
theorem Sheet.Writable.exists_parse {d : Dialect} (hd : d.Plain) {S : Sheet} (h : S.Writable d)
    (hbom : S.All (fun e => e.key.head? ≠ some IniFile.bom) fun _ _ => True) (r : Rendering) :
    ∃ again, parse d (S.render d r) = .ok ⟨again, []⟩ ∧
      again.content = (S.written d r.style).content := by
  have hfaithful := h.faithful_written hd r.style
  have hpage := page_written d r.style S
  have hreads : Reads d _ _ _ := h.reads hd r.style
  have hlines := Outline.read_lines_join hd Draft.start.outline r.ending (S.isClosed r.style)
    (hpage ▸ hfaithful.noFeed) (hpage ▸ hfaithful.says)
  -- lines that say the same are read to the same outline, and that is all there is to see
  rw [← h.dropBom_render hd hbom r, ← Draft.outline_read, ← Draft.outline_read, hreads] at hlines
  obtain ⟨houtline, haccepted⟩ := Prod.mk.inj hlines
  obtain ⟨again, hparse⟩ := exists_parse_eq_ok (d := d) haccepted
  obtain ⟨hsound, -, hsheet, -⟩ := of_parse_eq_ok hparse
  refine ⟨again, hparse, ?_⟩
  rw [← hsound.content_eq, show again.sheet = _ from hsheet]
  exact congrArg Outline.content houtline

/-- A document of any origin and history is read back as far as can be seen. -/
theorem Document.Origin.exists_parse_render {d : Dialect} {doc : Document} {steps : List Step}
    (horigin : doc.Origin d) (hd : d.Plain)
    (hkeys : ∀ e ∈ (doc.after steps).content.entries, Key.Written d e.key ∧ e.key.head? ≠ some bom)
    (hnames : ∀ s ∈ (doc.after steps).content.sections, Name.Written s.name)
    (hcomments : ∀ step ∈ steps, ∀ c ∈ step.comments, c.Written d)
    (hsingle : (doc.after steps).SingleValued) (r : Rendering) :
    ∃ again, parse (doc.after steps).dialect ((doc.after steps).render r) = .ok ⟨again, []⟩ ∧
      again.content.mapKeys d.foldKey = (doc.after steps).content.mapKeys d.foldKey ∧
      (r.style = .canonical → again.content = (doc.after steps).content) := by
  obtain ⟨hsound, hdialect, -⟩ := horigin.after steps
  have hall := hsound.all_of_content hkeys hnames
  have hwritable := horigin.writable_after hcomments
    (hall.mono (fun _ he => he.1) fun _ _ hname => hname) hsingle
  have hbom : (doc.after steps).sheet.All (fun e => e.key.head? ≠ some bom) fun _ _ => True :=
    hall.mono (fun _ he => he.2) fun _ _ _ => trivial
  obtain ⟨again, hparse, hcontent⟩ := hwritable.exists_parse hd hbom r
  rw [Document.render_eq, hdialect]
  refine ⟨again, hparse, ?_, fun hstyle => ?_⟩
  · rw [hcontent, hwritable.content_written hd r.style, hsound.content_eq]
  · rw [hcontent, hstyle, hwritable.content_written_canonical hd, hsound.content_eq]

/-! ## With counters in words -/

/-- Other forms of keys leave as many of them. -/
theorem DocumentContent.sizes_mapKeys (f : Text → Text) (content : DocumentContent) :
    (content.mapKeys f).sizes = content.sizes := by
  have hsize : ∀ s : SectionContent, (s.mapKeys f).entries.length = s.entries.length := fun s =>
    List.length_map _
  show ((content.global.mapKeys f).entries.length, (content.sections.map _).map _) = _
  rw [List.map_map, hsize]
  exact congrArg _ (List.map_congr_left fun s _ => hsize s)

/-- **Rendering and reading again gives the same model.**  However a document came about, as long as
    no counter overflowed: its text in either style and with either line ending reads without a
    diagnostic, and shows the same sections, keys, values and comments — with keys up to their
    folding, and exactly if the style is canonical.  Programs do not differ in any of this, whatever
    they do on overflow. -/
theorem parse_render_content {d : Dialect} {doc last : Document} {steps : List Step} (hd : d.Plain)
    (horigin : doc.OriginInWords .stops d) (hlast : doc.afterInWords .stops steps = some last)
    (hkeys : ∀ e ∈ last.content.entries, Key.Written d e.key ∧ e.key.head? ≠ some bom)
    (hnames : ∀ s ∈ last.content.sections, Name.Written s.name)
    (hcomments : ∀ step ∈ steps, ∀ c ∈ step.comments, c.Written d)
    (hsingle : last.SingleValued) (r : Rendering) (o : Overflow) :
    (doc.OriginInWords o d ∧ doc.afterInWords o steps = some last) ∧
      ∃ again, parseInWords o last.dialect (last.render r) = some (.ok ⟨again, []⟩) ∧
        again.content.mapKeys d.foldKey = last.content.mapKeys d.foldKey ∧
        (r.style = .canonical → again.content = last.content) := by
  obtain ⟨hplain, hstart⟩ := horigin.of_stops
  have hbelow := Document.below_afterInWords horigin.below hlast
  obtain ⟨rfl, hevery⟩ := Document.afterInWords_of_stops hlast
  obtain ⟨again, hparse, hsame, hcanonical⟩ :=
    hplain.exists_parse_render hd hkeys hnames hcomments hsingle r
  have hsizes : again.content.sizes = (doc.after steps).content.sizes := by
    rw [← DocumentContent.sizes_mapKeys d.foldKey, hsame, DocumentContent.sizes_mapKeys]
  refine ⟨⟨hstart o, hevery o⟩, again, ?_, hsame, hcanonical⟩
  exact parseInWords_of_sizes hparse (hplain.after steps).1 hbelow hsizes o

/-- A document that was built up from nothing, with a value that has to be quoted. -/
theorem parse_render_content_sample :
    ∃ last again, (Document.empty .standard).afterInWords .wraps
        [.edit (.set ['s'] ['a'] "; 1\n".toList),
          .edit (.inSection ['s'] (.setComment ['a'] (some (.of '#' ['c']))))] = some last ∧
      parseInWords .wraps last.dialect (last.render ⟨.roundTrip, .crlf⟩) = some (.ok ⟨again, []⟩) ∧
        again.content.mapKeys Dialect.standard.foldKey =
          last.content.mapKeys Dialect.standard.foldKey := by
  have hread : ((Document.empty .standard).afterInWords .stops
      [.edit (.set ['s'] ['a'] "; 1\n".toList),
        .edit (.inSection ['s'] (.setComment ['a'] (some (.of '#' ['c']))))]).any (fun last =>
      decide (∀ e ∈ last.content.entries, Key.Written .standard e.key ∧ e.key.head? ≠ some bom) &&
        (decide (∀ s ∈ last.content.sections, Name.Written s.name) && decide last.SingleValued)) =
      true := by
    decide +kernel
  obtain ⟨last, hlast, htest⟩ := (Option.any_eq_true _ _).mp hread
  obtain ⟨hkeys, htest⟩ := Bool.and_eq_true_iff.mp htest
  obtain ⟨hnames, hsingle⟩ := Bool.and_eq_true_iff.mp htest
  obtain ⟨⟨-, hwraps⟩, again, hparse, hsame, -⟩ := parse_render_content (by decide +kernel) .empty hlast
    (of_decide_eq_true hkeys) (of_decide_eq_true hnames) (by decide +kernel)
    (of_decide_eq_true hsingle) ⟨.roundTrip, .crlf⟩ .wraps
  exact ⟨last, again, hwraps, hparse, hsame⟩

/-- Where values are overwritten, only the last of several values is read back.  And where a counter
    has wrapped around, a new entry can have the number of one that was read, and be written with the
    line of that one: of the keys `a` and `y` only `a` is read back. -/
theorem content_not_read_back :
    (∃ last again, (Document.empty .standard).afterInWords .stops
        [.edit (.set [] ['a'] ['1']), .edit (.inSection [] (.append ['a'] ['2']))] = some last ∧
      parseInWords .stops last.dialect (last.render ⟨.canonical, .lf⟩) = some (.ok again) ∧
        last.content.entries.map EntryContent.values = [[['1'], ['2']]] ∧
        again.document.content.entries.map EntryContent.values = [[['2']]]) ∧
      ∃ p last again, parseInWords .wraps .standard "a=1\n".toList = some (.ok p) ∧
        p.document.afterInWords .wraps
          (Step.churn ['x'] 4294967295 ++ [.edit (.set [] ['y'] ['1'])]) = some last ∧
        last.render ⟨.roundTrip, .lf⟩ = "a=1\na=1\n".toList ∧
        parseInWords .wraps last.dialect (last.render ⟨.roundTrip, .lf⟩) = some (.ok again) ∧
        (∀ e ∈ last.content.entries, Key.Written .standard e.key ∧ e.key.head? ≠ some bom) ∧
        last.SingleValued ∧ last.content.entries.map EntryContent.key = [['a'], ['y']] ∧
        again.document.content.entries.map EntryContent.key = [['a']] := by
  constructor
  · have hread : ((Document.empty .standard).afterInWords .stops
        [.edit (.set [] ['a'] ['1']), .edit (.inSection [] (.append ['a'] ['2']))]).any (fun last =>
        (parseInWords .stops last.dialect (last.render ⟨.canonical, .lf⟩)).any fun read =>
          read.toOption.any fun again =>
            last.content.entries.map EntryContent.values == [[['1'], ['2']]] &&
              again.document.content.entries.map EntryContent.values == [[['2']]]) = true := by
      decide +kernel
    obtain ⟨last, hlast, hagain⟩ := (Option.any_eq_true _ _).mp hread
    obtain ⟨again, hparse, htest⟩ := exists_parseInWords_of_any hagain
    obtain ⟨hvalues, hrest⟩ := Bool.and_eq_true_iff.mp htest
    exact ⟨last, again, hlast, hparse, eq_of_beq hvalues, eq_of_beq hrest⟩
  · have hread : (parseInWords .wraps .standard "a=1\n".toList).any (fun read =>
        read.toOption.any fun p =>
          (!p.document.global.contains ['x'] && p.document.global.nextEntry + 4294967295 == UInt32.size) &&
            ((p.document.renumbered 0).afterInWords .wraps [.edit (.set [] ['y'] ['1'])]).any fun last =>
              (parseInWords .wraps last.dialect (last.render ⟨.roundTrip, .lf⟩)).any fun read =>
                read.toOption.any fun again =>
                  (last.render ⟨.roundTrip, .lf⟩ == "a=1\na=1\n".toList &&
                    (decide (∀ e ∈ last.content.entries,
                      Key.Written .standard e.key ∧ e.key.head? ≠ some bom) &&
                        decide last.SingleValued)) &&
                    (last.content.entries.map EntryContent.key == [['a'], ['y']] &&
                      again.document.content.entries.map EntryContent.key == [['a']])) = true := by
      decide +kernel
    obtain ⟨p, last, hp, hlast, hagain⟩ := exists_around hread
    obtain ⟨again, hparse, htest⟩ := exists_parseInWords_of_any hagain
    obtain ⟨hwritten, hread⟩ := Bool.and_eq_true_iff.mp htest
    obtain ⟨hrender, hallowed⟩ := Bool.and_eq_true_iff.mp hwritten
    obtain ⟨hkeys, hsingle⟩ := Bool.and_eq_true_iff.mp hallowed
    obtain ⟨hboth, hone⟩ := Bool.and_eq_true_iff.mp hread
    exact ⟨p, last, again, hp, hlast, eq_of_beq hrender, hparse, of_decide_eq_true hkeys,
      of_decide_eq_true hsingle, eq_of_beq hboth, eq_of_beq hone⟩

end IniFile
