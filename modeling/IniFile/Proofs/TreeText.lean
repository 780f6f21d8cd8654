/-
  The text of a tree, read again.

  Values are quoted wherever that is needed, but names go into the text as they are.  So the text of
  a tree reads back exactly if its names can be written, and not otherwise.

  1. **Appending** — a list of values comes back only where every value of a repeated key is kept.
     Nothing that is written depends on that, nor do the names that can be written.
  2. **Reading again** — the document of a tree is on a sheet that can be written, if its names can.
  3. **Counting keys** — reading gives every value of a sheet to its key by one line.
  4. **The mark** — so a first line that loses its first character to the reader is missed.
  5. **Trees** — both directions together.
-/
import IniFile.Proofs.Conservation
import IniFile.Proofs.Plans
import IniFile.Proofs.Reparse

namespace IniFile

/-! ## Appending -/

/-- The dialect in which every value of a repeated key is kept. -/
def Dialect.appending (d : Dialect) : Dialect := { d with keyPolicy := .append }

theorem Dialect.Plain.appending {d : Dialect} (h : d.Plain) : d.appending.Plain :=
  ⟨h.notBlank, h.notQuote, h.notBracket, h.notBom⟩

theorem Key.written_appending_iff {d : Dialect} {key : Text} :
    Key.Written d.appending key ↔ Key.Written d key :=
  ⟨fun h => ⟨h.nonempty, h.trimmed, h.noDelimiter, h.noFeed, h.start⟩,
    fun h => ⟨h.nonempty, h.trimmed, h.noDelimiter, h.noFeed, h.start⟩⟩

theorem Sheet.Distinct.appending {d : Dialect} {S : Sheet} (h : S.Distinct d) :
    S.Distinct d.appending :=
  ⟨h.named, h.sections, h.global, h.entries⟩

/-- What is written does not depend on what repeated keys mean. -/
theorem Document.render_sheet_appending (doc : Document) (r : Rendering) :
    doc.sheet.render doc.dialect.appending r = doc.render r :=
  (Document.render_eq { doc with dialect := doc.dialect.appending } r).symm

/-! ## Reading again -/

/-- **A sheet that is written without a mark** is read back as far as can be seen. -/
theorem Sheet.Writable.exists_parse_unmarked {d : Dialect} (hd : d.Plain) {S : Sheet}
    (h : S.Writable d) {e : LineEnding} (hhead : (S.render d ⟨.canonical, e⟩).head? ≠ some IniFile.bom) :
    ∃ again, parse d (S.render d ⟨.canonical, e⟩) = .ok ⟨again, []⟩ ∧ again.dialect = d ∧
      again.content = S.content := by
  have hreads := h.reads hd .canonical
  have hlines : Text.lines (Text.dropBom (S.render d ⟨.canonical, e⟩)) = S.lines d .canonical := by
    rw [Text.dropBom_of_head?_ne hhead]
    exact h.lines_join_canonical hd e
  rw [← hlines] at hreads
  obtain ⟨again, hparse, hdialect, hsheet⟩ := hreads.exists_parse
  obtain ⟨hsound, -⟩ := of_parse_eq_ok hparse
  refine ⟨again, hparse, hdialect, ?_⟩
  rw [← hsound.content_eq, hsheet, ← h.content_written_canonical hd]
  rfl

namespace Tree

variable {tree : Tree} {doc : Document}

/-- What can be written of a tree can be written as a whole. -/
theorem writable_of_toDocument (h : tree.toDocument = .ok doc)
    (hkeys : ∀ e ∈ doc.content.entries, Key.Written .standard e.key)
    (hnames : ∀ s ∈ doc.content.sections, Name.Written s.name) :
    doc.sheet.Writable Dialect.standard.appending := by
  obtain ⟨fields, -, hsound, hsheet, hdialect⟩ := becomes_of_toDocument h
  obtain ⟨hkept, htrailing⟩ := Sheet.all_ofFields (d := .standard)
    (Q := fun name header? => ∀ line, header? = some line → line.Kept Dialect.standard.appending name)
    (SheetEntry.edits_kept Dialect.standard.appending) SheetEntry.kept_fresh
    (fun _ _ hnone => absurd hnone nofun) fields
  rw [← hsheet] at hkept htrailing
  have hdistinct := hsound.distinct_sheet
  rw [hdialect] at hdistinct
  refine ⟨hdistinct.appending, ?_, fun l hl => ?_⟩
  · exact (hkept.and (hsound.all_of_content hkeys hnames)).mono
      (fun e ⟨hkept, hkey⟩ => ⟨hkept, Key.written_appending_iff.mpr hkey, fun _ => rfl⟩)
      fun _ _ ⟨hkept, hname⟩ => ⟨hname, hkept⟩
  · rw [htrailing] at hl
    exact absurd hl List.not_mem_nil

end Tree

/-! ## Counting keys -/

/-- The key that a line gives a value to. -/
def Content.keys : Content → List Text
  | .entry key _ _ => [key]
  | _ => []

/-- The key of every value on a sheet. -/
def Sheet.valueKeys (S : Sheet) : List Text :=
  S.collect (fun _ => []) fun _ e => e.values.map fun _ => e.key

/-- The keys of values are seen. -/
theorem Sheet.valueKeys_congr {S S' : Sheet} (h : S.content = S'.content) :
    S.valueKeys = S'.valueKeys := by
  have hseen : ∀ S : Sheet, S.valueKeys =
      S.content.entries.flatMap fun e => e.values.map fun _ => e.key := by
    intro S
    simp [valueKeys, collect, content, DocumentContent.entries, List.flatMap_assoc,
      List.flatMap_map]
  rw [hseen, hseen, h]

namespace Draft

variable {d : Dialect}

/-- A line that is accepted gives one more value to its key. -/
theorem valueKeys_accept (hpolicy : d.keyPolicy = .append) (hcase : d.caseSensitiveKeys = true)
    {D : Draft} (hD : D.sheet.Distinct d) {raw : Text} {content : Content}
    (h : (D.accept d raw content).2 = true) :
    ((D.accept d raw content).1.sheet.valueKeys).Perm (D.sheet.valueKeys ++ content.keys) := by
  have hsame : ∀ S : Sheet, S = D.sheet → S.valueKeys.Perm (D.sheet.valueKeys ++ []) := by
    rintro S rfl
    rw [List.append_nil]
  cases content with
  | blank => exact hsame _ rfl
  | comment c => exact hsame _ rfl
  | malformed fault => exact Bool.noConfusion h
  | header name comment =>
    show (D.acceptHeader d raw name comment).1.sheet.valueKeys.Perm _
    unfold acceptHeader
    cases D.sheet.hasSection d name with
    | false =>
      show (D.sheet.pushHeader name _).valueKeys.Perm _
      rw [Sheet.valueKeys, Sheet.collect_pushHeader]
      exact List.Perm.refl _
    | true =>
      cases d.sectionPolicy with
      | merge => exact hsame _ rfl
      | reject => exact hsame _ rfl
  | entry key value comment =>
    unfold accept acceptEntry at h ⊢
    cases htarget : D.target with
    | discard => rw [htarget] at h; exact Bool.noConfusion h
    | inSection name =>
      have hreject : (D.sheet.hasKey d name key && decide (d.keyPolicy = .reject)) = false := by
        rw [hpolicy]
        exact Bool.and_false _
      dsimp only
      rw [hreject]
      refine (Sheet.collect_putLine (q := fun _ => true) hD [key] rfl (fun _ => rfl)
        (fun _ _ _ => List.filter_true _) (fun _ e _ he => ?_) fun _ _ => rfl).trans ?_
      · have hkey : e.key = key := by
          have hfold := Dialect.sameKey_iff.mp he
          unfold Dialect.foldKey at hfold
          rwa [hcase, if_pos rfl, if_pos rfl] at hfold
        rw [hpolicy, List.filter_true]
        simp [SheetEntry.file, SheetEntry.store, SheetEntry.pushValue, hkey]
      · rw [List.filter_true]
        exact List.Perm.refl _

/-- **Every value has a line.** -/
theorem valueKeys_read (hpolicy : d.keyPolicy = .append) (hcase : d.caseSensitiveKeys = true)
    (ls : List Text) (h : (start.read d ls).2 = true) :
    ((start.read d ls).1.sheet.valueKeys).Perm ((Line.contents d ls).flatMap Content.keys) := by
  induction ls using List.reverseRecOn with
  | nil => exact List.Perm.nil
  | append_singleton ls raw ih =>
    rw [read_append] at h ⊢
    obtain ⟨hfront, hlast⟩ := Bool.and_eq_true_iff.mp h
    have haccepted : ((start.read d ls).1.accept d raw (Line.scan d raw).1).2 = true :=
      (Bool.and_eq_true_iff.mp hlast).1
    refine (valueKeys_accept hpolicy hcase (distinct_read d ls) haccepted).trans ?_
    rw [Line.contents_append, List.flatMap_append]
    refine (ih hfront).append ?_
    rw [Line.contents, List.map_singleton, List.flatMap_singleton]

end Draft

/-! ## The mark -/

/-- Trimming takes nothing but blanks away. -/
theorem Text.count_trim {c : Char} (hc : isBlank c = false) (t : Text) :
    (trim t).count c = t.count c := by
  have hblanks : ∀ bs : Text, (∀ b ∈ bs, isBlank b = true) → bs.count c = 0 := by
    intro bs hbs
    refine List.count_eq_zero.mpr fun hmem => ?_
    exact Bool.noConfusion (hc.symm.trans (hbs c hmem))
  obtain ⟨front, hstart, hfront⟩ := exists_eq_append_trimStart t
  obtain ⟨back, hend, hback⟩ := exists_eq_trimEnd_append (trimStart t)
  have hkept := congrArg (List.count c) hend
  have hall := congrArg (List.count c) hstart
  rw [List.count_append, hblanks back hback] at hkept
  rw [List.count_append, hblanks front hfront] at hall
  rw [trim]
  omega

/-- The key of an entry line stands before the first delimiter. -/
theorem Line.exists_key_of_says {d : Dialect} {raw key value : Text} {comment : Option Comment}
    (h : Line.Says d raw (.entry key value comment)) :
    ∃ before after, raw = before ++ d.delimiter.char :: after ∧ d.delimiter.char ∉ before ∧
      Text.trim before = key := by
  obtain ⟨m, rest, hbody, -, -, hentry⟩ := says_entry_iff.mp h
  obtain ⟨k, after, v, c, hsplit, hnot, -, -, hcontent⟩ := scanEntry_eq_ok hentry
  obtain ⟨rfl, rfl, rfl⟩ := Content.entry.injEq .. ▸ hcontent
  obtain ⟨bs, hraw, hbs⟩ := Text.exists_eq_append_trimStart raw
  refine ⟨bs ++ k, after, ?_, ?_, ?_⟩
  · rw [hraw, hbody, hsplit, List.append_assoc]
  · intro hmem
    rcases List.mem_append.mp hmem with hmem | hmem
    · exact Bool.noConfusion ((Delimiter.isBlank_char _).symm.trans (hbs _ hmem))
    · exact hnot hmem
  · rw [Text.trim, Text.trim, Text.trimStart, List.dropWhile_append_of_pos hbs]
    rfl

/-- A line says something else when its first character is a mark that is dropped. -/
theorem Line.keys_ne_of_mark {d : Dialect} {l key value : Text} {comment : Option Comment}
    (h : Line.Says d (bom :: l) (.entry key value comment)) :
    (Line.scan d l).1.keys ≠ [key] := by
  intro hkeys
  obtain ⟨before, after, hsplit, hnot, rfl⟩ := exists_key_of_says h
  have hblank : isBlank bom = false := by decide
  obtain ⟨value', comment', hscan⟩ : ∃ value' comment',
      (Line.scan d l).1 = .entry (Text.trim before) value' comment' := by
    cases hscan : (Line.scan d l).1 with
    | entry key' value' comment' =>
      rw [hscan] at hkeys
      exact ⟨value', comment', by rw [← (List.cons.inj hkeys).1]⟩
    | _ => rw [hscan] at hkeys; exact absurd hkeys nofun
  obtain ⟨before', after', hsplit', hnot', hkey⟩ :=
    exists_key_of_says (says_of_scan hscan (by simp))
  -- both keys stand before the same delimiter, and only the first has the mark in front
  have hmore : before = bom :: before' := by
    have hfirst : ∀ {t : Text}, d.delimiter.char ∉ t → ∀ c ∈ t, decide (c = d.delimiter.char) = false := by
      intro t ht c hc
      exact decide_eq_false fun hsame => ht (hsame ▸ hc)
    have hbom : d.delimiter.char ∉ bom :: before' := by
      intro hmem
      rcases List.mem_cons.mp hmem with hsame | hmem
      · revert hsame
        cases d.delimiter <;> decide
      · exact hnot' hmem
    have hcut := Text.cut_append (p := (· = d.delimiter.char)) (decide_eq_true rfl) after (hfirst hnot)
    rw [← hsplit, hsplit', ← List.cons_append,
      Text.cut_append (p := (· = d.delimiter.char)) (decide_eq_true rfl) after' (hfirst hbom)] at hcut
    exact (Prod.mk.inj (Option.some.inj hcut)).1.symm
  have hcount := Text.count_trim hblank before'
  rw [hkey, Text.count_trim hblank, hmore, List.count_cons_self] at hcount
  omega

/-- Where a text begins with a mark, its first line does. -/
theorem LineEnding.exists_of_head?_join {e : LineEnding} {ls : List Text}
    (h : (e.join true ls).head? = some bom) : ∃ l more, ls = (bom :: l) :: more := by
  have hfeed : '\n' ≠ bom ∧ '\r' ≠ bom := by decide
  cases ls with
  | nil => exact absurd h nofun
  | cons first more =>
    rw [join_cons_closed] at h
    cases first with
    | nil =>
      cases e with
      | lf => exact absurd (Option.some.inj h) hfeed.1
      | crlf => exact absurd (Option.some.inj h) hfeed.2
    | cons c l =>
      obtain rfl : c = bom := Option.some.inj h
      exact ⟨l, more, rfl⟩

namespace Sheet.Writable

variable {d : Dialect} {S : Sheet}

/-- Only the first line loses a mark. -/
theorem lines_render_of_mark (hd : d.Plain) (h : S.Writable d) (e : LineEnding) {l : Text}
    {more : List Text} (hlines : S.lines d .canonical = (IniFile.bom :: l) :: more) :
    Text.lines (Text.dropBom (S.render d ⟨.canonical, e⟩)) = l :: more := by
  have hfeed : ∀ m ∈ l :: more, '\n' ∉ m := by
    have hnoFeed := (h.faithful_written hd .canonical).noFeed
    rw [page_written, hlines] at hnoFeed
    obtain ⟨hfirst, hmore⟩ := List.forall_mem_cons.mp hnoFeed
    exact List.forall_mem_cons.mpr ⟨fun hmem => hfirst (List.mem_cons_of_mem _ hmem), hmore⟩
  have hreread : ∀ m ∈ l :: more, Text.reread e m = m := by
    have hends := h.trimEnd_lines hd
    rw [hlines] at hends
    obtain ⟨hfirst, hmore⟩ := List.forall_mem_cons.mp hends
    have hblank : isBlank IniFile.bom = false := by decide
    rw [Text.trimEnd, hblank, Bool.and_false, if_neg Bool.false_ne_true] at hfirst
    exact List.forall_mem_cons.mpr ⟨Text.reread_of_trimEnd (List.cons.inj hfirst).2 e,
      fun m hm => Text.reread_of_trimEnd (hmore m hm) e⟩
  show Text.lines (Text.dropBom (e.join true (S.lines d .canonical))) = _
  rw [hlines, LineEnding.join_cons_closed]
  show Text.lines (Text.dropBom (IniFile.bom :: (l ++ e.text ++ e.join true more))) = _
  rw [Text.dropBom, if_pos rfl, ← LineEnding.join_cons_closed, Text.lines_join_closed e hfeed,
    List.map_congr_left hreread, List.map_id']

/-- **What reads back the same was written without a mark** in front. -/
theorem head?_render_ne_bom (hd : d.Plain) (h : S.Writable d) (hpolicy : d.keyPolicy = .append)
    (hcase : d.caseSensitiveKeys = true) {e : LineEnding} {again : Document}
    (hparse : parse d (S.render d ⟨.canonical, e⟩) = .ok ⟨again, []⟩)
    (hsame : again.content = S.content) : (S.render d ⟨.canonical, e⟩).head? ≠ some IniFile.bom := by
  intro hhead
  obtain ⟨l, more, hlines⟩ := LineEnding.exists_of_head?_join hhead
  have hread := h.lines_render_of_mark hd e hlines
  -- a line that begins with the mark gives a value to a key
  obtain ⟨key, value, comment, hsays⟩ : ∃ key value comment,
      Line.Says d (IniFile.bom :: l) (.entry key value comment) := by
    have hmem : IniFile.bom :: l ∈ (S.written d .canonical).page ++ (S.written d .canonical).trailing := by
      rw [page_written, hlines]
      exact List.mem_cons_self
    have hfaithful := h.faithful_written hd .canonical
    obtain ⟨content, hsays⟩ := hfaithful.says _ hmem
    cases content with
    | entry key value comment => exact ⟨key, value, comment, hsays⟩
    | _ => exact absurd rfl (Line.head?_ne_bom hd hsays nofun)
  have hwritten : S.valueKeys.Perm ((Line.contents d (S.lines d .canonical)).flatMap Content.keys) := by
    have hreads := h.reads hd .canonical
    have hperm := Draft.valueKeys_read hpolicy hcase (S.lines d .canonical) (by rw [hreads])
    rw [hreads] at hperm
    rw [← valueKeys_congr (h.content_written_canonical hd)]
    exact hperm
  have hagain : S.valueKeys.Perm ((Line.contents d (l :: more)).flatMap Content.keys) := by
    obtain ⟨hsound, -, hsheet, haccepted⟩ := of_parse_eq_ok hparse
    have hperm := Draft.valueKeys_read hpolicy hcase (l :: more) (by rw [← hread]; exact haccepted rfl)
    have hcontent : S.content = (Draft.start.read d (l :: more)).1.sheet.content := by
      rw [← hsame, ← hsound.content_eq, hsheet, Draft.ofText, hread]
      rfl
    rw [valueKeys_congr hcontent]
    exact hperm
  -- but without the mark it does not give one to that key
  have hboth := hwritten.symm.trans hagain
  rw [hlines, Line.contents, Line.contents, List.map_cons, List.map_cons, List.flatMap_cons,
    List.flatMap_cons, List.perm_append_right_iff, Line.scan_of_says hsays] at hboth
  exact Line.keys_ne_of_mark hsays (List.perm_singleton.mp hboth.symm)

end Sheet.Writable

/-! ## Trees -/

/-- What holds of all that is on a sheet holds of all that is seen of it. -/
theorem Sheet.All.of_content {P : EntryContent → Prop} {N : Text → Prop} {S : Sheet}
    (h : S.All (fun e => P e.toEntryContent) fun name _ => N name) :
    (∀ e ∈ S.content.entries, P e) ∧ ∀ s ∈ S.content.sections, N s.name := by
  constructor
  · intro e he
    rcases List.mem_append.mp he with he | he
    · obtain ⟨kept, hkept, rfl⟩ := List.mem_map.mp he
      exact h.global kept hkept
    · obtain ⟨seen, hseen, he⟩ := List.mem_flatMap.mp he
      obtain ⟨s, hs, rfl⟩ := List.mem_map.mp hseen
      obtain ⟨kept, hkept, rfl⟩ := List.mem_map.mp he
      exact h.entries s hs kept hkept
  · intro seen hseen
    obtain ⟨s, hs, rfl⟩ := List.mem_map.mp hseen
    exact h.headers s hs

/-- **The names that are seen can be written**: every key at the beginning of an entry line, and every
    section name in a header. -/
structure DocumentContent.Written (d : Dialect) (content : DocumentContent) : Prop where
  keys : ∀ e ∈ content.entries, Key.Written d e.key
  names : ∀ s ∈ content.sections, Name.Written s.name

instance (d : Dialect) (content : DocumentContent) : Decidable (content.Written d) :=
  decidable_of_iff ((∀ e ∈ content.entries, Key.Written d e.key) ∧
      ∀ s ∈ content.sections, Name.Written s.name)
    ⟨fun ⟨hkeys, hnames⟩ => ⟨hkeys, hnames⟩, fun h => ⟨h.keys, h.names⟩⟩

/-- Whatever is read from a text can be written. -/
theorem Document.written_of_parse {d : Dialect} {text : Text} {p : Parsed} (h : parse d text = .ok p) :
    p.document.content.Written d := by
  have hall := (read_of_parse h).1.mono (fun _ he => he.written) fun _ _ hheader => hheader.written
  rw [← (of_parse_eq_ok h).1.content_eq]
  obtain ⟨hkeys, hnames⟩ := Sheet.All.of_content (P := fun e => Key.Written d e.key) hall
  exact ⟨hkeys, hnames⟩

/-- **The text of a tree reads back** as the document of the tree exactly if its names can be
    written and no mark stands in front.  Names go into the text as they are, and writing them does
    not fail: a key that holds a delimiter or a line feed reads as another key, or as a section. -/
theorem toText_reads_back_iff {tree : Tree} {doc : Document} {text : Text}
    (hdoc : tree.toDocument = .ok doc) (htext : tree.toText = .ok text) :
    (∃ again, parse Dialect.standard.appending text = .ok ⟨again, []⟩ ∧ again.content = doc.content) ↔
      doc.content.Written .standard ∧ text.head? ≠ some bom := by
  have hplain := Dialect.plain_standard.appending
  obtain ⟨fields, -, hsound, -, hdialect⟩ := Tree.becomes_of_toDocument hdoc
  have hrender := doc.render_sheet_appending ⟨.canonical, .lf⟩
  rw [hdialect] at hrender
  rw [Tree.toText, hdoc] at htext
  obtain rfl := hrender.trans (Except.ok.inj htext)
  constructor
  · rintro ⟨again, hparse, hsame⟩
    have hwritten := Document.written_of_parse hparse
    rw [hsame] at hwritten
    have hstandard : doc.content.Written .standard :=
      ⟨fun e he => Key.written_appending_iff.mp (hwritten.keys e he), hwritten.names⟩
    have hwritable := Tree.writable_of_toDocument hdoc hstandard.keys hstandard.names
    refine ⟨hstandard, hwritable.head?_render_ne_bom hplain rfl rfl hparse ?_⟩
    rw [hsame, hsound.content_eq]
  · rintro ⟨hwritten, hhead⟩
    have hwritable := Tree.writable_of_toDocument hdoc hwritten.keys hwritten.names
    obtain ⟨again, hparse, -, hsame⟩ := hwritable.exists_parse_unmarked hplain hhead
    exact ⟨again, hparse, by rw [hsame, hsound.content_eq]⟩

/-- A map with a list and a section, whose values have to be quoted. -/
theorem toText_reads_back_iff_sample :
    ∃ tree doc text again,
      tree = Tree.map [(.text ['a'], .seq [.text "1=2".toList, .text "; \n[s]".toList]),
        (.text ['s'], .map [(.char 'b', .bool true)])] ∧
      tree.toDocument = .ok doc ∧ tree.toText = .ok text ∧
        parse Dialect.standard.appending text = .ok ⟨again, []⟩ ∧ again.content = doc.content := by
  obtain ⟨tree, htree⟩ : ∃ tree, tree =
      Tree.map [(.text ['a'], .seq [.text "1=2".toList, .text "; \n[s]".toList]),
        (.text ['s'], .map [(.char 'b', .bool true)])] := ⟨_, rfl⟩
  have hany : tree.toDocument.toOption.any (fun doc => decide (doc.content.Written .standard ∧
      (doc.render ⟨.canonical, .lf⟩).head? ≠ some bom)) = true := by
    rw [htree]
    decide +kernel
  obtain ⟨doc, hdoc, hholds⟩ := Except.exists_ok_of_any hany
  have htext : tree.toText = .ok (doc.render ⟨.canonical, .lf⟩) := by rw [Tree.toText, hdoc]; rfl
  obtain ⟨again, hparse, hsame⟩ := (toText_reads_back_iff hdoc htext).mpr (of_decide_eq_true hholds)
  exact ⟨tree, doc, _, again, htree, hdoc, htext, hparse, hsame⟩

/-- A key with a line feed in it is written all the same, and reads as another key and a section. -/
theorem key_read_as_section :
    ∃ tree doc text p, tree = Tree.map [(.text "a=1\n[s]\nb".toList, .text ['c'])] ∧
      tree.toDocument = .ok doc ∧ tree.toText = .ok text ∧
        parse Dialect.standard.appending text = .ok p ∧ p.document.content ≠ doc.content ∧
          doc.content.sections = [] ∧ p.document.content.sections.map SectionContent.name = [['s']] := by
  obtain ⟨tree, htree⟩ : ∃ tree, tree = Tree.map [(.text "a=1\n[s]\nb".toList, .text ['c'])] :=
    ⟨_, rfl⟩
  have hany : tree.toDocument.toOption.any (fun doc =>
      (parse Dialect.standard.appending (doc.render ⟨.canonical, .lf⟩)).toOption.any fun p =>
        decide (p.document.content ≠ doc.content ∧ doc.content.sections = [] ∧
          p.document.content.sections.map SectionContent.name = [['s']])) = true := by
    rw [htree]
    decide +kernel
  obtain ⟨doc, hdoc, hread⟩ := Except.exists_ok_of_any hany
  obtain ⟨p, hparse, hholds⟩ := Except.exists_ok_of_any hread
  have htext : tree.toText = .ok (doc.render ⟨.canonical, .lf⟩) := by rw [Tree.toText, hdoc]; rfl
  exact ⟨tree, doc, _, p, htree, hdoc, htext, hparse, of_decide_eq_true hholds⟩

end IniFile
