/-
  The policies for what is repeated.

  Reading goes from line to line and only knows the document made so far.  What comes of it is the
  document put together from groups of lines, and a line is refused for what stands above it.

  1. **Documents in groups** — their sections and keys.
  2. **Outlines** — one more line changes the outline of the lines above it into its own.
  3. **Readers** — after any lines, a reader has their outline and has noted their refusals.
  4. **Texts.**
-/
import IniFile.Proofs.Grouping
import IniFile.Proofs.Modes

namespace IniFile

/-! ## Documents in groups -/

namespace Dialect

variable {d : Dialect} {contents : List Content} {content : Content}

/-- There is a section for each name that a header has. -/
theorem hasSection_grouped (contents : List Content) (name : Text) :
    (d.grouped contents).hasSection d name = (name.isEmpty || d.isSeen contents name) := by
  rw [DocumentContent.hasSection, grouped, List.any_map, isSeen]
  exact congrArg (name.isEmpty || ·)
    (any_firsts d.foldSection (d.foldSection name) (headerNames contents))

/-- A section has the keys of its lines. -/
theorem hasKey_grouped {name : Text} (hname : name = [] ∨ d.isSeen contents name = true)
    (key : Text) :
    (d.grouped contents).hasKey d name key =
      (d.linesOf contents name).any fun l => d.sameKey l.key key := by
  by_cases hempty : name = []
  · rw [hempty]
    exact any_entriesOf key _
  · rw [DocumentContent.hasKey, List.isEmpty_eq_false_iff.mpr hempty, if_neg Bool.false_ne_true,
      Bool.eq_iff_iff, List.any_eq_true]
    constructor
    · rintro ⟨s, hs, hboth⟩
      obtain ⟨hsame, hkey⟩ := Bool.and_eq_true_iff.mp hboth
      obtain ⟨n, -, rfl⟩ := List.mem_map.mp hs
      rw [← linesOf_congr hsame, ← any_entriesOf]
      exact hkey
    · intro hkey
      have hseen := hname.resolve_left hempty
      rw [isSeen, show (headerNames contents).any (d.sameSection · name) = _ from
        (any_firsts d.foldSection (d.foldSection name) (headerNames contents)).symm] at hseen
      obtain ⟨n, hn, hsame⟩ := List.any_eq_true.mp hseen
      refine ⟨_, List.mem_map_of_mem hn, Bool.and_eq_true_iff.mpr ⟨hsame, ?_⟩⟩
      rw [any_entriesOf, linesOf_congr hsame]
      exact hkey

/-- A line that is neither a header nor a key line of a section changes nothing. -/
theorem grouped_concat_of_none (hheader : content.headerName? = none)
    (hline : d.keyLine? contents content = none) :
    d.grouped (contents ++ [content]) = d.grouped contents := by
  rw [grouped, headerNames, headers_concat_of_none hheader, ← headerNames, grouped,
    linesOf_concat_of_eq_none hline]
  simp only [linesOf_concat_of_eq_none hline]

/-- A new header makes a section without entries; others make none. -/
theorem grouped_concat_header {name : Text} (hname : name ≠ []) (comment : Option Comment) :
    d.grouped (contents ++ [.header name comment]) =
      if d.isSeen contents name then d.grouped contents
      else { d.grouped contents with
        sections := (d.grouped contents).sections ++ [⟨name, []⟩] } := by
  have hlines : ∀ other, d.linesOf (contents ++ [.header name comment]) other =
      d.linesOf contents other := fun other => linesOf_concat_of_eq_none rfl other
  have hnames : firsts d.foldSection (headerNames (contents ++ [.header name comment])) =
      if d.isSeen contents name then firsts d.foldSection (headerNames contents)
      else firsts d.foldSection (headerNames contents) ++ [name] := by
    rw [headerNames_concat]
    exact firsts_concat d.foldSection _ name
  rw [grouped, hnames]
  simp only [hlines]
  cases hseen : d.isSeen contents name with
  | true => rfl
  | false =>
    rw [if_neg Bool.false_ne_true, if_neg Bool.false_ne_true, List.map_append, List.map_singleton,
      linesOf_eq_nil hname hseen]
    rfl

/-- Putting a value changes the entries of the sections that count as the one named. -/
theorem putValue_of_entries {names : List Text} {name : Text} (hnames : ∀ other ∈ names, other ≠ [])
    (hname : name = [] ∨ names.any (d.sameSection · name) = true) (key value : Text)
    (comment : Option Comment) {entries next : Text → List EntryContent}
    (hnext : ∀ other, next other =
      if d.sameSection name other then d.putValue key value comment (entries other)
      else entries other) :
    DocumentContent.putValue d name key value comment
        ⟨⟨[], entries []⟩, names.map fun other => ⟨other, entries other⟩⟩ =
      ⟨⟨[], next []⟩, names.map fun other => ⟨other, next other⟩⟩ := by
  rw [DocumentContent.putValue]
  by_cases hempty : name = []
  · -- the global section goes on, and no other one counts as it
    have hother : ∀ other ∈ names, next other = entries other := by
      intro other hmem
      rw [hnext, hempty, if_neg]
      rw [sameSection_comm]
      exact fun hsame => hnames other hmem (sameSection_nil_iff.mp hsame)
    have hglobal : next [] = d.putValue key value comment (entries []) := by
      rw [hnext, hempty, if_pos (d.sameSection_refl [])]
    rw [hempty, List.isEmpty_nil, if_pos rfl, hglobal,
      List.map_congr_left fun other hmem => congrArg (SectionContent.mk other) (hother other hmem)]
  · -- the sections that count as the one named go on, and there is one
    have hglobal : next [] = entries [] := by
      rw [hnext, if_neg fun hsame => hempty (sameSection_nil_iff.mp hsame)]
    have hany : (names.map fun other => SectionContent.mk other (entries other)).any
        (fun s => d.sameSection s.name name) = true := by
      rw [List.any_map]
      exact hname.resolve_left hempty
    rw [List.isEmpty_eq_false_iff.mpr hempty, if_neg Bool.false_ne_true, hglobal,
      Roster.upsert_of_any _ _ hany, Roster.change, List.map_map]
    refine congrArg (DocumentContent.mk _) (List.map_congr_left fun other _ => ?_)
    show (if d.sameSection other name then _ else _) = SectionContent.mk other (next other)
    rw [hnext, d.sameSection_comm name other]
    split <;> rfl

/-- A key line goes to its section, as the policy says. -/
theorem grouped_concat_entry (hnamed : Named contents) {name key value : Text}
    {comment : Option Comment} (howner : d.owner contents = some name) :
    d.grouped (contents ++ [.entry key value comment]) =
      if (d.linesOf contents name).any (fun l => d.sameKey l.key key) && d.keyPolicy = .reject then
        d.grouped contents
      else (d.grouped contents).putValue d name key value comment := by
  have hline : d.keyLine? contents (.entry key value comment) = some ⟨name, key, value, comment⟩ := by
    rw [keyLine?, howner]
    rfl
  -- what becomes of the entries of any section
  have hentries : ∀ other, d.entriesOf (d.linesOf (contents ++ [.entry key value comment]) other) =
      if d.sameSection name other then
        if (d.linesOf contents name).any (fun l => d.sameKey l.key key) && d.keyPolicy = .reject then
          d.entriesOf (d.linesOf contents other)
        else d.putValue key value comment (d.entriesOf (d.linesOf contents other))
      else d.entriesOf (d.linesOf contents other) := by
    intro other
    rw [linesOf_concat_of_eq_some hline]
    cases hsame : d.sameSection name other with
    | true => rw [if_pos rfl, if_pos rfl, entriesOf_concat, linesOf_congr hsame]
    | false => rw [if_neg Bool.false_ne_true, if_neg Bool.false_ne_true, List.append_nil]
  have hnames : headerNames (contents ++ [.entry key value comment]) = headerNames contents := by
    rw [headerNames, headers_concat_of_none rfl, ← headerNames]
  cases hrefuse : (d.linesOf contents name).any (fun l => d.sameKey l.key key) &&
      decide (d.keyPolicy = .reject) with
  | true =>
    simp only [grouped, hnames, hentries, hrefuse, if_true, ite_self]
  | false =>
    rw [hrefuse] at hentries
    rw [if_neg Bool.false_ne_true, grouped, hnames, grouped]
    refine (putValue_of_entries (fun other hmem => hnamed.ne_nil (mem_of_mem_firsts hmem)) ?_
      key value comment hentries).symm
    refine (of_owner_eq_some howner).imp_right fun hmem => ?_
    exact (any_firsts d.foldSection (d.foldSection name) _).trans (isSeen_of_mem hmem)

/-! ## Outlines -/

/-- Where lines below the given ones go. -/
def target (d : Dialect) (above : List Content) : Target :=
  match d.owner above with
  | none => .discard
  | some name => .inSection name

/-- The outline that lines have when they are put together in groups. -/
def outlined (d : Dialect) (contents : List Content) : Outline := ⟨d.grouped contents, d.target contents⟩

theorem target_concat_of_none (h : content.headerName? = none) :
    d.target (contents ++ [content]) = d.target contents := by
  rw [target, owner_concat_of_none h, ← target]

theorem target_concat_header (contents : List Content) (name : Text) (comment : Option Comment) :
    d.target (contents ++ [.header name comment]) =
      if d.refusesHeader contents name then .discard else .inSection name := by
  rw [target, owner_concat_header]
  cases d.refusesHeader contents name <;> rfl

theorem outlined_concat_of_none (hheader : content.headerName? = none)
    (hline : d.keyLine? contents content = none) :
    d.outlined (contents ++ [content]) = d.outlined contents := by
  rw [outlined, grouped_concat_of_none hheader hline, target_concat_of_none hheader, ← outlined]

theorem outlined_acceptHeader {name : Text} (hname : name ≠ []) (comment : Option Comment) :
    ((d.outlined contents).acceptHeader d name).1 =
      d.outlined (contents ++ [.header name comment]) := by
  have hhas : (d.outlined contents).content.hasSection d name = d.isSeen contents name := by
    show (d.grouped contents).hasSection d name = _
    rw [hasSection_grouped, List.isEmpty_eq_false_iff.mpr hname, Bool.false_or]
  rw [Outline.acceptHeader, hhas, outlined.eq_def d (contents ++ _), grouped_concat_header hname,
    target_concat_header, refusesHeader]
  cases d.isSeen contents name with
  | false => simp [outlined]
  | true => cases d.sectionPolicy <;> simp [outlined]

theorem outlined_acceptEntry (hnamed : Named contents) (key value : Text) (comment : Option Comment) :
    ((d.outlined contents).acceptEntry d key value comment).1 =
      d.outlined (contents ++ [.entry key value comment]) := by
  cases howner : d.owner contents with
  | none =>
    have hline : d.keyLine? contents (.entry key value comment) = none := by
      rw [keyLine?, howner]
      rfl
    have htarget : d.target contents = .discard := by rw [target, howner]
    rw [Outline.acceptEntry, show (d.outlined contents).target = _ from htarget,
      outlined_concat_of_none rfl hline]
  | some name =>
    have htarget : d.target contents = .inSection name := by rw [target, howner]
    have hkey : (d.outlined contents).content.hasKey d name key = _ :=
      hasKey_grouped ((of_owner_eq_some howner).imp_right isSeen_of_mem) key
    have hsame : d.target (contents ++ [.entry key value comment]) = .inSection name := by
      rw [target_concat_of_none rfl, htarget]
    rw [Outline.acceptEntry, show (d.outlined contents).target = _ from htarget]
    dsimp only
    rw [hkey, outlined.eq_def d (contents ++ _), grouped_concat_entry hnamed howner, hsame, outlined,
      htarget]
    split <;> rfl

/-- **One more line** changes the outline of the lines above it into its own. -/
theorem outlined_accept (hnamed : Named (contents ++ [content])) :
    ((d.outlined contents).accept d content).1 = d.outlined (contents ++ [content]) := by
  cases content with
  | blank => exact (outlined_concat_of_none rfl rfl).symm
  | comment c => exact (outlined_concat_of_none rfl rfl).symm
  | malformed fault => exact (outlined_concat_of_none rfl rfl).symm
  | header name comment =>
    refine outlined_acceptHeader ?_ comment
    rintro rfl
    exact hnamed.of_concat.2 rfl
  | entry key value comment => exact outlined_acceptEntry hnamed.of_concat.1 key value comment

end Dialect

/-! ## Readers -/

namespace Reader

variable {d : Dialect} {r : Reader} {D : Draft} {above : List Content}

/-- The name of the section that a key is looked for in, as its first header has it. -/
theorem name_eq_spelled (h : r.Drafts d D) (houtline : D.outline = d.outlined above)
    (hnamed : Named above) {name : Text} (howner : d.owner above = some name) :
    ((r.document.section? name).getD (r.document.newSection name)).name = d.spelled above name := by
  have hcontent : r.document.content = d.grouped above := by
    rw [← h.sound.content_eq, h.sheet]
    exact congrArg Outline.content houtline
  by_cases hempty : name = []
  · -- no header counts as the global section
    have hnone : (headerNames above).find? (d.sameSection · []) = none := by
      refine List.find?_eq_none.mpr fun other hother hsame => ?_
      exact hnamed.ne_nil hother (Dialect.sameSection_nil_iff.mp hsame)
    rw [hempty, Dialect.spelled, hnone]
    exact h.sound.globalName
  · have hhas : r.document.hasSection name = true := by
      rw [← h.sound.hasSection_eq, h.dialect, ← Sheet.hasSection_content, h.sound.content_eq, hcontent,
        Dialect.hasSection_grouped, Dialect.isSeen_of_mem
          ((Dialect.of_owner_eq_some howner).resolve_left hempty), Bool.or_true]
    rw [← Document.Sound.isSome_section?] at hhas
    obtain ⟨s, hs⟩ := Option.isSome_iff_exists.mp hhas
    obtain ⟨-, hmem, hsame⟩ := (h.sound.of_section?_eq_some hs).resolve_left fun hglobal =>
      hempty hglobal.1
    -- the names of the sections are those of the first headers of their name
    have hfirst : s.name ∈ firsts d.foldSection (headerNames above) := by
      have hmemContent : s.content ∈ r.document.content.sections := List.mem_map_of_mem hmem
      rw [hcontent] at hmemContent
      obtain ⟨other, hother, heq⟩ := List.mem_map.mp hmemContent
      rw [← show other = s.name from congrArg SectionContent.name heq]
      exact hother
    have hsame : d.sameSection s.name name = true := h.dialect ▸ hsame
    have hform : (fun other => d.sameSection other name) = fun other =>
        d.foldSection other == d.foldSection s.name := by
      funext other
      rw [Dialect.sameSection_iff.mp hsame]
      rfl
    rw [hs, Option.getD_some, Dialect.spelled, hform, find?_of_mem_firsts hfirst, Option.getD_some]

/-- **A line is refused for what stands above it.** -/
theorem refused_eq (h : r.Drafts d D) (houtline : D.outline = d.outlined above) {token : Token}
    (hnamed : Named (above ++ [token.content])) : (r.accept token).2 = d.refusal above token := by
  have hcontent : D.sheet.content = d.grouped above := congrArg Outline.content houtline
  obtain ⟨hnamedAbove, hnamedLine⟩ := hnamed.of_concat
  unfold accept Dialect.refusal
  cases hline : token.content with
  | blank => rfl
  | comment c => rfl
  | malformed fault => rfl
  | header name comment =>
    have hname : name ≠ [] := by
      rintro rfl
      rw [hline] at hnamedLine
      exact hnamedLine rfl
    have hhas : r.document.hasSection name = d.isSeen above name := by
      rw [← h.sound.hasSection_eq, h.dialect, h.sheet, ← Sheet.hasSection_content, hcontent,
        Dialect.hasSection_grouped, List.isEmpty_eq_false_iff.mpr hname, Bool.false_or]
    show (r.acceptHeader _ _ _ _).2 = _
    rw [acceptHeader, hhas, h.dialect]
    dsimp only
    rw [Dialect.refusesHeader]
    cases d.isSeen above name with
    | false => simp
    | true => cases d.sectionPolicy <;> simp
  | entry key value comment =>
    have htarget : r.target = d.target above := h.target.trans (congrArg Outline.target houtline)
    show (r.acceptEntry _ _ _ _ _ _).2 = _
    rw [acceptEntry, htarget, Dialect.target]
    cases howner : d.owner above with
    | none => rfl
    | some name =>
      have hkey : ((r.document.section? name).getD (r.document.newSection name)).contains key =
          (d.linesOf above name).any fun l => d.sameKey l.key key := by
        rw [← h.sound.hasKey_eq, h.dialect, h.sheet, ← Sheet.hasKey_content, hcontent]
        exact Dialect.hasKey_grouped
          ((Dialect.of_owner_eq_some howner).imp_right Dialect.isSeen_of_mem) key
      dsimp only
      rw [hkey, h.dialect, name_eq_spelled h houtline hnamedAbove howner]
      split <;> rfl

theorem refusals_append (r : Reader) (front rest : List Token) :
    r.refusals (front ++ rest) = r.refusals front ++ (front.foldl note r).refusals rest := by
  induction front generalizing r with
  | nil => rfl
  | cons token front ih => rw [List.cons_append, refusals, ih, refusals, List.append_assoc, List.foldl_cons]

/-- **After any lines**, a reader has their outline, and their refusals are noted. -/
theorem outlined_and_refusals (d : Dialect) {tokens : List Token}
    (hnamed : Named (tokens.map Token.content)) :
    (∃ D, (tokens.foldl note (start d)).Drafts d D ∧
      D.outline = d.outlined (tokens.map Token.content)) ∧
        (start d).refusals tokens = d.refusals tokens := by
  induction tokens using List.reverseRecOn with
  | nil => exact ⟨⟨.start, drafts_start d, rfl⟩, rfl⟩
  | append_singleton tokens token ih =>
    rw [List.map_append, List.map_singleton] at hnamed ⊢
    obtain ⟨⟨D, hdrafts, houtline⟩, hrefusals⟩ := ih hnamed.of_concat.1
    refine ⟨⟨(D.accept d token.raw token.content).1, ?_, ?_⟩, ?_⟩
    · rw [List.foldl_append]
      exact drafts_note hdrafts token
    · have hline := congrArg Prod.fst (D.outline_accept (d := d) token.raw token.content)
      rw [houtline] at hline
      exact hline.trans (Dialect.outlined_accept hnamed)
    · rw [refusals_append, hrefusals, refusals, refused_eq hdrafts houtline hnamed,
        Dialect.refusals, gather_concat]
      exact congrArg (_ ++ ·) (List.append_nil _)

end Reader

/-! ## Texts -/

/-- **The policies for what is repeated.**  A text that reads at all reads as the document that its
    lines make in groups, and what is reported of it are the refusals of its lines. -/
theorem parse_groups_lines {d : Dialect} {text : Text} {p : Parsed} (h : parse d text = .ok p) :
    p.document.content = d.grouped ((tokens d text).map Token.content) ∧
      p.diagnostics = d.refusals (tokens d text) := by
  have hnamed : Named ((tokens d text).map Token.content) := by
    rw [tokens, contents_tokensFrom]
    exact Line.named_contents d _
  obtain ⟨⟨D, hdrafts, houtline⟩, hrefusals⟩ := Reader.outlined_and_refusals d hnamed
  rw [Parsed.eq_ofText_of_parse h]
  refine ⟨?_, (Parsed.diagnostics_ofText d text).trans hrefusals⟩
  show ((tokens d text).foldl Reader.note (.start d)).document.content = _
  rw [← hdrafts.sound.content_eq, hdrafts.sheet]
  exact congrArg Outline.content houtline

/-- A repeated key and the line below a repeated header are refused, and a section that has nothing
    but its header is there. -/
theorem parse_groups_lines_sample :
    ∃ p, parse { Dialect.lenient with
          keyPolicy := .reject, sectionPolicy := .reject,
          caseSensitiveKeys := false, caseSensitiveSections := false }
        "a=1 ; x\nA=2\n[s]\nk=3\n[S]\nl=4\n[t]".toList = .ok p ∧
      p.document.content = ⟨⟨[], [⟨['a'], [['1']], some (.of ';' " x".toList)⟩]⟩,
        [⟨['s'], [⟨['k'], [['3']], none⟩]⟩, ⟨['t'], []⟩]⟩ ∧
      p.diagnostics.map Diagnostic.error = [.duplicateKey [] ['A'] (some 2),
        .duplicateSection ['S'] (some 5), .malformed 6 1 (.rejectedSection ['l'])] := by
  let d : Dialect := { Dialect.lenient with
    keyPolicy := .reject, sectionPolicy := .reject,
    caseSensitiveKeys := false, caseSensitiveSections := false }
  let text : Text := "a=1 ; x\nA=2\n[s]\nk=3\n[S]\nl=4\n[t]".toList
  have hread : (parse d text).toOption.any (fun _ =>
      decide (d.grouped ((tokens d text).map Token.content) =
        ⟨⟨[], [⟨['a'], [['1']], some (.of ';' " x".toList)⟩]⟩,
          [⟨['s'], [⟨['k'], [['3']], none⟩]⟩, ⟨['t'], []⟩]⟩) &&
      decide ((d.refusals (tokens d text)).map Diagnostic.error =
        [.duplicateKey [] ['A'] (some 2), .duplicateSection ['S'] (some 5),
          .malformed 6 1 (.rejectedSection ['l'])])) = true := by
    decide +kernel
  obtain ⟨p, hparse, hboth⟩ := Except.exists_ok_of_any hread
  obtain ⟨hgrouped, hrefusals⟩ := Bool.and_eq_true_iff.mp hboth
  obtain ⟨hcontent, hdiagnostics⟩ := parse_groups_lines hparse
  rw [← hcontent] at hgrouped
  rw [← hdiagnostics] at hrefusals
  exact ⟨p, hparse, of_decide_eq_true hgrouped, of_decide_eq_true hrefusals⟩

end IniFile
