/-
  A skipped line leaves no trace.

  Lenient reading skips the lines that it reports.  Had they not been in the text at all, strict
  reading would have made the same document of it.

  1. **Numbers** — which lines are reported, and a text without the lines of given numbers.
  2. **What is accepted** — `Draft.accepted` are the lines that are not refused, and these are the
     lines that are not reported.
  3. **Two drafts** (`Draft.Shadows`) — one draft reads all lines, the other only those that the
     first accepts.  The second never discards anything, because the header that was refused is not
     there; so the two may differ on where entries go, but only while the first discards them.
  4. **Texts** — what is left of a closed text is closed, unless it is the byte order mark alone.
-/
import IniFile.Proofs.Mark
import IniFile.Proofs.Modes
import IniFile.Proofs.Rendering
import IniFile.Proofs.Verbatim

namespace IniFile

/-! ## Numbers -/

namespace Text

/-- Lines that are numbered from `first` on, without those of the given numbers. -/
def dropNumbered (numbers : List Nat) (first : Nat) : List Text → List Text
  | [] => []
  | l :: rest =>
    if first ∈ numbers then dropNumbered numbers (first + 1) rest
    else l :: dropNumbered numbers (first + 1) rest

/-- A closed text without the lines of the given numbers, endings included.  A byte order mark at
    its start stays. -/
def deleteLines (numbers : List Nat) (t : Text) : Text :=
  (if t.head? = some bom then [bom] else []) ++
    LineEnding.lf.join true (dropNumbered numbers 1 (pieces (dropBom t)))

theorem dropNumbered_nil (first : Nat) : ∀ ls : List Text, dropNumbered [] first ls = ls
  | [] => rfl
  | l :: rest => by rw [dropNumbered, if_neg List.not_mem_nil, dropNumbered_nil]

/-- A text from which no line is deleted stays as it is. -/
theorem deleteLines_nil {t : Text} (h : isClosed t = true) : deleteLines [] t = t := by
  have hjoin := join_pieces_dropBom t
  rw [h] at hjoin
  rw [deleteLines, dropNumbered_nil, hjoin, mark_append_dropBom]

theorem dropNumbered_map (f : Text → Text) (numbers : List Nat) (first : Nat) (ls : List Text) :
    dropNumbered numbers first (ls.map f) = (dropNumbered numbers first ls).map f := by
  induction ls generalizing first with
  | nil => rfl
  | cons l rest ih =>
    rw [List.map_cons, dropNumbered, dropNumbered, ih]
    split <;> rfl

/-- A number that no line has does not matter. -/
theorem dropNumbered_cons_of_lt {number first : Nat} (h : number < first) (numbers : List Nat)
    (ls : List Text) : dropNumbered (number :: numbers) first ls = dropNumbered numbers first ls := by
  induction ls generalizing first with
  | nil => rfl
  | cons l rest ih =>
    have hmem : first ∈ number :: numbers ↔ first ∈ numbers := by
      simp only [List.mem_cons, Nat.ne_of_gt h, false_or]
    simp only [dropNumbered, hmem, ih (Nat.lt_succ_of_lt h)]

/-- The first line goes if its number is given. -/
theorem dropNumbered_first (first : Nat) (numbers : List Nat) (l : Text) (rest : List Text) :
    dropNumbered (first :: numbers) first (l :: rest) = dropNumbered numbers (first + 1) rest := by
  rw [dropNumbered, if_pos List.mem_cons_self, dropNumbered_cons_of_lt (Nat.lt_succ_self first)]

theorem dropNumbered_sublist (numbers : List Nat) (first : Nat) (ls : List Text) :
    (dropNumbered numbers first ls).Sublist ls := by
  induction ls generalizing first with
  | nil => exact List.Sublist.refl _
  | cons l rest ih =>
    rw [dropNumbered]
    split
    · exact (ih _).cons l
    · exact (ih _).cons_cons l

end Text

/-- **Reported lines come in order**, each once. -/
theorem Reader.lines_refusals (d : Dialect) (r : Reader) (n : Nat) (ls : List Text) :
    ((r.refusals (tokensFrom d n ls)).map Diagnostic.line).Sublist (List.range' n ls.length) := by
  induction ls generalizing r n with
  | nil => exact List.Sublist.refl _
  | cons raw rest ih =>
    rw [tokensFrom, List.length_cons, List.range'_succ]
    cases hrefused : (r.accept (.ofLine d n raw)).2 with
    | none => rw [refusals_of_accepted hrefused]; exact (ih _ (n + 1)).cons n
    | some e => rw [refusals_of_refused hrefused]; exact (ih _ (n + 1)).cons_cons n

/-! ## What is accepted -/

namespace Draft

variable {d : Dialect}

/-- The lines that are not refused. -/
def accepted (d : Dialect) (D : Draft) : List Text → List Text
  | [] => []
  | raw :: rest =>
    let next := D.accept d raw (Line.scan d raw).1
    if next.2 then raw :: next.1.accepted d rest else next.1.accepted d rest

end Draft

/-- **The lines that are accepted are those that are not reported.** -/
theorem Reader.dropNumbered_refusals {d : Dialect} {r : Reader} {D : Draft} (h : r.Drafts d D)
    (n : Nat) (ls : List Text) :
    Text.dropNumbered ((r.refusals (tokensFrom d n ls)).map Diagnostic.line) n ls =
      D.accepted d ls := by
  induction ls generalizing r D n with
  | nil => rfl
  | cons raw rest ih =>
    obtain ⟨-, hflag, -⟩ := alike_accept h (.ofLine d n raw)
    have hlater : n ∉ (((r.note (.ofLine d n raw)).refusals (tokensFrom d (n + 1) rest)).map
        Diagnostic.line) := by
      intro hmem
      have hrange := List.mem_range'_1.mp ((lines_refusals d _ (n + 1) rest).mem hmem)
      omega
    have hrest := ih (drafts_note h (.ofLine d n raw)) (n + 1)
    change _ = (D.accept d raw (Line.scan d raw).1).2 at hflag
    rw [tokensFrom, Draft.accepted, ← hflag]
    cases hrefused : (r.accept (.ofLine d n raw)).2 with
    | none =>
      rw [refusals_of_accepted hrefused, Text.dropNumbered, if_neg hlater]
      exact congrArg (raw :: ·) hrest
    | some e =>
      rw [refusals_of_refused hrefused]
      exact (Text.dropNumbered_first n _ raw rest).trans hrest

/-! ## Two drafts -/

namespace Draft

variable {d : Dialect} {D E : Draft}

/-- The second draft has read what the first accepted. -/
structure Shadows (D E : Draft) : Prop where
  sheet : E.sheet = D.sheet
  waiting : E.waiting = D.waiting
  target : D.target = .discard ∨ E.target = D.target

theorem shadows_self (D : Draft) : D.Shadows D := ⟨rfl, rfl, Or.inr rfl⟩

/-- A line that the first draft accepts is accepted by the second. -/
theorem Shadows.accept (h : D.Shadows E) {raw : Text} {content : Content}
    (haccept : (D.accept d raw content).2 = true) :
    (D.accept d raw content).1.Shadows (E.accept d raw content).1 ∧
      (E.accept d raw content).2 = true := by
  obtain ⟨S, target, waiting⟩ := D
  obtain ⟨S', target', waiting'⟩ := E
  obtain ⟨rfl, rfl, htarget⟩ := h
  cases content with
  | blank => exact ⟨⟨rfl, rfl, htarget⟩, rfl⟩
  | comment c => exact ⟨⟨rfl, rfl, htarget⟩, rfl⟩
  | malformed fault => exact absurd haccept Bool.false_ne_true
  | header name comment =>
    -- a header that is accepted settles where entries go, whatever was before
    change (acceptHeader d ⟨S', target, waiting'⟩ raw name comment).2 = true at haccept
    change (acceptHeader d ⟨S', target, waiting'⟩ raw name comment).1.Shadows
        (acceptHeader d ⟨S', target', waiting'⟩ raw name comment).1 ∧
      (acceptHeader d ⟨S', target', waiting'⟩ raw name comment).2 = true
    unfold acceptHeader at haccept ⊢
    cases hhas : S'.hasSection d name with
    | false => exact ⟨⟨rfl, rfl, Or.inr rfl⟩, rfl⟩
    | true =>
      cases hpolicy : d.sectionPolicy with
      | merge => exact ⟨⟨rfl, rfl, Or.inr rfl⟩, rfl⟩
      | reject => simp [hhas, hpolicy] at haccept
  | entry key value comment =>
    change (acceptEntry d ⟨S', target, waiting'⟩ raw key value comment).2 = true at haccept
    rcases htarget with hdiscard | hsame
    · obtain rfl : target = .discard := hdiscard
      exact absurd haccept Bool.false_ne_true
    · obtain rfl : target' = target := hsame
      exact ⟨shadows_self _, haccept⟩

/-- A line that the first draft refuses changes nothing that the second must have. -/
theorem Shadows.refuse (h : D.Shadows E) {raw : Text} {content : Content}
    (hrefuse : (D.accept d raw content).2 = false) : (D.accept d raw content).1.Shadows E := by
  cases content with
  | blank => exact absurd hrefuse nofun
  | comment c => exact absurd hrefuse nofun
  | malformed fault => exact h
  | header name comment =>
    change (D.acceptHeader d raw name comment).2 = false at hrefuse
    show (D.acceptHeader d raw name comment).1.Shadows E
    unfold acceptHeader at hrefuse ⊢
    cases hhas : D.sheet.hasSection d name with
    | false => simp [hhas] at hrefuse
    | true =>
      cases hpolicy : d.sectionPolicy with
      | merge => simp [hhas, hpolicy] at hrefuse
      | reject => exact ⟨h.sheet, h.waiting, Or.inl rfl⟩
  | entry key value comment =>
    change (D.acceptEntry d raw key value comment).2 = false at hrefuse
    show (D.acceptEntry d raw key value comment).1.Shadows E
    unfold acceptEntry at hrefuse ⊢
    cases htarget : D.target with
    | discard => exact h
    | inSection name =>
      rw [htarget] at hrefuse
      dsimp only at hrefuse ⊢
      split at hrefuse
      · rename_i hrepeats
        rw [if_pos hrepeats]
        exact h
      · exact absurd hrefuse nofun

/-- **What is accepted, read by itself**, is all accepted and makes the same sheet. -/
theorem Shadows.read (h : D.Shadows E) (ls : List Text) :
    (D.read d ls).1.Shadows (E.read d (D.accepted d ls)).1 ∧
      (E.read d (D.accepted d ls)).2 = true := by
  induction ls generalizing D E with
  | nil => exact ⟨h, rfl⟩
  | cons raw rest ih =>
    rw [Draft.read, accepted]
    cases hflag : (D.accept d raw (Line.scan d raw).1).2 with
    | false => exact ih (h.refuse hflag)
    | true =>
      obtain ⟨hnext, haccepted⟩ := h.accept hflag
      obtain ⟨hshadows, hall⟩ := ih hnext
      rw [if_pos rfl, Draft.read]
      exact ⟨hshadows, Bool.and_eq_true_iff.mpr ⟨haccepted, hall⟩⟩

/-- Drafts take lines alike in every mode. -/
theorem read_inMode (D : Draft) (d : Dialect) (mode : Mode) (ls : List Text) :
    D.read (d.inMode mode) ls = D.read d ls := by
  induction ls generalizing D with
  | nil => rfl
  | cons raw rest ih =>
    rw [read, read, ih]
    rfl

theorem ofText_inMode (d : Dialect) (mode : Mode) (text : Text) :
    ofText (d.inMode mode) text = ofText d text :=
  read_inMode _ d mode _

end Draft

/-! ## Texts -/

namespace Text

variable {t : Text}

/-- The pieces that are left have neither line feeds nor byte order marks. -/
theorem left_of_deleteLines (hbom : bom ∉ t.tail) (numbers : List Nat) :
    ∀ piece ∈ dropNumbered numbers 1 (pieces (dropBom t)),
      '\n' ∉ piece ∧ piece.head? ≠ some bom := by
  intro piece hpiece
  have hmem := (dropNumbered_sublist _ _ _).mem hpiece
  refine ⟨not_mem_of_mem_pieces hmem, fun hhead => ?_⟩
  exact bom_not_mem_dropBom hbom (mem_of_mem_pieces hmem (List.mem_of_mem_head? hhead))

/-- **The lines of what is left** are the lines that were not deleted. -/
theorem lines_deleteLines (hbom : bom ∉ t.tail) (numbers : List Nat) :
    lines (dropBom (deleteLines numbers t)) = dropNumbered numbers 1 (lines (dropBom t)) := by
  have hleft := left_of_deleteLines hbom numbers
  have hdrop : dropBom (deleteLines numbers t) =
      LineEnding.lf.join true (dropNumbered numbers 1 (pieces (dropBom t))) := by
    rw [deleteLines]
    split
    · rfl
    · exact LineEnding.dropBom_join _ _ fun piece hpiece => (hleft piece hpiece).2
  rw [hdrop, lines_join_closed _ fun piece hpiece => (hleft piece hpiece).1, lines,
    dropNumbered_map]
  rfl

theorem head?_deleteLines (hbom : bom ∉ t.tail) (numbers : List Nat) :
    (deleteLines numbers t).head? = some bom ↔ t.head? = some bom := by
  have hleft := left_of_deleteLines hbom numbers
  rw [deleteLines]
  split
  · rename_i hmark
    exact ⟨fun _ => hmark, fun _ => rfl⟩
  · rename_i hmark
    refine ⟨fun hhead => ?_, fun hhead => absurd hhead hmark⟩
    have hdrop := LineEnding.dropBom_join .lf true fun piece hpiece => (hleft piece hpiece).2
    obtain ⟨rest, hrest⟩ := List.head?_eq_some_iff.mp hhead
    rw [List.nil_append] at hrest
    rw [hrest, dropBom, if_pos rfl] at hdrop
    exact absurd (congrArg List.length hdrop) (by simp)

/-- What is left is closed if there is a line in it. -/
theorem isClosed_deleteLines {numbers : List Nat}
    (h : dropNumbered numbers 1 (pieces (dropBom t)) ≠ []) :
    isClosed (deleteLines numbers t) = true := by
  have hlast : (deleteLines numbers t).getLast? = some '\n' := by
    rw [deleteLines, LineEnding.join_closed_eq .lf h, ← List.append_assoc]
    exact List.getLast?_concat
  rw [isClosed, hlast]
  simp

end Text

/-- **What is left when the reported lines are deleted** is all accepted, and its draft shadows that
    of the whole text. -/
theorem Draft.shadows_deleteLines {d : Dialect} {text : Text} (hbom : bom ∉ text.tail)
    {numbers : List Nat}
    (hnumbers : numbers = (Parsed.ofText d text).diagnostics.map Diagnostic.line) :
    (ofText d text).1.Shadows (ofText d (Text.deleteLines numbers text)).1 ∧
      (ofText d (Text.deleteLines numbers text)).2 = true := by
  have hleft : Text.lines (Text.dropBom (Text.deleteLines numbers text)) =
      Draft.start.accepted d (Text.lines (Text.dropBom text)) := by
    rw [Text.lines_deleteLines hbom numbers, hnumbers, Parsed.diagnostics_ofText]
    exact Reader.dropNumbered_refusals (Reader.drafts_start d) 1 _
  unfold ofText
  rw [hleft]
  exact (shadows_self start).read _

/-- What is left of a closed text is closed, or has no lines to read. -/
theorem Draft.isClosed_deleteLines_or {d : Dialect} {text : Text} (hbom : bom ∉ text.tail)
    (numbers : List Nat) :
    Text.isClosed (Text.deleteLines numbers text) = true ∨
      (ofText d (Text.deleteLines numbers text)).1 = .start := by
  by_cases hnone : Text.dropNumbered numbers 1 (Text.pieces (Text.dropBom text)) = []
  · have hlines : Text.lines (Text.dropBom (Text.deleteLines numbers text)) = [] := by
      rw [Text.lines_deleteLines hbom numbers, Text.lines, Text.dropNumbered_map, hnone]
      rfl
    right
    rw [ofText, hlines]
    rfl
  · exact Or.inl (Text.isClosed_deleteLines hnone)

/-- Documents under one dialect and with one sheet are written alike. -/
theorem Document.render_congr {doc doc' : Document} (hdialect : doc.dialect = doc'.dialect)
    {r : Rendering} (hsheet : doc.sheet.render doc.dialect r = doc'.sheet.render doc.dialect r) :
    doc.render r = doc'.render r := by
  rw [render_eq, render_eq, ← hdialect, hsheet]

/-- Without a line there is nothing to end, so the end of the text does not count. -/
theorem Sheet.render_finish {d : Dialect} {S : Sheet} {waiting : List Text} {text text' : Text}
    (hmark : text'.head? = some IniFile.bom ↔ text.head? = some IniFile.bom)
    (hclosed : Text.isClosed text' = Text.isClosed text ∨
      ∀ style, (S.finish waiting text).lines d style = []) (r : Rendering) :
    (S.finish waiting text').render d r = (S.finish waiting text).render d r := by
  have hbom : (S.finish waiting text').mark r.style = (S.finish waiting text).mark r.style := by
    unfold mark
    rw [show (S.finish waiting text').bom = (S.finish waiting text).bom from
      decide_eq_decide.mpr hmark]
  have hlines : (S.finish waiting text').lines d r.style = (S.finish waiting text).lines d r.style :=
    rfl
  rw [render, render, hbom, hlines]
  rcases hclosed with hclosed | hempty
  · have hend : (S.finish waiting text').isClosed r.style =
        (S.finish waiting text).isClosed r.style := by
      unfold isClosed
      rw [show (S.finish waiting text').finalNewline = (S.finish waiting text).finalNewline
        from hclosed]
    rw [hend]
  · rw [hempty r.style]
    rfl

/-- **A skipped line leaves no trace.**  Of a closed text with no byte order mark but at its start,
    delete all the lines that lenient reading reports: strict reading then accepts every line, and
    its document is the same, seen or written.  The reported lines come in order, each once. -/
theorem skipped_lines_leave_no_trace {d : Dialect} {text : Text}
    (hclosed : Text.isClosed text = true) (hbom : bom ∉ text.tail) :
    ∃ lenient, parse (d.inMode .lenient) text = .ok lenient ∧
      (lenient.diagnostics.map Diagnostic.line).Pairwise (· < ·) ∧
      ∃ doc, parse (d.inMode .strict)
          (Text.deleteLines (lenient.diagnostics.map Diagnostic.line) text) = .ok ⟨doc, []⟩ ∧
        doc.content = lenient.document.content ∧
          ∀ r, doc.render r = lenient.document.render r := by
  have hlenient := parse_lenient d text
  obtain ⟨lenient, hread⟩ : ∃ lenient, lenient = Parsed.ofText (d.inMode .lenient) text := ⟨_, rfl⟩
  rw [← hread] at hlenient
  obtain ⟨numbers, hnumbers⟩ : ∃ numbers, numbers = lenient.diagnostics.map Diagnostic.line :=
    ⟨_, rfl⟩
  obtain ⟨hshadows, haccepted⟩ := Draft.shadows_deleteLines hbom (hread ▸ hnumbers)
  rw [Draft.ofText_inMode, ← Draft.ofText_inMode d .strict] at haccepted
  obtain ⟨doc, hstrict⟩ := exists_parse_eq_ok haccepted
  obtain ⟨hsound, hdialect, hsheet, -⟩ := of_parse_eq_ok hlenient
  obtain ⟨hsound', hdialect', hsheet', -⟩ := of_parse_eq_ok hstrict
  -- the two documents differ at most in how their texts ended
  rw [Draft.ofText_inMode, Draft.ofText_inMode] at hshadows
  rw [Draft.ofText_inMode] at hsheet hsheet'
  rw [hshadows.sheet, hshadows.waiting] at hsheet'
  refine ⟨lenient, hlenient, ?_, doc, hnumbers ▸ hstrict, ?_, fun r => ?_⟩
  · rw [hread, Parsed.diagnostics_ofText]
    exact (List.pairwise_lt_range' ..).sublist (Reader.lines_refusals _ _ 1 _)
  · rw [← hsound'.content_eq, ← hsound.content_eq, hsheet', hsheet]
    rfl
  · rw [← doc.render_inMode .lenient]
    refine Document.render_congr
      ((congrArg (Dialect.inMode · .lenient) hdialect').trans hdialect.symm) ?_
    show doc.sheet.render _ r = _
    rw [hsheet', hsheet]
    refine Sheet.render_finish (Text.head?_deleteLines hbom numbers) ?_ r
    rcases Draft.isClosed_deleteLines_or (d := d) hbom numbers with hsame | hstart
    · exact Or.inl (hsame.trans hclosed.symm)
    · rw [← hshadows.sheet, ← hshadows.waiting, hstart]
      exact Or.inr fun style => by cases style <;> rfl

/-- Deleted are a line without a delimiter, a repeated key, a repeated header and the key below it;
    the comment between them goes on to the next header. -/
theorem skipped_lines_leave_no_trace_sample :
    ∃ lenient, parse { sectionPolicy := .reject, keyPolicy := .reject, mode := .lenient }
        "\ufeffa=1\nbad\n[s]\na=2\na=3\n[s]\n; c\nx=1\n[t]\n".toList = .ok lenient ∧
      ∃ doc, parse { sectionPolicy := .reject, keyPolicy := .reject }
          "\ufeffa=1\n[s]\na=2\n; c\n[t]\n".toList = .ok ⟨doc, []⟩ ∧
        doc.content = lenient.document.content ∧
          ∀ r, doc.render r = lenient.document.render r := by
  obtain ⟨d, hd⟩ : ∃ d : Dialect, d = { sectionPolicy := .reject, keyPolicy := .reject } := ⟨_, rfl⟩
  obtain ⟨text, htext⟩ : ∃ text : Text, text =
    "\ufeffa=1\nbad\n[s]\na=2\na=3\n[s]\n; c\nx=1\n[t]\n".toList := ⟨_, rfl⟩
  have hclosed : Text.isClosed text = true := by
    rw [htext]
    decide +kernel
  have hbom : bom ∉ text.tail := by
    rw [htext]
    decide +kernel
  obtain ⟨lenient, hlenient, -, doc, hstrict, hcontent, hrender⟩ :=
    skipped_lines_leave_no_trace (d := d) hclosed hbom
  have hdelete : Text.deleteLines (lenient.diagnostics.map Diagnostic.line) text =
      "\ufeffa=1\n[s]\na=2\n; c\n[t]\n".toList := by
    rw [Parsed.eq_ofText_of_parse hlenient, hd, htext]
    decide +kernel
  rw [hdelete, hd] at hstrict
  rw [hd, htext] at hlenient
  exact ⟨lenient, hlenient, doc, hstrict, hcontent, hrender⟩

end IniFile
