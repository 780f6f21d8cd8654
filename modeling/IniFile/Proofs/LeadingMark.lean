/-
  A byte order mark in front of a text.

  The mark is dropped before a text is cut into lines, so with or without it the same lines are
  read: reading fails alike, or gives the same content and the same diagnostics.  What is left of
  the mark is kept in the FRAME of the sheet — two flags, the mark and the last line ending — and
  the frame comes back in a round trip.

  1. **Frames** — no step looks at the frame, and only taking everything out changes it
     (`Step.onSheet_reframe`, `Sheet.after_reframe`).  Of the two styles only the round trip shows it.
  2. **Reading** — the sheets of the two texts differ in their frames (`parse_cons_bom`).
  3. **Writing** — after the same steps the canonical texts agree and the round trip puts the mark
     back in front (`transparent_mark`).

  There is one exception.  A mark with NOTHING behind it is a text that does not end in a line feed,
  while the empty text counts as one that does, so that the last line of a document that began with
  a mark alone stays open (`mark_alone_leaves_line_open`).
-/
import IniFile.Proofs.Histories
import IniFile.Proofs.Mark

namespace IniFile

/-! ## Frames -/

namespace Sheet

/-- The sheet with other flags around its entries. -/
def reframe (closed mark : Bool) (S : Sheet) : Sheet := { S with finalNewline := closed, bom := mark }

variable (d : Dialect) (closed mark : Bool)

theorem changeSection_reframe (name : Text) (g : List SheetEntry → List SheetEntry) (S : Sheet) :
    (S.reframe closed mark).changeSection d name g = (S.changeSection d name g).reframe closed mark := by
  unfold changeSection
  cases name.isEmpty <;> rfl

theorem upsertSection_reframe (name : Text) (g : List SheetEntry → List SheetEntry) (S : Sheet) :
    (S.reframe closed mark).upsertSection d name g = (S.upsertSection d name g).reframe closed mark := by
  unfold upsertSection
  cases name.isEmpty <;> rfl

theorem eraseSection_reframe (name : Text) (S : Sheet) :
    (S.reframe closed mark).eraseSection d name = (S.eraseSection d name).reframe closed mark := by
  unfold eraseSection
  cases name.isEmpty <;> rfl

end Sheet

/-- **No step looks at the frame**, and all but one leave it as it is. -/
theorem Step.onSheet_reframe (d : Dialect) {step : Step} (h : step ≠ .edit .clear)
    (closed mark : Bool) (S : Sheet) :
    step.onSheet d (S.reframe closed mark) = (step.onSheet d S).reframe closed mark := by
  cases step with
  | query q => rfl
  | edit edit =>
    cases edit with
    | set name key value => exact Sheet.upsertSection_reframe d closed mark _ _ S
    | setScalar name key x => exact Sheet.upsertSection_reframe d closed mark _ _ S
    | remove name key => exact Sheet.changeSection_reframe d closed mark _ _ S
    | clear => exact absurd rfl h
    | insertSection name => exact Sheet.upsertSection_reframe d closed mark _ _ S
    | ensureSection name => exact Sheet.upsertSection_reframe d closed mark _ _ S
    | removeSection name => exact Sheet.eraseSection_reframe d closed mark _ S
    | setEverywhere key value => rfl
    | inSection name edit => exact Sheet.changeSection_reframe d closed mark _ _ S
    | setIfSection name key value => exact Sheet.changeSection_reframe d closed mark _ _ S

namespace Sheet

variable {d : Dialect}

/-- Two sheets that differ in their frames go the same way. -/
theorem after_reframe {steps : List Step} (hclear : ∀ step ∈ steps, step ≠ .edit .clear)
    (closed mark : Bool) (S : Sheet) :
    (S.reframe closed mark).after d steps = (S.after d steps).reframe closed mark := by
  induction steps generalizing S with
  | nil => rfl
  | cons step rest ih =>
    show (step.onSheet d (S.reframe closed mark)).after d rest = _
    rw [Step.onSheet_reframe d (hclear step List.mem_cons_self)]
    exact ih (fun s hs => hclear s (List.mem_cons_of_mem _ hs)) (step.onSheet d S)

theorem content_reframe (closed mark : Bool) (S : Sheet) :
    (S.reframe closed mark).content = S.content := rfl

/-- The canonical text does not show the frame. -/
theorem render_canonical_reframe (closed mark : Bool) (S : Sheet) (e : LineEnding) :
    (S.reframe closed mark).render d ⟨.canonical, e⟩ = S.render d ⟨.canonical, e⟩ := rfl

/-- A marked sheet begins with the mark. -/
theorem render_roundTrip_reframe (closed : Bool) (S : Sheet) (e : LineEnding) :
    (S.reframe closed true).render d ⟨.roundTrip, e⟩ =
      IniFile.bom :: e.join closed (S.lines d .roundTrip) := rfl

theorem render_roundTrip_unmarked {S : Sheet} (h : S.bom = false) (e : LineEnding) :
    S.render d ⟨.roundTrip, e⟩ = e.join S.finalNewline (S.lines d .roundTrip) := by
  rw [render, mark, h]
  rfl

end Sheet

/-! ## Reading -/

/-- **A mark changes nothing but the frame.**  Both texts are read in the same way, line by line. -/
theorem parse_cons_bom (d : Dialect) {text : Text} (h : text.head? ≠ some bom) :
    (∃ e, parse d (bom :: text) = .error e ∧ parse d text = .error e) ∨
    ∃ p q, parse d (bom :: text) = .ok p ∧ parse d text = .ok q ∧
      p.diagnostics = q.diagnostics ∧ q.document.sheet.bom = false ∧
      q.document.sheet.finalNewline = Text.isClosed text ∧
      p.document.sheet = q.document.sheet.reframe (Text.isClosed (bom :: text)) true := by
  have htokens : tokens d (bom :: text) = tokens d text := by
    rw [tokens, tokens, Text.dropBom_of_head?_ne h]
    rfl
  unfold parse
  rw [htokens]
  cases hrun : (Reader.start d).run d.mode (tokens d text) with
  | error e => exact Or.inl ⟨e, rfl, rfl⟩
  | ok r =>
    refine Or.inr ⟨r.finish (bom :: text), r.finish text, rfl, rfl, rfl, ?_, rfl, ?_⟩
    · exact decide_eq_false h
    · show r.document.sheet.finish r.waiting (bom :: text) =
        (r.document.sheet.finish r.waiting text).reframe (Text.isClosed (bom :: text)) true
      rfl

/-! ## Writing -/

/-- The last line ending is all that the two ways to end a text differ in. -/
theorem LineEnding.join_closed_or (e : LineEnding) (ls : List Text) :
    (e.join true ls = [] ∧ e.join false ls = []) ∨ e.join false ls ++ e.text = e.join true ls := by
  by_cases hls : ls = []
  · subst hls
    exact Or.inl ⟨rfl, rfl⟩
  · exact Or.inr (e.join_closed_eq hls).symm

/-- **A leading mark is transparent.**  A text is read with a mark in front as it is without: with
    the same error, or with the same diagnostics and the same content.  After the same steps, of
    which none takes everything out, both documents are written canonically alike, and the round
    trip of the first is a mark and the round trip of the second.

    If the text is EMPTY, the last line of the first document lacks its ending. -/
theorem transparent_mark {d : Dialect} {text : Text} (htext : text.head? ≠ some bom)
    {steps : List Step} (hclear : ∀ step ∈ steps, step ≠ .edit .clear) :
    (∃ e, parse d (bom :: text) = .error e ∧ parse d text = .error e) ∨
    ∃ p q, parse d (bom :: text) = .ok p ∧ parse d text = .ok q ∧
      p.diagnostics = q.diagnostics ∧ p.document.content = q.document.content ∧
      ∀ e : LineEnding,
        (p.document.after steps).render ⟨.canonical, e⟩ =
          (q.document.after steps).render ⟨.canonical, e⟩ ∧
        (text ≠ [] → (p.document.after steps).render ⟨.roundTrip, e⟩ =
          bom :: (q.document.after steps).render ⟨.roundTrip, e⟩) ∧
        (text = [] →
          ((q.document.after steps).render ⟨.roundTrip, e⟩ = [] ∧
            (p.document.after steps).render ⟨.roundTrip, e⟩ = [bom]) ∨
          (p.document.after steps).render ⟨.roundTrip, e⟩ ++ e.text =
            bom :: (q.document.after steps).render ⟨.roundTrip, e⟩) := by
  rcases parse_cons_bom d htext with herror | ⟨p, q, hp, hq, hdiagnostics, hmark, hend, hframe⟩
  · exact Or.inl herror
  refine Or.inr ⟨p, q, hp, hq, hdiagnostics, ?_, fun e => ?_⟩
  · rw [← (of_parse_eq_ok hp).1.content_eq, ← (of_parse_eq_ok hq).1.content_eq, hframe,
      Sheet.content_reframe]
  obtain ⟨-, hpd, hps⟩ := (Document.Origin.parsed hp).after steps
  obtain ⟨-, hqd, hqs⟩ := (Document.Origin.parsed hq).after steps
  rw [hframe, Sheet.after_reframe hclear, ← hqs] at hps
  -- the steps leave the flags of the second document as its text set them
  obtain ⟨-, hqend, hqmark⟩ := Sheet.edges_after (d := d) hclear q.document.sheet
  rw [← hqs] at hqend hqmark
  have hqrender := Sheet.render_roundTrip_unmarked (d := d) (hqmark.trans hmark) e
  simp only [Document.render_eq, hpd, hqd, hps]
  refine ⟨Sheet.render_canonical_reframe _ _ _ e, fun hne => ?_, fun hempty => ?_⟩
  · rw [Sheet.render_roundTrip_reframe, hqrender, hqend, hend, Text.isClosed_cons hne]
  · subst hempty
    rw [Sheet.render_roundTrip_reframe, hqrender, hqend, hend]
    rcases e.join_closed_or ((q.document.after steps).sheet.lines d .roundTrip) with
      ⟨htrue, hfalse⟩ | hboth
    · exact Or.inl ⟨htrue, congrArg (bom :: ·) hfalse⟩
    · exact Or.inr (congrArg (bom :: ·) hboth)

/-- The last line of the text has no ending, and neither has the key that is added to it. -/
theorem transparent_mark_sample :
    ∃ p q, parse .standard (bom :: "a = 1".toList) = .ok p ∧ parse .standard "a = 1".toList = .ok q ∧
      p.document.content = q.document.content ∧
      (p.document.after [.edit (.set [] ['k'] ['v'])]).render ⟨.roundTrip, .crlf⟩ =
        bom :: (q.document.after [.edit (.set [] ['k'] ['v'])]).render ⟨.roundTrip, .crlf⟩ := by
  have hread : (parse .standard "a = 1".toList).toOption.isSome = true := by decide +kernel
  rcases transparent_mark (show "a = 1".toList.head? ≠ some bom by decide)
      (show ∀ step ∈ [Step.edit (.set [] ['k'] ['v'])], step ≠ .edit .clear by simp) with
    ⟨e, -, herror⟩ | ⟨p, q, hp, hq, -, hcontent, hrender⟩
  · rw [herror] at hread
    exact Bool.noConfusion hread
  · exact ⟨p, q, hp, hq, hcontent, (hrender .crlf).2.1 (by decide)⟩

/-- **A mark with nothing behind it is not transparent**: the key that is added to it stands on a
    line without an ending, while the key that is added to the empty text gets one. -/
theorem mark_alone_leaves_line_open :
    ∃ p q, parse .standard [bom] = .ok p ∧ parse .standard [] = .ok q ∧
      (p.document.after [.edit (.set [] ['k'] ['v'])]).render ⟨.roundTrip, .lf⟩ =
        bom :: "k = v".toList ∧
      (q.document.after [.edit (.set [] ['k'] ['v'])]).render ⟨.roundTrip, .lf⟩ =
        "k = v\n".toList ∧
      (p.document.after [.edit (.set [] ['k'] ['v'])]).render ⟨.roundTrip, .lf⟩ ≠
        bom :: (q.document.after [.edit (.set [] ['k'] ['v'])]).render ⟨.roundTrip, .lf⟩ := by
  have hmark : (parse .standard [bom]).toOption.any (fun p =>
      (p.document.after [.edit (.set [] ['k'] ['v'])]).render ⟨.roundTrip, .lf⟩ ==
        bom :: "k = v".toList) = true := by
    decide +kernel
  have hempty : (parse .standard []).toOption.any (fun q =>
      (q.document.after [.edit (.set [] ['k'] ['v'])]).render ⟨.roundTrip, .lf⟩ ==
        "k = v\n".toList) = true := by
    decide +kernel
  obtain ⟨p, hp, hfirst⟩ := Except.exists_ok_of_any hmark
  obtain ⟨q, hq, hsecond⟩ := Except.exists_ok_of_any hempty
  rw [beq_iff_eq] at hfirst hsecond
  refine ⟨p, q, hp, hq, hfirst, hsecond, ?_⟩
  rw [hfirst, hsecond]
  decide

end IniFile
