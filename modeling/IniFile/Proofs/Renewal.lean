/-
  A cleared document is as good as a new one.

  Clearing drops sections, entries and everything captured, but numbering goes on: the sections made
  later get other identities than they would in a new document, and so do the keys of the global
  section.  These identities never show.  What a document answers and how it is written depends on
  its sheet and its dialect alone, and a cleared document and an empty one are on the same sheet.

  1. **What is observed** — the answers along a list of steps and what is seen after each of them
     (`Document.observed`).
  2. **Documents on one sheet** — every step answers the same on both and leaves them on one sheet
     (`SameSheet.run`), and so the same is observed along every list of steps
     (`SameSheet.observed_eq`).
  3. **Clearing** — puts a document onto the sheet of the empty one (`SameSheet.clear`).
-/
import IniFile.Proofs.ListSimulation

namespace IniFile

/-! ## What is observed -/

/-- What is seen of a document: its content, and the texts that it is written as. -/
def Document.seen (doc : Document) : DocumentContent × (Rendering → Text) :=
  (doc.content, doc.render)

/-- What is observed along a list of steps: each answer, and what is seen after the step. -/
def Document.observed (doc : Document) (steps : List Step) :
    List (Except Error Answer × DocumentContent × (Rendering → Text)) :=
  (doc.runAll steps).map fun r => (r.1, r.2.seen)

theorem Document.observed_cons (doc : Document) (step : Step) (rest : List Step) :
    doc.observed (step :: rest) =
      ((step.run doc).1, (step.run doc).2.seen) :: (step.run doc).2.observed rest := rfl

/-! ## Documents on one sheet -/

namespace Document

/-- Two sound documents of one dialect on one sheet.  Their identities and the numbering of these
    may differ. -/
structure SameSheet (a b : Document) : Prop where
  left : a.Sound
  right : b.Sound
  dialect : a.dialect = b.dialect
  sheet : a.sheet = b.sheet

namespace SameSheet

variable {a b : Document}

theorem content_eq (h : SameSheet a b) : a.content = b.content := by
  rw [← h.left.content_eq, ← h.right.content_eq, h.sheet]

theorem render_eq (h : SameSheet a b) (r : Rendering) : a.render r = b.render r := by
  rw [Document.render_eq, Document.render_eq, h.sheet, h.dialect]

theorem seen_eq (h : SameSheet a b) : a.seen = b.seen :=
  Prod.ext h.content_eq (funext h.render_eq)

/-- Both give the same answer: writing out goes by the sheet, and all else by the lists. -/
theorem answer_eq (h : SameSheet a b) (step : Step) : (step.run a).1 = (step.run b).1 := by
  by_cases hrender : ∃ r, step = .query (.render r)
  · obtain ⟨r, rfl⟩ := hrender
    exact congrArg (fun t => Except.ok (Answer.text t)) (h.render_eq r)
  · have hstep : ∀ r, step ≠ .query (.render r) := fun r hr => hrender ⟨r, hr⟩
    have hleft := h.left.run_step hstep
    have hright := h.right.run_step hstep
    rw [h.dialect, h.content_eq] at hleft
    exact (Prod.ext_iff.mp (hleft.trans hright.symm)).1

/-- **One step** answers the same, and leaves the documents on one sheet. -/
theorem run (h : SameSheet a b) (step : Step) :
    (step.run a).1 = (step.run b).1 ∧ SameSheet (step.run a).2 (step.run b).2 := by
  have hleft := h.left.run step
  have hright := h.right.run step
  refine ⟨h.answer_eq step, hleft.sound, hright.sound, ?_, ?_⟩
  · rw [hleft.dialect, hright.dialect, h.dialect]
  · rw [hleft.sheet, hright.sheet, h.dialect, h.sheet]

/-- **Nothing else is observed** of the one document than of the other. -/
theorem observed_eq (h : SameSheet a b) (steps : List Step) : a.observed steps = b.observed steps := by
  induction steps generalizing a b with
  | nil => rfl
  | cons step rest ih =>
    obtain ⟨hanswer, hnext⟩ := h.run step
    rw [observed_cons, observed_cons, hanswer, hnext.seen_eq, ih hnext]

/-! ## Clearing -/

/-- A cleared document is on the sheet of an empty one of its dialect. -/
theorem clear {doc : Document} (h : doc.Sound) : SameSheet doc.clear (.empty doc.dialect) where
  left := h.clear.1
  right := sound_empty doc.dialect
  dialect := rfl
  sheet := h.clear.2

end SameSheet
end Document

/-- **Clearing makes a document as good as new.**  Whatever has happened to it, once it is cleared
    it looks like an empty document of its dialect, and whatever happens then, every step answers as
    it does there and leaves what it leaves there: the same content, written the same in either style
    with either line ending. -/
theorem cleared_as_good_as_new {d : Dialect} {doc : Document} (horigin : doc.Origin d)
    (steps later : List Step) :
    (Step.run (doc.after steps) (.edit .clear)).2.seen =
        (Document.empty (doc.after steps).dialect).seen ∧
      (Step.run (doc.after steps) (.edit .clear)).2.observed later =
        (Document.empty (doc.after steps).dialect).observed later := by
  have hcleared : (Step.run (doc.after steps) (.edit .clear)).2.SameSheet
      (.empty (doc.after steps).dialect) :=
    .clear (horigin.after steps).1
  exact ⟨hcleared.seen_eq, hcleared.observed_eq later⟩

/-- Neither the mark nor the open last line nor the comment in front of a key comes back with the
    names, though sections are not numbered from the start again. -/
theorem cleared_as_good_as_new_sample :
    ∃ p, parse .standard "\uFEFF[s]\n; c\nk=1".toList = .ok p ∧
      p.document.clear.nextSection ≠ (Document.empty .standard).nextSection ∧
      ((p.document.clear.observed [.edit (.set ['s'] ['k'] ['1'])]).map fun r =>
        r.2.2 ⟨.roundTrip, .lf⟩) = ["[s]\nk = 1\n".toList] := by
  have hread : (parse .standard "\uFEFF[s]\n; c\nk=1".toList).toOption.any (fun p =>
      decide (p.document.dialect = .standard ∧ p.document.clear.nextSection = 2)) = true := by
    decide +kernel
  obtain ⟨p, hparse, hdoc⟩ := Except.exists_ok_of_any hread
  obtain ⟨hdialect, hnext⟩ := of_decide_eq_true hdoc
  have hobserved := (cleared_as_good_as_new (.parsed hparse) []
    [.edit (.set ['s'] ['k'] ['1'])]).2
  refine ⟨p, hparse, ?_, ?_⟩
  · rw [hnext]
    decide
  · refine (congrArg (List.map fun r => r.2.2 ⟨.roundTrip, .lf⟩) hobserved).trans ?_
    rw [show (p.document.after []).dialect = .standard from hdialect]
    decide +kernel

end IniFile
