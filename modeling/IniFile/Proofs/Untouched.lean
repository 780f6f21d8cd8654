/-
  Untouched lines survive.

  A LANDMARK is an entry or a header of a document as it was read, with the lines captured for it.
  A step leaves most landmarks alone; `Step.leaves` says which.

  1. **Landmarks** — of a sheet, in order.
  2. **What steps leave alone** — by name and key, under the dialect's folding.
  3. **Survival** — the landmarks that a step leaves alone are landmarks of the sheet after it, in
     the same order, and so for a history.
  4. **Blocks** — round-trip output is a sequence of blocks, and every landmark is written as one of
     them.
  5. **Genuine landmarks** — the blocks of what was read from a text are lines of that text.
  6. **The frame** — what stands around the blocks stays too.
  7. **With counters in words** — as long as none overflows, and what happens otherwise.
-/
import Mathlib.Data.List.Basic
import Mathlib.Data.List.Flatten
import IniFile.Proofs.Verbatim
import IniFile.Proofs.WrapAround

namespace IniFile

/-! ## Landmarks -/

/-- The header of a section, or an entry of the section of a name. -/
inductive Landmark where
  | header (name : Text) (line : HeaderLine)
  | entry (sectionName : Text) (e : SheetEntry)

/-- The lines captured for a landmark. -/
def Landmark.block : Landmark → List Text
  | .header _ line => line.block
  | .entry _ e => e.block

/-- The landmarks of a section: its header, if one was captured, and its entries. -/
def SheetSection.landmarks (s : SheetSection) : List Landmark :=
  (s.header?.map (.header s.name)).toList ++ s.entries.map (.entry s.name)

/-- The landmarks of a sheet, in order. -/
def Sheet.landmarks (S : Sheet) : List Landmark :=
  S.global.map (.entry []) ++ S.sections.flatMap SheetSection.landmarks

/-! ## What steps leave alone -/

/-- Does a change of a section leave the entry of the key alone? -/
def SectionEdit.leaves (d : Dialect) (edit : SectionEdit) (key : Text) : Bool :=
  match edit with
  | .insert k _ | .set k _ | .setScalar k _ | .append k _ | .remove k | .pushIfPresent k _
  | .setValue k _ | .setComment k _ => !d.sameKey key k
  | .clear | .pushAll _ => false

/-- Does a step leave the landmark alone?  It does not if it addresses the key of an entry, or all
    the entries of its section, or takes its section out. -/
def Step.leaves (d : Dialect) : Step → Landmark → Bool
  | .query _, _ => true
  | .edit .clear, _ => false
  | .edit (.removeSection name), .header s _ => !d.sameSection s name
  | .edit (.removeSection name), .entry s _ => !d.sameSection s name
  | .edit (.insertSection _), _ => true
  | .edit (.ensureSection _), _ => true
  | .edit _, .header _ _ => true
  | .edit (.set name key _), .entry s e => !(d.sameSection s name && d.sameKey e.key key)
  | .edit (.setScalar name key _), .entry s e => !(d.sameSection s name && d.sameKey e.key key)
  | .edit (.remove name key), .entry s e => !(d.sameSection s name && d.sameKey e.key key)
  | .edit (.setIfSection name key _), .entry s e => !(d.sameSection s name && d.sameKey e.key key)
  | .edit (.setEverywhere key _), .entry s e => s.isEmpty || !d.sameKey e.key key
  | .edit (.inSection name change), .entry s e => !d.sameSection s name || change.leaves d e.key

/-! ## Survival -/

/-- The change leaves the members alone that `p` does not pick: they stay, in their order. -/
def LeavesOthers (p : SheetEntry → Bool) (g : List SheetEntry → List SheetEntry) : Prop :=
  ∀ es : List SheetEntry, (es.filter fun e => !p e).Sublist (g es)

section Rosters

variable {α : Type}

theorem filter_sublist_change (p : α → Bool) (f : α → α) (l : List α) :
    (l.filter fun a => !p a).Sublist (Roster.change p f l) := by
  induction l with
  | nil => exact List.Sublist.refl _
  | cons a rest ih =>
    show List.Sublist _ ((if p a then f a else a) :: Roster.change p f rest)
    by_cases hp : p a = true
    · rw [List.filter_cons_of_neg (by simp [hp])]
      exact ih.cons _
    · rw [List.filter_cons_of_pos (by simpa using hp), if_neg hp]
      exact ih.cons_cons a

theorem filter_sublist_upsert (p : α → Bool) (f : α → α) (fresh : α) (l : List α) :
    (l.filter fun a => !p a).Sublist (Roster.upsert p f fresh l) := by
  unfold Roster.upsert
  split
  · exact filter_sublist_change p f l
  · exact List.filter_sublist.trans (List.sublist_append_left l [fresh])

end Rosters

theorem SectionEdit.leavesOthers (d : Dialect) (edit : SectionEdit) :
    LeavesOthers (fun e => !edit.leaves d e.key) (edit.onEntries d) := by
  have hnot : ∀ key : Text, (fun e : SheetEntry => !!!d.sameKey e.key key) =
      fun e => !d.isKey key e := by
    intro key
    funext e
    rw [Bool.not_not]
    rfl
  intro es
  cases edit with
  | insert key value => exact hnot key ▸ filter_sublist_upsert _ _ _ es
  | set key value => exact hnot key ▸ filter_sublist_upsert _ _ _ es
  | setScalar key x => exact hnot key ▸ filter_sublist_upsert _ _ _ es
  | append key value => exact hnot key ▸ filter_sublist_upsert _ _ _ es
  | remove key => exact hnot key ▸ List.Sublist.refl _
  | clear => simp [leaves, onEntries]
  | pushIfPresent key value => exact hnot key ▸ filter_sublist_change _ _ es
  | pushAll value => simp [leaves]
  | setValue key value => exact hnot key ▸ filter_sublist_change _ _ es
  | setComment key comment => exact hnot key ▸ filter_sublist_change _ _ es

namespace Sheet

variable {d : Dialect} {S : Sheet} {keep : Landmark → Bool} {p : SheetEntry → Bool}
  {g : List SheetEntry → List SheetEntry} {name : Text}

/-- A change of some entries keeps the landmarks of the others. -/
theorem entries_survive (hg : LeavesOthers p g) (name : Text) {es : List SheetEntry}
    (hkeep : ∀ e, keep (.entry name e) = true → p e = false) :
    ((es.map (Landmark.entry name)).filter keep).Sublist ((g es).map (Landmark.entry name)) := by
  rw [List.filter_map]
  refine List.Sublist.map _ (List.Sublist.trans ?_ (hg es))
  apply List.monotone_filter_right es
  intro e he
  rw [hkeep e he]
  rfl

/-- A change of a section keeps the landmarks of what it leaves alone. -/
theorem section_survives (hg : LeavesOthers p g) (s : SheetSection)
    (hkeep : ∀ e, keep (.entry s.name e) = true → p e = false) :
    (s.landmarks.filter keep).Sublist (s.mapEntries g).landmarks := by
  unfold SheetSection.landmarks
  rw [List.filter_append]
  exact List.filter_sublist.append (entries_survive hg s.name hkeep)

theorem sections_survive (hg : LeavesOthers p g)
    (hkeep : ∀ s e, d.sameSection s name = true → keep (.entry s e) = true → p e = false)
    (ss : List SheetSection) :
    ((ss.flatMap SheetSection.landmarks).filter keep).Sublist
      ((Roster.change (d.isSection name) (.mapEntries g) ss).flatMap SheetSection.landmarks) := by
  rw [List.filter_flatMap, Roster.change, List.flatMap_map]
  apply List.Sublist.flatMap_right ss
  intro s _
  by_cases hs : d.isSection name s = true
  · rw [if_pos hs]
    exact section_survives hg s fun e => hkeep s.name e hs
  · rw [if_neg hs]
    exact List.filter_sublist

theorem changeSection_survives (hg : LeavesOthers p g)
    (hkeep : ∀ s e, d.sameSection s name = true → keep (.entry s e) = true → p e = false) :
    (S.landmarks.filter keep).Sublist (S.changeSection d name g).landmarks := by
  unfold landmarks changeSection
  rw [List.filter_append]
  cases hname : name.isEmpty with
  | true =>
    obtain rfl := List.isEmpty_iff.mp hname
    exact (entries_survive hg [] fun e => hkeep [] e (d.sameSection_refl [])).append
      List.filter_sublist
  | false => exact List.filter_sublist.append (sections_survive hg hkeep S.sections)

theorem upsertSection_survives (hg : LeavesOthers p g)
    (hkeep : ∀ s e, d.sameSection s name = true → keep (.entry s e) = true → p e = false) :
    (S.landmarks.filter keep).Sublist (S.upsertSection d name g).landmarks := by
  cases hhas : S.hasSection d name with
  | true =>
    rw [upsertSection_of_hasSection hhas]
    exact changeSection_survives hg hkeep
  | false =>
    rw [upsertSection_of_not_hasSection hhas]
    unfold landmarks
    rw [List.flatMap_append, ← List.append_assoc]
    exact List.filter_sublist.trans (List.sublist_append_left _ _)

/-- Nothing is left of entries of which none is to be kept. -/
theorem filter_entries_eq_nil {name : Text} (hentry : ∀ e, keep (.entry name e) = false)
    (es : List SheetEntry) : (es.map (Landmark.entry name)).filter keep = [] := by
  rw [List.filter_eq_nil_iff]
  intro l hl
  obtain ⟨e, -, rfl⟩ := List.mem_map.mp hl
  rw [hentry e]
  exact Bool.false_ne_true

theorem eraseSection_survives
    (hheader : ∀ s line, d.sameSection s name = true → keep (.header s line) = false)
    (hentry : ∀ s e, d.sameSection s name = true → keep (.entry s e) = false) :
    (S.landmarks.filter keep).Sublist (S.eraseSection d name).landmarks := by
  unfold landmarks eraseSection
  rw [List.filter_append]
  cases hname : name.isEmpty with
  | true =>
    obtain rfl := List.isEmpty_iff.mp hname
    rw [filter_entries_eq_nil fun e => hentry [] e (d.sameSection_refl [])]
    exact List.filter_sublist
  | false =>
    refine List.filter_sublist.append ?_
    show ((S.sections.flatMap _).filter keep).Sublist ((Roster.erase _ S.sections).flatMap _)
    induction S.sections with
    | nil => exact List.Sublist.refl _
    | cons s rest ih =>
      rw [List.flatMap_cons, List.filter_append]
      by_cases hs : d.isSection name s = true
      · have hgone : s.landmarks.filter keep = [] := by
          rw [SheetSection.landmarks, List.filter_append,
            filter_entries_eq_nil fun e => hentry s.name e hs, List.append_nil]
          cases s.header? with
          | none => rfl
          | some line => exact List.filter_cons_of_neg (by rw [hheader s.name line hs]; simp)
        rw [hgone, Roster.erase, List.filter_cons_of_neg (by simp [hs])]
        exact ih
      · rw [Roster.erase, List.filter_cons_of_pos (by simpa using hs), List.flatMap_cons]
        exact List.filter_sublist.append ih

theorem mapSections_survives (hg : LeavesOthers p g) (hnamed : ∀ s ∈ S.sections, s.name ≠ [])
    (hkeep : ∀ s e, s ≠ [] → keep (.entry s e) = true → p e = false) :
    (S.landmarks.filter keep).Sublist
      ({ S with sections := S.sections.map (.mapEntries g) } : Sheet).landmarks := by
  unfold landmarks
  rw [List.filter_append]
  refine List.filter_sublist.append ?_
  show List.Sublist _ ((S.sections.map (.mapEntries g)).flatMap SheetSection.landmarks)
  rw [List.filter_flatMap, List.flatMap_map]
  exact List.Sublist.flatMap_right S.sections fun s hs =>
    section_survives hg s fun e => hkeep s.name e (hnamed s hs)

/-- **A step keeps the landmarks that it leaves alone**, in their order. -/
theorem landmarks_onSheet (hnamed : ∀ s ∈ S.sections, s.name ≠ []) (step : Step) :
    (S.landmarks.filter (step.leaves d)).Sublist (step.onSheet d S).landmarks := by
  have hset : ∀ key value, LeavesOthers (d.isKey key) (d.setKey key value) := by
    intro key value es
    exact filter_sublist_upsert _ _ _ es
  have hboth : ∀ {name key : Text} {s : Text} {e : SheetEntry}, d.sameSection s name = true →
      (!(d.sameSection s name && d.sameKey e.key key)) = true → d.isKey key e = false := by
    intro name key s e hs hkeep
    rw [hs, Bool.true_and] at hkeep
    exact Bool.not_eq_true' _ ▸ hkeep
  cases step with
  | query q => exact List.filter_sublist
  | edit edit =>
    cases edit with
    | set name key value => exact upsertSection_survives (hset key value) fun s e hs => hboth hs
    | setScalar name key x => exact upsertSection_survives (hset key x.raw) fun s e hs => hboth hs
    | remove name key =>
      exact changeSection_survives (fun es => List.Sublist.refl _) fun s e hs => hboth hs
    | clear =>
      have hnone : S.landmarks.filter (Step.leaves d (.edit .clear)) = [] :=
        List.filter_eq_nil_iff.mpr fun l _ => by simp [Step.leaves]
      rw [hnone]
      exact List.nil_sublist _
    | insertSection name =>
      have hall : LeavesOthers (fun _ => false) id := by
        intro es
        exact List.filter_sublist
      exact upsertSection_survives hall fun _ _ _ _ => rfl
    | ensureSection name =>
      have hall : LeavesOthers (fun _ => false) id := by
        intro es
        exact List.filter_sublist
      exact upsertSection_survives hall fun _ _ _ _ => rfl
    | removeSection name =>
      refine eraseSection_survives (fun s line hs => ?_) fun s e hs => ?_
      · show (!d.sameSection s name) = false
        rw [hs]
        rfl
      · show (!d.sameSection s name) = false
        rw [hs]
        rfl
    | setEverywhere key value =>
      apply mapSections_survives (hset key value) hnamed
      intro s e hs hkeep
      have hkey : (s.isEmpty || !d.sameKey e.key key) = true := hkeep
      rw [List.isEmpty_eq_false_iff.mpr hs, Bool.false_or] at hkey
      exact Bool.not_eq_true' _ ▸ hkey
    | inSection name change =>
      apply changeSection_survives (change.leavesOthers d)
      intro s e hs hkeep
      have hkey : (!d.sameSection s name || change.leaves d e.key) = true := hkeep
      rw [hs] at hkey
      show (!change.leaves d e.key) = false
      rw [show change.leaves d e.key = true from hkey]
      rfl
    | setIfSection name key value =>
      exact changeSection_survives (hset key value) fun s e hs => hboth hs

/-- **A history keeps the landmarks that all of its steps leave alone**, in their order. -/
theorem landmarks_after (steps : List Step) {S : Sheet} (hnamed : ∀ s ∈ S.sections, s.name ≠ []) :
    (S.landmarks.filter fun l => steps.all (·.leaves d l)).Sublist (S.after d steps).landmarks := by
  induction steps generalizing S with
  | nil => exact List.filter_sublist
  | cons step rest ih =>
    -- steps never make a section without a name, which is what sets the global one apart
    have hall : S.All (fun _ => True) fun name _ => name ≠ [] :=
      ⟨fun _ _ => trivial, fun _ _ _ _ => trivial, hnamed⟩
    have hnext := (hall.onSheet (d := d) ⟨fun _ _ _ => trivial, fun _ _ _ => trivial, fun _ _ => trivial⟩
      step (fun _ _ _ => trivial) (fun _ _ _ _ => trivial) fun _ _ hne => hne).headers
    have hsplit : (S.landmarks.filter fun l => (step :: rest).all (·.leaves d l)) =
        (S.landmarks.filter (step.leaves d)).filter fun l => rest.all (·.leaves d l) := by
      rw [List.filter_filter]
      exact List.filter_congr fun l _ => Bool.and_comm _ _
    rw [hsplit]
    exact ((landmarks_onSheet hnamed step).filter _).trans (ih hnext)

/-! ## Blocks -/

/-- The blocks of lines that round-trip output puts down for sections. -/
def sectionBlocks (d : Dialect) : Bool → List SheetSection → List (List Text)
  | _, [] => []
  | written, s :: rest =>
    s.headerLines .roundTrip written :: s.entries.map (SheetEntry.render d .roundTrip) ++
      sectionBlocks d true rest

/-- The blocks of lines that round-trip output puts down, one for each header and each entry. -/
def blocks (d : Dialect) (S : Sheet) : List (List Text) :=
  S.global.map (SheetEntry.render d .roundTrip) ++
    sectionBlocks d (!(S.globalLines d .roundTrip).isEmpty) S.sections

theorem flatten_blocks (S : Sheet) :
    (S.blocks d).flatten ++ S.trailing = S.lines d .roundTrip := by
  have hsections : ∀ (ss : List SheetSection) (flag : Bool),
      (sectionBlocks d flag ss).flatten = sectionLines d .roundTrip flag ss := by
    intro ss
    induction ss with
    | nil =>
      intro _
      rfl
    | cons s rest ih =>
      intro flag
      rw [sectionBlocks, sectionLines, SheetSection.render, List.flatten_append, List.flatten_cons, ih,
        List.flatMap_def]
  rw [blocks, lines, List.flatten_append, hsections, globalLines, List.flatMap_def]
  rfl

end Sheet

/-- The lines that round-trip output puts down for a landmark. -/
def Landmark.render (d : Dialect) : Landmark → List Text
  | .header _ line => line.block
  | .entry _ e => e.render d .roundTrip

/-- Every landmark is put down as a block of its own, in their order. -/
theorem Sheet.render_landmarks_sublist (d : Dialect) (S : Sheet) :
    (S.landmarks.map (Landmark.render d)).Sublist (S.blocks d) := by
  have hentries : ∀ (name : Text) (es : List SheetEntry),
      (es.map (Landmark.entry name)).map (Landmark.render d) = es.map (SheetEntry.render d .roundTrip) := by
    intro name es
    rw [List.map_map]
    rfl
  have hsections : ∀ (ss : List SheetSection) (flag : Bool),
      ((ss.flatMap SheetSection.landmarks).map (Landmark.render d)).Sublist
        (sectionBlocks d flag ss) := by
    intro ss
    induction ss with
    | nil =>
      intro _
      exact List.Sublist.refl _
    | cons s rest ih =>
      intro flag
      rw [List.flatMap_cons, List.map_append, sectionBlocks, SheetSection.landmarks, List.map_append,
        hentries]
      refine List.Sublist.append ?_ (ih true)
      cases hheader : s.header? with
      | none => exact List.sublist_cons_self _ _
      | some line =>
        rw [SheetSection.headerLines_captured hheader, SheetSection.headerBlock, hheader]
        exact List.Sublist.refl _
  rw [landmarks, List.map_append, hentries, blocks]
  exact (List.Sublist.refl _).append (hsections S.sections _)

/-- The blocks of all landmarks are all that was captured in front of what is trailing. -/
theorem Sheet.flatMap_landmarks (S : Sheet) : S.landmarks.flatMap Landmark.block = S.page := by
  have hentries : ∀ (name : Text) (es : List SheetEntry),
      (es.map (Landmark.entry name)).flatMap Landmark.block = es.flatMap SheetEntry.block :=
    fun name es => List.flatMap_map _ _ es
  have hsection : ∀ s : SheetSection, s.landmarks.flatMap Landmark.block = s.block := by
    intro s
    rw [SheetSection.landmarks, List.flatMap_append, hentries, SheetSection.block,
      SheetSection.headerBlock]
    cases s.header? with
    | none => rfl
    | some line => exact congrArg (· ++ _) (List.append_nil _)
  rw [landmarks, List.flatMap_append, hentries, page, List.flatMap_assoc]
  exact congrArg _ (List.flatMap_congr fun s _ => hsection s)

/-! ## Genuine landmarks -/

/-- The landmark was read from the lines `src`: they include the lines captured for it, these are
    what `Kept` asks for, and an entry has the values and the comment of its lines. -/
def Landmark.Genuine (d : Dialect) (src : List Text) : Landmark → Prop
  | .header name line => line.Kept d name ∧ ∀ l ∈ line.block, l ∈ src
  | .entry _ e => e.Read d ∧ ∀ l ∈ e.block, l ∈ src

/-- `P` holds of the entry, or `Q` of the name and the header. -/
def Landmark.Holds (P : SheetEntry → Prop) (Q : Text → Option HeaderLine → Prop) : Landmark → Prop
  | .header name line => Q name (some line)
  | .entry _ e => P e

/-- What holds of all entries and headers holds of all landmarks. -/
theorem Sheet.All.landmark {P : SheetEntry → Prop} {Q : Text → Option HeaderLine → Prop} {S : Sheet}
    (h : S.All P Q) {l : Landmark} (hl : l ∈ S.landmarks) : l.Holds P Q := by
  rcases List.mem_append.mp hl with hl | hl
  · obtain ⟨e, he, rfl⟩ := List.mem_map.mp hl
    exact h.global e he
  · obtain ⟨s, hs, hl⟩ := List.mem_flatMap.mp hl
    rcases List.mem_append.mp hl with hl | hl
    · obtain ⟨line, hline, rfl⟩ := Option.map_eq_some_iff.mp (Option.mem_toList.mp hl)
      show Q s.name (some line)
      rw [← hline]
      exact h.headers s hs
    · obtain ⟨e, he, rfl⟩ := List.mem_map.mp hl
      exact h.entries s hs e he

namespace SheetEntry

theorem block_ofLine (key : Text) (line : EntryLine) : (ofLine key line).block = line.block :=
  List.append_nil _

/-- Filing a line loses none but the raw lines that it replaces, and brings in no others than its
    own. -/
theorem mem_block_file {policy : KeyPolicy} {line : EntryLine} {e : SheetEntry} {l : Text}
    (h : l ∈ (e.file policy line).block) : l ∈ e.block ∨ l ∈ line.block := by
  have hreplace : ∀ old : List EntryLine,
      l ∈ old.flatMap EntryLine.leading ++ line.leading ++ [line.raw] →
        l ∈ old.flatMap EntryLine.block ∨ l ∈ line.block := by
    intro old hl
    rw [List.append_assoc] at hl
    rcases List.mem_append.mp hl with hl | hl
    · obtain ⟨o, ho, hmem⟩ := List.mem_flatMap.mp hl
      exact Or.inl (List.mem_flatMap.mpr ⟨o, ho, List.mem_append_left _ hmem⟩)
    · exact Or.inr hl
  cases policy with
  | append =>
    have hall : l ∈ (e.lines ++ [line]).flatMap EntryLine.block := h
    rw [List.flatMap_append, List.flatMap_singleton] at hall
    exact List.mem_append.mp hall
  | overwrite => exact hreplace e.lines (by simpa [file, EntryLine.file, block, EntryLine.block] using h)
  | reject => exact hreplace e.lines (by simpa [file, EntryLine.file, block, EntryLine.block] using h)

end SheetEntry

/-- Every line is captured as it stands. -/
theorem Draft.allows_source {d : Dialect} {src : List Text} {raw : Text} (hraw : raw ∈ src) :
    Draft.Allows d (fun e => ∀ l ∈ e.block, l ∈ src)
      (fun _ header? => ∀ line, header? = some line → ∀ l ∈ line.block, l ∈ src) (· ∈ src) raw
      (Line.scan d raw).1 := by
  have hline : ∀ {waiting : List Text} {l : Text}, (∀ w ∈ waiting, w ∈ src) →
      l ∈ waiting ++ [raw] → l ∈ src := by
    intro waiting l hwaiting hl
    rcases List.mem_append.mp hl with hl | hl
    · exact hwaiting l hl
    · rw [List.mem_singleton.mp hl]
      exact hraw
  constructor
  · intro _
    exact hraw
  · intro _ _
    exact hraw
  · rintro name c waiting - - hwaiting line ⟨⟩ l hl
    exact hline hwaiting hl
  · intro key value c waiting _ hwaiting l hl
    rw [SheetEntry.block_ofLine] at hl
    exact hline hwaiting hl
  · intro key value c waiting e _ hwaiting he _ l hl
    rcases SheetEntry.mem_block_file hl with hl | hl
    · exact he l hl
    · exact hline hwaiting hl

/-- All that is captured are lines of the text. -/
theorem Draft.source_ofText (d : Dialect) (text : Text) :
    (Draft.ofText d text).1.sheet.All (fun e => ∀ l ∈ e.block, l ∈ Text.lines (Text.dropBom text))
      fun _ header? => ∀ line, header? = some line →
        ∀ l ∈ line.block, l ∈ Text.lines (Text.dropBom text) :=
  (Draft.all_start.read fun _ hraw => Draft.allows_source hraw).sheet

/-- **The landmarks of a text are genuine.** -/
theorem genuine_of_parse {d : Dialect} {text : Text} {p : Parsed} (h : parse d text = .ok p) :
    ∀ l ∈ p.document.sheet.landmarks, l.Genuine d (Text.lines (Text.dropBom text)) := by
  obtain ⟨-, -, hsheet, -⟩ := of_parse_eq_ok h
  intro l hl
  have hread := (read_of_parse h).1.landmark hl
  rw [hsheet] at hl
  have hlines := (Draft.source_ofText d text).landmark (l := l) hl
  cases l with
  | header name line =>
    exact ⟨HeaderLine.kept_of_eq_some hread.kept rfl, hlines _ rfl⟩
  | entry name e => exact ⟨hread, hlines⟩

/-! ## The frame -/

/-- The text of blocks of lines, in front of what is trailing, between the mark and the end that the
    sheet has. -/
def Sheet.frame (S : Sheet) (ending : LineEnding) (blocks : List (List Text)) : Text :=
  S.mark .roundTrip ++ ending.join S.finalNewline (blocks.flatten ++ S.trailing)

/-- The frame changes only when everything is taken out. -/
theorem Sheet.frame_after {d : Dialect} {steps : List Step}
    (hclear : ∀ step ∈ steps, step ≠ .edit .clear) (S : Sheet) :
    (S.after d steps).frame = S.frame := by
  obtain ⟨htrailing, hclosed, hbom⟩ := edges_after (d := d) hclear S
  funext ending blocks
  rw [frame, frame, htrailing, hclosed, mark, mark, hbom]

/-- The landmarks that no step touched are still written as their blocks, in order, as long as not
    everything is taken out. -/
theorem blocks_after {d : Dialect} {text : Text} {p : Parsed} (h : parse d text = .ok p)
    {steps : List Step} (hclear : ∀ step ∈ steps, step ≠ .edit .clear) (ending : LineEnding) :
    p.document.render ⟨.roundTrip, ending⟩ =
        p.document.sheet.frame ending (p.document.sheet.landmarks.map Landmark.block) ∧
      ∃ blocks : List (List Text),
        ((p.document.sheet.landmarks.filter fun l => steps.all (·.leaves d l)).map
          Landmark.block).Sublist blocks ∧
        (p.document.after steps).render ⟨.roundTrip, ending⟩ =
          p.document.sheet.frame ending blocks := by
  have horigin : p.document.Origin d := .parsed h
  obtain ⟨hall, -⟩ := read_of_parse h
  obtain ⟨-, hdialect, hsheet⟩ := horigin.after steps
  have hnamed : ∀ s ∈ p.document.sheet.sections, s.name ≠ [] := by
    intro s hs
    exact (hall.headers s hs).written.nonempty
  have hplain : p.document.sheet.All SheetEntry.Matches fun _ header? => ∃ line, header? = some line :=
    hall.mono (fun _ he => he.fits) fun _ _ hheader => hheader.kept.imp fun _ hline => hline.1
  -- an entry that was read is written as its block for as long as it is not touched
  have hblock : ∀ l ∈ p.document.sheet.landmarks, l.render d = l.block := by
    intro l hl
    have hread := hall.landmark hl
    cases l with
    | header name line => rfl
    | entry name e => exact hread.fits.render_eq d
  refine ⟨?_, (p.document.sheet.after d steps).blocks d, ?_, ?_⟩
  · rw [Document.render_eq, horigin.sound.2, Sheet.render, Sheet.lines_roundTrip hplain, Sheet.frame,
      ← List.flatMap_def, Sheet.flatMap_landmarks]
    rfl
  · have hsurvive := (Sheet.landmarks_after (d := d) steps hnamed).map (Landmark.render d)
    rw [List.map_congr_left fun l hl => hblock l (List.mem_filter.mp hl).1] at hsurvive
    exact hsurvive.trans (Sheet.render_landmarks_sublist d _)
  · rw [Document.render_eq, hdialect, hsheet, Sheet.render, ← Sheet.frame_after hclear, Sheet.frame,
      Sheet.flatten_blocks]
    rfl

/-! ## With counters in words -/

/-- **Untouched lines survive**: as long as not everything is taken out and no counter overflows, the
    landmarks that no step touched are still written as the blocks of source lines that were captured
    for them, in the order that they had when nothing was edited, within the same frame.  Programs do
    not differ in this, whatever they do on overflow. -/
theorem untouched_blocks_survive {d : Dialect} {text : Text} {p : Parsed} {last : Document}
    {steps : List Step} (h : parseInWords .stops d text = some (.ok p))
    (hlast : p.document.afterInWords .stops steps = some last)
    (hclear : ∀ step ∈ steps, step ≠ .edit .clear) (ending : LineEnding) (o : Overflow) :
    (parseInWords o d text = some (.ok p) ∧ p.document.afterInWords o steps = some last) ∧
      (∀ l ∈ p.document.sheet.landmarks, l.Genuine d (Text.lines (Text.dropBom text))) ∧
      p.document.render ⟨.roundTrip, ending⟩ =
        p.document.sheet.frame ending (p.document.sheet.landmarks.map Landmark.block) ∧
      ∃ blocks : List (List Text),
        ((p.document.sheet.landmarks.filter fun l => steps.all (·.leaves d l)).map
          Landmark.block).Sublist blocks ∧
        last.render ⟨.roundTrip, ending⟩ = p.document.sheet.frame ending blocks := by
  obtain ⟨hparse, hread⟩ := parseInWords_of_stops h
  obtain ⟨rfl, hevery⟩ := Document.afterInWords_of_stops hlast
  exact ⟨⟨hread o, hevery o⟩, genuine_of_parse hparse, blocks_after hparse hclear ending⟩

/-- A header with a comment above it, and the entry after one that is set, stay as they are. -/
theorem untouched_blocks_survive_sample :
    ∃ p last, parseInWords .wraps .standard "; t\n[s]\na=1\n\n b = '2' # c".toList = some (.ok p) ∧
      p.document.afterInWords .wraps [.edit (.set ['s'] ['a'] ['9'])] = some last ∧
      ∃ blocks, [["; t".toList, "[s]".toList], [[], " b = '2' # c".toList]].Sublist blocks ∧
        last.render ⟨.roundTrip, .lf⟩ = p.document.sheet.frame .lf blocks := by
  have hread : (parseInWords .stops .standard "; t\n[s]\na=1\n\n b = '2' # c".toList).any (fun read =>
      read.toOption.any fun p =>
        (p.document.afterInWords .stops [.edit (.set ['s'] ['a'] ['9'])]).isSome &&
          (p.document.sheet.landmarks.filter fun l =>
            [Step.edit (.set ['s'] ['a'] ['9'])].all (·.leaves .standard l)).map Landmark.block ==
              [["; t".toList, "[s]".toList], [[], " b = '2' # c".toList]]) = true := by
    decide +kernel
  obtain ⟨p, hparse, htest⟩ := exists_parseInWords_of_any hread
  obtain ⟨hsteps, hkept⟩ := Bool.and_eq_true_iff.mp htest
  obtain ⟨last, hlast⟩ := Option.isSome_iff_exists.mp hsteps
  have hclear : ∀ step ∈ [Step.edit (.set ['s'] ['a'] ['9'])], step ≠ .edit .clear := by
    rintro step hstep rfl
    exact absurd (List.mem_singleton.mp hstep) nofun
  obtain ⟨⟨hwraps, hedited⟩, -, -, blocks, hblocks, hrender⟩ :=
    untouched_blocks_survive hparse hlast hclear .lf .wraps
  rw [eq_of_beq hkept] at hblocks
  exact ⟨p, last, hwraps, hedited, blocks, hblocks, hrender⟩

/-- Where values are overwritten, only the last line of a key is kept.  And where a counter has wrapped
    around, a new entry can have the number of one that was read, and when that entry is removed, it
    takes the line of the other one with it, which no step has touched. -/
theorem block_not_kept :
    (∃ p, (tokens .standard "a = 1\na = 2\n".toList).map Token.content =
        [.entry ['a'] ['1'] none, .entry ['a'] ['2'] none] ∧
      parseInWords .stops .standard "a = 1\na = 2\n".toList = some (.ok p) ∧
      p.document.render ⟨.roundTrip, .lf⟩ = "a = 2\n".toList) ∧
      let steps := Step.churn ['x'] 4294967295 ++
        [.edit (.set [] ['y'] ['1']), .edit (.remove [] ['y'])]
      ∃ p last l, parseInWords .wraps .standard "a=1\n".toList = some (.ok p) ∧
        p.document.afterInWords .wraps steps = some last ∧
        (∀ step ∈ steps, step ≠ .edit .clear ∧ step.leaves .standard l = true) ∧
        l ∈ p.document.sheet.landmarks ∧ l.block = ["a=1".toList] ∧
        last.render ⟨.roundTrip, .lf⟩ = "a = 1\n".toList := by
  constructor
  · have hread : (parseInWords .stops .standard "a = 1\na = 2\n".toList).any (fun read =>
        read.toOption.any fun p => p.document.render ⟨.roundTrip, .lf⟩ == "a = 2\n".toList) = true := by
      decide +kernel
    obtain ⟨p, hparse, hrender⟩ := exists_parseInWords_of_any hread
    exact ⟨p, by decide +kernel, hparse, eq_of_beq hrender⟩
  · intro steps
    have hread : (parseInWords .wraps .standard "a=1\n".toList).any (fun read =>
        read.toOption.any fun p =>
          (!p.document.global.contains ['x'] && p.document.global.nextEntry + 4294967295 == UInt32.size) &&
            ((p.document.renumbered 0).afterInWords .wraps
              [.edit (.set [] ['y'] ['1']), .edit (.remove [] ['y'])]).any fun last =>
                last.render ⟨.roundTrip, .lf⟩ == "a = 1\n".toList &&
                  p.document.sheet.landmarks.any fun l => l.block == ["a=1".toList] &&
                    [Step.edit (.set [] ['x'] ['9']), .edit (.inSection [] (.remove ['x'])),
                      .edit (.set [] ['y'] ['1']), .edit (.remove [] ['y'])].all (·.leaves .standard l)) =
        true := by
      decide +kernel
    obtain ⟨p, last, hp, hlast, htest⟩ := exists_around hread
    obtain ⟨hrender, htest⟩ := Bool.and_eq_true_iff.mp htest
    obtain ⟨l, hl, htest⟩ := List.any_eq_true.mp htest
    obtain ⟨hblock, hleaves⟩ := Bool.and_eq_true_iff.mp htest
    refine ⟨p, last, l, hp, hlast, fun step hstep => ⟨?_, ?_⟩, hl, eq_of_beq hblock, eq_of_beq hrender⟩
    · rintro rfl
      exact absurd (Step.mem_around hstep) (by simp)
    · exact List.all_eq_true.mp hleaves step (Step.mem_around hstep)

end IniFile
