/-
  From lines to a text and back.

  `LineEnding.join` is the text of a list of lines.  Whether the LAST line has an ending is a choice
  of its own, because a text may stop without one.

  1. **Reading back** — the lines of a joined text are the lines that were joined, except that a
     carriage return at the end of a line is taken for a part of a line feed's ending
     (`lines_join_closed`, `lines_join_open`).
  2. **Putting together** — every text is the join of its pieces (`join_pieces`); with carriage
     returns in all the right places it is also the join of its lines (`join_crlf_dropReturn`).

  Mathlib-free.
-/
import IniFile.Document.Page

namespace IniFile

/-- The text of lines.  The last one has an ending too if `closed`. -/
def LineEnding.join (e : LineEnding) (closed : Bool) : List Text → Text
  | [] => []
  | [l] => if closed then l ++ e.text else l
  | l :: m :: rest => l ++ e.text ++ e.join closed (m :: rest)

namespace LineEnding

/-! ## Joins -/

theorem join_cons_closed (e : LineEnding) (l : Text) :
    ∀ ls : List Text, e.join true (l :: ls) = l ++ e.text ++ e.join true ls
  | [] => by simp [join]
  | _ :: _ => rfl

/-- Lines with endings, one after the other. -/
theorem join_closed (e : LineEnding) : ∀ ls : List Text,
    e.join true ls = ls.flatMap fun l => l ++ e.text
  | [] => rfl
  | l :: ls => by rw [join_cons_closed, List.flatMap_cons, join_closed e ls]

/-- An open text is closed up to its last line. -/
theorem join_concat (e : LineEnding) (last : Text) : ∀ init : List Text,
    e.join false (init ++ [last]) = e.join true init ++ last
  | [] => rfl
  | [l] => by simp [join]
  | l :: m :: rest => by
      have ih := join_concat e last (m :: rest)
      rw [List.cons_append, List.cons_append, join, ← List.cons_append, ih,
        join, List.append_assoc _ _ last]

/-- Taking the last ending off a closed text leaves the open one. -/
theorem join_closed_eq (e : LineEnding) {ls : List Text} (h : ls ≠ []) :
    e.join true ls = e.join false ls ++ e.text := by
  obtain ⟨init, last, rfl⟩ := List.eq_nil_or_concat ls |>.resolve_left h
  rw [List.concat_eq_append, join_concat, join_closed, List.flatMap_append, ← join_closed]
  simp

/-- What joins lines is all that a joined text has besides them. -/
theorem mem_of_mem_join {c : Char} {e : LineEnding} {closed : Bool} : ∀ {ls : List Text},
    c ∈ e.join closed ls → c ∈ e.text ∨ ∃ l ∈ ls, c ∈ l
  | [], h => absurd h List.not_mem_nil
  | [l], h => by
      cases closed with
      | false => exact Or.inr ⟨l, List.mem_cons_self, h⟩
      | true =>
        rcases List.mem_append.mp h with h | h
        · exact Or.inr ⟨l, List.mem_cons_self, h⟩
        · exact Or.inl h
  | l :: m :: rest, h => by
      rcases List.mem_append.mp h with h | h
      · rcases List.mem_append.mp h with h | h
        · exact Or.inr ⟨l, List.mem_cons_self, h⟩
        · exact Or.inl h
      · rcases mem_of_mem_join h with h | ⟨k, hk, h⟩
        · exact Or.inl h
        · exact Or.inr ⟨k, List.mem_cons_of_mem _ hk, h⟩

end LineEnding

namespace Text

/-! ## Reading lines back -/

/-- The lines of a piece of text that ends at a line feed. -/
theorem pieces_append_lf {l : Text} (hl : '\n' ∉ l) (t : Text) :
    pieces (l ++ '\n' :: t) = l :: pieces t := by
  induction l with
  | nil => rfl
  | cons c l ih =>
    have hc : c ≠ '\n' := by
      intro h
      exact hl (h ▸ List.mem_cons_self)
    have hrest := ih fun h => hl (List.mem_cons_of_mem c h)
    rw [List.cons_append, pieces, if_neg hc, hrest]

/-- Text without a line feed is one piece, unless it is empty. -/
theorem pieces_of_not_mem {l : Text} (hl : '\n' ∉ l) : pieces l = if l = [] then [] else [l] := by
  induction l with
  | nil => rfl
  | cons c l ih =>
    have hc : c ≠ '\n' := by
      intro h
      exact hl (h ▸ List.mem_cons_self)
    have hrest := ih fun h => hl (List.mem_cons_of_mem c h)
    by_cases hl' : l = []
    · subst hl'; simp [pieces, hc]
    · simp [pieces, hc, hrest, hl']

/-- No piece contains a line feed. -/
theorem not_mem_of_mem_pieces : ∀ {t piece : Text}, piece ∈ pieces t → '\n' ∉ piece
  | [], _, h => by simp [pieces] at h
  | c :: rest, piece, h => by
      by_cases hc : c = '\n'
      · rw [pieces, if_pos hc] at h
        rcases List.mem_cons.mp h with rfl | h
        · simp
        · exact not_mem_of_mem_pieces h
      · rw [pieces, if_neg hc] at h
        cases hp : pieces rest with
        | nil =>
          rw [hp, List.mem_singleton] at h
          subst h
          simpa using Ne.symm hc
        | cons first more =>
          rw [hp] at h
          have hfirst : '\n' ∉ first := not_mem_of_mem_pieces (hp ▸ List.mem_cons_self)
          rcases List.mem_cons.mp h with rfl | h
          · simpa [Ne.symm hc] using hfirst
          · exact not_mem_of_mem_pieces (hp ▸ List.mem_cons_of_mem first h)

/-- Pieces are made of the characters of the text. -/
theorem mem_of_mem_pieces {c : Char} : ∀ {t piece : Text}, piece ∈ pieces t → c ∈ piece → c ∈ t
  | [], _, h, _ => absurd h List.not_mem_nil
  | a :: rest, piece, h, hc => by
      by_cases ha : a = '\n'
      · rw [pieces, if_pos ha] at h
        rcases List.mem_cons.mp h with rfl | h
        · exact absurd hc List.not_mem_nil
        · exact List.mem_cons_of_mem _ (mem_of_mem_pieces h hc)
      · rw [pieces, if_neg ha] at h
        cases hpieces : pieces rest with
        | nil =>
          rw [hpieces, List.mem_singleton] at h
          subst h
          rw [List.mem_singleton.mp hc]
          exact List.mem_cons_self
        | cons first more =>
          rw [hpieces] at h
          rcases List.mem_cons.mp h with rfl | h
          · rcases List.mem_cons.mp hc with rfl | hc
            · exact List.mem_cons_self
            · exact List.mem_cons_of_mem _ (mem_of_mem_pieces (hpieces ▸ List.mem_cons_self) hc)
          · exact List.mem_cons_of_mem _
              (mem_of_mem_pieces (hpieces ▸ List.mem_cons_of_mem _ h) hc)

@[simp] theorem dropReturn_concat (l : Text) : dropReturn (l ++ ['\r']) = l := by
  simp [dropReturn]

theorem dropReturn_of_getLast? {l : Text} (h : l.getLast? ≠ some '\r') : dropReturn l = l :=
  if_neg h

theorem dropReturn_cons {c : Char} (hc : c ≠ '\r') (l : Text) :
    dropReturn (c :: l) = c :: dropReturn l := by
  cases l with
  | nil => simp [dropReturn, hc]
  | cons a rest =>
    unfold dropReturn
    rw [List.getLast?_cons_cons]
    split <;> rfl

/-- What `dropReturn` takes off is one carriage return. -/
theorem eq_dropReturn_or (l : Text) : l = dropReturn l ∨ l = dropReturn l ++ ['\r'] := by
  by_cases h : l.getLast? = some '\r'
  · obtain ⟨u, rfl⟩ := List.getLast?_eq_some_iff.mp h
    exact Or.inr (by rw [dropReturn_concat])
  · exact Or.inl (dropReturn_of_getLast? h).symm

theorem mem_of_mem_dropReturn {l : Text} {c : Char} (h : c ∈ dropReturn l) : c ∈ l := by
  rcases eq_dropReturn_or l with hl | hl
  · rw [hl]; exact h
  · rw [hl]; exact List.mem_append_left _ h

/-- No line contains a line feed. -/
theorem not_mem_of_mem_lines {t l : Text} (h : l ∈ lines t) : '\n' ∉ l := by
  obtain ⟨piece, hpiece, rfl⟩ := List.mem_map.mp h
  intro hmem
  exact not_mem_of_mem_pieces hpiece (mem_of_mem_dropReturn hmem)

/-- A line as it is read back from behind an ending: a line feed takes a carriage return with it. -/
def reread : LineEnding → Text → Text
  | .lf, l => dropReturn l
  | .crlf, l => l

theorem eq_reread_or (e : LineEnding) (l : Text) : reread e l = l ∨ reread e l = dropReturn l := by
  cases e with
  | lf => exact Or.inr rfl
  | crlf => exact Or.inl rfl

/-- Lines that were closed are read back one by one. -/
theorem lines_join_append (e : LineEnding) (t : Text) : ∀ {ls : List Text},
    (∀ l ∈ ls, '\n' ∉ l) → lines (e.join true ls ++ t) = ls.map (reread e) ++ lines t
  | [], _ => rfl
  | l :: ls, h => by
      have hl := h l List.mem_cons_self
      have ih := lines_join_append e t fun m hm => h m (List.mem_cons_of_mem l hm)
      have hhead : lines (l ++ e.text ++ (e.join true ls ++ t)) =
          reread e l :: lines (e.join true ls ++ t) := by
        cases e with
        | lf =>
          show (pieces (l ++ ['\n'] ++ _)).map dropReturn = _
          rw [List.append_assoc, List.singleton_append, pieces_append_lf hl]
          rfl
        | crlf =>
          have hl' : '\n' ∉ l ++ ['\r'] := by simpa using hl
          show (pieces (l ++ ['\r', '\n'] ++ _)).map dropReturn = _
          rw [show l ++ ['\r', '\n'] = l ++ ['\r'] ++ ['\n'] by simp, List.append_assoc,
            List.singleton_append, pieces_append_lf hl', List.map_cons, dropReturn_concat]
          rfl
      rw [LineEnding.join_cons_closed, List.append_assoc, hhead, ih]
      rfl

/-- The lines of a closed text. -/
theorem lines_join_closed (e : LineEnding) {ls : List Text} (h : ∀ l ∈ ls, '\n' ∉ l) :
    lines (e.join true ls) = ls.map (reread e) := by
  have hlines := lines_join_append e [] h
  simpa [lines, pieces] using hlines

/-- The lines of an open text.  An empty last line leaves nothing behind. -/
theorem lines_join_open (e : LineEnding) {init : List Text} {last : Text}
    (h : ∀ l ∈ init, '\n' ∉ l) (hlast : '\n' ∉ last) :
    lines (e.join false (init ++ [last])) =
      init.map (reread e) ++ if last = [] then [] else [dropReturn last] := by
  rw [LineEnding.join_concat, lines_join_append e last h, lines, pieces_of_not_mem hlast]
  split <;> rfl

/-! ## Putting texts together -/

/-- Does a text stop behind the ending of a line? -/
def isClosed (t : Text) : Bool := t.isEmpty || t.getLast? = some '\n'

theorem isClosed_cons {c : Char} {t : Text} (h : t ≠ []) : isClosed (c :: t) = isClosed t := by
  obtain ⟨d, rest, rfl⟩ := List.exists_cons_of_ne_nil h
  simp [isClosed]

/-- **A text is the join of its pieces.** -/
theorem join_pieces : ∀ t : Text, LineEnding.lf.join (isClosed t) (pieces t) = t
  | [] => rfl
  | c :: rest => by
      have ih := join_pieces rest
      -- the last character alone decides whether the text is closed, so all but that case recurs
      by_cases hrest : rest = []
      · subst hrest
        by_cases hc : c = '\n'
        · subst hc; rfl
        · simp [pieces, hc, isClosed, LineEnding.join]
      · obtain ⟨first, more, hpieces⟩ : ∃ first more, pieces rest = first :: more := by
          cases hp : pieces rest with
          | nil => rw [hp] at ih; exact absurd ih.symm hrest
          | cons first more => exact ⟨first, more, rfl⟩
        rw [isClosed_cons hrest]
        rw [hpieces] at ih
        by_cases hc : c = '\n'
        · subst hc
          rw [pieces, if_pos rfl, hpieces, LineEnding.join, ih]
          rfl
        · rw [pieces, if_neg hc, hpieces]
          cases more with
          | nil => cases hclosed : isClosed rest <;> simp_all [LineEnding.join]
          | cons second more => simp_all [LineEnding.join]

/-- Every line feed of a text has a carriage return in front of it. -/
def ReturnsBeforeFeeds (t : Text) : Prop :=
  ∀ before after, t = before ++ '\n' :: after → before.getLast? = some '\r'

/-- A piece behind which a line feed stands ends in the carriage return in front of it. -/
theorem getLast?_piece {front piece after : Text} (hfront : front.getLast? ≠ some '\r')
    (h : ReturnsBeforeFeeds (front ++ (piece ++ '\n' :: after))) : piece.getLast? = some '\r' := by
  have hlast := h (front ++ piece) after (by rw [List.append_assoc])
  rw [List.getLast?_append] at hlast
  cases hp : piece.getLast? with
  | none => rw [hp] at hlast; exact absurd hlast hfront
  | some c => rwa [hp] at hlast

/-- With carriage returns in front of all line feeds, and none at the very end, the lines of a text
    join to it again under the longer ending.  `front` is what stands in front of the pieces. -/
theorem join_crlf_dropReturn (closed : Bool) : ∀ {ps : List Text} {front : Text},
    front.getLast? ≠ some '\r' →
    ReturnsBeforeFeeds (front ++ LineEnding.lf.join closed ps) →
    (LineEnding.lf.join closed ps).getLast? ≠ some '\r' →
    LineEnding.crlf.join closed (ps.map dropReturn) = LineEnding.lf.join closed ps
  | [], _, _, _, _ => rfl
  | [p], front, hfront, hreturns, hend => by
      cases closed with
      | false =>
        have hp : p.getLast? ≠ some '\r' := hend
        simp [LineEnding.join, dropReturn_of_getLast? hp]
      | true =>
        have hreturns' : ReturnsBeforeFeeds (front ++ (p ++ '\n' :: [])) := hreturns
        have hp := getLast?_piece hfront hreturns'
        obtain ⟨u, rfl⟩ := List.getLast?_eq_some_iff.mp hp
        simp [LineEnding.join, LineEnding.text]
  | p :: q :: rest, front, hfront, hreturns, hend => by
      have hjoin : LineEnding.lf.join closed (p :: q :: rest) =
          p ++ '\n' :: LineEnding.lf.join closed (q :: rest) := by
        simp [LineEnding.join, LineEnding.text]
      rw [hjoin] at hreturns hend
      have hp := getLast?_piece hfront hreturns
      obtain ⟨u, rfl⟩ := List.getLast?_eq_some_iff.mp hp
      -- the piece and its line feed move to the front, whose last character is no carriage return
      have hback : front ++ (u ++ ['\r'] ++ '\n' :: LineEnding.lf.join closed (q :: rest)) =
          (front ++ (u ++ ['\r', '\n'])) ++ LineEnding.lf.join closed (q :: rest) := by simp
      have hlast : (front ++ (u ++ ['\r', '\n'])).getLast? ≠ some '\r' := by simp
      have ih := join_crlf_dropReturn closed hlast (hback ▸ hreturns) (by
        intro h
        refine hend ?_
        rw [List.getLast?_append, List.getLast?_cons, h]
        rfl)
      rw [hjoin, ← ih]
      simp [LineEnding.join, LineEnding.text]

end Text
end IniFile
