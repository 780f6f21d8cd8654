/-
  Trimming, and cutting a text that was put together.

  `Text.trimStart`, `Text.trimEnd` and `Text.trim` are recursions that look at one character at a
  time.  Everything later needs them the other way round: what they do to a text of the form
  `a ++ b`.

  1. **At the end** — blanks behind a text do not change its `trimEnd`; a text that ends in
     something else is its own `trimEnd`.
  2. **At the start** — the same for `trimStart`.
  3. **Trimmed texts** — `t.trim = t` says that neither end is blank, and trimming once is enough.
  4. **Cutting** — `Text.cut` finds the character that a text was built around.

  Mathlib-free.
-/
import IniFile.Text.Basic

namespace IniFile.Text

/-! ## At the end -/

/-- Nothing but blanks is left of a text exactly when it is blank throughout. -/
theorem trimEnd_eq_nil_iff : ∀ {t : Text}, trimEnd t = [] ↔ ∀ c ∈ t, isBlank c = true
  | [] => by simp [trimEnd]
  | c :: rest => by
      have ih := trimEnd_eq_nil_iff (t := rest)
      by_cases hrest : trimEnd rest = []
      · have hall := ih.mp hrest
        by_cases hc : isBlank c = true
        · simpa [trimEnd, hrest, hc] using hall
        · simp [trimEnd, hrest, hc]
      · have hnot : ¬ ∀ d ∈ rest, isBlank d = true := fun h => hrest (ih.mpr h)
        simp [trimEnd, hrest, hnot]

/-- Blanks at the end are dropped. -/
theorem trimEnd_append_blanks {bs : Text} (hbs : ∀ c ∈ bs, isBlank c = true) :
    ∀ t : Text, trimEnd (t ++ bs) = trimEnd t
  | [] => by simpa [trimEnd] using trimEnd_eq_nil_iff.mpr hbs
  | c :: rest => by
      rw [List.cons_append, trimEnd, trimEnd, trimEnd_append_blanks hbs rest]

/-- One blank at the end is dropped. -/
theorem trimEnd_concat_blank {b : Char} (hb : isBlank b = true) (t : Text) :
    trimEnd (t ++ [b]) = trimEnd t :=
  trimEnd_append_blanks (by simpa using hb) t

/-- A text that ends in a trimmed, non-empty one keeps all that is in front of it. -/
theorem trimEnd_append {u : Text} (hne : u ≠ []) (hu : trimEnd u = u) :
    ∀ t : Text, trimEnd (t ++ u) = t ++ u
  | [] => hu
  | c :: rest => by
      have hkept : (rest ++ u).isEmpty = false := by
        rw [List.isEmpty_eq_false_iff]
        exact List.append_ne_nil_of_right_ne_nil rest hne
      rw [List.cons_append, trimEnd, trimEnd_append hne hu rest, hkept]
      rfl

/-- A character that is not blank ends a trimmed text. -/
theorem trimEnd_concat {c : Char} (hc : isBlank c = false) (t : Text) :
    trimEnd (t ++ [c]) = t ++ [c] :=
  trimEnd_append (List.cons_ne_nil c []) (by simp [trimEnd, hc]) t

/-- What `trimEnd` takes off is blank. -/
theorem exists_eq_trimEnd_append : ∀ t : Text,
    ∃ bs : Text, t = trimEnd t ++ bs ∧ ∀ c ∈ bs, isBlank c = true
  | [] => ⟨[], rfl, by simp⟩
  | c :: rest => by
      obtain ⟨bs, hsplit, hbs⟩ := exists_eq_trimEnd_append rest
      by_cases h : ((trimEnd rest).isEmpty && isBlank c) = true
      · obtain ⟨hrest, hc⟩ := Bool.and_eq_true_iff.mp h
        rw [List.isEmpty_iff] at hrest
        refine ⟨c :: rest, by simp [trimEnd, h], fun d hd => ?_⟩
        rcases List.mem_cons.mp hd with rfl | hd
        · exact hc
        · exact trimEnd_eq_nil_iff.mp hrest d hd
      · refine ⟨bs, ?_, hbs⟩
        simp only [trimEnd, h, Bool.false_eq_true, ↓reduceIte]
        rw [List.cons_append, ← hsplit]

/-- A trimmed text does not end in a blank. -/
theorem isBlank_of_getLast?_trimEnd {t : Text} {c : Char} (h : (trimEnd t).getLast? = some c) :
    isBlank c = false := by
  obtain ⟨u, hu⟩ := List.getLast?_eq_some_iff.mp h
  cases hc : isBlank c with
  | false => rfl
  | true =>
    -- a last blank would have been dropped, and `u ++ [c]` is longer than what is left of it
    have hkept : trimEnd u = u ++ [c] := by
      rw [← trimEnd_concat_blank hc, ← hu, trimEnd_trimEnd]
    obtain ⟨bs, hsplit, -⟩ := exists_eq_trimEnd_append u
    have hlen := congrArg List.length hsplit
    rw [hkept] at hlen
    simp only [List.length_append, List.length_singleton] at hlen
    omega

theorem mem_of_mem_trimEnd {t : Text} {c : Char} (h : c ∈ trimEnd t) : c ∈ t := by
  obtain ⟨bs, hsplit, -⟩ := exists_eq_trimEnd_append t
  rw [hsplit]
  exact List.mem_append_left bs h

/-! ## At the start -/

@[simp] theorem trimStart_nil : trimStart [] = [] := rfl

/-- A text that does not start with a blank is trimmed at its start. -/
theorem trimStart_cons {c : Char} (hc : isBlank c = false) (t : Text) :
    trimStart (c :: t) = c :: t := by
  simp [trimStart, hc]

/-- A blank at the start is dropped. -/
theorem trimStart_blank {b : Char} (hb : isBlank b = true) (t : Text) :
    trimStart (b :: t) = trimStart t := by
  simp [trimStart, hb]

/-- Blanks at the start are dropped. -/
theorem trimStart_append_blanks {bs : Text} (hbs : ∀ c ∈ bs, isBlank c = true) (t : Text) :
    trimStart (bs ++ t) = trimStart t :=
  List.dropWhile_append_of_pos hbs

/-- A text whose first character is not blank is trimmed at its start. -/
theorem trimStart_eq_self {t : Text} (h : ∀ c, t.head? = some c → isBlank c = false) :
    trimStart t = t := by
  cases t with
  | nil => rfl
  | cons c rest => exact trimStart_cons (h c rfl) rest

/-- What `trimStart` leaves does not start with a blank. -/
theorem isBlank_of_trimStart_eq_cons : ∀ {t rest : Text} {c : Char},
    trimStart t = c :: rest → isBlank c = false
  | [], _, _, h => by simp at h
  | d :: t, rest, c, h => by
      cases hd : isBlank d with
      | true => rw [trimStart_blank hd] at h; exact isBlank_of_trimStart_eq_cons h
      | false =>
        rw [trimStart_cons hd, List.cons.injEq] at h
        exact h.1 ▸ hd

theorem isBlank_of_head?_trimStart {t : Text} {c : Char} (h : (trimStart t).head? = some c) :
    isBlank c = false := by
  obtain ⟨rest, hrest⟩ := List.head?_eq_some_iff.mp h
  exact isBlank_of_trimStart_eq_cons hrest

/-- What `trimStart` takes off is blank. -/
theorem exists_eq_append_trimStart : ∀ t : Text,
    ∃ bs : Text, t = bs ++ trimStart t ∧ ∀ c ∈ bs, isBlank c = true
  | [] => ⟨[], rfl, by simp⟩
  | c :: rest => by
      cases hc : isBlank c with
      | true =>
        obtain ⟨bs, hsplit, hbs⟩ := exists_eq_append_trimStart rest
        refine ⟨c :: bs, by rw [trimStart_blank hc, List.cons_append, ← hsplit], fun d hd => ?_⟩
        rcases List.mem_cons.mp hd with rfl | hd
        · exact hc
        · exact hbs d hd
      | false => exact ⟨[], by rw [trimStart_cons hc, List.nil_append], by simp⟩

/-- Nothing is left after trimming the start exactly when all is blank. -/
theorem trimStart_eq_nil_iff : ∀ {t : Text}, trimStart t = [] ↔ ∀ c ∈ t, isBlank c = true
  | [] => by simp
  | c :: rest => by
      cases hc : isBlank c with
      | true => simp [trimStart_blank hc, hc, trimStart_eq_nil_iff (t := rest)]
      | false => simp [trimStart_cons hc, hc]

/-- What stands behind a text that is not blank throughout stays behind it. -/
theorem trimStart_append : ∀ {t : Text}, trimStart t ≠ [] → ∀ u : Text,
    trimStart (t ++ u) = trimStart t ++ u
  | [], h, _ => absurd rfl h
  | c :: rest, h, u => by
      cases hc : isBlank c with
      | true =>
        rw [trimStart_blank hc] at h ⊢
        rw [List.cons_append, trimStart_blank hc, trimStart_append h u]
      | false => rw [trimStart_cons hc, List.cons_append, trimStart_cons hc]

theorem mem_of_mem_trimStart {t : Text} {c : Char} (h : c ∈ trimStart t) : c ∈ t := by
  obtain ⟨bs, hsplit, -⟩ := exists_eq_append_trimStart t
  rw [hsplit]
  exact List.mem_append_right bs h

/-- Blanks alone leave nothing at the start. -/
theorem trimStart_concat_blank {b : Char} (hb : isBlank b = true) (t : Text) :
    trimStart (t ++ [b]) = if trimStart t = [] then [] else trimStart t ++ [b] := by
  by_cases ht : trimStart t = []
  · have hall := trimStart_eq_nil_iff.mp ht
    rw [if_pos ht]
    apply trimStart_eq_nil_iff.mpr
    intro c hc
    rcases List.mem_append.mp hc with hc | hc
    · exact hall c hc
    · rw [List.mem_singleton.mp hc]; exact hb
  · rw [if_neg ht, trimStart_append ht]

/-! ## Trimmed texts -/

theorem mem_of_mem_trim {t : Text} {c : Char} (h : c ∈ trim t) : c ∈ t :=
  mem_of_mem_trimStart (mem_of_mem_trimEnd h)

/-- The first character of a trimmed text is not blank. -/
theorem isBlank_of_trim_eq_cons {t rest : Text} {c : Char} (h : trim t = c :: rest) :
    isBlank c = false := by
  obtain ⟨bs, hsplit, -⟩ := exists_eq_trimEnd_append (trimStart t)
  have hstart : trimStart t = c :: (rest ++ bs) := by
    rw [hsplit]
    show trim t ++ bs = c :: (rest ++ bs)
    rw [h, List.cons_append]
  exact isBlank_of_trimStart_eq_cons hstart

/-- Trimming once is enough. -/
theorem trim_trim (t : Text) : trim (trim t) = trim t := by
  have hstart : trimStart (trim t) = trim t :=
    trimStart_eq_self fun c hc => by
      obtain ⟨rest, hrest⟩ := List.head?_eq_some_iff.mp hc
      exact isBlank_of_trim_eq_cons hrest
  show trimEnd (trimStart (trim t)) = trim t
  rw [hstart]
  exact trimEnd_trimEnd _

/-- A trimmed text is trimmed at its start. -/
theorem trimStart_of_trim {t : Text} (h : trim t = t) : trimStart t = t :=
  trimStart_eq_self fun c hc => by
    obtain ⟨rest, hrest⟩ := List.head?_eq_some_iff.mp hc
    exact isBlank_of_trim_eq_cons (h.trans hrest)

/-- A trimmed text is trimmed at its end. -/
theorem trimEnd_of_trim {t : Text} (h : trim t = t) : trimEnd t = t := by
  have hend : trim t = trimEnd t := by rw [trim, trimStart_of_trim h]
  rw [← hend, h]

/-! ## Cutting -/

/-- A cut finds the character that the text was built around. -/
theorem cut_append {p : Char → Bool} {mark : Char} (hmark : p mark = true) (after : Text) :
    ∀ {before : Text}, (∀ c ∈ before, p c = false) →
      cut p (before ++ mark :: after) = some (before, mark, after)
  | [], _ => by simp [cut, hmark]
  | c :: before, h => by
      have ih := cut_append hmark after fun d hd => h d (List.mem_cons_of_mem c hd)
      simp [cut, h c List.mem_cons_self, ih]

/-- A character that does not cut moves to what follows the cut. -/
theorem cut_concat {p : Char → Bool} {b : Char} (hb : p b = false) (t : Text) :
    cut p (t ++ [b]) = (cut p t).map fun (before, mark, after) => (before, mark, after ++ [b]) := by
  cases hcut : cut p t with
  | none =>
    rw [Option.map_none]
    apply cut_eq_none_iff.mpr
    intro c hc
    rcases List.mem_append.mp hc with hc | hc
    · exact cut_eq_none_iff.mp hcut c hc
    · rw [List.mem_singleton.mp hc]; exact hb
  | some found =>
    obtain ⟨before, mark, after⟩ := found
    obtain ⟨hsplit, hmark, hbefore⟩ := of_cut_eq_some hcut
    rw [hsplit, List.append_assoc, List.cons_append, cut_append hmark _ hbefore]
    rfl

end IniFile.Text
