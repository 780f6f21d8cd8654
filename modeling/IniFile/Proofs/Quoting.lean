/-
  Quoting undone by reading.

  1. **Between quotes** — `Quoted.scan` decodes what `Quoted.encodeChar` wrote, character by
     character, and stops at the closing quote (`scan_encode`).
  2. **Without quotes** — a value is only written bare when it is trimmed, does not start with a
     quote and holds no marker or control character (`bare_of_needsQuotes`).
  3. **On one line** — what is written holds no line feed.
  4. **A blank behind a quoted value** is left over by `Quoted.scan`, whatever the value
     (`scan_concat_blank`).

  Mathlib-free.
-/
import IniFile.Line.Quoted
import IniFile.Proofs.Trim

namespace IniFile.Quoted

/-! ## Between quotes -/

/-- A character that is not a backslash is read as it stands, unless it closes the value. -/
theorem scan_cons {quote c : Char} (hquote : c ≠ quote) (hescape : c ≠ '\\') (rest : Text) :
    scan quote (c :: rest) = (scan quote rest).push c := by
  rw [scan.eq_4 quote c rest (fun h _ => hescape h) (fun d r h _ => hescape h), if_neg hquote]

/-- The closing quote ends the value. -/
theorem scan_close {quote : Char} (hquote : quote ≠ '\\') (rest : Text) :
    scan quote (quote :: rest) = .closed [] rest := by
  rw [scan.eq_4 quote quote rest (fun h _ => hquote h) (fun d r h _ => hquote h), if_pos rfl]

/-- A backslash in front of a character that it escapes. -/
theorem scan_escape {quote c decoded : Char} (h : unescape? c = some decoded) (rest : Text) :
    scan quote ('\\' :: c :: rest) = (scan quote rest).push decoded := by
  rw [scan, h]

/-- One encoded character is read back as that character. -/
theorem scan_encodeChar (c : Char) (rest : Text) :
    scan '"' (encodeChar c ++ rest) = (scan '"' rest).push c := by
  by_cases h1 : c = '"'
  · subst h1; exact scan_escape rfl rest
  by_cases h2 : c = '\\'
  · subst h2; exact scan_escape rfl rest
  by_cases h3 : c = '\n'
  · subst h3; exact scan_escape rfl rest
  by_cases h4 : c = '\r'
  · subst h4; exact scan_escape rfl rest
  by_cases h5 : c = '\t'
  · subst h5; exact scan_escape rfl rest
  · rw [encodeChar, if_neg h1, if_neg h2, if_neg h3, if_neg h4, if_neg h5]
    exact scan_cons h1 h2 rest

/-- **Reading undoes writing**, whatever follows the closing quote. -/
theorem scan_encode (rest : Text) : ∀ value : Text,
    scan '"' (value.flatMap encodeChar ++ '"' :: rest) = .closed value rest
  | [] => scan_close (by decide) rest
  | c :: value => by
      rw [List.flatMap_cons, List.append_assoc, scan_encodeChar, scan_encode rest value]
      rfl

/-! ## Without quotes -/

/-- What is known of a value that is written bare. -/
structure Bare (d : Dialect) (value : Text) : Prop where
  trimmed : value.trim = value
  noQuote : ∀ c, value.head? = some c → isQuote c = false
  noMarker : ∀ c ∈ value, d.isMarker c = false
  noControl : ∀ c ∈ value, isControl c = false

theorem bare_of_needsQuotes {d : Dialect} {value : Text} (h : needsQuotes d value = false) :
    Bare d value := by
  simp only [needsQuotes, Bool.or_eq_false_iff, bne_eq_false_iff_eq, List.any_eq_false,
    Bool.or_eq_true, not_or] at h
  obtain ⟨⟨htrim, hquote⟩, hplain⟩ := h
  refine ⟨htrim, fun c hc => ?_, fun c hc => ?_, fun c hc => ?_⟩
  · simpa [hc] using hquote
  · exact Bool.eq_false_iff.mpr (hplain c hc).1.2
  · exact Bool.eq_false_iff.mpr (hplain c hc).2

/-! ## On one line -/

theorem lf_not_mem_encodeChar (c : Char) : '\n' ∉ encodeChar c := by
  by_cases h1 : c = '"'
  · subst h1; decide
  by_cases h2 : c = '\\'
  · subst h2; decide
  by_cases h3 : c = '\n'
  · subst h3; decide
  by_cases h4 : c = '\r'
  · subst h4; decide
  by_cases h5 : c = '\t'
  · subst h5; decide
  · rw [encodeChar, if_neg h1, if_neg h2, if_neg h3, if_neg h4, if_neg h5]
    simpa using Ne.symm h3

/-- No value breaks the line on which it is written. -/
theorem lf_not_mem_quoteIfNeeded (d : Dialect) (value : Text) :
    '\n' ∉ quoteIfNeeded d value := by
  unfold quoteIfNeeded
  cases h : needsQuotes d value with
  | true =>
    intro hmem
    simp only [↓reduceIte, encode, List.mem_append, List.mem_flatMap, List.mem_singleton] at hmem
    rcases hmem with (hmem | ⟨c, -, hmem⟩) | hmem
    · exact absurd hmem (by decide)
    · exact lf_not_mem_encodeChar c hmem
    · exact absurd hmem (by decide)
  | false =>
    intro hmem
    simp only [Bool.false_eq_true, ↓reduceIte] at hmem
    exact absurd ((bare_of_needsQuotes h).noControl _ hmem) (by decide)

/-! ## A blank behind the value -/

theorem unescape?_of_isBlank {b : Char} (hb : isBlank b = true) : unescape? b = none := by
  have hne : ∀ c : Char, isBlank c = false → b ≠ c := by
    rintro c hc rfl
    rw [hb] at hc
    exact Bool.noConfusion hc
  simp [unescape?, hne '"' (by decide), hne '\'' (by decide), hne '\\' (by decide),
    hne 'n' (by decide), hne 'r' (by decide), hne 't' (by decide)]

theorem push_eq_closed {c : Char} {o : Outcome} {value rest : Text}
    (h : o.push c = .closed value rest) : ∃ v, value = c :: v ∧ o = .closed v rest := by
  cases o with
  | closed v r =>
    simp only [Outcome.push, Outcome.closed.injEq] at h
    obtain ⟨rfl, rfl⟩ := h
    exact ⟨v, rfl, rfl⟩
  | unterminated => simp [Outcome.push] at h
  | invalidEscape here escaped => simp [Outcome.push] at h

/-- A character that is a backslash neither at the end nor in front of another is none. -/
theorem ne_backslash {c : Char} {t : Text} (hlast : c = '\\' → t = [] → False)
    (hmore : ∀ (d : Char) (r : Text), c = '\\' → t = d :: r → False) : c ≠ '\\' := by
  intro hc
  cases t with
  | nil => exact hlast hc rfl
  | cons d r => exact hmore d r hc rfl

/-- A blank at the end of the line is behind the closing quote: the value is closed without it. -/
theorem scan_concat_blank {quote b : Char} (hb : isBlank b = true) (hquote : b ≠ quote)
    {t value rest : Text} (h : scan quote (t ++ [b]) = .closed value rest) :
    ∃ r, rest = r ++ [b] ∧ scan quote t = .closed value r := by
  have hescape : b ≠ '\\' := by rintro rfl; exact absurd hb (by decide)
  -- the recursion is that of `scan`; only at the end of `t` does the blank itself come into play
  fun_induction scan quote t generalizing value with
  | case1 =>
    rw [List.nil_append, scan_cons hquote hescape] at h
    simp [scan, Outcome.push] at h
  | case2 => simp [scan, unescape?_of_isBlank hb] at h
  | case3 c t decoded hdecoded ih =>
    rw [List.cons_append, List.cons_append, scan_escape hdecoded] at h
    obtain ⟨v, rfl, hv⟩ := push_eq_closed h
    obtain ⟨r, rfl, hr⟩ := ih hv
    exact ⟨r, rfl, by rw [hr]; rfl⟩
  | case4 c t hnone =>
    rw [List.cons_append, List.cons_append, scan, hnone] at h
    exact absurd h (by simp)
  | case5 t hlast hmore =>
    have hne : quote ≠ '\\' := ne_backslash hlast hmore
    rw [List.cons_append, scan_close hne, Outcome.closed.injEq] at h
    obtain ⟨rfl, rfl⟩ := h
    exact ⟨t, rfl, rfl⟩
  | case6 c t hlast hmore hc ih =>
    have hne : c ≠ '\\' := ne_backslash hlast hmore
    rw [List.cons_append, scan_cons hc hne] at h
    obtain ⟨v, rfl, hv⟩ := push_eq_closed h
    obtain ⟨r, rfl, hr⟩ := ih hv
    exact ⟨r, rfl, by rw [hr]; rfl⟩

end IniFile.Quoted
