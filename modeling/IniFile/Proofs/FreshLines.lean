/-
  Lines written afresh, and lines with a blank behind them.

  1. **Headers and entries** — `renderHeader` and `renderEntry` write lines that say just what was
     to be written (`says_renderHeader`, `says_renderEntry`).  The value of an entry is ARBITRARY:
     it is quoted when it has to be.  So are the markers, except behind a comment.
  2. **On one line** — such a line holds no line feed and does not end in a blank, so that no ending
     can be mistaken for a part of it.
  3. **Standalone comments** — a comment line says the same once its blanks are trimmed off.
  4. **A blank at the end** of any well-formed line changes nothing (`says_of_concat_blank`), and
     so a carriage return in front of a line feed does no harm (`says_dropReturn`).

  Mathlib-free.
-/
import IniFile.Proofs.LineContent

namespace IniFile

open Text

/-! ## The comment at the end -/

/-- Can a line of the dialect close with the comment?  Without a comment the markers may be any
    characters. -/
def Dialect.ClosesWith (d : Dialect) (comment : Option Comment) : Prop :=
  ∀ c, comment = some c → d.Plain ∧ c.Written d

theorem Dialect.closesWith_none (d : Dialect) : d.ClosesWith none := nofun

theorem Dialect.Plain.closesWith {d : Dialect} (hd : d.Plain) {comment : Option Comment}
    (h : ∀ c, comment = some c → c.Written d) : d.ClosesWith comment := fun c hc => ⟨hd, h c hc⟩

/-- The comment behind a header or a quoted value is read back. -/
theorem Line.scanTrailer_commentSuffix {d : Dialect} (after : Closed) {comment : Option Comment}
    (h : d.ClosesWith comment) :
    Line.scanTrailer d after (commentSuffix comment) = .ok comment := by
  cases comment with
  | none => rfl
  | some c =>
    obtain ⟨hd, ⟨hmarker, -⟩⟩ := h c rfl
    have hrest : Text.trimStart (commentSuffix (some c)) = c.marker :: c.text := by
      rw [commentSuffix, trimStart_blank (by decide), Comment.render,
        trimStart_cons (hd.notBlank _ hmarker)]
    rw [scanTrailer, hrest]
    simp only [hmarker, ↓reduceIte, Comment.of_marker_text]

/-- The comment behind a value without quotes is read back, and so is the value. -/
theorem Line.scanBare_commentSuffix {d : Dialect} {value : Text} (htrim : trimEnd value = value)
    (hvalue : ∀ c ∈ value, d.isMarker c = false) {comment : Option Comment} (h : d.ClosesWith comment) :
    Line.scanBare d (value ++ commentSuffix comment) = (value, comment) := by
  cases comment with
  | none =>
    have hcut : cut d.isMarker value = none := cut_eq_none_iff.mpr hvalue
    simp only [commentSuffix, List.append_nil, scanBare, hcut, htrim]
  | some c =>
    obtain ⟨hd, ⟨hmarker, -⟩⟩ := h c rfl
    have hbefore : ∀ x ∈ value ++ [' '], d.isMarker x = false := by
      intro x hx
      rcases List.mem_append.mp hx with hx | hx
      · exact hvalue x hx
      · rw [List.mem_singleton.mp hx]; exact hd.isMarker_of_isBlank (by decide)
    -- the blank in front of the marker goes with the value and is trimmed off there
    have hsplit : value ++ commentSuffix (some c) = (value ++ [' ']) ++ c.marker :: c.text := by
      simp [commentSuffix, Comment.render]
    rw [scanBare, hsplit, cut_append hmarker _ hbefore]
    show (trimEnd (value ++ [' ']), some (Comment.of c.marker c.text)) = (value, some c)
    rw [trimEnd_concat_blank (by decide), htrim, Comment.of_marker_text]

/-! ## Headers and entries -/

/-- **A header that is written says its name and its comment.** -/
theorem Line.says_renderHeader {d : Dialect} (hbracket : d.isMarker '[' = false) {name : Text}
    (hname : Name.Written name) {comment : Option Comment} (h : d.ClosesWith comment) :
    Line.Says d (renderHeader name comment) (.header name comment) := by
  have hline : renderHeader name comment = '[' :: (name ++ ']' :: commentSuffix comment) := by
    simp [renderHeader]
  have hcut : cut (· = ']') (name ++ ']' :: commentSuffix comment) =
      some (name, ']', commentSuffix comment) :=
    cut_append (by simp) _ fun c hc => by
      rw [decide_eq_false_iff_not]
      rintro rfl
      exact hname.noBracket hc
  have hbody := (congrArg trimStart hline).trans (trimStart_cons (by decide) _)
  refine Line.says_header_iff.mpr ⟨_, hbody, hbracket, ?_⟩
  rw [scanHeader, hcut]
  simp only [hname.trimmed, List.isEmpty_iff, hname.nonempty, ↓reduceIte,
    scanTrailer_commentSuffix .header h]
  rfl

/-- What stands behind the delimiter of an entry that is written. -/
theorem Line.scanValue_written {d : Dialect} (value : Text) {comment : Option Comment}
    (h : d.ClosesWith comment) :
    Line.scanValue d (trimStart ((if value.isEmpty then [] else ' ' :: Quoted.quoteIfNeeded d value) ++
      commentSuffix comment)) = .ok (value, comment) := by
  cases value with
  | nil =>
    cases comment with
    | none => rfl
    | some c =>
      obtain ⟨hd, ⟨hmarker, -⟩⟩ := h c rfl
      have hrest : trimStart (commentSuffix (some c)) = c.marker :: c.text := by
        rw [commentSuffix, trimStart_blank (by decide), Comment.render,
          trimStart_cons (hd.notBlank _ hmarker)]
      -- the comment is all there is, and the cut at its marker leaves an empty value
      have hcut : scanBare d (c.marker :: c.text) = ([], some c) := by
        rw [scanBare, cut, if_pos hmarker]
        show (trimEnd [], some (Comment.of c.marker c.text)) = _
        rw [Comment.of_marker_text]
        rfl
      show scanValue d (trimStart (commentSuffix (some c))) = _
      rw [hrest, scanValue, if_neg (by simp [hd.notQuote _ hmarker]), hcut]
  | cons first more =>
    show scanValue d (trimStart (' ' :: (Quoted.quoteIfNeeded d (first :: more)) ++
      commentSuffix comment)) = _
    rw [List.cons_append, trimStart_blank (by decide)]
    -- quoted or not, the reader's choice by the first character is the writer's
    cases hneeds : Quoted.needsQuotes d (first :: more) with
    | true =>
      have hwritten : Quoted.quoteIfNeeded d (first :: more) ++ commentSuffix comment =
          '"' :: ((first :: more).flatMap Quoted.encodeChar ++ '"' :: commentSuffix comment) := by
        simp [Quoted.quoteIfNeeded, hneeds, Quoted.encode]
      rw [hwritten, trimStart_cons (by decide), scanValue, if_pos (by decide), Quoted.scan_encode]
      simp only [scanTrailer_commentSuffix .quotedValue h]
      rfl
    | false =>
      have hbare := Quoted.bare_of_needsQuotes hneeds
      have hquote : Quoted.isQuote first = false := hbare.noQuote first rfl
      have hwritten : Quoted.quoteIfNeeded d (first :: more) = first :: more := by
        simp [Quoted.quoteIfNeeded, hneeds]
      rw [hwritten, List.cons_append, trimStart_cons (isBlank_of_trim_eq_cons hbare.trimmed),
        scanValue, if_neg (by simp [hquote]), ← List.cons_append,
        scanBare_commentSuffix (trimEnd_of_trim hbare.trimmed) hbare.noMarker h]

/-- **A line that a key, a blank and the delimiter begin** says the key and what comes behind them. -/
theorem Line.says_assignment {d : Dialect} {key : Text} (hkey : Key.Written d key) {after value : Text}
    {comment : Option Comment} (h : Line.scanValue d (trimStart after) = .ok (value, comment)) :
    Line.Says d (key ++ [' ', d.delimiter.char] ++ after) (.entry key value comment) := by
  obtain ⟨first, more, rfl⟩ := List.exists_cons_of_ne_nil hkey.nonempty
  have hblank : isBlank first = false := isBlank_of_trim_eq_cons hkey.trimmed
  obtain ⟨hbracket, hmarker⟩ := hkey.start first rfl
  have hline : (first :: more) ++ [' ', d.delimiter.char] ++ after =
      first :: (more ++ ' ' :: d.delimiter.char :: after) := by simp
  -- the cut at the delimiter leaves the blank in front of it with the key
  have hsplit : first :: (more ++ ' ' :: d.delimiter.char :: after) =
      ((first :: more) ++ [' ']) ++ d.delimiter.char :: after := by simp
  have hcut : ∀ c ∈ (first :: more) ++ [' '], (decide (c = d.delimiter.char)) = false := by
    intro c hc
    rw [decide_eq_false_iff_not]
    rintro rfl
    rcases List.mem_append.mp hc with hc | hc
    · exact hkey.noDelimiter hc
    · have hdelimiter := d.delimiter.isBlank_char
      rw [List.mem_singleton.mp hc] at hdelimiter
      exact absurd hdelimiter (by decide)
  have htrim : trim ((first :: more) ++ [' ']) = first :: more := by
    rw [trim, List.cons_append, trimStart_cons hblank, ← List.cons_append,
      trimEnd_concat_blank (by decide), trimEnd_of_trim hkey.trimmed]
  have hbody := (congrArg trimStart hline).trans (trimStart_cons hblank _)
  refine Line.says_entry_iff.mpr ⟨first, _, hbody, hmarker, hbracket, ?_⟩
  rw [scanEntry, hsplit, cut_append (decide_eq_true rfl) _ hcut]
  simp only [htrim, List.isEmpty_cons, Bool.false_eq_true, ↓reduceIte, h]
  rfl

/-- **An entry that is written says its key, its value and its comment**, whatever the value. -/
theorem Line.says_renderEntry {d : Dialect} {key : Text} (hkey : Key.Written d key) (value : Text)
    {comment : Option Comment} (h : d.ClosesWith comment) :
    Line.Says d (renderEntry d key value comment) (.entry key value comment) := by
  rw [renderEntry, List.append_assoc]
  exact says_assignment hkey (scanValue_written value h)

/-! ## On one line -/

theorem lf_not_mem_commentSuffix {d : Dialect} {comment : Option Comment} (h : d.ClosesWith comment) :
    '\n' ∉ commentSuffix comment := by
  cases comment with
  | none => simp [commentSuffix]
  | some c =>
    obtain ⟨hd, ⟨hmarker, hfeed⟩⟩ := h c rfl
    have hnot : '\n' ≠ c.marker := by
      intro hm
      have hblank := hd.notBlank _ hmarker
      rw [← hm] at hblank
      exact absurd hblank (by decide)
    simp [commentSuffix, Comment.render, hnot, hfeed]

theorem lf_not_mem_renderHeader {d : Dialect} {name : Text} (hname : Name.Written name)
    {comment : Option Comment} (h : d.ClosesWith comment) : '\n' ∉ renderHeader name comment := by
  simp [renderHeader, hname.noFeed, lf_not_mem_commentSuffix h]

theorem lf_not_mem_renderEntry {d : Dialect} {key : Text} (hkey : Key.Written d key) (value : Text)
    {comment : Option Comment} (h : d.ClosesWith comment) :
    '\n' ∉ renderEntry d key value comment := by
  have hdelimiter : '\n' ≠ d.delimiter.char := by cases d.delimiter <;> decide
  simp [renderEntry, hkey.noFeed, hdelimiter, Quoted.lf_not_mem_quoteIfNeeded,
    lf_not_mem_commentSuffix h]

/-- A text ends in a blank only if there is a last character and that is one. -/
theorem trimEnd_append_commentSuffix {d : Dialect} {t : Text} (ht : trimEnd t = t)
    {comment : Option Comment} (h : d.ClosesWith comment) :
    trimEnd (t ++ commentSuffix comment) = t ++ commentSuffix comment := by
  cases comment with
  | none => rwa [commentSuffix, List.append_nil]
  | some c =>
    have hmarker := (h c rfl).1.notBlank _ (h c rfl).2.marker
    have hrender : trimEnd c.render = c.render := by
      rw [Comment.render, trimEnd, c.trimmed]
      simp [hmarker]
    rw [commentSuffix, ← List.singleton_append, ← List.append_assoc]
    exact trimEnd_append (List.cons_ne_nil _ _) hrender _

theorem trimEnd_renderHeader {d : Dialect} (name : Text) {comment : Option Comment}
    (h : d.ClosesWith comment) :
    trimEnd (renderHeader name comment) = renderHeader name comment :=
  trimEnd_append_commentSuffix (trimEnd_concat (by decide) _) h

theorem trimEnd_quoteIfNeeded (d : Dialect) (value : Text) :
    trimEnd (Quoted.quoteIfNeeded d value) = Quoted.quoteIfNeeded d value := by
  unfold Quoted.quoteIfNeeded
  cases h : Quoted.needsQuotes d value with
  | true => exact trimEnd_concat (by decide) _
  | false => exact trimEnd_of_trim (Quoted.bare_of_needsQuotes h).trimmed

theorem quoteIfNeeded_ne_nil (d : Dialect) {value : Text} (h : value ≠ []) :
    Quoted.quoteIfNeeded d value ≠ [] := by
  unfold Quoted.quoteIfNeeded
  cases Quoted.needsQuotes d value <;> simp [Quoted.encode, h]

theorem trimEnd_renderEntry {d : Dialect} (key value : Text) {comment : Option Comment}
    (h : d.ClosesWith comment) :
    trimEnd (renderEntry d key value comment) = renderEntry d key value comment := by
  refine trimEnd_append_commentSuffix ?_ h
  have hhead : trimEnd (key ++ [' ', d.delimiter.char]) = key ++ [' ', d.delimiter.char] := by
    rw [show key ++ [' ', d.delimiter.char] = key ++ [' '] ++ [d.delimiter.char] by simp]
    exact trimEnd_concat d.delimiter.isBlank_char _
  by_cases hvalue : value = []
  · subst hvalue
    rw [List.isEmpty_nil, if_pos rfl, List.append_nil]
    exact hhead
  · rw [List.isEmpty_eq_false_iff.mpr hvalue, if_neg Bool.false_ne_true, List.append_cons]
    exact trimEnd_append (quoteIfNeeded_ne_nil d hvalue) (trimEnd_quoteIfNeeded d value) _

/-- A line that does not end in a blank is read back as it is, whatever the ending. -/
theorem Text.reread_of_trimEnd {l : Text} (h : trimEnd l = l) (e : LineEnding) : reread e l = l := by
  have hlast : l.getLast? ≠ some '\r' := by
    intro hr
    rw [← h] at hr
    exact absurd (isBlank_of_getLast?_trimEnd hr) (by decide)
  cases e with
  | lf => exact dropReturn_of_getLast? hlast
  | crlf => rfl

/-! ## Standalone comments -/

/-- A comment line says the same once its blanks are trimmed off. -/
theorem Line.says_comment_trim {d : Dialect} {raw : Text} {c : Comment}
    (h : Line.Says d raw (.comment c)) : Line.Says d (trim raw) (.comment c) := by
  obtain ⟨m, rest, hbody, hmarker, rfl⟩ := Line.says_comment_iff.mp h
  have hm := isBlank_of_trimStart_eq_cons hbody
  have htrim : trim raw = m :: trimEnd rest := by
    rw [trim, hbody, trimEnd]
    simp [hm]
  refine Line.says_comment_iff.mpr ⟨m, trimEnd rest, ?_, hmarker, ?_⟩
  · rw [htrim, trimStart_cons hm]
  · simp only [Comment.of, trimEnd_trimEnd]

/-! ## A blank at the end -/

section ConcatBlank

variable {d : Dialect} {b : Char}

theorem Line.scanTrailer_concat (hb : isBlank b = true) {after : Closed} {rest : Text}
    {comment : Option Comment} (h : Line.scanTrailer d after (rest ++ [b]) = .ok comment) :
    Line.scanTrailer d after rest = .ok comment := by
  unfold scanTrailer at h ⊢
  rw [trimStart_concat_blank hb] at h
  cases hrest : Text.trimStart rest with
  | nil => rw [hrest] at h; exact h
  | cons m text =>
    rw [hrest, if_neg (List.cons_ne_nil m text), List.cons_append] at h
    by_cases hm : d.isMarker m = true
    · simp only [hm, ↓reduceIte, Comment.of, trimEnd_concat_blank hb] at h ⊢
      exact h
    · simp [hm] at h

theorem Line.scanBare_concat (hd : d.Plain) (hb : isBlank b = true) (text : Text) :
    Line.scanBare d (text ++ [b]) = Line.scanBare d text := by
  unfold scanBare
  rw [cut_concat (hd.isMarker_of_isBlank hb)]
  cases cut d.isMarker text with
  | none => simp only [Option.map_none, trimEnd_concat_blank hb]
  | some found => simp only [Option.map_some, Comment.of, trimEnd_concat_blank hb]

theorem Line.scanValue_concat (hd : d.Plain) (hb : isBlank b = true) {after : Text}
    {found : Text × Option Comment}
    (h : Line.scanValue d (trimStart (after ++ [b])) = .ok found) :
    Line.scanValue d (trimStart after) = .ok found := by
  rw [trimStart_concat_blank hb] at h
  cases hafter : trimStart after with
  | nil => rwa [hafter, if_pos rfl] at h
  | cons first inside =>
    rw [hafter, if_neg (List.cons_ne_nil _ _), List.cons_append] at h
    simp only [scanValue] at h ⊢
    by_cases hquote : Quoted.isQuote first = true
    · rw [if_pos hquote] at h ⊢
      -- the opening quote is the first character that is not blank, so the blank does not close it
      have hne : b ≠ first := by
        rintro rfl
        rw [isBlank_of_trimStart_eq_cons hafter] at hb
        exact Bool.noConfusion hb
      cases hscan : Quoted.scan first (inside ++ [b]) with
      | unterminated => rw [hscan] at h; simp at h
      | invalidEscape here escaped => rw [hscan] at h; simp at h
      | closed value rest =>
        obtain ⟨r, rfl, hr⟩ := Quoted.scan_concat_blank hb hne hscan
        rw [hscan] at h
        rw [hr]
        cases htrailer : Line.scanTrailer d .quotedValue (r ++ [b]) with
        | error flaw => simp [htrailer, Except.map] at h
        | ok comment =>
          simp only [htrailer, scanTrailer_concat hb htrailer] at h ⊢
          exact h
    · rw [if_neg hquote] at h ⊢
      rwa [← List.cons_append, scanBare_concat hd hb] at h

theorem Line.scanHeader_concat (hb : isBlank b = true) {body body' inside : Text}
    {content : Content} (h : Line.scanHeader d body' (inside ++ [b]) = .ok content) :
    Line.scanHeader d body inside = .ok content := by
  have hne : (decide (b = ']')) = false := by
    rw [decide_eq_false_iff_not]; rintro rfl; exact absurd hb (by decide)
  unfold scanHeader at h ⊢
  rw [cut_concat hne] at h
  cases hcut : cut (fun c => decide (c = ']')) inside with
  | none => rw [hcut] at h; simp at h
  | some found =>
    obtain ⟨name, mark, rest⟩ := found
    rw [hcut] at h
    simp only [Option.map_some] at h ⊢
    by_cases hempty : (trim name).isEmpty = true
    · simp [hempty] at h
    · rw [if_neg hempty] at h ⊢
      cases htrailer : Line.scanTrailer d .header (rest ++ [b]) with
      | error flaw => simp [htrailer, Except.map] at h
      | ok comment =>
        simp only [htrailer, scanTrailer_concat hb htrailer] at h ⊢
        exact h

theorem Line.scanEntry_concat (hd : d.Plain) (hb : isBlank b = true) {body : Text}
    {content : Content} (h : Line.scanEntry d (body ++ [b]) = .ok content) :
    Line.scanEntry d body = .ok content := by
  have hne : (decide (b = d.delimiter.char)) = false := by
    rw [decide_eq_false_iff_not]
    rintro rfl
    rw [d.delimiter.isBlank_char] at hb
    exact Bool.noConfusion hb
  unfold scanEntry at h ⊢
  rw [cut_concat hne] at h
  cases hcut : cut (fun c => decide (c = d.delimiter.char)) body with
  | none => rw [hcut] at h; simp at h
  | some found =>
    obtain ⟨key, mark, rest⟩ := found
    rw [hcut] at h
    simp only [Option.map_some] at h ⊢
    by_cases hempty : (trim key).isEmpty = true
    · simp [hempty] at h
    · rw [if_neg hempty] at h ⊢
      cases hvalue : Line.scanValue d (trimStart (rest ++ [b])) with
      | error flaw => simp [hvalue, Except.map] at h
      | ok found =>
        simp only [hvalue, scanValue_concat hd hb hvalue] at h ⊢
        exact h

/-- **A blank at the end of a line changes nothing of what it says.** -/
theorem Line.says_of_concat_blank (hd : d.Plain) (hb : isBlank b = true) {raw : Text}
    {content : Content} (h : Line.Says d (raw ++ [b]) content) : Line.Says d raw content := by
  unfold Says at h ⊢
  rw [trimStart_concat_blank hb] at h
  cases hbody : trimStart raw with
  | nil => rwa [hbody, if_pos rfl] at h
  | cons m rest =>
    rw [hbody, if_neg (List.cons_ne_nil _ _), List.cons_append, scanBody_cons] at h
    rw [scanBody_cons]
    by_cases hmarker : d.isMarker m = true
    · rw [if_pos hmarker] at h ⊢
      simpa only [Comment.of, trimEnd_concat_blank hb] using h
    · rw [if_neg hmarker] at h ⊢
      by_cases hbracket : m = '['
      · rw [if_pos hbracket] at h ⊢
        exact scanHeader_concat hb h
      · rw [if_neg hbracket] at h ⊢
        exact scanEntry_concat hd hb (List.cons_append ▸ h)

end ConcatBlank

/-- A carriage return at the end of a line changes nothing of what it says. -/
theorem Line.says_dropReturn {d : Dialect} (hd : d.Plain) {raw : Text} {content : Content}
    (h : Line.Says d raw content) : Line.Says d (dropReturn raw) content := by
  rcases eq_dropReturn_or raw with hraw | hraw
  · rwa [← hraw]
  · rw [hraw] at h
    exact says_of_concat_blank hd (by decide) h

end IniFile
