/-
  What a line says.

  `Line.Says d raw content` states that a line is well formed and what is on it.  The rest of the
  theory speaks of lines through this relation only.

  1. **What a line can say** — `Name.Written`, `Key.Written` and `Comment.Written` collect what is
     known of the names, keys and comments on any line (`says_header`, `says_entry`,
     `says_comment`).
  2. **Lines written afresh** — the converse: a header or an entry line that is written with such
     names says just what was to be written (`says_renderHeader`, `says_renderEntry`).  The comment
     markers must leave the rest of the grammar alone: `Dialect.Plain`.
  3. **Blanks at the end** — they change nothing (`says_of_concat_blank`), so that a carriage return
     may be taken for a part of the line's ending or for a part of the line.

  Mathlib-free.
-/
import IniFile.Document.Page
import IniFile.Proofs.Quoting
import IniFile.Proofs.Lines

namespace IniFile

/-! ## Names, keys and comments that can be written -/

/-- Section names that a header can hold. -/
structure Name.Written (name : Text) : Prop where
  nonempty : name ≠ []
  trimmed : Text.trim name = name
  noBracket : ']' ∉ name
  noFeed : '\n' ∉ name

/-- Keys that an entry line can begin with. -/
structure Key.Written (d : Dialect) (key : Text) : Prop where
  nonempty : key ≠ []
  trimmed : Text.trim key = key
  noDelimiter : d.delimiter.char ∉ key
  noFeed : '\n' ∉ key
  start : ∀ c, key.head? = some c → c ≠ '[' ∧ d.isMarker c = false

/-- Comments that can stand at the end of a line. -/
structure Comment.Written (d : Dialect) (c : Comment) : Prop where
  marker : d.isMarker c.marker = true
  noFeed : '\n' ∉ c.text

/-- The comment markers are none of the characters that mean something else to a reader. -/
structure Dialect.Plain (d : Dialect) : Prop where
  notBlank : ∀ m, d.isMarker m = true → isBlank m = false
  notQuote : ∀ m, d.isMarker m = true → Quoted.isQuote m = false
  notBracket : d.isMarker '[' = false
  notBom : d.isMarker bom = false

instance (name : Text) : Decidable (Name.Written name) :=
  decidable_of_iff (name ≠ [] ∧ Text.trim name = name ∧ ']' ∉ name ∧ '\n' ∉ name)
    ⟨fun ⟨hne, htrim, hbracket, hfeed⟩ => ⟨hne, htrim, hbracket, hfeed⟩,
      fun h => ⟨h.nonempty, h.trimmed, h.noBracket, h.noFeed⟩⟩

-- The instances for bounded quantifiers are named: trying all characters would decide the same.
instance (d : Dialect) (key : Text) : Decidable (Key.Written d key) :=
  have : Decidable (∀ c ∈ key.head?, c ≠ '[' ∧ d.isMarker c = false) :=
    Option.decidableForallMem key.head?
  decidable_of_iff (key ≠ [] ∧ Text.trim key = key ∧ d.delimiter.char ∉ key ∧ '\n' ∉ key ∧
      ∀ c ∈ key.head?, c ≠ '[' ∧ d.isMarker c = false)
    ⟨fun ⟨hne, htrim, hdelimiter, hfeed, hstart⟩ => ⟨hne, htrim, hdelimiter, hfeed, hstart⟩,
      fun h => ⟨h.nonempty, h.trimmed, h.noDelimiter, h.noFeed, h.start⟩⟩

instance (d : Dialect) (c : Comment) : Decidable (c.Written d) :=
  decidable_of_iff (d.isMarker c.marker = true ∧ '\n' ∉ c.text)
    ⟨fun ⟨hmarker, hfeed⟩ => ⟨hmarker, hfeed⟩, fun h => ⟨h.marker, h.noFeed⟩⟩

/-- It is enough to look at the markers. -/
theorem Dialect.plain_iff (d : Dialect) : d.Plain ↔
    ∀ m ∈ d.markers, isBlank m = false ∧ Quoted.isQuote m = false ∧ m ≠ '[' ∧ m ≠ bom := by
  have hmem : ∀ m, m ∈ d.markers ↔ d.isMarker m = true := by
    intro m
    exact List.contains_iff_mem.symm
  constructor
  · intro h m hm
    rw [hmem] at hm
    refine ⟨h.notBlank m hm, h.notQuote m hm, ?_, ?_⟩
    · rintro rfl
      exact Bool.noConfusion (h.notBracket.symm.trans hm)
    · rintro rfl
      exact Bool.noConfusion (h.notBom.symm.trans hm)
  · intro h
    refine ⟨fun m hm => (h m ((hmem m).mpr hm)).1, fun m hm => (h m ((hmem m).mpr hm)).2.1, ?_, ?_⟩
    · exact eq_false_of_ne_true fun hm => (h _ ((hmem _).mpr hm)).2.2.1 rfl
    · exact eq_false_of_ne_true fun hm => (h _ ((hmem _).mpr hm)).2.2.2 rfl

instance (d : Dialect) : Decidable d.Plain :=
  @decidable_of_iff _ _ d.plain_iff.symm (List.decidableBAll _ d.markers)

theorem Dialect.plain_standard : Dialect.standard.Plain := by decide

theorem Dialect.Plain.isMarker_of_isBlank {d : Dialect} (hd : d.Plain) {b : Char}
    (hb : isBlank b = true) : d.isMarker b = false := by
  cases h : d.isMarker b with
  | false => rfl
  | true => rw [hd.notBlank b h] at hb; exact Bool.noConfusion hb

theorem Delimiter.isBlank_char (x : Delimiter) : isBlank x.char = false := by
  cases x <;> decide

namespace Line

/-! ## Saying -/

/-- The line is well formed, and this is its content. -/
def Says (d : Dialect) (raw : Text) (content : Content) : Prop :=
  scanBody d (Text.trimStart raw) = .ok content

theorem scan_of_says {d : Dialect} {raw : Text} {content : Content} (h : Says d raw content) :
    (scan d raw).1 = content := by
  unfold Says at h
  cases content <;> rw [scan, h]

theorem says_of_scan {d : Dialect} {raw : Text} {content : Content} (h : (scan d raw).1 = content)
    (hgood : ∀ fault, content ≠ .malformed fault) : Says d raw content := by
  unfold Says
  unfold scan at h
  cases hscan : scanBody d (Text.trimStart raw) with
  | ok found =>
    rw [hscan] at h
    rw [← h]
    cases found <;> rfl
  | error flaw =>
    rw [hscan] at h
    exact absurd h.symm (hgood flaw.fault)

/-- A line that is kept for its looks: it is blank, or it is a comment. -/
def IsTrivia (d : Dialect) (raw : Text) : Prop := Says d raw .blank ∨ ∃ c, Says d raw (.comment c)

/-! ## What a line can say -/

theorem mem_of_trimStart_eq {raw body : Text} (h : Text.trimStart raw = body) {c : Char}
    (hc : c ∈ body) : c ∈ raw :=
  Text.mem_of_mem_trimStart (h ▸ hc)

/-- The four ways in which the body of a line is read. -/
theorem scanBody_cons (d : Dialect) (c : Char) (rest : Text) :
    scanBody d (c :: rest) =
      if d.isMarker c then .ok (.comment (.of c rest))
      else if c = '[' then scanHeader d (c :: rest) rest
      else scanEntry d (c :: rest) := rfl

theorem scanHeader_eq_ok {d : Dialect} {body inside : Text} {content : Content}
    (h : scanHeader d body inside = .ok content) :
    ∃ name after comment, inside = name ++ ']' :: after ∧ ']' ∉ name ∧ Text.trim name ≠ [] ∧
      scanTrailer d .header after = .ok comment ∧ content = .header (Text.trim name) comment := by
  unfold scanHeader at h
  cases hcut : Text.cut (· = ']') inside with
  | none => rw [hcut] at h; simp at h
  | some found =>
    obtain ⟨name, mark, after⟩ := found
    obtain ⟨hsplit, hmark, hname⟩ := Text.of_cut_eq_some hcut
    rw [decide_eq_true_eq] at hmark
    subst hmark
    have hbracket : ']' ∉ name := by
      intro hmem
      simpa using hname _ hmem
    rw [hcut] at h
    by_cases hempty : (Text.trim name).isEmpty = true
    · simp [hempty] at h
    · rw [List.isEmpty_iff] at hempty
      cases htrailer : scanTrailer d .header after with
      | error flaw => simp [hempty, htrailer, Except.map] at h
      | ok comment =>
        simp only [List.isEmpty_iff, hempty, ↓reduceIte, htrailer, Except.map,
          Except.ok.injEq] at h
        exact ⟨name, after, comment, hsplit, hbracket, hempty, htrailer, h.symm⟩

theorem scanEntry_eq_ok {d : Dialect} {body : Text} {content : Content}
    (h : scanEntry d body = .ok content) :
    ∃ key after value comment, body = key ++ d.delimiter.char :: after ∧
      d.delimiter.char ∉ key ∧ Text.trim key ≠ [] ∧
      scanValue d (Text.trimStart after) = .ok (value, comment) ∧
      content = .entry (Text.trim key) value comment := by
  unfold scanEntry at h
  cases hcut : Text.cut (· = d.delimiter.char) body with
  | none => rw [hcut] at h; simp at h
  | some found =>
    obtain ⟨key, mark, after⟩ := found
    obtain ⟨hsplit, hmark, hkey⟩ := Text.of_cut_eq_some hcut
    rw [decide_eq_true_eq] at hmark
    subst hmark
    have hdelimiter : d.delimiter.char ∉ key := by
      intro hmem
      simpa using hkey _ hmem
    rw [hcut] at h
    by_cases hempty : (Text.trim key).isEmpty = true
    · simp [hempty] at h
    · rw [List.isEmpty_iff] at hempty
      cases hvalue : scanValue d (Text.trimStart after) with
      | error flaw => simp [hempty, hvalue, Except.map] at h
      | ok found =>
        obtain ⟨value, comment⟩ := found
        simp only [List.isEmpty_iff, hempty, ↓reduceIte, hvalue, Except.map,
          Except.ok.injEq] at h
        exact ⟨key, after, value, comment, hsplit, hdelimiter, hempty, hvalue, h.symm⟩

/-- **What it takes to say something**: the four ways in which a well-formed line is read. -/
theorem says_cases {d : Dialect} {raw : Text} {content : Content} (h : Says d raw content) :
    (Text.trimStart raw = [] ∧ content = .blank) ∨
    (∃ m rest, Text.trimStart raw = m :: rest ∧ d.isMarker m = true ∧
      content = .comment (.of m rest)) ∨
    (∃ rest, Text.trimStart raw = '[' :: rest ∧ d.isMarker '[' = false ∧
      scanHeader d ('[' :: rest) rest = .ok content) ∨
    (∃ m rest, Text.trimStart raw = m :: rest ∧ d.isMarker m = false ∧ m ≠ '[' ∧
      scanEntry d (m :: rest) = .ok content) := by
  unfold Says at h
  cases hbody : Text.trimStart raw with
  | nil =>
    rw [hbody, scanBody, Except.ok.injEq] at h
    exact Or.inl ⟨rfl, h.symm⟩
  | cons m rest =>
    rw [hbody, scanBody_cons] at h
    by_cases hmarker : d.isMarker m = true
    · rw [if_pos hmarker, Except.ok.injEq] at h
      exact Or.inr (Or.inl ⟨m, rest, rfl, hmarker, h.symm⟩)
    · by_cases hbracket : m = '['
      · subst hbracket
        rw [if_neg hmarker, if_pos rfl] at h
        exact Or.inr (Or.inr (Or.inl ⟨rest, rfl, eq_false_of_ne_true hmarker, h⟩))
      · rw [if_neg hmarker, if_neg hbracket] at h
        exact Or.inr (Or.inr (Or.inr
          ⟨m, rest, rfl, eq_false_of_ne_true hmarker, hbracket, h⟩))

/-- A comment behind a header or a quoted value begins with a marker and is part of the line. -/
theorem scanTrailer_eq_some {d : Dialect} {after : Closed} {rest : Text} {c : Comment}
    (h : scanTrailer d after rest = .ok (some c)) :
    d.isMarker c.marker = true ∧ ∀ x ∈ c.text, x ∈ rest := by
  unfold scanTrailer at h
  cases hrest : Text.trimStart rest with
  | nil => rw [hrest] at h; simp at h
  | cons m text =>
    rw [hrest] at h
    by_cases hm : d.isMarker m = true
    · simp only [hm, ↓reduceIte, Except.ok.injEq, Option.some.injEq] at h
      subst h
      refine ⟨hm, fun x hx => mem_of_trimStart_eq hrest ?_⟩
      exact List.mem_cons_of_mem m (Text.mem_of_mem_trimEnd hx)
    · simp [hm] at h

/-- What is left over behind a quoted value is part of the text. -/
theorem mem_of_scan_closed {quote : Char} {t value rest : Text}
    (h : Quoted.scan quote t = .closed value rest) : ∀ x ∈ rest, x ∈ t := by
  fun_induction Quoted.scan quote t generalizing value with
  | case1 => simp at h
  | case2 => simp at h
  | case3 c t decoded hdecoded ih =>
    obtain ⟨v, -, hv⟩ := Quoted.push_eq_closed h
    intro x hx
    exact List.mem_cons_of_mem _ (List.mem_cons_of_mem _ (ih hv x hx))
  | case4 c t hnone => simp at h
  | case5 t _ _ =>
    simp only [Quoted.Outcome.closed.injEq] at h
    intro x hx
    exact List.mem_cons_of_mem _ (h.2 ▸ hx)
  | case6 c t _ _ hc ih =>
    obtain ⟨v, -, hv⟩ := Quoted.push_eq_closed h
    intro x hx
    exact List.mem_cons_of_mem _ (ih hv x hx)

/-- A comment behind a value begins with a marker and is part of the line. -/
theorem scanValue_comment {d : Dialect} {text value : Text} {c : Comment}
    (h : scanValue d text = .ok (value, some c)) :
    d.isMarker c.marker = true ∧ ∀ x ∈ c.text, x ∈ text := by
  cases text with
  | nil => simp [scanValue] at h
  | cons first inside =>
    simp only [scanValue] at h
    by_cases hquote : Quoted.isQuote first = true
    · rw [if_pos hquote] at h
      cases hscan : Quoted.scan first inside with
      | unterminated => rw [hscan] at h; simp at h
      | invalidEscape here escaped => rw [hscan] at h; simp at h
      | closed v rest =>
        rw [hscan] at h
        cases htrailer : scanTrailer d .quotedValue rest with
        | error flaw => simp [htrailer, Except.map] at h
        | ok found =>
          simp only [htrailer, Except.map, Except.ok.injEq, Prod.mk.injEq] at h
          obtain ⟨-, rfl⟩ := h
          obtain ⟨hmarker, hmem⟩ := scanTrailer_eq_some htrailer
          exact ⟨hmarker, fun x hx =>
            List.mem_cons_of_mem _ (mem_of_scan_closed hscan x (hmem x hx))⟩
    · rw [if_neg hquote] at h
      cases hcut : Text.cut d.isMarker (first :: inside) with
      | none => simp [scanBare, hcut] at h
      | some found =>
        obtain ⟨before, marker, rest⟩ := found
        obtain ⟨hsplit, hmarker, -⟩ := Text.of_cut_eq_some hcut
        simp only [scanBare, hcut, Except.ok.injEq, Prod.mk.injEq, Option.some.injEq] at h
        obtain ⟨-, rfl⟩ := h
        refine ⟨hmarker, fun x hx => ?_⟩
        rw [hsplit]
        exact List.mem_append_right _
          (List.mem_cons_of_mem _ (Text.mem_of_mem_trimEnd hx))

/-- A blank line is blank throughout. -/
theorem says_blank_iff {d : Dialect} {raw : Text} :
    Says d raw .blank ↔ Text.trimStart raw = [] := by
  constructor
  · intro h
    rcases says_cases h with ⟨hbody, -⟩ | ⟨m, rest, -, -, hcontent⟩ | ⟨rest, -, -, hheader⟩ |
      ⟨m, rest, -, -, -, hentry⟩
    · exact hbody
    · exact absurd hcontent (by simp)
    · obtain ⟨_, _, _, _, _, _, _, hcontent⟩ := scanHeader_eq_ok hheader
      exact absurd hcontent (by simp)
    · obtain ⟨_, _, _, _, _, _, _, _, hcontent⟩ := scanEntry_eq_ok hentry
      exact absurd hcontent (by simp)
  · intro h
    rw [Says, h]
    rfl

/-- A comment line begins with a marker, and the rest of it is the comment's text. -/
theorem says_comment_iff {d : Dialect} {raw : Text} {c : Comment} :
    Says d raw (.comment c) ↔
      ∃ m rest, Text.trimStart raw = m :: rest ∧ d.isMarker m = true ∧ c = .of m rest := by
  constructor
  · intro h
    rcases says_cases h with ⟨-, hcontent⟩ | ⟨m, rest, hbody, hmarker, hcontent⟩ |
      ⟨rest, -, -, hheader⟩ | ⟨m, rest, -, -, -, hentry⟩
    · exact absurd hcontent (by simp)
    · exact ⟨m, rest, hbody, hmarker, Content.comment.inj hcontent⟩
    · obtain ⟨_, _, _, _, _, _, _, hcontent⟩ := scanHeader_eq_ok hheader
      exact absurd hcontent (by simp)
    · obtain ⟨_, _, _, _, _, _, _, _, hcontent⟩ := scanEntry_eq_ok hentry
      exact absurd hcontent (by simp)
  · rintro ⟨m, rest, hbody, hmarker, rfl⟩
    rw [Says, hbody, scanBody_cons, if_pos hmarker]

/-- How a header line is read. -/
theorem says_header_iff {d : Dialect} {raw name : Text} {comment : Option Comment} :
    Says d raw (.header name comment) ↔
      ∃ rest, Text.trimStart raw = '[' :: rest ∧ d.isMarker '[' = false ∧
        scanHeader d ('[' :: rest) rest = .ok (.header name comment) := by
  constructor
  · intro h
    rcases says_cases h with ⟨-, hcontent⟩ | ⟨m, rest, -, -, hcontent⟩ | hheader |
      ⟨m, rest, -, -, -, hentry⟩
    · exact absurd hcontent (by simp)
    · exact absurd hcontent (by simp)
    · exact hheader
    · obtain ⟨_, _, _, _, _, _, _, _, hcontent⟩ := scanEntry_eq_ok hentry
      exact absurd hcontent (by simp)
  · rintro ⟨rest, hbody, hmarker, hheader⟩
    rw [Says, hbody, scanBody_cons, if_neg (by simp [hmarker]), if_pos rfl, hheader]

/-- How an entry line is read. -/
theorem says_entry_iff {d : Dialect} {raw key value : Text} {comment : Option Comment} :
    Says d raw (.entry key value comment) ↔
      ∃ m rest, Text.trimStart raw = m :: rest ∧ d.isMarker m = false ∧ m ≠ '[' ∧
        scanEntry d (m :: rest) = .ok (.entry key value comment) := by
  constructor
  · intro h
    rcases says_cases h with ⟨-, hcontent⟩ | ⟨m, rest, -, -, hcontent⟩ | ⟨rest, -, -, hheader⟩ |
      hentry
    · exact absurd hcontent (by simp)
    · exact absurd hcontent (by simp)
    · obtain ⟨_, _, _, _, _, _, _, hcontent⟩ := scanHeader_eq_ok hheader
      exact absurd hcontent (by simp)
    · exact hentry
  · rintro ⟨m, rest, hbody, hmarker, hbracket, hentry⟩
    rw [Says, hbody, scanBody_cons, if_neg (by simp [hmarker]), if_neg hbracket, hentry]

/-- The name and the comment of a header line can be written. -/
theorem says_header {d : Dialect} {raw name : Text} {comment : Option Comment}
    (h : Says d raw (.header name comment)) (hraw : '\n' ∉ raw) :
    Name.Written name ∧ ∀ c, comment = some c → Comment.Written d c := by
  obtain ⟨rest, hbody, -, hheader⟩ := says_header_iff.mp h
  obtain ⟨n, after, k, hsplit, hnot, hne, htrailer, hcontent⟩ := scanHeader_eq_ok hheader
  obtain ⟨rfl, rfl⟩ := Content.header.injEq .. ▸ hcontent
  -- all that is taken from a line is on it, so none of it holds a line feed
  have hin : ∀ x ∈ n ++ ']' :: after, x ∈ raw := by
    intro x hx
    exact mem_of_trimStart_eq hbody (List.mem_cons_of_mem _ (hsplit ▸ hx))
  refine ⟨⟨hne, Text.trim_trim n, fun hmem => hnot (Text.mem_of_mem_trim hmem),
    fun hmem => hraw (hin _ (List.mem_append_left _ (Text.mem_of_mem_trim hmem)))⟩,
    fun c hc => ?_⟩
  subst hc
  obtain ⟨hm, htext⟩ := scanTrailer_eq_some htrailer
  exact ⟨hm, fun hmem => hraw (hin _
    (List.mem_append_right _ (List.mem_cons_of_mem _ (htext _ hmem))))⟩

/-- A key begins where its line does. -/
theorem head?_trim_key {m : Char} {rest key after : Text} {mark : Char}
    (hm : isBlank m = false) (hsplit : m :: rest = key ++ mark :: after)
    (hne : Text.trim key ≠ []) {c : Char} (hc : (Text.trim key).head? = some c) : c = m := by
  obtain ⟨tail, htail⟩ := List.head?_eq_some_iff.mp hc
  cases key with
  | nil => exact absurd rfl hne
  | cons first more =>
    rw [List.cons_append, List.cons.injEq] at hsplit
    rw [Text.trim, Text.trimStart_cons (hsplit.1 ▸ hm)] at htail
    obtain ⟨bs, hkept, -⟩ := Text.exists_eq_trimEnd_append (first :: more)
    rw [htail, List.cons_append, List.cons.injEq] at hkept
    rw [← hkept.1, hsplit.1]

/-- The key and the comment of an entry line can be written. -/
theorem says_entry {d : Dialect} {raw key value : Text} {comment : Option Comment}
    (h : Says d raw (.entry key value comment)) (hraw : '\n' ∉ raw) :
    Key.Written d key ∧ ∀ c, comment = some c → Comment.Written d c := by
  obtain ⟨m, rest, hbody, hmarker, hbracket, hentry⟩ := says_entry_iff.mp h
  obtain ⟨k, after, v, comment', hsplit, hnot, hne, hvalue, hcontent⟩ := scanEntry_eq_ok hentry
  obtain ⟨rfl, rfl, rfl⟩ := Content.entry.injEq .. ▸ hcontent
  have hin : ∀ x ∈ k ++ d.delimiter.char :: after, x ∈ raw := by
    intro x hx
    exact mem_of_trimStart_eq hbody (hsplit ▸ hx)
  -- the line was not read as a header or a comment, and its key begins where it begins
  have hstart : ∀ c, (Text.trim k).head? = some c → c = m := by
    intro c hc
    exact head?_trim_key (Text.isBlank_of_trimStart_eq_cons hbody) hsplit hne hc
  refine ⟨⟨hne, Text.trim_trim k, fun hmem => hnot (Text.mem_of_mem_trim hmem),
    fun hmem => hraw (hin _ (List.mem_append_left _ (Text.mem_of_mem_trim hmem))),
    fun c hc => ?_⟩, fun c hc => ?_⟩
  · rw [hstart c hc]
    exact ⟨hbracket, hmarker⟩
  · subst hc
    obtain ⟨hm, htext⟩ := scanValue_comment hvalue
    exact ⟨hm, fun hmem => hraw (hin _ (List.mem_append_right _
      (List.mem_cons_of_mem _ (Text.mem_of_mem_trimStart (htext _ hmem)))))⟩

/-- No header has the empty name. -/
theorem name_ne_nil {d : Dialect} {raw name : Text} {comment : Option Comment}
    (h : (scan d raw).1 = .header name comment) : name ≠ [] := by
  obtain ⟨rest, -, -, hheader⟩ := says_header_iff.mp (says_of_scan h (by simp))
  obtain ⟨n, after, k, -, -, hne, -, hcontent⟩ := scanHeader_eq_ok hheader
  obtain ⟨rfl, rfl⟩ := Content.header.injEq .. ▸ hcontent
  exact hne

end Line
end IniFile
