/-
  The grammar of a line.

  `Line.scanBody` is a program: it cuts, trims and looks at the next character.  This file states
  which lines there are WITHOUT it — a line is put together from pieces, and each piece says what
  it may hold — and proves that the program accepts these lines and no others.

  1. **Quoted bodies** — `Quoted.Body`: what may stand between two quotes, and what it stands for.
  2. **Forms** — `Line.Trailer`, `Line.Value` and `Line.Form`: the grammar.  A form is a way to put
     a line together, so a line is of a form or it is not; nothing is tried in any order.
  3. **Flaws** — `Line.Stray`, `Line.ValueFlaw` and `Line.Flawed`: what a line looks like that is of
     no form, with the fault and the part of the line that begins where the fault is.
  4. **Nothing else** — every line is of a form or has a flaw (`form_or_flawed`).
  5. **The scanner** — it reports the form (`scanBody_form`) and the flaw (`scanBody_flawed`).

  Since nothing else is left, the converse of both follows (`ofLine_follows_grammar`).  No condition
  is put on the dialect: a comment marker may be a quote, a bracket, the delimiter or a blank.

  Mathlib-free.
-/
import IniFile.Proofs.LineContent

namespace IniFile

/-! ## Quoted bodies -/

namespace Quoted

/-- The **escapes**: the character behind the backslash, and what the two stand for. -/
def escapes : List (Char × Char) :=
  [('"', '"'), ('\'', '\''), ('\\', '\\'), ('n', '\n'), ('r', '\r'), ('t', '\t')]

/-- A **quoted body** and its decoding: escapes, and characters that are neither the quote around
    the body nor a backslash. -/
inductive Body (quote : Char) : Text → Text → Prop where
  | nil : Body quote [] []
  | escape {c decoded : Char} {body value : Text} (hescape : (c, decoded) ∈ escapes)
      (hbody : Body quote body value) : Body quote ('\\' :: c :: body) (decoded :: value)
  | plain {c : Char} {body value : Text} (hquote : c ≠ quote) (hslash : c ≠ '\\')
      (hbody : Body quote body value) : Body quote (c :: body) (c :: value)

/-- The table of escapes is the one that the reader goes by. -/
theorem unescape?_eq_some_iff {c decoded : Char} :
    unescape? c = some decoded ↔ (c, decoded) ∈ escapes := by
  by_cases h1 : c = '"'
  · subst h1; simp [unescape?, escapes, eq_comm]
  by_cases h2 : c = '\''
  · subst h2; simp [unescape?, escapes, eq_comm]
  by_cases h3 : c = '\\'
  · subst h3; simp [unescape?, escapes, eq_comm]
  by_cases h4 : c = 'n'
  · subst h4; simp [unescape?, escapes, eq_comm]
  by_cases h5 : c = 'r'
  · subst h5; simp [unescape?, escapes, eq_comm]
  by_cases h6 : c = 't'
  · subst h6; simp [unescape?, escapes, eq_comm]
  · simp [unescape?, escapes, h1, h2, h3, h4, h5, h6]

theorem unescape?_eq_none_iff {c : Char} :
    unescape? c = none ↔ ∀ decoded, (c, decoded) ∉ escapes := by
  rw [Option.eq_none_iff_forall_ne_some]
  exact forall_congr' fun decoded => not_congr unescape?_eq_some_iff

/-- The outcome with more characters in front of the value. -/
def Outcome.prepend (value : Text) (o : Outcome) : Outcome := value.foldr Outcome.push o

@[simp] theorem Outcome.prepend_closed (value v rest : Text) :
    Outcome.prepend value (.closed v rest) = .closed (value ++ v) rest := by
  induction value with
  | nil => rfl
  | cons c value ih => simp only [prepend, List.foldr_cons] at ih ⊢; rw [ih]; rfl

@[simp] theorem Outcome.prepend_unterminated (value : Text) :
    Outcome.prepend value .unterminated = .unterminated := by
  induction value with
  | nil => rfl
  | cons c value ih => simp only [prepend, List.foldr_cons] at ih ⊢; rw [ih]; rfl

@[simp] theorem Outcome.prepend_invalidEscape (value here : Text) (escaped : Char) :
    Outcome.prepend value (.invalidEscape here escaped) = .invalidEscape here escaped := by
  induction value with
  | nil => rfl
  | cons c value ih => simp only [prepend, List.foldr_cons] at ih ⊢; rw [ih]; rfl

/-- **A quoted body is decoded**, and what follows it is read as if the body were not there. -/
theorem scan_body {quote : Char} {body value : Text} (h : Body quote body value) (rest : Text) :
    scan quote (body ++ rest) = (scan quote rest).prepend value := by
  induction h with
  | nil => rfl
  | escape hescape hbody ih =>
    rw [List.cons_append, List.cons_append, scan_escape (unescape?_eq_some_iff.mpr hescape), ih]
    rfl
  | plain hquote hslash hbody ih => rw [List.cons_append, scan_cons hquote hslash, ih]; rfl

/-- What stands where a quoted body ends: the closing quote, nothing, a backslash alone, or a
    backslash in front of a character that it does not escape. -/
def EndsBody (quote : Char) (rest : Text) : Prop :=
  (∃ after, rest = quote :: after) ∨ rest = [] ∨ rest = ['\\'] ∨
    ∃ c after, rest = '\\' :: c :: after ∧ ∀ decoded, (c, decoded) ∉ escapes

/-- Every text is a quoted body up to where it ends. -/
theorem exists_body (quote : Char) (t : Text) : ∃ body value rest,
    t = body ++ rest ∧ Body quote body value ∧ EndsBody quote rest := by
  -- the recursion is that of `scan`, which goes on at an escape and at a plain character
  fun_induction scan quote t with
  | case1 => exact ⟨[], [], [], rfl, .nil, Or.inr (Or.inl rfl)⟩
  | case2 => exact ⟨[], [], ['\\'], rfl, .nil, Or.inr (Or.inr (Or.inl rfl))⟩
  | case3 c t decoded hdecoded ih =>
    obtain ⟨body, value, rest, rfl, hbody, hend⟩ := ih
    have hescape := unescape?_eq_some_iff.mp hdecoded
    exact ⟨'\\' :: c :: body, decoded :: value, rest, rfl, .escape hescape hbody, hend⟩
  | case4 c t hnone =>
    have hescape := unescape?_eq_none_iff.mp hnone
    exact ⟨[], [], '\\' :: c :: t, rfl, .nil, Or.inr (Or.inr (Or.inr ⟨c, t, rfl, hescape⟩))⟩
  | case5 t hlast hmore => exact ⟨[], [], quote :: t, rfl, .nil, Or.inl ⟨t, rfl⟩⟩
  | case6 c t hlast hmore hquote ih =>
    obtain ⟨body, value, rest, rfl, hbody, hend⟩ := ih
    have hslash : c ≠ '\\' := ne_backslash hlast hmore
    exact ⟨c :: body, c :: value, rest, rfl, .plain hquote hslash hbody, hend⟩

theorem ne_slash_of_isQuote {quote : Char} (h : isQuote quote = true) : quote ≠ '\\' := by
  rintro rfl
  exact absurd h (by decide)

end Quoted

namespace Line

/-! ## Forms -/

/-- A **trailer**, behind a header or a quoted value: blanks alone, or blanks up to a comment.  The
    blanks are taken as far as they go, so a marker that is itself a blank starts no comment here. -/
inductive Trailer (d : Dialect) : Text → Option Comment → Prop where
  | blank {rest : Text} (hrest : ∀ c ∈ rest, isBlank c = true) : Trailer d rest none
  | comment {blanks text : Text} {m : Char} (hblanks : ∀ c ∈ blanks, isBlank c = true)
      (hvisible : isBlank m = false) (hmarker : d.isMarker m = true) :
      Trailer d (blanks ++ m :: text) (some (.of m text))

/-- The text starts with no quote. -/
def Unquoted (text : Text) : Prop := ∀ c, text.head? = some c → Quoted.isQuote c = false

/-- A **value** with what follows it: a quoted body with a trailer, or plain text up to the FIRST
    comment marker. -/
inductive Value (d : Dialect) : Text → Text → Option Comment → Prop where
  | quoted {quote : Char} {body value rest : Text} {comment : Option Comment}
      (hquote : Quoted.isQuote quote = true) (hbody : Quoted.Body quote body value)
      (hrest : Trailer d rest comment) :
      Value d (quote :: (body ++ quote :: rest)) value comment
  | bare {text : Text} (hstart : Unquoted text) (htext : ∀ c ∈ text, d.isMarker c = false) :
      Value d text text.trim none
  | annotated {before after : Text} {m : Char} (hstart : Unquoted (before ++ m :: after))
      (hbefore : ∀ c ∈ before, d.isMarker c = false) (hmarker : d.isMarker m = true) :
      Value d (before ++ m :: after) before.trim (some (.of m after))

/-- Neither a comment nor a header starts here. -/
def Ordinary (d : Dialect) (body : Text) : Prop :=
  ∀ c, body.head? = some c → d.isMarker c = false ∧ c ≠ '['

/-- The **forms** of a line, which is given without its leading blanks. -/
inductive Form (d : Dialect) : Text → Content → Prop where
  | blank : Form d [] .blank
  | comment {m : Char} {rest : Text} (hmarker : d.isMarker m = true) :
      Form d (m :: rest) (.comment (.of m rest))
  | header {name rest : Text} {comment : Option Comment} (hmarker : d.isMarker '[' = false)
      (hname : ']' ∉ name) (hnonempty : name.trim ≠ []) (hrest : Trailer d rest comment) :
      Form d ('[' :: (name ++ ']' :: rest)) (.header name.trim comment)
  | entry {key after value : Text} {comment : Option Comment}
      (hstart : Ordinary d (key ++ d.delimiter.char :: after)) (hkey : d.delimiter.char ∉ key)
      (hnonempty : key.trim ≠ []) (hvalue : Value d after.trimStart value comment) :
      Form d (key ++ d.delimiter.char :: after) (.entry key.trim value comment)

/-! ## Flaws -/

/-- Text that is no trailer: behind the blanks is something, at `here`, that starts no comment. -/
inductive Stray (d : Dialect) : Text → Text → Prop where
  | intro {blanks rest : Text} {c : Char} (hblanks : ∀ c ∈ blanks, isBlank c = true)
      (hvisible : isBlank c = false) (hmarker : d.isMarker c = false) :
      Stray d (blanks ++ c :: rest) (c :: rest)

/-- The **flaws of a value**.  All three are about quoted ones: any other text is a value. -/
inductive ValueFlaw (d : Dialect) : Text → Flaw → Prop where
  /-- The line ends before the closing quote, perhaps with a backslash that escapes nothing. -/
  | unterminated {quote : Char} {body value rest : Text} (hquote : Quoted.isQuote quote = true)
      (hbody : Quoted.Body quote body value) (hrest : rest = [] ∨ rest = ['\\']) :
      ValueFlaw d (quote :: (body ++ rest)) ⟨quote :: (body ++ rest), .unterminatedValue⟩
  | invalidEscape {quote c : Char} {body value rest : Text} (hquote : Quoted.isQuote quote = true)
      (hbody : Quoted.Body quote body value)
      (hescape : ∀ decoded, (c, decoded) ∉ Quoted.escapes) :
      ValueFlaw d (quote :: (body ++ '\\' :: c :: rest)) ⟨'\\' :: c :: rest, .invalidEscape c⟩
  | stray {quote : Char} {body value rest here : Text} (hquote : Quoted.isQuote quote = true)
      (hbody : Quoted.Body quote body value) (hrest : Stray d rest here) :
      ValueFlaw d (quote :: (body ++ quote :: rest)) ⟨here, .stray .quotedValue⟩

/-- The **flaws** of a line, which is given without its leading blanks. -/
inductive Flawed (d : Dialect) : Text → Flaw → Prop where
  | unterminatedHeader {inside : Text} (hmarker : d.isMarker '[' = false)
      (hinside : ']' ∉ inside) : Flawed d ('[' :: inside) ⟨'[' :: inside, .unterminatedHeader⟩
  | emptySectionName {name rest : Text} (hmarker : d.isMarker '[' = false) (hname : ']' ∉ name)
      (hempty : name.trim = []) :
      Flawed d ('[' :: (name ++ ']' :: rest)) ⟨'[' :: (name ++ ']' :: rest), .emptySectionName⟩
  | strayBehindHeader {name rest here : Text} (hmarker : d.isMarker '[' = false)
      (hname : ']' ∉ name) (hnonempty : name.trim ≠ []) (hrest : Stray d rest here) :
      Flawed d ('[' :: (name ++ ']' :: rest)) ⟨here, .stray .header⟩
  | missingDelimiter {body : Text} (hnonempty : body ≠ []) (hstart : Ordinary d body)
      (hbody : d.delimiter.char ∉ body) :
      Flawed d body ⟨body, .missingDelimiter d.delimiter.char⟩
  | emptyKey {key after : Text} (hstart : Ordinary d (key ++ d.delimiter.char :: after))
      (hkey : d.delimiter.char ∉ key) (hempty : key.trim = []) :
      Flawed d (key ++ d.delimiter.char :: after) ⟨key ++ d.delimiter.char :: after, .emptyKey⟩
  | value {key after : Text} {flaw : Flaw}
      (hstart : Ordinary d (key ++ d.delimiter.char :: after)) (hkey : d.delimiter.char ∉ key)
      (hnonempty : key.trim ≠ []) (hvalue : ValueFlaw d after.trimStart flaw) :
      Flawed d (key ++ d.delimiter.char :: after) flaw

/-! ## Nothing else -/

theorem trailer_or_stray (d : Dialect) (rest : Text) :
    (∃ comment, Trailer d rest comment) ∨ ∃ here, Stray d rest here := by
  obtain ⟨blanks, hsplit, hblanks⟩ := Text.exists_eq_append_trimStart rest
  cases htrim : rest.trimStart with
  | nil => exact Or.inl ⟨none, .blank (Text.trimStart_eq_nil_iff.mp htrim)⟩
  | cons c text =>
    have hvisible := Text.isBlank_of_trimStart_eq_cons htrim
    rw [hsplit, htrim]
    cases hmarker : d.isMarker c with
    | true => exact Or.inl ⟨some (.of c text), .comment hblanks hvisible hmarker⟩
    | false => exact Or.inr ⟨c :: text, .intro hblanks hvisible hmarker⟩

theorem value_or_valueFlaw (d : Dialect) (text : Text) :
    (∃ value comment, Value d text value comment) ∨ ∃ flaw, ValueFlaw d text flaw := by
  by_cases hstart : Unquoted text
  · -- plain text: all that matters is whether there is a comment marker
    left
    cases hcut : Text.cut d.isMarker text with
    | none => exact ⟨text.trim, none, .bare hstart (Text.cut_eq_none_iff.mp hcut)⟩
    | some found =>
      obtain ⟨before, m, after⟩ := found
      obtain ⟨rfl, hmarker, hbefore⟩ := Text.of_cut_eq_some hcut
      exact ⟨before.trim, some (.of m after), .annotated hstart hbefore hmarker⟩
  · obtain ⟨quote, hhead, hquote⟩ : ∃ c, text.head? = some c ∧ Quoted.isQuote c = true := by
      simpa [Unquoted] using hstart
    obtain ⟨inside, rfl⟩ := List.head?_eq_some_iff.mp hhead
    obtain ⟨body, value, rest, rfl, hbody, hend⟩ := Quoted.exists_body quote inside
    rcases hend with ⟨after, rfl⟩ | hrest | hrest | ⟨c, after, rfl, hescape⟩
    · rcases trailer_or_stray d after with ⟨comment, hafter⟩ | ⟨here, hafter⟩
      · exact Or.inl ⟨value, comment, .quoted hquote hbody hafter⟩
      · exact Or.inr ⟨_, .stray hquote hbody hafter⟩
    · exact Or.inr ⟨_, .unterminated hquote hbody (Or.inl hrest)⟩
    · exact Or.inr ⟨_, .unterminated hquote hbody (Or.inr hrest)⟩
    · exact Or.inr ⟨_, .invalidEscape hquote hbody hescape⟩

/-- **Every line is of a form or has a flaw.** -/
theorem form_or_flawed (d : Dialect) (body : Text) :
    (∃ content, Form d body content) ∨ ∃ flaw, Flawed d body flaw := by
  cases body with
  | nil => exact Or.inl ⟨.blank, .blank⟩
  | cons m rest =>
    by_cases hmarker : d.isMarker m = true
    · exact Or.inl ⟨_, .comment hmarker⟩
    rw [Bool.not_eq_true] at hmarker
    by_cases hbracket : m = '['
    · subst hbracket
      by_cases hinside : ']' ∉ rest
      · exact Or.inr ⟨_, .unterminatedHeader hmarker hinside⟩
      obtain ⟨name, after, rfl, hname⟩ :=
        List.eq_append_cons_of_mem (Decidable.not_not.mp hinside)
      by_cases hempty : Text.trim name = []
      · exact Or.inr ⟨_, .emptySectionName hmarker hname hempty⟩
      rcases trailer_or_stray d after with ⟨comment, hafter⟩ | ⟨here, hafter⟩
      · exact Or.inl ⟨_, .header hmarker hname hempty hafter⟩
      · exact Or.inr ⟨_, .strayBehindHeader hmarker hname hempty hafter⟩
    · have hstart : Ordinary d (m :: rest) := by
        intro c hc
        obtain rfl := Option.some.inj hc
        exact ⟨hmarker, hbracket⟩
      by_cases hbody : d.delimiter.char ∉ m :: rest
      · exact Or.inr ⟨_, .missingDelimiter (List.cons_ne_nil m rest) hstart hbody⟩
      obtain ⟨key, after, hsplit, hkey⟩ :=
        List.eq_append_cons_of_mem (Decidable.not_not.mp hbody)
      rw [hsplit] at hstart ⊢
      by_cases hempty : Text.trim key = []
      · exact Or.inr ⟨_, .emptyKey hstart hkey hempty⟩
      rcases value_or_valueFlaw d (Text.trimStart after) with ⟨value, comment, hvalue⟩ | ⟨flaw, hvalue⟩
      · exact Or.inl ⟨_, .entry hstart hkey hempty hvalue⟩
      · exact Or.inr ⟨_, .value hstart hkey hempty hvalue⟩

/-! ## The scanner -/

theorem scanTrailer_trailer {d : Dialect} (after : Closed) {rest : Text} {comment : Option Comment}
    (h : Trailer d rest comment) : scanTrailer d after rest = .ok comment := by
  cases h with
  | blank hrest => rw [scanTrailer, Text.trimStart_eq_nil_iff.mpr hrest]
  | @comment blanks text m hblanks hvisible hmarker =>
    have htrim : Text.trimStart (blanks ++ m :: text) = m :: text := by
      rw [Text.trimStart_append_blanks hblanks, Text.trimStart_cons hvisible]
    simp only [scanTrailer, htrim, hmarker, ↓reduceIte]

theorem scanTrailer_stray {d : Dialect} (after : Closed) {rest here : Text} (h : Stray d rest here) :
    scanTrailer d after rest = .error ⟨here, .stray after⟩ := by
  cases h with
  | @intro blanks text c hblanks hvisible hmarker =>
    have htrim : Text.trimStart (blanks ++ c :: text) = c :: text := by
      rw [Text.trimStart_append_blanks hblanks, Text.trimStart_cons hvisible]
    simp [scanTrailer, htrim, hmarker]

/-- Behind the quote in front, the scanner of a value goes by what the quoted body ends at. -/
theorem scanValue_quote {d : Dialect} {quote : Char} (hquote : Quoted.isQuote quote = true)
    (inside : Text) : scanValue d (quote :: inside) =
      match Quoted.scan quote inside with
      | .closed value rest =>
        (scanTrailer d .quotedValue rest).map fun comment => (value, comment)
      | .unterminated => .error ⟨quote :: inside, .unterminatedValue⟩
      | .invalidEscape here escaped => .error ⟨here, .invalidEscape escaped⟩ :=
  if_pos hquote

/-- A value that starts with no quote is scanned as plain text. -/
theorem scanValue_unquoted {d : Dialect} {text : Text} (h : Unquoted text) :
    scanValue d text = .ok (scanBare d text) := by
  cases text with
  | nil => rfl
  | cons c inside =>
    have hquote : Quoted.isQuote c = false := h c rfl
    rw [scanValue, if_neg (by simp [hquote])]

/-- The scanner of values gets to see text without blanks in front. -/
theorem scanValue_value {d : Dialect} {text value : Text} {comment : Option Comment}
    (hstart : ∀ c, text.head? = some c → isBlank c = false) (h : Value d text value comment) :
    scanValue d text = .ok (value, comment) := by
  cases h with
  | @quoted quote body _ rest _ hquote hbody hrest =>
    have hclose : Quoted.scan quote (body ++ quote :: rest) = .closed value rest := by
      rw [Quoted.scan_body hbody, Quoted.scan_close (Quoted.ne_slash_of_isQuote hquote),
        Quoted.Outcome.prepend_closed, List.append_nil]
    simp only [scanValue_quote hquote, hclose, scanTrailer_trailer .quotedValue hrest, Except.map]
  | bare hunquoted htext =>
    have htrim : Text.trim text = Text.trimEnd text := by rw [Text.trim, Text.trimStart_eq_self hstart]
    rw [scanValue_unquoted hunquoted, scanBare, Text.cut_eq_none_iff.mpr htext, htrim]
  | @annotated before after m hunquoted hbefore hmarker =>
    have htrim : Text.trim before = Text.trimEnd before := by
      rw [Text.trim, Text.trimStart_eq_self fun c hc => hstart c (by simp [hc])]
    rw [scanValue_unquoted hunquoted, scanBare, Text.cut_append hmarker after hbefore, htrim]

theorem scanValue_flaw {d : Dialect} {text : Text} {flaw : Flaw} (h : ValueFlaw d text flaw) :
    scanValue d text = .error flaw := by
  cases h with
  | @unterminated quote body value rest hquote hbody hrest =>
    have hend : Quoted.scan quote rest = .unterminated := by
      rcases hrest with rfl | rfl <;> rfl
    rw [scanValue_quote hquote, Quoted.scan_body hbody, hend, Quoted.Outcome.prepend_unterminated]
  | @invalidEscape quote c body value rest hquote hbody hescape =>
    have hend : Quoted.scan quote ('\\' :: c :: rest) = .invalidEscape ('\\' :: c :: rest) c := by
      rw [Quoted.scan, Quoted.unescape?_eq_none_iff.mpr hescape]
    rw [scanValue_quote hquote, Quoted.scan_body hbody, hend, Quoted.Outcome.prepend_invalidEscape]
  | @stray quote body value rest here hquote hbody hrest =>
    rw [scanValue_quote hquote, Quoted.scan_body hbody,
      Quoted.scan_close (Quoted.ne_slash_of_isQuote hquote), Quoted.Outcome.prepend_closed]
    simp only [scanTrailer_stray .quotedValue hrest, Except.map]

/-- A header, its name and what follows the bracket. -/
theorem scanHeader_append {d : Dialect} {name : Text} (hname : ']' ∉ name) (body rest : Text) :
    scanHeader d body (name ++ ']' :: rest) =
      if Text.trim name = [] then .error ⟨body, .emptySectionName⟩
      else (scanTrailer d .header rest).map fun comment => .header (Text.trim name) comment := by
  have hcut : Text.cut (· = ']') (name ++ ']' :: rest) = some (name, ']', rest) :=
    Text.cut_append (by simp) rest fun c hc => by simpa using fun he : c = ']' => hname (he ▸ hc)
  simp only [scanHeader, hcut, List.isEmpty_iff]

/-- An entry, its key and what follows the delimiter. -/
theorem scanEntry_append {d : Dialect} {key : Text} (hkey : d.delimiter.char ∉ key) (after : Text) :
    scanEntry d (key ++ d.delimiter.char :: after) =
      if Text.trim key = [] then .error ⟨key ++ d.delimiter.char :: after, .emptyKey⟩
      else (scanValue d (Text.trimStart after)).map fun (value, comment) =>
        .entry (Text.trim key) value comment := by
  have hcut : Text.cut (· = d.delimiter.char) (key ++ d.delimiter.char :: after) =
      some (key, d.delimiter.char, after) :=
    Text.cut_append (by simp) after fun c hc => by
      simpa using fun he : c = d.delimiter.char => hkey (he ▸ hc)
  simp only [scanEntry, hcut, List.isEmpty_iff]

theorem scanBody_bracket {d : Dialect} (hmarker : d.isMarker '[' = false) (inside : Text) :
    scanBody d ('[' :: inside) = scanHeader d ('[' :: inside) inside := by
  rw [scanBody_cons, if_neg (by simp [hmarker]), if_pos rfl]

theorem scanBody_ordinary {d : Dialect} {body : Text} (hne : body ≠ []) (h : Ordinary d body) :
    scanBody d body = scanEntry d body := by
  cases body with
  | nil => exact absurd rfl hne
  | cons c rest =>
    obtain ⟨hmarker, hbracket⟩ := h c rfl
    rw [scanBody_cons, if_neg (by simp [hmarker]), if_neg hbracket]

/-- **A line of a form says what the form says.** -/
theorem scanBody_form {d : Dialect} {body : Text} {content : Content} (h : Form d body content) :
    scanBody d body = .ok content := by
  cases h with
  | blank => rfl
  | comment hmarker => rw [scanBody_cons, if_pos hmarker]
  | header hmarker hname hnonempty hrest =>
    rw [scanBody_bracket hmarker, scanHeader_append hname, if_neg hnonempty,
      scanTrailer_trailer .header hrest]
    rfl
  | entry hstart hkey hnonempty hvalue =>
    rw [scanBody_ordinary (by simp) hstart, scanEntry_append hkey, if_neg hnonempty,
      scanValue_value (fun c hc => Text.isBlank_of_head?_trimStart hc) hvalue]
    rfl

/-- **A flawed line is rejected**, for its flaw. -/
theorem scanBody_flawed {d : Dialect} {body : Text} {flaw : Flaw} (h : Flawed d body flaw) :
    scanBody d body = .error flaw := by
  cases h with
  | unterminatedHeader hmarker hinside =>
    have hcut : Text.cut (· = ']') _ = none := Text.cut_eq_none_iff.mpr fun c hc => by
      simpa using fun he : c = ']' => hinside (he ▸ hc)
    rw [scanBody_bracket hmarker, scanHeader, hcut]
  | emptySectionName hmarker hname hempty =>
    rw [scanBody_bracket hmarker, scanHeader_append hname, if_pos hempty]
  | strayBehindHeader hmarker hname hnonempty hrest =>
    rw [scanBody_bracket hmarker, scanHeader_append hname, if_neg hnonempty,
      scanTrailer_stray .header hrest]
    rfl
  | missingDelimiter hnonempty hstart hbody =>
    have hcut : Text.cut (· = d.delimiter.char) body = none :=
      Text.cut_eq_none_iff.mpr fun c hc => by
        simpa using fun he : c = d.delimiter.char => hbody (he ▸ hc)
    rw [scanBody_ordinary hnonempty hstart, scanEntry, hcut]
  | emptyKey hstart hkey hempty =>
    rw [scanBody_ordinary (by simp) hstart, scanEntry_append hkey, if_pos hempty]
  | value hstart hkey hnonempty hvalue =>
    rw [scanBody_ordinary (by simp) hstart, scanEntry_append hkey, if_neg hnonempty,
      scanValue_flaw hvalue]
    rfl

/-- **A line says what it is of the form of**, and says nothing otherwise. -/
theorem says_iff_form {d : Dialect} {raw : Text} {content : Content} :
    Says d raw content ↔ Form d raw.trimStart content := by
  constructor
  · intro h
    unfold Says at h
    rcases form_or_flawed d raw.trimStart with ⟨found, hform⟩ | ⟨flaw, hflawed⟩
    · rw [scanBody_form hform, Except.ok.injEq] at h
      exact h ▸ hform
    · rw [scanBody_flawed hflawed] at h
      exact absurd h (by simp)
  · exact scanBody_form

/-- No form is that of a faulty line. -/
theorem Form.ne_malformed {d : Dialect} {body : Text} {content : Content} (h : Form d body content)
    (fault : LineFault) : content ≠ .malformed fault := by
  cases h <;> simp

/-! ## Columns -/

theorem Stray.suffix {d : Dialect} {rest here : Text} (h : Stray d rest here) : here <:+ rest := by
  obtain ⟨-, -, -⟩ := h
  exact List.suffix_append _ _

theorem ValueFlaw.suffix {d : Dialect} {text : Text} {flaw : Flaw} (h : ValueFlaw d text flaw) :
    flaw.here <:+ text := by
  cases h with
  | unterminated hquote hbody hrest => exact List.suffix_refl _
  | invalidEscape hquote hbody hescape =>
    exact (List.suffix_append _ _).trans (List.suffix_cons _ _)
  | stray hquote hbody hrest =>
    exact hrest.suffix.trans
      ((List.suffix_cons _ _).trans ((List.suffix_append _ _).trans (List.suffix_cons _ _)))

/-- A flaw is located on the line. -/
theorem Flawed.suffix {d : Dialect} {body : Text} {flaw : Flaw} (h : Flawed d body flaw) :
    flaw.here <:+ body := by
  cases h with
  | unterminatedHeader hmarker hinside => exact List.suffix_refl _
  | emptySectionName hmarker hname hempty => exact List.suffix_refl _
  | strayBehindHeader hmarker hname hnonempty hrest =>
    exact hrest.suffix.trans
      ((List.suffix_cons _ _).trans ((List.suffix_append _ _).trans (List.suffix_cons _ _)))
  | missingDelimiter hnonempty hstart hbody => exact List.suffix_refl _
  | emptyKey hstart hkey hempty => exact List.suffix_refl _
  | value hstart hkey hnonempty hvalue =>
    exact hvalue.suffix.trans ((List.dropWhile_suffix _).trans
      ((List.suffix_cons _ _).trans (List.suffix_append _ _)))

/-- Columns count the characters in front, from one. -/
theorem columnAt_append (before here : Text) : columnAt (before ++ here) here = before.length + 1 := by
  simp only [columnAt, List.length_append, Nat.add_sub_cancel]

theorem scan_of_form {d : Dialect} {raw : Text} {content : Content}
    (h : Form d raw.trimStart content) :
    scan d raw = (content, if content = .blank then 1 else columnAt raw raw.trimStart) := by
  unfold scan
  rw [scanBody_form h]
  cases content <;> rfl

theorem scan_of_flawed {d : Dialect} {raw : Text} {flaw : Flaw} (h : Flawed d raw.trimStart flaw) :
    scan d raw = (.malformed flaw.fault, columnAt raw flaw.here) := by
  rw [scan, scanBody_flawed h]

end Line

/-! ## The token -/

namespace Token

/-- **The tokens of a line are those of the grammar.**  A line says what it is of the form of, and
    it is malformed exactly when it is of no form; the fault is that of its flaw.  A line of a form
    is located at its first character that is not blank, a blank one at column one, and a malformed
    one where its flaw begins. -/
theorem ofLine_follows_grammar (d : Dialect) (n : Nat) (raw : Text) :
    (∀ content, Line.Form d raw.trimStart content ↔
      (Token.ofLine d n raw).content = content ∧ ∀ fault, content ≠ .malformed fault) ∧
    ((∃ fault, (Token.ofLine d n raw).content = .malformed fault) ↔
      ∀ content, ¬ Line.Form d raw.trimStart content) ∧
    (∀ fault, (Token.ofLine d n raw).content = .malformed fault ↔
      ∃ here, Line.Flawed d raw.trimStart ⟨here, fault⟩) ∧
    (∀ content, Line.Form d raw.trimStart content → ∃ before, raw = before ++ raw.trimStart ∧
      (Token.ofLine d n raw).column = if content = .blank then 1 else before.length + 1) ∧
    ∀ flaw, Line.Flawed d raw.trimStart flaw → ∃ before, raw = before ++ flaw.here ∧
      (Token.ofLine d n raw).column = before.length + 1 := by
  have hform : ∀ {content}, Line.Form d raw.trimStart content →
      (Token.ofLine d n raw).content = content := by
    intro content h
    exact Line.scan_of_says (Line.says_iff_form.mpr h)
  have hflawed : ∀ {flaw}, Line.Flawed d raw.trimStart flaw →
      (Token.ofLine d n raw).content = .malformed flaw.fault := by
    intro flaw h
    rw [Token.ofLine, Line.scan_of_flawed h]
  refine ⟨fun content => ⟨fun h => ⟨hform h, h.ne_malformed⟩, ?_⟩, ⟨?_, ?_⟩,
    fun fault => ⟨?_, ?_⟩, ?_, ?_⟩
  · rintro ⟨hcontent, hgood⟩
    exact Line.says_iff_form.mp (Line.says_of_scan hcontent hgood)
  · rintro ⟨fault, hfault⟩ content h
    exact h.ne_malformed fault ((hform h).symm.trans hfault)
  · intro hnone
    rcases Line.form_or_flawed d raw.trimStart with ⟨content, h⟩ | ⟨flaw, h⟩
    · exact absurd h (hnone content)
    · exact ⟨flaw.fault, hflawed h⟩
  · intro hfault
    rcases Line.form_or_flawed d raw.trimStart with ⟨content, h⟩ | ⟨⟨here, found⟩, h⟩
    · exact absurd ((hform h).symm.trans hfault) (h.ne_malformed fault)
    · obtain rfl := Content.malformed.inj ((hflawed h).symm.trans hfault)
      exact ⟨here, h⟩
  · rintro ⟨here, h⟩
    exact hflawed h
  · intro content h
    obtain ⟨before, hsplit, -⟩ := Text.exists_eq_append_trimStart raw
    refine ⟨before, hsplit, ?_⟩
    have hcolumn : Line.columnAt raw raw.trimStart = before.length + 1 := by
      rw [← Line.columnAt_append before raw.trimStart, ← hsplit]
    rw [Token.ofLine, Line.scan_of_form h, hcolumn]
  · intro flaw h
    obtain ⟨before, hsplit⟩ := h.suffix.trans (List.dropWhile_suffix isBlank)
    refine ⟨before, hsplit.symm, ?_⟩
    rw [Token.ofLine, Line.scan_of_flawed h, ← hsplit, Line.columnAt_append]

/-- A comment marker that is a quote still opens a quoted value; behind one it starts a comment. -/
example : Line.scan { markers := ['"'] } " k = \"a\" \"b".toList =
    (.entry "k".toList "a".toList (some (.of '"' "b".toList)), 2) := by decide

end Token
end IniFile
