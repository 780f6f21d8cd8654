/-
  Where lines end and where tokens stand.

  A text is cut at its line feeds.  One carriage return in front of a line feed belongs to what ends
  the line, and so does one at the very end of the text; nothing else is taken away but a byte order
  mark in front.  So a text can be put together again from its tokens, and whether a line feed has a
  carriage return in front of it makes no difference to reading.

  1. **Ended lines** — a line with what ends it; a text is the sequence of its ended lines
     (`Text.flatMap_endedLines`).
  2. **Columns** — a flaw begins before the end of its line (`Line.Flawed.here_ne_nil`), which bounds
     the column of a token (`Token.wellPlaced_ofLine`).
  3. **Numbers** — tokens are numbered in order (`lines_tokensFrom`), and all of it together says
     that tokens lose nothing (`tokens_lose_nothing`).
  4. **Carriage returns** — put in front of any line feeds of a text that has none, they change no
     line (`Text.lines_addReturns`), and so they change nothing that is read
     (`parse_with_returns_added`).
-/
import IniFile.Proofs.LineGrammar
import IniFile.Proofs.Mark
import IniFile.Proofs.Verbatim

namespace IniFile

/-! ## Ended lines -/

/-- What ends a line.  Only the last line of a text can end without a line feed. -/
inductive Terminator where
  | lf
  | crlf
  | cr
  | absent
deriving DecidableEq, Repr

namespace Terminator

/-- The terminator as it is written. -/
def text : Terminator → Text
  | .lf => ['\n']
  | .crlf => ['\r', '\n']
  | .cr => ['\r']
  | .absent => []

/-- Is there a line feed? -/
def feeds : Terminator → Bool
  | .lf | .crlf => true
  | .cr | .absent => false

end Terminator

/-- A line and what ends it. -/
structure EndedLine where
  raw : Text
  ending : Terminator
deriving DecidableEq, Repr

namespace EndedLine

/-- The line as it is written, with its ending. -/
def text (l : EndedLine) : Text := l.raw ++ l.ending.text

/-- The line ends where it should: it goes on to the first line feed, it gives a carriage return at
    its end away and keeps another one only behind that, and without an ending it is not empty. -/
structure WellEnded (l : EndedLine) : Prop where
  noFeed : '\n' ∉ l.raw
  returnTaken : l.raw.getLast? = some '\r' → l.ending = .crlf ∨ l.ending = .cr
  nonempty : l.ending = .absent → l.raw ≠ []

/-- The line of a piece of text, which a line feed follows or not. -/
def ofPiece (feed : Bool) (piece : Text) : EndedLine :=
  ⟨piece.dropReturn,
    if piece.getLast? = some '\r' then (if feed then .crlf else .cr)
    else if feed then .lf else .absent⟩

theorem text_ofPiece (feed : Bool) (piece : Text) :
    (ofPiece feed piece).text = piece ++ if feed then ['\n'] else [] := by
  unfold ofPiece text
  by_cases hreturn : piece.getLast? = some '\r'
  · obtain ⟨l, rfl⟩ := List.getLast?_eq_some_iff.mp hreturn
    rw [if_pos hreturn, Text.dropReturn_concat]
    cases feed <;> simp [Terminator.text]
  · rw [if_neg hreturn, Text.dropReturn_of_getLast? hreturn]
    cases feed <;> rfl

theorem feeds_ofPiece (feed : Bool) (piece : Text) : (ofPiece feed piece).ending.feeds = feed := by
  unfold ofPiece
  by_cases hreturn : piece.getLast? = some '\r'
  · rw [if_pos hreturn]
    cases feed <;> rfl
  · rw [if_neg hreturn]
    cases feed <;> rfl

theorem wellEnded_ofPiece {feed : Bool} {piece : Text} (hfeed : '\n' ∉ piece)
    (hnonempty : feed = false → piece ≠ []) : (ofPiece feed piece).WellEnded := by
  refine ⟨fun hmem => hfeed (Text.mem_of_mem_dropReturn hmem), fun hlast => ?_, fun habsent => ?_⟩
  · unfold ofPiece at hlast ⊢
    by_cases hreturn : piece.getLast? = some '\r'
    · rw [if_pos hreturn]
      cases feed with
      | true => exact Or.inl rfl
      | false => exact Or.inr rfl
    · rw [Text.dropReturn_of_getLast? hreturn] at hlast
      exact absurd hlast hreturn
  · have hopen : feed = false := by rw [← feeds_ofPiece feed piece, habsent]; rfl
    -- a carriage return at the end would be an ending
    have hreturn : piece.getLast? ≠ some '\r' := by
      intro hreturn
      rw [ofPiece, if_pos hreturn, hopen] at habsent
      exact Terminator.noConfusion habsent
    show piece.dropReturn ≠ []
    rw [Text.dropReturn_of_getLast? hreturn]
    exact hnonempty hopen

end EndedLine

namespace Text

/-- The lines of pieces of text.  A line feed follows each, the last one only if `closed`. -/
def endedLines (closed : Bool) : List Text → List EndedLine
  | [] => []
  | [piece] => [.ofPiece closed piece]
  | piece :: next :: rest => .ofPiece true piece :: endedLines closed (next :: rest)

theorem raw_endedLines (closed : Bool) : ∀ ps : List Text,
    (endedLines closed ps).map EndedLine.raw = ps.map dropReturn
  | [] => rfl
  | [_] => rfl
  | _ :: next :: rest => congrArg _ (raw_endedLines closed (next :: rest))

/-- **Ended lines make up the text** that their pieces are joined to. -/
theorem flatMap_endedLines (closed : Bool) : ∀ ps : List Text,
    (endedLines closed ps).flatMap EndedLine.text = LineEnding.lf.join closed ps
  | [] => rfl
  | [piece] => by
      rw [endedLines, List.flatMap_singleton, EndedLine.text_ofPiece, LineEnding.join]
      cases closed with
      | true => rfl
      | false => exact List.append_nil piece
  | piece :: next :: rest => by
      rw [endedLines, List.flatMap_cons, EndedLine.text_ofPiece, if_pos rfl,
        flatMap_endedLines closed (next :: rest), LineEnding.join]
      rfl

/-- Every line but the last ends with a line feed. -/
theorem feeds_dropLast_endedLines (closed : Bool) : ∀ ps : List Text,
    ∀ l ∈ (endedLines closed ps).dropLast, l.ending.feeds = true
  | [], _, h => absurd h List.not_mem_nil
  | [_], _, h => absurd h List.not_mem_nil
  | [piece, last], l, h => by
      rw [List.mem_singleton.mp h]
      exact EndedLine.feeds_ofPiece true piece
  | piece :: next :: third :: rest, l, h => by
      rcases List.mem_cons.mp h with rfl | h
      · exact EndedLine.feeds_ofPiece true piece
      · exact feeds_dropLast_endedLines closed (next :: third :: rest) l h

/-- Lines are well ended, if nothing but a last piece without a line feed must be nonempty. -/
theorem wellEnded_endedLines {closed : Bool} : ∀ {ps : List Text}, (∀ piece ∈ ps, '\n' ∉ piece) →
    (closed = false → ps.getLast? ≠ some []) → ∀ l ∈ endedLines closed ps, l.WellEnded
  | [], _, _, _, h => absurd h List.not_mem_nil
  | [piece], hfeeds, hlast, l, h => by
      rw [List.mem_singleton.mp h]
      refine EndedLine.wellEnded_ofPiece (hfeeds piece List.mem_cons_self) fun hopen hnil => ?_
      exact hlast hopen (congrArg some hnil)
  | piece :: next :: rest, hfeeds, hlast, l, h => by
      rcases List.mem_cons.mp h with rfl | h
      · exact EndedLine.wellEnded_ofPiece (hfeeds piece List.mem_cons_self) fun hopen => by
          exact Bool.noConfusion hopen
      · exact wellEnded_endedLines (fun p hp => hfeeds p (List.mem_cons_of_mem _ hp))
          (fun hopen => by rw [← List.getLast?_cons_cons]; exact hlast hopen) l h

/-- What stands behind the last line feed is not empty. -/
theorem getLast?_pieces_ne {t : Text} (hopen : isClosed t = false) : (pieces t).getLast? ≠ some [] := by
  intro hlast
  obtain ⟨init, hinit⟩ := List.getLast?_eq_some_iff.mp hlast
  -- otherwise the text would end behind the line feed
  have hjoin := join_pieces t
  rw [hopen, hinit, LineEnding.join_concat, List.append_nil] at hjoin
  by_cases hnone : init = []
  · rw [← hjoin, hnone] at hopen
    exact Bool.noConfusion hopen
  · rw [← hjoin, LineEnding.join_closed_eq _ hnone, isClosed, LineEnding.text,
      List.getLast?_concat] at hopen
    simp at hopen

end Text

/-! ## Columns -/

namespace Line

theorem Stray.here_ne_nil {d : Dialect} {rest here : Text} (h : Stray d rest here) : here ≠ [] := by
  obtain ⟨-, -, -⟩ := h
  exact List.cons_ne_nil _ _

theorem ValueFlaw.here_ne_nil {d : Dialect} {text : Text} {flaw : Flaw} (h : ValueFlaw d text flaw) :
    flaw.here ≠ [] := by
  cases h with
  | unterminated hquote hbody hrest => exact List.cons_ne_nil _ _
  | invalidEscape hquote hbody hescape => exact List.cons_ne_nil _ _
  | stray hquote hbody hrest => exact hrest.here_ne_nil

/-- A flaw begins at a character of the line. -/
theorem Flawed.here_ne_nil {d : Dialect} {body : Text} {flaw : Flaw} (h : Flawed d body flaw) :
    flaw.here ≠ [] := by
  cases h with
  | unterminatedHeader hmarker hinside => exact List.cons_ne_nil _ _
  | emptySectionName hmarker hname hempty => exact List.cons_ne_nil _ _
  | strayBehindHeader hmarker hname hnonempty hrest => exact hrest.here_ne_nil
  | missingDelimiter hnonempty hstart hbody => exact hnonempty
  | emptyKey hstart hkey hempty => exact List.append_ne_nil_of_right_ne_nil _ (List.cons_ne_nil _ _)
  | value hstart hkey hnonempty hvalue => exact hvalue.here_ne_nil

end Line

namespace Token

/-- The token stands at a column of its line: behind the leading blanks if it means something, and
    nowhere behind the last character if it is malformed. -/
structure WellPlaced (token : Token) : Prop where
  positive : 1 ≤ token.column
  visible : token.content ≠ .blank → (∀ fault, token.content ≠ .malformed fault) →
    token.column = 1 + (token.raw.takeWhile isBlank).length
  flawed : ∀ fault, token.content = .malformed fault → token.column ≤ token.raw.length

section Placed

variable {d : Dialect} {raw : Text}

/-- A line of a form is at its first character that is not blank. -/
theorem wellPlaced_of_form {content : Content} (h : Line.Form d raw.trimStart content) (n : Nat) :
    (ofLine d n raw).WellPlaced := by
  have hscan := Line.scan_of_form h
  have hcontent : (ofLine d n raw).content = content := congrArg Prod.fst hscan
  have hcolumn : (ofLine d n raw).column =
      if content = .blank then 1 else Line.columnAt raw raw.trimStart := congrArg Prod.snd hscan
  refine ⟨?_, fun hvisible _ => ?_, fun fault hfault => ?_⟩
  · rw [hcolumn, Line.columnAt]
    split <;> omega
  · rw [hcontent] at hvisible
    have hsplit : raw = raw.takeWhile isBlank ++ raw.trimStart :=
      List.takeWhile_append_dropWhile.symm
    have hat : Line.columnAt raw raw.trimStart = (raw.takeWhile isBlank).length + 1 := by
      rw [← Line.columnAt_append (raw.takeWhile isBlank) raw.trimStart, ← hsplit]
    rw [hcolumn, if_neg hvisible, hat, Nat.add_comm]
    rfl
  · exact absurd (hcontent.symm.trans hfault) (h.ne_malformed fault)

/-- A flawed line is at the flaw, in front of which the line is shorter. -/
theorem wellPlaced_of_flawed {flaw : Flaw} (h : Line.Flawed d raw.trimStart flaw) (n : Nat) :
    (ofLine d n raw).WellPlaced := by
  have hscan := Line.scan_of_flawed h
  have hcontent : (ofLine d n raw).content = .malformed flaw.fault := congrArg Prod.fst hscan
  have hcolumn : (ofLine d n raw).column = Line.columnAt raw flaw.here := congrArg Prod.snd hscan
  obtain ⟨before, hsplit⟩ := h.suffix.trans (List.dropWhile_suffix isBlank)
  rw [← hsplit, Line.columnAt_append, hsplit] at hcolumn
  refine ⟨by omega, fun _ hgood => absurd hcontent (hgood _), fun fault _ => ?_⟩
  have hhere : 0 < flaw.here.length := List.length_pos_iff.mpr h.here_ne_nil
  have hlength := congrArg List.length hsplit
  rw [List.length_append] at hlength
  show (ofLine d n raw).column ≤ raw.length
  omega

end Placed

theorem wellPlaced_ofLine (d : Dialect) (n : Nat) (raw : Text) : (ofLine d n raw).WellPlaced := by
  rcases Line.form_or_flawed d raw.trimStart with ⟨content, hform⟩ | ⟨flaw, hflawed⟩
  · exact wellPlaced_of_form hform n
  · exact wellPlaced_of_flawed hflawed n

end Token

/-! ## Numbers -/

theorem raws_tokensFrom (d : Dialect) (n : Nat) (ls : List Text) :
    (tokensFrom d n ls).map Token.raw = ls := by
  induction ls generalizing n with
  | nil => rfl
  | cons raw rest ih => exact congrArg (raw :: ·) (ih (n + 1))

/-- Tokens are numbered without gaps. -/
theorem lines_tokensFrom (d : Dialect) (n : Nat) (ls : List Text) :
    (tokensFrom d n ls).map Token.line = List.range' n ls.length := by
  induction ls generalizing n with
  | nil => rfl
  | cons raw rest ih => exact congrArg (n :: ·) (ih (n + 1))

theorem wellPlaced_of_mem_tokensFrom {d : Dialect} {token : Token} : ∀ {n : Nat} {ls : List Text},
    token ∈ tokensFrom d n ls → token.WellPlaced
  | _, [], h => absurd h List.not_mem_nil
  | n, raw :: rest, h => by
      rcases List.mem_cons.mp h with rfl | h
      · exact Token.wellPlaced_ofLine d n raw
      · exact wellPlaced_of_mem_tokensFrom h

/-- **Tokens lose nothing of a text, and they stand where they say.**  They are numbered from one
    without gaps; with an ending behind each of their lines they are the text, but for a byte order
    mark in front of it; and each is at a column of its line. -/
theorem tokens_lose_nothing (d : Dialect) (t : Text) :
    (tokens d t).map Token.line = List.range' 1 (tokens d t).length ∧
      (∃ ls : List EndedLine, ls.map EndedLine.raw = (tokens d t).map Token.raw ∧
        t = (if t.head? = some bom then [bom] else []) ++ ls.flatMap EndedLine.text ∧
        (∀ l ∈ ls.dropLast, l.ending.feeds = true) ∧ ∀ l ∈ ls, l.WellEnded) ∧
      ∀ token ∈ tokens d t, token.WellPlaced := by
  have hraws : (tokens d t).map Token.raw = t.dropBom.lines := raws_tokensFrom d 1 _
  refine ⟨?_, ⟨Text.endedLines t.dropBom.isClosed t.dropBom.pieces, ?_, ?_, ?_, ?_⟩,
    fun token htoken => wellPlaced_of_mem_tokensFrom htoken⟩
  · rw [← List.length_map Token.raw, hraws]
    exact lines_tokensFrom d 1 _
  · rw [hraws, Text.raw_endedLines]
    rfl
  · rw [Text.flatMap_endedLines, Text.join_pieces, Text.mark_append_dropBom]
  · exact Text.feeds_dropLast_endedLines _ _
  · exact Text.wellEnded_endedLines (fun _ => Text.not_mem_of_mem_pieces) Text.getLast?_pieces_ne

/-- A mark goes, and of two carriage returns in front of a line feed the first stays. -/
example : (tokens .standard "\uFEFF  k = \"\r\r\n\r".toList).map (fun token =>
    (token.line, token.column, token.raw)) = [(1, 7, "  k = \"\r".toList), (2, 1, [])] := by
  decide +kernel

/-! ## Carriage returns -/

namespace Text

/-- The text with carriage returns in front of the line feeds chosen; these are counted from
    zero. -/
def addReturns (chosen : Nat → Bool) : Text → Text
  | [] => []
  | c :: rest =>
    if c = '\n' then
      (if chosen 0 then ['\r'] else []) ++ '\n' :: addReturns (fun i => chosen (i + 1)) rest
    else c :: addReturns chosen rest

section AddReturns

variable {chosen : Nat → Bool} {c : Char}

theorem addReturns_feed (chosen : Nat → Bool) (rest : Text) :
    addReturns chosen ('\n' :: rest) =
      (if chosen 0 then ['\r'] else []) ++ '\n' :: addReturns (fun i => chosen (i + 1)) rest :=
  if_pos rfl

theorem addReturns_cons (hc : c ≠ '\n') (chosen : Nat → Bool) (rest : Text) :
    addReturns chosen (c :: rest) = c :: addReturns chosen rest :=
  if_neg hc

/-- A line feed ends an empty line, with a carriage return in front of it and without. -/
theorem lines_ending (returned : Bool) (t : Text) :
    lines ((if returned then ['\r'] else []) ++ '\n' :: t) = [] :: lines t := by
  cases returned with
  | true => exact congrArg (List.map dropReturn) (pieces_append_lf (l := ['\r']) (by decide) t)
  | false => exact congrArg (List.map dropReturn) (pieces_append_lf (l := []) List.not_mem_nil t)

/-- Any other character but a carriage return goes to the line that follows. -/
theorem lines_cons (hfeed : c ≠ '\n') (hreturn : c ≠ '\r') (t : Text) :
    lines (c :: t) = (c :: (lines t).headD []) :: (lines t).tail := by
  unfold lines
  rw [pieces, if_neg hfeed]
  cases pieces t with
  | nil => simp [dropReturn, hreturn]
  | cons piece more => simp [dropReturn_cons hreturn]

/-- **Carriage returns in front of line feeds change no line** of a text that has no others. -/
theorem lines_addReturns (chosen : Nat → Bool) {t : Text} (h : '\r' ∉ t) :
    lines (addReturns chosen t) = lines t := by
  induction t generalizing chosen with
  | nil => rfl
  | cons c rest ih =>
    obtain ⟨hreturn, hrest⟩ : '\r' ≠ c ∧ '\r' ∉ rest := by simpa using h
    by_cases hfeed : c = '\n'
    · subst hfeed
      rw [addReturns_feed, lines_ending, ih _ hrest]
      exact (lines_ending false rest).symm
    · rw [addReturns_cons hfeed, lines_cons hfeed (Ne.symm hreturn),
        lines_cons hfeed (Ne.symm hreturn), ih chosen hrest]

theorem head?_addReturns_iff (chosen : Nat → Bool) (t : Text) :
    (addReturns chosen t).head? = some bom ↔ t.head? = some bom := by
  cases t with
  | nil => rfl
  | cons c rest =>
    by_cases hfeed : c = '\n'
    · subst hfeed
      rw [addReturns_feed]
      cases chosen 0 <;> simp [bom]
    · rw [addReturns_cons hfeed]
      rfl

theorem dropBom_addReturns (chosen : Nat → Bool) (t : Text) :
    dropBom (addReturns chosen t) = addReturns chosen (dropBom t) := by
  by_cases hmark : t.head? = some bom
  · obtain ⟨rest, rfl⟩ := List.head?_eq_some_iff.mp hmark
    rw [addReturns_cons (by decide)]
    simp [dropBom]
  · rw [dropBom_of_head?_ne hmark, dropBom_of_head?_ne fun h => hmark ((head?_addReturns_iff _ _).mp h)]

theorem addReturns_ne_nil (chosen : Nat → Bool) {t : Text} (h : t ≠ []) : addReturns chosen t ≠ [] := by
  obtain ⟨c, rest, rfl⟩ := List.exists_cons_of_ne_nil h
  by_cases hfeed : c = '\n'
  · subst hfeed
    rw [addReturns_feed]
    exact List.append_ne_nil_of_right_ne_nil _ (List.cons_ne_nil _ _)
  · rw [addReturns_cons hfeed]
    exact List.cons_ne_nil _ _

/-- A carriage return in front of a line feed is not what the text ends with. -/
theorem isClosed_ending (returned : Bool) (t : Text) :
    isClosed ((if returned then ['\r'] else []) ++ '\n' :: t) = isClosed ('\n' :: t) := by
  cases returned with
  | true => exact isClosed_cons (List.cons_ne_nil _ _)
  | false => rfl

/-- The text ends behind a line feed if it did. -/
theorem isClosed_addReturns (chosen : Nat → Bool) (t : Text) :
    isClosed (addReturns chosen t) = isClosed t := by
  induction t generalizing chosen with
  | nil => rfl
  | cons c rest ih =>
    have htail : ∀ chosen, isClosed (c :: addReturns chosen rest) = isClosed (c :: rest) := by
      intro chosen
      by_cases hrest : rest = []
      · rw [hrest]
        rfl
      · rw [isClosed_cons (addReturns_ne_nil chosen hrest), isClosed_cons hrest, ih]
    by_cases hfeed : c = '\n'
    · subst hfeed
      rw [addReturns_feed, isClosed_ending, htail]
    · rw [addReturns_cons hfeed, htail]

end AddReturns
end Text

theorem tokens_addReturns (d : Dialect) (chosen : Nat → Bool) {t : Text} (h : '\r' ∉ t) :
    tokens d (t.addReturns chosen) = tokens d t := by
  have hrest : '\r' ∉ t.dropBom := by
    rw [← Text.mark_append_dropBom t] at h
    exact fun hmem => h (List.mem_append_right _ hmem)
  rw [tokens, tokens, Text.dropBom_addReturns, Text.lines_addReturns chosen hrest]

/-- **Line terminators do not matter.**  With carriage returns in front of any line feeds, a text
    without carriage returns reads as it does without them: the tokens are the same, and so is the
    error or the document with all that was captured for it and all diagnostics. -/
theorem parse_with_returns_added (d : Dialect) (chosen : Nat → Bool) {t : Text} (h : '\r' ∉ t) :
    tokens d (t.addReturns chosen) = tokens d t ∧ parse d (t.addReturns chosen) = parse d t := by
  have htokens := tokens_addReturns d chosen h
  have hfinish : ∀ r : Reader, r.finish (t.addReturns chosen) = r.finish t := by
    intro r
    have hclosed := Text.isClosed_addReturns chosen t
    have hmark : decide ((t.addReturns chosen).head? = some bom) = decide (t.head? = some bom) :=
      decide_eq_decide.mpr (Text.head?_addReturns_iff chosen t)
    unfold Text.isClosed at hclosed
    simp only [Reader.finish, hclosed, hmark]
  refine ⟨htokens, ?_⟩
  unfold parse
  simp only [htokens, hfinish]

/-- One of three line feeds behind a quote, a broken escape and a comment gets a carriage return, and
    the line without an ending stays without one. -/
theorem parse_with_returns_added_sample :
    let d : Dialect := { Dialect.standard with mode := .lenient }
    let text := "k = \"v\"\nl = \"\\x\n; c\n[s]".toList
    let mixed := "k = \"v\"\nl = \"\\x\r\n; c\n[s]".toList
    Text.addReturns (· == 1) text = mixed ∧ ∃ p, parse d mixed = .ok p ∧
      p.document.render ⟨.roundTrip, .lf⟩ = "k = \"v\"\n; c\n[s]".toList ∧
        p.diagnostics.map (fun f => (f.line, f.column)) = [(2, 6)] := by
  intro d text mixed
  have hread : (parse d text).toOption.any (fun p =>
      p.document.render ⟨.roundTrip, .lf⟩ == "k = \"v\"\n; c\n[s]".toList &&
        p.diagnostics.map (fun f => (f.line, f.column)) == [(2, 6)]) = true := by
    decide +kernel
  obtain ⟨p, hparse, htest⟩ := Except.exists_ok_of_any hread
  obtain ⟨hrender, hdiagnostics⟩ := Bool.and_eq_true_iff.mp htest
  have hmixed : Text.addReturns (· == 1) text = mixed := by decide +kernel
  refine ⟨hmixed, p, ?_, eq_of_beq hrender, eq_of_beq hdiagnostics⟩
  rw [← hmixed, (parse_with_returns_added d (· == 1) (by decide +kernel : '\r' ∉ text)).2]
  exact hparse

end IniFile
