/-
  No line is lost, and none is made up.

  Reading moves lines around: blank and comment lines wait for the next header or key line that is
  accepted, and a value that takes the place of another takes over what stood in front of it.  All
  the same, a document that was read and not changed is written back with just the lines that were
  accepted, each of them once.

  1. **The last of each form** — `lasts`, and what one more member does to it.
  2. **What a sheet holds** — `Sheet.collect` gathers something from every header and every entry;
     filing one more line adds to it what that line brings (`collect_putLine`).
  3. **Accepted lines** — `quietLines`, `openingLines` and `keptLines` are told from the tokens of a
     text alone.
  4. **The invariant** (`Draft.Conserves`) — what is captured and what waits are together the
     accepted lines of the text so far.
  5. **Texts.**
-/
import IniFile.Proofs.Policies
import IniFile.Proofs.Trivia
import IniFile.Proofs.Verbatim
import Mathlib.Data.List.Perm.Basic

namespace IniFile

/-! ## The last of each form -/

section Lasts

variable {α β : Type} [BEq β]

/-- The members that have no member of the same form behind them. -/
def lasts (form : α → β) : List α → List α
  | [] => []
  | a :: rest =>
    if rest.any (fun b => form b == form a) then lasts form rest else a :: lasts form rest

/-- One more member takes the place of those of its form. -/
theorem lasts_concat [LawfulBEq β] (form : α → β) (l : List α) (a : α) :
    lasts form (l ++ [a]) = (lasts form l).filter (fun b => form b != form a) ++ [a] := by
  induction l with
  | nil => rfl
  | cons b rest ih =>
    rw [List.cons_append, lasts, lasts, ih, List.any_append, List.any_cons, List.any_nil,
      Bool.or_false]
    cases hseen : rest.any fun c => form c == form b with
    | true => rw [Bool.true_or, if_pos rfl, if_pos rfl]
    | false =>
      rw [Bool.false_or, if_neg Bool.false_ne_true, BEq.comm]
      -- `b` goes when `a` has its form
      cases hform : form b == form a with
      | true => rw [if_pos rfl, List.filter_cons_of_neg (by simp [bne, hform])]
      | false =>
        rw [if_neg Bool.false_ne_true, List.filter_cons_of_pos (by simp [bne, hform]),
          List.cons_append]

end Lasts

/-! ## What a sheet holds -/

namespace Roster

variable {α β : Type} {p : α → Bool} {f : α → α} {t : α → List β} {q : β → Bool} {more : List β}

/-- Changing the one member picked adds `more` to what it holds, and keeps what passes `q`. -/
theorem flatMap_change_perm : ∀ {l : List α}, l.Pairwise (fun a b => p a = true → p b = false) →
    l.any p = true → (∀ a ∈ l, p a = false → (t a).filter q = t a) →
      (∀ a ∈ l, p a = true → (t (f a)).Perm ((t a).filter q ++ more)) →
        ((change p f l).flatMap t).Perm ((l.flatMap t).filter q ++ more) := by
  intro l
  induction l with
  | nil =>
    intro _ hany
    exact Bool.noConfusion hany
  | cons a rest ih =>
    intro hone hany hkeep hf
    obtain ⟨hfirst, hone⟩ := List.pairwise_cons.mp hone
    have hkeepRest : ∀ b ∈ rest, p b = false → (t b).filter q = t b := by
      intro b hb
      exact hkeep b (List.mem_cons_of_mem a hb)
    rw [List.flatMap_cons, List.filter_append]
    show (((if p a then f a else a) :: change p f rest).flatMap t).Perm _
    rw [List.flatMap_cons]
    cases ha : p a with
    | true =>
      -- the others are not picked
      have hnone : ∀ b ∈ rest, p b = false := fun b hb => hfirst b hb ha
      have hrest : (rest.flatMap t).filter q = rest.flatMap t := by
        rw [List.filter_flatMap]
        exact List.flatMap_congr fun b hb => hkeepRest b hb (hnone b hb)
      rw [if_pos rfl, change_of_forall_not f hnone, hrest]
      refine ((hf a List.mem_cons_self ha).append_right _).trans ?_
      rw [List.append_assoc, List.append_assoc]
      exact List.perm_append_comm.append_left _
    | false =>
      rw [List.any_cons, ha, Bool.false_or] at hany
      rw [if_neg Bool.false_ne_true, hkeep a List.mem_cons_self ha, List.append_assoc]
      exact (ih hone hany hkeepRest fun b hb => hf b (List.mem_cons_of_mem a hb)).append_left _

/-- So does making the member. -/
theorem flatMap_upsert_perm {l : List α} {fresh : α}
    (hone : l.Pairwise fun a b => p a = true → p b = false)
    (hkeep : ∀ a ∈ l, p a = false → (t a).filter q = t a)
    (hf : ∀ a ∈ l, p a = true → (t (f a)).Perm ((t a).filter q ++ more))
    (hfresh : t fresh = more) :
    ((upsert p f fresh l).flatMap t).Perm ((l.flatMap t).filter q ++ more) := by
  cases hany : l.any p with
  | true =>
    rw [upsert_of_any f fresh hany]
    exact flatMap_change_perm hone hany hkeep hf
  | false =>
    have hall : (l.flatMap t).filter q = l.flatMap t := by
      rw [List.filter_flatMap]
      exact List.flatMap_congr fun a ha =>
        hkeep a ha (eq_false_of_ne_true (List.any_eq_false.mp hany a ha))
    rw [upsert_of_not_any f fresh hany, hall, List.flatMap_append, List.flatMap_singleton, hfresh]

end Roster

/-- At most one entry has the key. -/
theorem Dialect.DistinctKeys.pairwise {d : Dialect} {es : List SheetEntry} (h : d.DistinctKeys es)
    (key : Text) : es.Pairwise fun a b => d.isKey key a = true → d.isKey key b = false := by
  refine (List.pairwise_map.mp h).imp fun hne ha => eq_false_of_ne_true fun hb => ?_
  exact hne ((sameKey_iff.mp ha).trans (sameKey_iff.mp hb).symm)

namespace Sheet

/-- At most one section has the name. -/
theorem Distinct.pairwise {d : Dialect} {S : Sheet} (h : S.Distinct d) (name : Text) :
    S.sections.Pairwise fun a b => d.isSection name a = true → d.isSection name b = false := by
  refine (List.pairwise_map.mp h.sections).imp fun hne ha => eq_false_of_ne_true fun hb => ?_
  exact hne ((Dialect.sameSection_iff.mp ha).trans (Dialect.sameSection_iff.mp hb).symm)

variable {β γ : Type}

/-- What `h` gives for the headers and `t` for the entries, which are seen with the names of their
    sections. -/
def collect (h : Option HeaderLine → List β) (t : Text → SheetEntry → List β) (S : Sheet) : List β :=
  S.global.flatMap (t []) ++
    S.sections.flatMap fun s => h s.header? ++ s.entries.flatMap (t s.name)

variable {h h' : Option HeaderLine → List β} {t t' : Text → SheetEntry → List β} {S : Sheet}

theorem collect_congr_perm (hh : ∀ header?, (h header?).Perm (h' header?))
    (ht : ∀ name e, (t name e).Perm (t' name e)) : (S.collect h t).Perm (S.collect h' t') := by
  have hentries : ∀ name (es : List SheetEntry), (es.flatMap (t name)).Perm (es.flatMap (t' name)) := by
    intro name es
    exact List.Perm.flatMap_left es fun e _ => ht name e
  refine (hentries [] S.global).append (List.Perm.flatMap_left S.sections fun s _ => ?_)
  exact (hh s.header?).append (hentries s.name s.entries)

/-- What is gathered in two parts. -/
theorem collect_append_perm (S : Sheet) :
    (S.collect (fun header? => h header? ++ h' header?) fun name e => t name e ++ t' name e).Perm
      (S.collect h t ++ S.collect h' t') := by
  have hentries : ∀ name (es : List SheetEntry), (es.flatMap fun e => t name e ++ t' name e).Perm
      (es.flatMap (t name) ++ es.flatMap (t' name)) := by
    intro name es
    exact (List.flatMap_append_perm es (t name) (t' name)).symm
  have hswap : ∀ a b c e : List β, ((a ++ b) ++ (c ++ e)).Perm ((a ++ c) ++ (b ++ e)) := by
    intro a b c e
    rw [List.append_assoc, List.append_assoc, ← List.append_assoc b, ← List.append_assoc c]
    exact (List.perm_append_comm.append_right e).append_left a
  have hsections : (S.sections.flatMap fun s => (h s.header? ++ h' s.header?) ++
      s.entries.flatMap fun e => t s.name e ++ t' s.name e).Perm
      ((S.sections.flatMap fun s => h s.header? ++ s.entries.flatMap (t s.name)) ++
        S.sections.flatMap fun s => h' s.header? ++ s.entries.flatMap (t' s.name)) := by
    refine List.Perm.trans ?_ (List.flatMap_append_perm S.sections _ _).symm
    refine List.Perm.flatMap_left S.sections fun s _ => ?_
    exact ((hentries s.name s.entries).append_left _).trans (hswap _ _ _ _)
  exact ((hentries [] S.global).append hsections).trans (hswap _ _ _ _)

theorem map_collect (f : β → γ) (S : Sheet) :
    (S.collect h t).map f =
      S.collect (fun header? => (h header?).map f) fun name e => (t name e).map f := by
  simp only [collect, List.map_append, List.map_flatMap]

/-- A new section brings what its header does. -/
theorem collect_pushHeader (name : Text) (line : HeaderLine) (S : Sheet) :
    (S.pushHeader name line).collect h t = S.collect h t ++ h (some line) := by
  simp [collect, pushHeader]

/-- **Filing a line** for a key of a section adds `more` to what is gathered, and keeps what passes
    `q`, if that is so for the entry of the key. -/
theorem collect_putLine {d : Dialect} (hS : S.Distinct d) {name key : Text} {line : EntryLine}
    {q : β → Bool} (more : List β) (hnone : h none = [])
    (hheader : ∀ header?, (h header?).filter q = h header?)
    (hother : ∀ n e, (d.sameSection n name && d.isKey key e) = false → (t n e).filter q = t n e)
    (hsame : ∀ n e, d.sameSection n name = true → d.isKey key e = true →
      (t n (e.file d.keyPolicy line)).Perm ((t n e).filter q ++ more))
    (hfresh : ∀ n, d.sameSection n name = true → t n (.ofLine key line) = more) :
    ((S.upsertSection d name (d.putLine key line)).collect h t).Perm
      ((S.collect h t).filter q ++ more) := by
  -- a section of another name goes on as it is
  have helsewhere : ∀ n (es : List SheetEntry), d.sameSection n name = false →
      (es.flatMap (t n)).filter q = es.flatMap (t n) := by
    intro n es hn
    rw [List.filter_flatMap]
    exact List.flatMap_congr fun e _ => hother n e (by rw [hn, Bool.false_and])
  have hthere : ∀ n (es : List SheetEntry), d.sameSection n name = true → d.DistinctKeys es →
      ((d.putLine key line es).flatMap (t n)).Perm ((es.flatMap (t n)).filter q ++ more) := by
    intro n es hn hes
    refine Roster.flatMap_upsert_perm (hes.pairwise key) (fun e _ he => ?_) (fun e _ he => ?_) ?_
    · exact hother n e (by rw [he, Bool.and_false])
    · exact hsame n e hn he
    · exact hfresh n hn
  by_cases hempty : name = []
  · subst hempty
    have hsections : (S.sections.flatMap fun s => h s.header? ++ s.entries.flatMap (t s.name)).filter q =
        S.sections.flatMap fun s => h s.header? ++ s.entries.flatMap (t s.name) := by
      rw [List.filter_flatMap]
      refine List.flatMap_congr fun s hs => ?_
      rw [List.filter_append, hheader, helsewhere s.name s.entries]
      exact eq_false_of_ne_true fun hn => hS.named s hs (Dialect.sameSection_nil_iff.mp hn)
    show ((d.putLine key line S.global).flatMap (t []) ++ _).Perm _
    rw [collect, List.filter_append, hsections]
    refine ((hthere [] S.global (d.sameSection_refl []) hS.global).append_right _).trans ?_
    rw [List.append_assoc, List.append_assoc]
    exact List.perm_append_comm.append_left _
  · have hglobal : d.sameSection [] name = false := by
      rw [d.sameSection_comm]
      exact eq_false_of_ne_true fun hn => hempty (Dialect.sameSection_nil_iff.mp hn)
    rw [upsertSection, List.isEmpty_eq_false_iff.mpr hempty, if_neg Bool.false_ne_true, collect,
      collect, List.filter_append, helsewhere [] S.global hglobal, List.append_assoc]
    refine List.Perm.append_left _ (Roster.flatMap_upsert_perm (hS.pairwise name)
      (fun s _ hs => ?_) (fun s hs hn => ?_) ?_)
    · rw [List.filter_append, hheader, helsewhere s.name s.entries hs]
    · rw [List.filter_append, hheader, List.append_assoc]
      exact (hthere s.name s.entries hn (hS.entries s hs)).append_left _
    · show h none ++ (d.putLine key line []).flatMap (t name) = more
      rw [hnone, List.nil_append, ← hfresh name (d.sameSection_refl name)]
      exact List.append_nil _

end Sheet

/-! ## Accepted lines -/

/-- The raw text of the blank and comment lines. -/
def quietLines (tokens : List Token) : List Text :=
  (tokens.filter fun token => token.content.isQuiet).map Token.raw

namespace Dialect

variable (d : Dialect)

/-- Is this a header that opens a section below the given lines? -/
def opens (above : List Content) : Content → Bool
  | .header name _ => !d.isSeen above name
  | _ => false

/-- The raw text of the headers that open sections. -/
def openingLines : List Token → List Text :=
  gather fun above token =>
    if d.opens (above.map Token.content) token.content then some token.raw else none

/-- The key lines that are accepted, each with its raw text. -/
def acceptedLines : List Token → List (KeyLine × Text) :=
  gather fun above token =>
    match d.refusal (above.map Token.content) token with
    | some _ => none
    | none => (d.keyLine? (above.map Token.content) token.content).map (·, token.raw)

/-- The section and the key of a key line, as they are compared. -/
def form (l : KeyLine) : Text × Text := (d.foldSection l.owner, d.foldKey l.key)

/-- The accepted key lines whose values stay: where values are overwritten, the last of each key. -/
def keptLines (tokens : List Token) : List (KeyLine × Text) :=
  match d.keyPolicy with
  | .overwrite => lasts (fun l => d.form l.1) (d.acceptedLines tokens)
  | _ => d.acceptedLines tokens

variable {d} {tokens : List Token} {token : Token}

theorem acceptedLines_concat (tokens : List Token) (token : Token) :
    d.acceptedLines (tokens ++ [token]) = d.acceptedLines tokens ++
      (match d.refusal (tokens.map Token.content) token with
        | some _ => none
        | none => (d.keyLine? (tokens.map Token.content) token.content).map (·, token.raw)).toList :=
  gather_concat _ tokens token

/-- What is no key line of a section is none that is accepted. -/
theorem acceptedLines_concat_of_none (h : d.keyLine? (tokens.map Token.content) token.content = none) :
    d.acceptedLines (tokens ++ [token]) = d.acceptedLines tokens := by
  rw [acceptedLines_concat, h]
  cases d.refusal (tokens.map Token.content) token <;> exact List.append_nil _

/-- An accepted key line is one of its section. -/
theorem mem_keyLines_of_mem_acceptedLines {l : KeyLine × Text} (h : l ∈ d.acceptedLines tokens) :
    l.1 ∈ d.keyLines (tokens.map Token.content) := by
  induction tokens using List.reverseRecOn with
  | nil => exact absurd h List.not_mem_nil
  | append_singleton tokens token ih =>
    rw [acceptedLines_concat] at h
    rw [List.map_append, List.map_singleton, keyLines_concat]
    rcases List.mem_append.mp h with h | h
    · exact List.mem_append_left _ (ih h)
    · apply List.mem_append_right
      cases hrefusal : d.refusal (tokens.map Token.content) token with
      | some e =>
        rw [hrefusal] at h
        exact absurd h List.not_mem_nil
      | none =>
        rw [hrefusal] at h
        obtain ⟨line, hline, rfl⟩ := Option.map_eq_some_iff.mp (Option.mem_toList.mp h)
        exact Option.mem_toList.mpr hline

/-- No key line comes in when the token is none, or is refused. -/
theorem keptLines_concat_of_none
    (h : d.acceptedLines (tokens ++ [token]) = d.acceptedLines tokens) :
    d.keptLines (tokens ++ [token]) = d.keptLines tokens := by
  rw [keptLines, h, ← keptLines]

/-- An accepted line does not take the place of a line of another key, nor of any where values are
    appended. -/
def staysBeside (d : Dialect) (form other : Text × Text) : Bool := d.keyPolicy = .append || other != form

/-- Where repetitions are refused, a line that is accepted is the first of its key. -/
theorem form_ne_of_reject {name key value : Text} {comment : Option Comment}
    (hpolicy : d.keyPolicy = .reject)
    (hnew : (d.linesOf (tokens.map Token.content) name).any (fun l => d.sameKey l.key key) = false) :
    ∀ l ∈ d.acceptedLines tokens, d.staysBeside (d.form ⟨name, key, value, comment⟩) (d.form l.1) = true := by
  intro l hl
  rw [staysBeside, hpolicy, Bool.or_eq_true]
  refine Or.inr (bne_iff_ne.mpr fun hform => ?_)
  obtain ⟨howner, hkey⟩ := Prod.mk.inj hform
  refine List.any_eq_false.mp hnew l.1 (List.mem_filter.mpr ⟨?_, ?_⟩) ?_
  · exact mem_keyLines_of_mem_acceptedLines hl
  · exact sameSection_iff.mpr howner
  · exact sameKey_iff.mpr hkey

/-- One more accepted key line. -/
theorem keptLines_concat_of_some {name key value : Text} {comment : Option Comment}
    (hnew : d.keyPolicy = .reject →
      (d.linesOf (tokens.map Token.content) name).any (fun l => d.sameKey l.key key) = false)
    (h : d.acceptedLines (tokens ++ [token]) =
      d.acceptedLines tokens ++ [(⟨name, key, value, comment⟩, token.raw)]) :
    d.keptLines (tokens ++ [token]) =
      (d.keptLines tokens).filter
          (fun l => d.staysBeside (d.form ⟨name, key, value, comment⟩) (d.form l.1)) ++
        [(⟨name, key, value, comment⟩, token.raw)] := by
  rw [keptLines, h]
  unfold keptLines
  cases hpolicy : d.keyPolicy with
  | overwrite =>
    dsimp only
    rw [lasts_concat]
    refine congrArg (· ++ _) (List.filter_congr fun l _ => ?_)
    rw [staysBeside, hpolicy]
    rfl
  | append =>
    dsimp only
    rw [List.filter_eq_self.mpr fun l _ => by rw [staysBeside, hpolicy]; rfl]
  | reject =>
    dsimp only
    rw [List.filter_eq_self.mpr (form_ne_of_reject hpolicy (hnew hpolicy))]

end Dialect

/-! ## The invariant -/

/-- The blank and comment lines in front of a header. -/
def HeaderLine.triviaOf (header? : Option HeaderLine) : List Text :=
  (header?.map HeaderLine.leading).getD []

/-- The raw text of a header. -/
def HeaderLine.rawOf (header? : Option HeaderLine) : List Text :=
  (header?.map HeaderLine.raw).toList

/-- The raw text of an entry's lines, with the section and the key as they are compared. -/
def Dialect.rawLines (d : Dialect) (name : Text) (e : SheetEntry) : List ((Text × Text) × Text) :=
  e.lines.map fun line => ((d.foldSection name, d.foldKey e.key), line.raw)

/-- **What is captured and what waits** are together the accepted lines of the text so far. -/
structure Draft.Conserves (d : Dialect) (tokens : List Token) (D : Draft) : Prop where
  quiet : (D.sheet.collect HeaderLine.triviaOf (fun _ => SheetEntry.trivia) ++ D.waiting).Perm
    (quietLines tokens)
  headers : (D.sheet.collect HeaderLine.rawOf fun _ _ => []).Perm (d.openingLines tokens)
  keys : (D.sheet.collect (fun _ => []) d.rawLines).Perm
    ((d.keptLines tokens).map fun l => (d.form l.1, l.2))

theorem Draft.conserves_start (d : Dialect) : Draft.start.Conserves d [] := by
  refine ⟨List.Perm.nil, List.Perm.nil, ?_⟩
  rw [Dialect.keptLines]
  cases d.keyPolicy <;> exact List.Perm.nil

theorem quietLines_concat (tokens : List Token) (token : Token) :
    quietLines (tokens ++ [token]) =
      quietLines tokens ++ if token.content.isQuiet then [token.raw] else [] := by
  rw [quietLines, List.filter_append, List.map_append, ← quietLines, List.filter_singleton]
  cases token.content.isQuiet <;> rfl

theorem quietLines_concat_of_not {tokens : List Token} {token : Token}
    (h : token.content.isQuiet = false) : quietLines (tokens ++ [token]) = quietLines tokens := by
  rw [quietLines_concat, h]
  exact List.append_nil _

theorem Dialect.openingLines_concat (d : Dialect) (tokens : List Token) (token : Token) :
    d.openingLines (tokens ++ [token]) = d.openingLines tokens ++
      if d.opens (tokens.map Token.content) token.content then [token.raw] else [] := by
  refine (gather_concat _ tokens token).trans (congrArg _ ?_)
  cases d.opens (tokens.map Token.content) token.content <;> rfl

theorem Dialect.openingLines_concat_of_not {d : Dialect} {tokens : List Token} {token : Token}
    (h : d.opens (tokens.map Token.content) token.content = false) :
    d.openingLines (tokens ++ [token]) = d.openingLines tokens := by
  rw [openingLines_concat, h]
  exact List.append_nil _

namespace Draft.Conserves

variable {d : Dialect} {tokens : List Token} {token : Token} {D : Draft}

/-- A line that is not accepted, and neither blank nor a comment, changes nothing. -/
theorem pass (h : D.Conserves d tokens) {D' : Draft} (hsheet : D'.sheet = D.sheet)
    (hwaiting : D'.waiting = D.waiting) (hquiet : token.content.isQuiet = false)
    (hopens : d.opens (tokens.map Token.content) token.content = false)
    (hline : d.acceptedLines (tokens ++ [token]) = d.acceptedLines tokens) :
    D'.Conserves d (tokens ++ [token]) := by
  refine ⟨?_, ?_, ?_⟩
  · rw [quietLines_concat_of_not hquiet, hsheet, hwaiting]
    exact h.quiet
  · rw [Dialect.openingLines_concat_of_not hopens, hsheet]
    exact h.headers
  · rw [Dialect.keptLines_concat_of_none hline, hsheet]
    exact h.keys

/-- A blank or comment line waits. -/
theorem wait (h : D.Conserves d tokens) (hquiet : token.content.isQuiet = true)
    (hopens : d.opens (tokens.map Token.content) token.content = false)
    (hline : d.acceptedLines (tokens ++ [token]) = d.acceptedLines tokens) :
    (D.wait token.raw).Conserves d (tokens ++ [token]) := by
  refine ⟨?_, ?_, ?_⟩
  · rw [quietLines_concat, hquiet, if_pos rfl]
    show (_ ++ (D.waiting ++ [token.raw])).Perm _
    rw [← List.append_assoc]
    exact h.quiet.append_right _
  · rw [Dialect.openingLines_concat_of_not hopens]
    exact h.headers
  · rw [Dialect.keptLines_concat_of_none hline]
    exact h.keys

/-- A header that opens a section takes what waits. -/
theorem header (h : D.Conserves d tokens) {name : Text} {comment : Option Comment}
    (hcontent : token.content = .header name comment)
    (hseen : d.isSeen (tokens.map Token.content) name = false) :
    Draft.Conserves d (tokens ++ [token])
      ⟨D.sheet.pushHeader name ⟨D.waiting, token.raw, comment⟩, .inSection name, []⟩ := by
  have hnone : d.keyLine? (tokens.map Token.content) token.content = none := by rw [hcontent]; rfl
  have hline := Dialect.acceptedLines_concat_of_none hnone
  refine ⟨?_, ?_, ?_⟩
  · rw [quietLines_concat_of_not (by rw [hcontent]; rfl), Sheet.collect_pushHeader, List.append_nil]
    exact h.quiet
  · rw [d.openingLines_concat, hcontent, Dialect.opens, hseen, Bool.not_false, if_pos rfl,
      Sheet.collect_pushHeader]
    exact h.headers.append_right _
  · rw [Dialect.keptLines_concat_of_none hline, Sheet.collect_pushHeader, List.append_nil]
    exact h.keys

/-- A key line that is accepted takes what waits, and may take the place of others. -/
theorem entry (h : D.Conserves d tokens) (hdistinct : D.sheet.Distinct d) {name key value : Text}
    {comment : Option Comment} (target : Target) (hcontent : token.content = .entry key value comment)
    (hnew : d.keyPolicy = .reject →
      (d.linesOf (tokens.map Token.content) name).any (fun l => d.sameKey l.key key) = false)
    (hline : d.acceptedLines (tokens ++ [token]) =
      d.acceptedLines tokens ++ [(⟨name, key, value, comment⟩, token.raw)]) :
    Draft.Conserves d (tokens ++ [token])
      ⟨D.sheet.upsertSection d name (d.putLine key ⟨D.waiting, token.raw, value, comment⟩),
        target, []⟩ := by
  refine ⟨?_, ?_, ?_⟩
  · rw [quietLines_concat_of_not (by rw [hcontent]; rfl), List.append_nil]
    refine (Sheet.collect_putLine hdistinct D.waiting rfl (fun _ => List.filter_true _)
      (fun _ _ _ => List.filter_true _) (fun _ e _ _ => ?_) fun _ _ => ?_).trans ?_
    · rw [List.filter_true]
      cases d.keyPolicy <;> simp [SheetEntry.trivia, SheetEntry.file, EntryLine.file]
    · simp [SheetEntry.trivia, SheetEntry.ofLine]
    · rw [List.filter_true]
      exact h.quiet
  · rw [Dialect.openingLines_concat_of_not (by rw [hcontent]; rfl)]
    refine (Sheet.collect_putLine hdistinct [] rfl (fun _ => List.filter_true _)
      (fun _ _ _ => List.filter_true _) (fun _ _ _ _ => List.Perm.nil) fun _ _ => rfl).trans ?_
    rw [List.filter_true, List.append_nil]
    exact h.headers
  · rw [Dialect.keptLines_concat_of_some hnew hline, List.map_append, List.map_singleton]
    have hform : d.form ⟨name, key, value, comment⟩ = (d.foldSection name, d.foldKey key) := rfl
    refine (Sheet.collect_putLine (q := fun l => d.staysBeside (d.foldSection name, d.foldKey key) l.1)
      hdistinct [((d.foldSection name, d.foldKey key), token.raw)] rfl
      (fun _ => rfl) (fun n e hother => ?_) (fun n e hn he => ?_) fun n hn => ?_).trans ?_
    · -- a line of another section or another key stays
      refine List.filter_eq_self.mpr fun l hl => ?_
      obtain ⟨line, -, rfl⟩ := List.mem_map.mp hl
      rw [Dialect.staysBeside, Bool.or_eq_true]
      refine Or.inr (bne_iff_ne.mpr fun hsame => ?_)
      obtain ⟨hn, hk⟩ := Prod.mk.inj hsame
      rw [Dialect.sameSection_iff.mpr hn, Bool.true_and] at hother
      exact Bool.noConfusion (hother.symm.trans (Dialect.sameKey_iff.mpr hk))
    · have htag : d.rawLines n e = e.lines.map fun line =>
          ((d.foldSection name, d.foldKey key), line.raw) := by
        rw [Dialect.rawLines, Dialect.sameSection_iff.mp hn, Dialect.sameKey_iff.mp he]
      have hfile : d.rawLines n (e.file d.keyPolicy ⟨D.waiting, token.raw, value, comment⟩) =
          ((e.file d.keyPolicy ⟨D.waiting, token.raw, value, comment⟩).lines.map fun line =>
            ((d.foldSection name, d.foldKey key), line.raw)) := by
        rw [Dialect.rawLines, SheetEntry.key_file, Dialect.sameSection_iff.mp hn,
          Dialect.sameKey_iff.mp he]
      rw [htag, hfile, List.filter_map]
      cases hpolicy : d.keyPolicy <;>
        simp [Dialect.staysBeside, hpolicy, SheetEntry.file, EntryLine.file, Function.comp_def]
    · rw [Dialect.rawLines, Dialect.sameSection_iff.mp hn]
      rfl
    · refine List.Perm.append_right _ ((h.keys.filter _).trans ?_)
      rw [List.filter_map]
      exact List.Perm.refl _

/-- A header either opens its section or is passed over. -/
theorem acceptHeader (h : D.Conserves d tokens) {name : Text} {comment : Option Comment}
    (hcontent : token.content = .header name comment)
    (hseen : D.sheet.hasSection d name = d.isSeen (tokens.map Token.content) name) :
    (D.acceptHeader d token.raw name comment).1.Conserves d (tokens ++ [token]) := by
  rw [Draft.acceptHeader, hseen]
  cases hagain : d.isSeen (tokens.map Token.content) name with
  | false => exact h.header hcontent hagain
  | true =>
    have hquiet : token.content.isQuiet = false := by rw [hcontent]; rfl
    have hopens : d.opens (tokens.map Token.content) token.content = false := by
      rw [hcontent, Dialect.opens, hagain]
      rfl
    have hline : d.keyLine? (tokens.map Token.content) token.content = none := by rw [hcontent]; rfl
    have hpass := Dialect.acceptedLines_concat_of_none hline
    rw [if_pos rfl]
    cases d.sectionPolicy with
    | merge => exact h.pass rfl rfl hquiet hopens hpass
    | reject => exact h.pass rfl rfl hquiet hopens hpass

/-- A key line is accepted, or it is refused and passed over. -/
theorem acceptEntry (h : D.Conserves d tokens) (hdistinct : D.sheet.Distinct d) {key value : Text}
    {comment : Option Comment} (hcontent : token.content = .entry key value comment)
    (htarget : D.target = d.target (tokens.map Token.content))
    (hkey : ∀ name, d.owner (tokens.map Token.content) = some name → D.sheet.hasKey d name key =
      (d.linesOf (tokens.map Token.content) name).any fun l => d.sameKey l.key key) :
    (D.acceptEntry d token.raw key value comment).1.Conserves d (tokens ++ [token]) := by
  have hquiet : token.content.isQuiet = false := by rw [hcontent]; rfl
  have hopens : d.opens (tokens.map Token.content) token.content = false := by rw [hcontent]; rfl
  rw [Draft.acceptEntry, htarget, Dialect.target]
  cases howner : d.owner (tokens.map Token.content) with
  | none =>
    have hline : d.keyLine? (tokens.map Token.content) token.content = none := by
      rw [hcontent, Dialect.keyLine?, howner]
      rfl
    exact h.pass rfl rfl hquiet hopens (Dialect.acceptedLines_concat_of_none hline)
  | some name =>
    dsimp only
    rw [hkey name howner]
    cases hrefuse : (d.linesOf (tokens.map Token.content) name).any (fun l => d.sameKey l.key key) &&
        decide (d.keyPolicy = .reject) with
    | true =>
      refine h.pass rfl rfl hquiet hopens ?_
      rw [Dialect.acceptedLines_concat, Dialect.refusal, hcontent]
      simp only [howner, hrefuse]
      exact List.append_nil _
    | false =>
      refine h.entry hdistinct (.inSection name) hcontent (fun hpolicy => ?_) ?_
      · rw [decide_eq_true hpolicy, Bool.and_true] at hrefuse
        exact hrefuse
      · rw [Dialect.acceptedLines_concat, Dialect.refusal, hcontent, Dialect.keyLine?]
        simp only [howner, hrefuse]
        rfl

/-- **One line.** -/
theorem accept (h : D.Conserves d tokens) (hdistinct : D.sheet.Distinct d)
    (houtline : D.outline = d.outlined (tokens.map Token.content))
    (hname : token.content.headerName? ≠ some []) :
    (D.accept d token.raw token.content).1.Conserves d (tokens ++ [token]) := by
  have hgrouped : D.sheet.content = d.grouped (tokens.map Token.content) :=
    congrArg Outline.content houtline
  have hnone : d.keyLine? (tokens.map Token.content) token.content = none →
      d.acceptedLines (tokens ++ [token]) = d.acceptedLines tokens :=
    Dialect.acceptedLines_concat_of_none
  cases hcontent : token.content with
  | blank =>
    exact h.wait (by rw [hcontent]; rfl) (by rw [hcontent]; rfl) (hnone (by rw [hcontent]; rfl))
  | comment c =>
    exact h.wait (by rw [hcontent]; rfl) (by rw [hcontent]; rfl) (hnone (by rw [hcontent]; rfl))
  | malformed fault =>
    exact h.pass rfl rfl (by rw [hcontent]; rfl) (by rw [hcontent]; rfl) (hnone (by rw [hcontent]; rfl))
  | header name comment =>
    have hempty : name ≠ [] := by
      rintro rfl
      rw [hcontent] at hname
      exact hname rfl
    refine h.acceptHeader hcontent ?_
    rw [← Sheet.hasSection_content, hgrouped, Dialect.hasSection_grouped,
      List.isEmpty_eq_false_iff.mpr hempty, Bool.false_or]
  | entry key value comment =>
    refine h.acceptEntry hdistinct hcontent (congrArg Outline.target houtline) fun name howner => ?_
    rw [← Sheet.hasKey_content, hgrouped]
    exact Dialect.hasKey_grouped
      ((Dialect.of_owner_eq_some howner).imp_right Dialect.isSeen_of_mem) key

end Draft.Conserves

/-- **After any lines.** -/
theorem Reader.exists_conserves (d : Dialect) {tokens : List Token}
    (hnamed : Named (tokens.map Token.content)) :
    ∃ D, (tokens.foldl note (start d)).Drafts d D ∧ D.Conserves d tokens := by
  suffices h : ∃ D, (tokens.foldl note (start d)).Drafts d D ∧
      D.outline = d.outlined (tokens.map Token.content) ∧ D.Conserves d tokens from
    h.imp fun _ hD => ⟨hD.1, hD.2.2⟩
  induction tokens using List.reverseRecOn with
  | nil => exact ⟨.start, drafts_start d, rfl, Draft.conserves_start d⟩
  | append_singleton tokens token ih =>
    rw [List.map_append, List.map_singleton] at hnamed ⊢
    obtain ⟨D, hdrafts, houtline, hconserves⟩ := ih hnamed.of_concat.1
    have hdistinct := hdrafts.sound.distinct_sheet
    rw [hdrafts.dialect, hdrafts.sheet] at hdistinct
    refine ⟨(D.accept d token.raw token.content).1, ?_, ?_, ?_⟩
    · rw [List.foldl_append]
      exact drafts_note hdrafts token
    · have hline := congrArg Prod.fst (D.outline_accept (d := d) token.raw token.content)
      rw [houtline] at hline
      exact hline.trans (Dialect.outlined_accept hnamed)
    · exact hconserves.accept hdistinct houtline hnamed.of_concat.2

/-! ## Texts -/

namespace Sheet

theorem page_eq_collect (S : Sheet) :
    S.page = S.collect (fun header? => (header?.map HeaderLine.block).getD []) fun _ => SheetEntry.block := by
  rw [page, collect]
  refine congrArg (_ ++ ·) (List.flatMap_congr fun s _ => ?_)
  rw [SheetSection.block, SheetSection.headerBlock]
  cases s.header? <;> rfl

/-- All captured lines are trivia, headers and key lines. -/
theorem page_perm (d : Dialect) (S : Sheet) :
    S.page.Perm (S.collect HeaderLine.triviaOf (fun _ => SheetEntry.trivia) ++
      (S.collect HeaderLine.rawOf (fun _ _ => []) ++
        (S.collect (fun _ => []) d.rawLines).map Prod.snd)) := by
  have hraws : (S.collect (fun _ => []) d.rawLines).map Prod.snd =
      S.collect (fun _ => []) fun _ e => e.lines.map EntryLine.raw := by
    rw [map_collect]
    refine congrArg (S.collect _) (funext fun name => funext fun e => ?_)
    rw [Dialect.rawLines, List.map_map]
    rfl
  have hentry : ∀ e : SheetEntry, e.block.Perm (e.trivia ++ ([] ++ e.lines.map EntryLine.raw)) := by
    intro e
    rw [List.nil_append, ← List.flatMap_singleton' (e.lines.map EntryLine.raw), List.flatMap_map]
    exact (List.flatMap_append_perm e.lines _ _).symm
  have hheader : ∀ header? : Option HeaderLine, ((header?.map HeaderLine.block).getD []).Perm
      (HeaderLine.triviaOf header? ++ (HeaderLine.rawOf header? ++ [])) := by
    intro header?
    cases header? <;> exact List.Perm.refl _
  rw [page_eq_collect, hraws]
  refine (collect_congr_perm hheader fun _ e => hentry e).trans ?_
  exact (collect_append_perm S).trans ((collect_append_perm S).append_left _)

end Sheet

/-- **No line is lost, and none is made up.**  Unchanged, what was read is written back with the
    lines that it captured, and these are the blank and comment lines of the text, the headers that
    opened sections and the accepted key lines whose values stayed, each as often as it was there. -/
theorem render_roundTrip_conserves_lines {d : Dialect} {text : Text} {p : Parsed}
    (h : parse d text = .ok p) :
    (∀ ending, p.document.render ⟨.roundTrip, ending⟩ =
      p.document.sheet.mark .roundTrip ++
        ending.join (Text.isClosed text) (p.document.sheet.lines d .roundTrip)) ∧
      p.document.sheet.lines d .roundTrip = p.document.sheet.page ++ p.document.sheet.trailing ∧
        (p.document.sheet.lines d .roundTrip).Perm
          (quietLines (tokens d text) ++ d.openingLines (tokens d text) ++
            (d.keptLines (tokens d text)).map Prod.snd) := by
  obtain ⟨-, hdialect, hsheet, -⟩ := of_parse_eq_ok h
  have hmatches : p.document.sheet.All SheetEntry.Matches fun _ header? => ∃ line, header? = some line :=
    (read_of_parse h).1.mono (fun _ he => he.fits) fun _ _ hheader =>
      hheader.kept.imp fun _ hline => hline.1
  have hlines : p.document.sheet.lines d .roundTrip =
      p.document.sheet.page ++ p.document.sheet.trailing := Sheet.lines_roundTrip hmatches
  refine ⟨fun ending => ?_, hlines, ?_⟩
  · rw [Document.render_eq, hdialect, Sheet.render, hsheet]
    rfl
  · have hnamed : Named ((tokens d text).map Token.content) := by
      rw [tokens, contents_tokensFrom]
      exact Line.named_contents d _
    obtain ⟨D, hdrafts, hconserves⟩ := Reader.exists_conserves d hnamed
    have hfinished : p.document.sheet = D.sheet.finish D.waiting text := by
      rw [Parsed.eq_ofText_of_parse h, ← hdrafts.sheet, ← hdrafts.waiting]
      rfl
    have hkeys := hconserves.keys.map Prod.snd
    rw [List.map_map] at hkeys
    rw [hlines, hfinished]
    show (D.sheet.page ++ D.waiting).Perm _
    -- what waits at the end goes with the other blank and comment lines
    refine ((D.sheet.page_perm d).append_right D.waiting).trans ?_
    rw [List.append_assoc]
    refine (List.perm_append_comm.append_left _).trans ?_
    rw [← List.append_assoc, List.append_assoc (quietLines _)]
    exact hconserves.quiet.append (hconserves.headers.append hkeys)

/-- A header that comes again, a value that is overwritten and a line that says nothing: what stood in
    front of them goes on to other lines. -/
theorem render_roundTrip_conserves_lines_sample :
    ∃ p, parse .lenient "; a\nk=1\n[s]\n# b\nj=2\n\n[s]\nbad\n; c\nj=3".toList = .ok p ∧
      (p.document.sheet.lines .lenient .roundTrip).Perm
        (["; a".toList, "# b".toList, [], "; c".toList] ++ ["[s]".toList] ++
          ["k=1".toList, "j=3".toList]) := by
  let text : Text := "; a\nk=1\n[s]\n# b\nj=2\n\n[s]\nbad\n; c\nj=3".toList
  have hread : (parse .lenient text).toOption.any (fun _ =>
      quietLines (tokens .lenient text) ++ Dialect.lenient.openingLines (tokens .lenient text) ++
        (Dialect.lenient.keptLines (tokens .lenient text)).map Prod.snd ==
      ["; a".toList, "# b".toList, [], "; c".toList] ++ ["[s]".toList] ++
        ["k=1".toList, "j=3".toList]) = true := by
    decide +kernel
  obtain ⟨p, hparse, hlines⟩ := Except.exists_ok_of_any hread
  obtain ⟨-, -, hperm⟩ := render_roundTrip_conserves_lines hparse
  rw [eq_of_beq hlines] at hperm
  exact ⟨p, hparse, hperm⟩

end IniFile
