/-
  Lines in groups.

  A reader takes the lines of a text one after the other and files each of them by name.  Here the
  same document is put together the other way round: every line is looked at with ALL the lines
  above it, and then lines that belong together are gathered from the whole text.

  1. **Lines and those above them** — what is gathered from lines that are seen with those above
     them, such as the members that are the first of their form.
  2. **Headers** — which of them are refused, and the section that a line belongs to: that of the
     nearest header above it (`Dialect.owner`).
  3. **Key lines** — those that belong to a section, and which of the lines of one key count.
  4. **The document in groups** — `Dialect.grouped`.
  5. **Refusals** — why a line is refused, told from the lines above it (`Dialect.refusal`).

  Beside each definition stands what one more line at the end of the text does to it.
-/
import IniFile.Proofs.LineContent
import IniFile.Proofs.Outline
import Mathlib.Data.List.Induction

namespace IniFile

/-! ## Lines and those above them -/

section Above

variable {α β : Type}

/-- What is picked from a list when every member is seen with all the members before it. -/
def gather (pick : List α → α → Option β) (l : List α) : List β :=
  l.zipIdx.filterMap fun (a, i) => pick (l.take i) a

theorem gather_concat (pick : List α → α → Option β) (l : List α) (a : α) :
    gather pick (l ++ [a]) = gather pick l ++ (pick l a).toList := by
  have hbefore : ∀ row ∈ l.zipIdx,
      pick ((l ++ [a]).take row.2) row.1 = pick (l.take row.2) row.1 := by
    intro row hrow
    have hlt : row.2 < l.length := by simpa using List.snd_lt_of_mem_zipIdx hrow
    rw [List.take_append_of_le_length (Nat.le_of_lt hlt)]
  have hlast : (pick ((l ++ [a]).take l.length) a).toList = (pick l a).toList := by
    rw [List.take_left]
  rw [gather, List.zipIdx_append, List.filterMap_append, List.filterMap_congr hbefore, ← hlast]
  simp only [List.zipIdx_singleton, Nat.zero_add, List.filterMap_cons, List.filterMap_nil, gather]
  cases pick ((l ++ [a]).take l.length) a <;> rfl

/-- The members that have no member of the same form before them. -/
def firsts [BEq β] (form : α → β) : List α → List α :=
  gather fun above a => if above.any (fun b => form b == form a) then none else some a

variable [BEq β] {form : α → β}

theorem firsts_concat (form : α → β) (l : List α) (a : α) :
    firsts form (l ++ [a]) =
      if l.any (fun b => form b == form a) then firsts form l else firsts form l ++ [a] := by
  rw [firsts, gather_concat]
  split
  · exact List.append_nil _
  · rfl

variable [LawfulBEq β]

/-- Every form is there among the first members of their form. -/
theorem any_firsts (form : α → β) (b : β) (l : List α) :
    (firsts form l).any (fun a => form a == b) = l.any fun a => form a == b := by
  induction l using List.reverseRecOn with
  | nil => rfl
  | append_singleton l a ih =>
    rw [firsts_concat, List.any_append]
    by_cases hseen : (l.any fun c => form c == form a) = true
    · rw [if_pos hseen, ih, List.any_cons, List.any_nil, Bool.or_false]
      -- a member of the form of `a` was there already
      cases ha : form a == b with
      | false => rw [Bool.or_false]
      | true => rw [Bool.or_true, ← eq_of_beq ha]; exact hseen
    · rw [if_neg hseen, List.any_append, ih]

/-- A first member of its form is the one that is found by its form. -/
theorem find?_of_mem_firsts {a : α} : ∀ {l : List α}, a ∈ firsts form l →
    l.find? (fun b => form b == form a) = some a := by
  intro l
  induction l using List.reverseRecOn with
  | nil => intro h; exact absurd h List.not_mem_nil
  | append_singleton l last ih =>
    rw [firsts_concat, List.find?_append]
    intro h
    by_cases hseen : (l.any fun b => form b == form last) = true
    · rw [if_pos hseen] at h
      rw [ih h, Option.some_or]
    · rw [if_neg hseen] at h
      rcases List.mem_append.mp h with h | h
      · rw [ih h, Option.some_or]
      · obtain rfl := List.mem_singleton.mp h
        rw [List.find?_eq_none.mpr (List.any_eq_false.mp (eq_false_of_ne_true hseen)), Option.none_or,
          List.find?_singleton, beq_self_eq_true, if_pos rfl]

theorem mem_of_mem_firsts {l : List α} {a : α} (h : a ∈ firsts form l) : a ∈ l :=
  List.mem_of_find?_eq_some (find?_of_mem_firsts h)

end Above

/-! ## Names -/

/-- Nothing but the empty text has an empty lowercase form. -/
theorem Text.lowercase_eq_nil_iff {t : Text} : lowercase t = [] ↔ t = [] := by
  cases t with
  | nil => simp [lowercase, lowercaseAfter]
  | cons c rest =>
    refine iff_of_false ?_ (List.cons_ne_nil c rest)
    rw [lowercase, lowercaseAfter]
    split
    · exact List.cons_ne_nil _ _
    · split <;> exact List.cons_ne_nil _ _

/-- No named section counts as the global one. -/
theorem Dialect.sameSection_nil_iff {d : Dialect} {name : Text} :
    d.sameSection name [] = true ↔ name = [] := by
  rw [sameSection_iff, foldSection, foldSection]
  split
  · rfl
  · exact Text.lowercase_eq_nil_iff (t := name)

/-! ## Headers -/

/-- The name of a header. -/
def Content.headerName? : Content → Option Text
  | .header name _ => some name
  | _ => none

/-- The names of all headers, with the lines above each of them. -/
def headers : List Content → List (List Content × Text) :=
  gather fun above content => content.headerName?.map (above, ·)

/-- The names of all headers. -/
def headerNames (contents : List Content) : List Text := (headers contents).map Prod.snd

theorem headers_concat (contents : List Content) (content : Content) :
    headers (contents ++ [content]) =
      headers contents ++ (content.headerName?.map (contents, ·)).toList :=
  gather_concat _ contents content

theorem headerNames_concat (contents : List Content) (content : Content) :
    headerNames (contents ++ [content]) = headerNames contents ++ content.headerName?.toList := by
  rw [headerNames, headers_concat, List.map_append, ← headerNames]
  cases content.headerName? <;> rfl

/-- No header among the lines has an empty name. -/
def Named (contents : List Content) : Prop := ∀ content ∈ contents, content.headerName? ≠ some []

theorem Named.of_concat {contents : List Content} {content : Content}
    (h : Named (contents ++ [content])) : Named contents ∧ content.headerName? ≠ some [] :=
  ⟨fun c hc => h c (List.mem_append_left _ hc), h content List.mem_concat_self⟩

theorem Named.ne_nil {contents : List Content} (h : Named contents) {name : Text}
    (hname : name ∈ headerNames contents) : name ≠ [] := by
  induction contents using List.reverseRecOn with
  | nil => exact absurd hname List.not_mem_nil
  | append_singleton contents content ih =>
    rw [headerNames_concat] at hname
    rcases List.mem_append.mp hname with hname | hname
    · exact ih h.of_concat.1 hname
    · rintro rfl
      exact h.of_concat.2 (Option.mem_toList.mp hname)

/-- The lines of a text are such. -/
theorem Line.named_contents (d : Dialect) (ls : List Text) : Named (Line.contents d ls) := by
  intro content hcontent hname
  obtain ⟨raw, -, rfl⟩ := List.mem_map.mp hcontent
  cases hscan : (Line.scan d raw).1 with
  | header name comment =>
    rw [hscan] at hname
    exact Line.name_ne_nil hscan (Option.some.inj hname)
  | blank => rw [hscan] at hname; exact absurd hname nofun
  | comment c => rw [hscan] at hname; exact absurd hname nofun
  | entry key value comment => rw [hscan] at hname; exact absurd hname nofun
  | malformed fault => rw [hscan] at hname; exact absurd hname nofun

namespace Dialect

variable (d : Dialect)

/-- Is there a header of this name? -/
def isSeen (above : List Content) (name : Text) : Bool := (headerNames above).any (d.sameSection · name)

theorem isSeen_of_mem {d : Dialect} {above : List Content} {name : Text} (h : name ∈ headerNames above) :
    d.isSeen above name = true :=
  List.any_eq_true.mpr ⟨name, h, d.sameSection_refl name⟩

/-- Is a header of this name refused below the given lines? -/
def refusesHeader (above : List Content) (name : Text) : Bool :=
  d.sectionPolicy = .reject && d.isSeen above name

/-- The name of the section that a line below the given ones belongs to: that of the nearest header,
    or the empty name of the global section where there is none.  Below a header that is refused
    it belongs to no section. -/
def owner (above : List Content) : Option Text :=
  match (headers above).getLast? with
  | none => some []
  | some (upper, name) => if d.refusesHeader upper name then none else some name

variable {d} {contents : List Content} {content : Content}

theorem owner_concat_header (contents : List Content) (name : Text) (comment : Option Comment) :
    d.owner (contents ++ [.header name comment]) =
      if d.refusesHeader contents name then none else some name := by
  have hlast : (headers (contents ++ [.header name comment])).getLast? = some (contents, name) := by
    rw [headers_concat]
    exact List.getLast?_concat
  rw [owner, hlast]

theorem headers_concat_of_none (h : content.headerName? = none) :
    headers (contents ++ [content]) = headers contents := by
  rw [headers_concat, h]
  exact List.append_nil _

/-- A line that is no header leaves the next lines to the same section. -/
theorem owner_concat_of_none (h : content.headerName? = none) :
    d.owner (contents ++ [content]) = d.owner contents := by
  rw [owner, headers_concat_of_none h, ← owner]

/-- A section that lines belong to is the global one, or there is a header of its name. -/
theorem of_owner_eq_some {name : Text} (h : d.owner contents = some name) :
    name = [] ∨ name ∈ headerNames contents := by
  unfold owner at h
  cases hlast : (headers contents).getLast? with
  | none =>
    rw [hlast] at h
    exact Or.inl (Option.some.inj h).symm
  | some header =>
    rw [hlast] at h
    dsimp only at h
    split at h
    · exact absurd h nofun
    · right
      rw [← Option.some.inj h]
      exact List.mem_map_of_mem (List.mem_of_getLast? hlast)

end Dialect

/-! ## Key lines -/

/-- A line that gives a value to a key of a section. -/
structure KeyLine where
  owner : Text
  key : Text
  value : Text
  comment : Option Comment
deriving DecidableEq, Repr

/-- Which of the lines of one key count: all where values are appended, the last where they are
    overwritten, the first where repetitions are refused. -/
def KeyPolicy.counting (policy : KeyPolicy) (ls : List KeyLine) : List KeyLine :=
  match policy with
  | .append => ls
  | .overwrite => ls.getLast?.toList
  | .reject => ls.head?.toList

namespace Dialect

variable (d : Dialect)

/-- A key line below the given lines, if it belongs to a section. -/
def keyLine? (above : List Content) : Content → Option KeyLine
  | .entry key value comment => (d.owner above).map fun owner => ⟨owner, key, value, comment⟩
  | _ => none

/-- All key lines that belong to sections. -/
def keyLines : List Content → List KeyLine := gather d.keyLine?

/-- The key lines of a section, wherever they stand. -/
def linesOf (contents : List Content) (name : Text) : List KeyLine :=
  (d.keyLines contents).filter fun l => d.sameSection l.owner name

/-- The entry of a key: the values of the lines that count, and the comment of the last of them. -/
def entryOf (ls : List KeyLine) (key : Text) : EntryContent :=
  let counting := d.keyPolicy.counting (ls.filter fun l => d.sameKey l.key key)
  ⟨key, counting.map KeyLine.value, counting.getLast?.bind KeyLine.comment⟩

/-- The entries of a section with the given key lines, each where and as its key is first written. -/
def entriesOf (ls : List KeyLine) : List EntryContent :=
  (firsts d.foldKey (ls.map KeyLine.key)).map (d.entryOf ls)

/-! ### One more key line -/

variable {d} {contents : List Content} {content : Content} {ls : List KeyLine} {l : KeyLine}
  {key : Text}

theorem keyLines_concat (contents : List Content) (content : Content) :
    d.keyLines (contents ++ [content]) =
      d.keyLines contents ++ (d.keyLine? contents content).toList :=
  gather_concat _ contents content

/-- A section that has key lines is the global one, or there is a header of its name. -/
theorem owner_of_mem_keyLines (h : l ∈ d.keyLines contents) :
    l.owner = [] ∨ l.owner ∈ headerNames contents := by
  induction contents using List.reverseRecOn with
  | nil => exact absurd h List.not_mem_nil
  | append_singleton above content ih =>
    rw [keyLines_concat] at h
    have hmore : l.owner = [] ∨ l.owner ∈ headerNames above := by
      rcases List.mem_append.mp h with h | h
      · exact ih h
      · cases content with
        | entry key value comment =>
          obtain ⟨owner, howner, rfl⟩ := Option.map_eq_some_iff.mp (Option.mem_toList.mp h)
          exact of_owner_eq_some howner
        | blank => exact absurd h List.not_mem_nil
        | comment c => exact absurd h List.not_mem_nil
        | header name comment => exact absurd h List.not_mem_nil
        | malformed fault => exact absurd h List.not_mem_nil
    rw [headerNames_concat]
    exact hmore.imp_right (List.mem_append_left _)

/-- No key line belongs to a section without a header. -/
theorem linesOf_eq_nil {name : Text} (hname : name ≠ []) (h : d.isSeen contents name = false) :
    d.linesOf contents name = [] := by
  rw [linesOf, List.filter_eq_nil_iff]
  intro l hl hsame
  rcases owner_of_mem_keyLines hl with hglobal | hheader
  · rw [hglobal, sameSection_comm] at hsame
    exact hname (sameSection_nil_iff.mp hsame)
  · exact List.any_eq_false.mp h _ hheader hsame

/-- Key lines belong to a section however its name is written. -/
theorem linesOf_congr {a b : Text} (h : d.sameSection a b = true) (contents : List Content) :
    d.linesOf contents a = d.linesOf contents b := by
  refine List.filter_congr fun l _ => ?_
  show (d.foldSection l.owner == d.foldSection a) = (d.foldSection l.owner == d.foldSection b)
  rw [sameSection_iff.mp h]

theorem linesOf_concat_of_eq_none (h : d.keyLine? contents content = none) (name : Text) :
    d.linesOf (contents ++ [content]) name = d.linesOf contents name := by
  rw [linesOf, keyLines_concat, h]
  exact congrArg (List.filter _) (List.append_nil _)

theorem linesOf_concat_of_eq_some (h : d.keyLine? contents content = some l) (name : Text) :
    d.linesOf (contents ++ [content]) name =
      d.linesOf contents name ++ if d.sameSection l.owner name then [l] else [] := by
  rw [linesOf, keyLines_concat, h, List.filter_append, ← linesOf, Option.toList_some,
    List.filter_singleton, Bool.cond_eq_ite]

/-! ### One more line of a key -/

/-- A line of another key does not matter. -/
theorem entryOf_concat_of_not (h : d.sameKey l.key key = false) (ls : List KeyLine) :
    d.entryOf (ls ++ [l]) key = d.entryOf ls key := by
  have hfilter : ((ls ++ [l]).filter fun m => d.sameKey m.key key) =
      ls.filter fun m => d.sameKey m.key key := by
    rw [List.filter_append, List.filter_singleton, h]
    exact List.append_nil _
  rw [entryOf, hfilter, entryOf]

/-- The first line of a key makes its entry. -/
theorem entryOf_concat_new (h : (ls.any fun m => d.sameKey m.key l.key) = false) :
    d.entryOf (ls ++ [l]) l.key = ⟨l.key, [l.value], l.comment⟩ := by
  have hfilter : ((ls ++ [l]).filter fun m => d.sameKey m.key l.key) = [l] := by
    rw [List.filter_append, List.filter_eq_nil_iff.mpr (List.any_eq_false.mp h),
      List.filter_singleton, d.sameKey_refl]
    rfl
  rw [entryOf, hfilter]
  cases d.keyPolicy <;> rfl

/-- A later line of a key is refused or filed, as the policy says. -/
theorem entryOf_concat_again (h : (ls.any fun m => d.sameKey m.key key) = true)
    (hl : d.sameKey l.key key = true) :
    d.entryOf (ls ++ [l]) key =
      if d.keyPolicy = .reject then d.entryOf ls key
      else (d.entryOf ls key).file d.keyPolicy l.value l.comment := by
  have hfilter : ((ls ++ [l]).filter fun m => d.sameKey m.key key) =
      (ls.filter fun m => d.sameKey m.key key) ++ [l] := by
    rw [List.filter_append, List.filter_singleton, hl]
    rfl
  obtain ⟨m, hm, hkey⟩ := List.any_eq_true.mp h
  have hmem : m ∈ ls.filter fun m => d.sameKey m.key key := List.mem_filter.mpr ⟨hm, hkey⟩
  obtain ⟨first, rest, hsome⟩ := List.exists_cons_of_ne_nil (List.ne_nil_of_mem hmem)
  have hlast : (first :: (rest ++ [l])).getLast? = some l := by
    rw [← List.cons_append]
    exact List.getLast?_concat
  rw [entryOf, entryOf, hfilter, hsome, List.cons_append]
  unfold EntryContent.file KeyPolicy.counting
  cases d.keyPolicy with
  | append => simp [hlast]
  | overwrite => simp [hlast]
  | reject => rfl

/-- A line of a key that is there does nothing to other entries. -/
theorem entryOf_concat_seen (h : (ls.any fun m => d.sameKey m.key l.key) = true) (key : Text) :
    d.entryOf (ls ++ [l]) key =
      if d.sameKey key l.key then
        if d.keyPolicy = .reject then d.entryOf ls key
        else (d.entryOf ls key).file d.keyPolicy l.value l.comment
      else d.entryOf ls key := by
  cases hsame : d.sameKey key l.key with
  | true =>
    obtain ⟨m, hm, hkey⟩ := List.any_eq_true.mp h
    exact entryOf_concat_again
      (List.any_eq_true.mpr ⟨m, hm, sameKey_trans hkey (sameKey_symm hsame)⟩) (sameKey_symm hsame)
  | false =>
    refine entryOf_concat_of_not (eq_false_of_ne_true fun h => ?_) ls
    rw [sameKey_symm h] at hsame
    exact Bool.noConfusion hsame

theorem any_entriesOf (key : Text) (ls : List KeyLine) :
    ((d.entriesOf ls).any fun e => d.sameKey e.key key) = ls.any fun l => d.sameKey l.key key := by
  have hfirsts := any_firsts d.foldKey (d.foldKey key) (ls.map KeyLine.key)
  rw [List.any_map] at hfirsts
  rw [entriesOf, List.any_map]
  exact hfirsts

/-- **One more line of a section** is refused, or its value is put as the policy says. -/
theorem entriesOf_concat (ls : List KeyLine) (l : KeyLine) :
    d.entriesOf (ls ++ [l]) =
      if (ls.any fun m => d.sameKey m.key l.key) && d.keyPolicy = .reject then d.entriesOf ls
      else d.putValue l.key l.value l.comment (d.entriesOf ls) := by
  have hkeys : (ls ++ [l]).map KeyLine.key = ls.map KeyLine.key ++ [l.key] := List.map_append
  have hany : ((ls.map KeyLine.key).any fun key => d.foldKey key == d.foldKey l.key) =
      ls.any fun m => d.sameKey m.key l.key := List.any_map
  rw [entriesOf, hkeys, firsts_concat, hany]
  cases hseen : ls.any fun m => d.sameKey m.key l.key with
  | true =>
    -- the entries stay where they are, and that of the key goes on
    rw [if_pos rfl, List.map_congr_left fun key _ => entryOf_concat_seen hseen key, Bool.true_and]
    by_cases hpolicy : d.keyPolicy = .reject
    · simp only [hpolicy, if_true, ite_self, decide_true]
      rfl
    · simp only [hpolicy, if_false, decide_false, Bool.false_eq_true]
      rw [putValue, Roster.upsert_of_any _ _ ((any_entriesOf l.key ls).trans hseen), Roster.change,
        entriesOf, List.map_map]
      rfl
  | false =>
    have hold : ∀ key ∈ firsts d.foldKey (ls.map KeyLine.key),
        d.entryOf (ls ++ [l]) key = d.entryOf ls key := by
      intro key hkey
      obtain ⟨m, hm, rfl⟩ := List.mem_map.mp (mem_of_mem_firsts hkey)
      refine entryOf_concat_of_not (eq_false_of_ne_true fun h => ?_) ls
      exact List.any_eq_false.mp hseen m hm (sameKey_symm h)
    rw [if_neg Bool.false_ne_true, List.map_append, List.map_congr_left hold, List.map_singleton,
      entryOf_concat_new hseen, Bool.false_and, if_neg Bool.false_ne_true, putValue,
      Roster.upsert_of_not_any _ _ ((any_entriesOf l.key ls).trans hseen), entriesOf]

/-! ## The document in groups -/

variable (d)

/-- **The document of a text**, put together from its lines: the sections stand where and as their
    headers are first written. -/
def grouped (contents : List Content) : DocumentContent where
  global := ⟨[], d.entriesOf (d.linesOf contents [])⟩
  sections := (firsts d.foldSection (headerNames contents)).map fun name =>
    ⟨name, d.entriesOf (d.linesOf contents name)⟩

/-! ## Refusals -/

/-- A section's name as its first header has it; the global section has the empty name. -/
def spelled (above : List Content) (name : Text) : Text :=
  ((headerNames above).find? (d.sameSection · name)).getD []

/-- Why a line is refused below lines of the given contents, if it is. -/
def refusal (above : List Content) (token : Token) : Option Error :=
  match token.content with
  | .header name _ =>
    if d.refusesHeader above name then some (.duplicateSection name (some token.line)) else none
  | .entry key _ _ =>
    match d.owner above with
    | none => some (.malformed token.line token.column (.rejectedSection key))
    | some name =>
      if (d.linesOf above name).any (d.sameKey ·.key key) && d.keyPolicy = .reject then
        some (.duplicateKey (d.spelled above name) key (some token.line))
      else none
  | .malformed fault => some (.malformed token.line token.column fault)
  | .blank => none
  | .comment _ => none

/-- **The refusals of a text**, in order, with their lines. -/
def refusals : List Token → List Diagnostic :=
  gather fun above token =>
    (d.refusal (above.map Token.content) token).map fun e => ⟨token.line, token.column, e⟩

end Dialect
end IniFile
