/-
  Counters that wrap around.

  A program without checks goes on when a counter overflows, and gives numbers out for the second
  time.  All that takes is a key that is set and removed over and over: it leaves nothing behind but
  the numbers that it has used up (`afterInWords_churn`), and so any entry that is made afterwards can
  be given the number, and with it the captured lines, of one that was read.
-/
import IniFile.Proofs.Counters

namespace IniFile

/-- A global key is set and removed again, `n` times. -/
def Step.churn (key : Text) : Nat → List Step
  | 0 => []
  | n + 1 => .edit (.set [] key ['9']) :: .edit (.inSection [] (.remove key)) :: churn key n

theorem Step.mem_churn {key : Text} {n : Nat} {step : Step} (h : step ∈ churn key n) :
    step = .edit (.set [] key ['9']) ∨ step = .edit (.inSection [] (.remove key)) := by
  induction n with
  | zero => exact absurd h List.not_mem_nil
  | succ n ih =>
    rcases List.mem_cons.mp h with hset | h
    · exact Or.inl hset
    rcases List.mem_cons.mp h with hremove | h
    · exact Or.inr hremove
    · exact ih h

/-- Many steps of two kinds, and then some others. -/
theorem Step.mem_around {key : Text} {n : Nat} {step : Step} {later : List Step}
    (h : step ∈ churn key n ++ later) :
    step ∈ Step.edit (.set [] key ['9']) :: .edit (.inSection [] (.remove key)) :: later := by
  rcases List.mem_append.mp h with h | h
  · rcases mem_churn h with rfl | rfl
    · exact List.mem_cons_self
    · exact List.mem_cons_of_mem _ List.mem_cons_self
  · exact List.mem_cons_of_mem _ (List.mem_cons_of_mem _ h)

/-- The document with another number for the next global entry. -/
def Document.renumbered (n : Nat) (doc : Document) : Document :=
  { doc with global := { doc.global with nextEntry := n } }

namespace NameTable

variable {α : Type} {t : NameTable α} {name : Text}

/-- A new name is taken out again. -/
theorem erase_upsert (h : t.contains name = false) (f : α → α) (fresh : α) :
    (t.upsert name f fresh).erase name = t := by
  have hnot : ¬t.contains name = true := ne_true_of_eq_false h
  have hother : ∀ row ∈ t.rows, (row.1 != t.fold name) = true := fun row hrow =>
    bne_iff_ne.mpr fun hsame => hnot (List.any_eq_true.mpr ⟨row, hrow, beq_iff_eq.mpr hsame⟩)
  rw [upsert, dif_neg hnot]
  refine ext_rows rfl ?_
  show (t.rows ++ [(t.fold name, fresh)]).filter (fun row => row.1 != t.fold name) = t.rows
  rw [List.filter_append, List.filter_eq_self.mpr hother, List.filter_cons_of_neg (by simp),
    List.filter_nil, List.append_nil]

theorem contains_upsert (t : NameTable α) (name : Text) (f : α → α) (fresh : α) :
    (t.upsert name f fresh).contains name = true := by
  by_cases h : t.contains name = true
  · rw [upsert, dif_pos h]
    obtain ⟨row, hrow, hname⟩ := List.any_eq_true.mp h
    exact List.any_eq_true.mpr ⟨_, List.mem_map_of_mem hrow, hname⟩
  · rw [upsert, dif_neg h]
    exact List.any_eq_true.mpr
      ⟨_, List.mem_append_right _ (List.mem_singleton_self _), beq_self_eq_true _⟩

end NameTable

namespace Document

variable {doc : Document} {key : Text}

theorem below_renumbered (h : doc.Below UInt32.size) (n : Nat) :
    (doc.renumbered (n % UInt32.size)).Below UInt32.size :=
  ⟨h.sections, Nat.mod_lt _ (by decide), h.entries⟩

/-- A key that is set and removed again has used up one number. -/
theorem afterInWords_set_remove (h : doc.Below UInt32.size) (hkey : doc.global.contains key = false)
    (value : Text) (rest : List Step) :
    doc.afterInWords .wraps (.edit (.set [] key value) :: .edit (.inSection [] (.remove key)) :: rest) =
      (doc.renumbered ((doc.global.nextEntry + 1) % UInt32.size)).afterInWords .wraps rest := by
  obtain ⟨n, hn⟩ : ∃ n, n = (doc.global.nextEntry + 1) % UInt32.size := ⟨_, rfl⟩
  obtain ⟨table, htable⟩ : ∃ table, table = doc.global.entries.upsert key (·.setValue value)
      (.fresh ⟨doc.global.id, doc.global.nextEntry⟩ key value) := ⟨_, rfl⟩
  obtain ⟨s, hs⟩ : ∃ s : Section, s = { doc.global with entries := table, nextEntry := n } := ⟨_, rfl⟩
  have hset : (doc.set [] key value).wrapped = { doc with global := s } := by
    have hsection : (doc.global.set key value).wrapped = s := by
      rw [Section.wrapped, Section.set, Section.upsert, hkey, hs, hn, htable]
      rfl
    show { doc.wrapped with global := (doc.global.set key value).wrapped } = _
    rw [wrapped_of_below h, hsection]
  -- now the key is there, and without it the entries are those from before
  obtain ⟨e, hfind⟩ : ∃ e, s.find? key = some e := by
    rw [← Option.isSome_iff_exists, Section.Sound.isSome_find?, hs, htable]
    exact NameTable.contains_upsert _ _ _ _
  have herase : s.erase key = { doc.global with nextEntry := n } := by
    rw [Section.erase, hs]
    dsimp only
    rw [htable, NameTable.erase_upsert hkey]
  have hremove : (Step.run { doc with global := s } (.edit (.inSection [] (.remove key)))).2 =
      doc.renumbered n := by
    rw [Step.run, Edit.run_inSection_of_ok rfl (SectionEdit.run_remove_of_some hfind)]
    show { doc with global := s.erase key } = _
    rw [herase]
    rfl
  have hbelow : (doc.renumbered n).Below UInt32.size := hn ▸ below_renumbered h _
  rw [afterInWords_cons, show (Step.run doc (.edit (.set [] key value))).2.settle .wraps =
    some (doc.set [] key value).wrapped from rfl, hset, Option.bind_some, afterInWords_cons, hremove,
    settle_of_below hbelow, Option.bind_some, hn]

/-- **Over and over**: nothing is left but another number for the next entry. -/
theorem afterInWords_churn (h : doc.Below UInt32.size) (hkey : doc.global.contains key = false)
    (n : Nat) (rest : List Step) :
    doc.afterInWords .wraps (Step.churn key n ++ rest) =
      (doc.renumbered ((doc.global.nextEntry + n) % UInt32.size)).afterInWords .wraps rest := by
  induction n generalizing doc with
  | zero =>
    rw [Nat.add_zero, Nat.mod_eq_of_lt h.global]
    rfl
  | succ n ih =>
    have hround := afterInWords_set_remove h hkey ['9'] (Step.churn key n ++ rest)
    refine hround.trans ?_
    rw [ih (below_renumbered h _) hkey]
    show (doc.renumbered (((doc.global.nextEntry + 1) % UInt32.size + n) % UInt32.size)).afterInWords _ _ = _
    rw [Nat.mod_add_mod, Nat.add_right_comm, Nat.add_assoc]

/-- **A counter comes around**: the next global entry has the number of the first one again. -/
theorem afterInWords_around (h : doc.Below UInt32.size) (hkey : doc.global.contains key = false)
    {n : Nat} (hn : doc.global.nextEntry + n = UInt32.size) (rest : List Step) :
    doc.afterInWords .wraps (Step.churn key n ++ rest) =
      (doc.renumbered 0).afterInWords .wraps rest := by
  rw [afterInWords_churn h hkey, hn, Nat.mod_self]

end Document

/-- What can be tried out on a document that is read and renumbered happens after so many steps. -/
theorem exists_around {d : Dialect} {text key : Text} {n : Nat} {steps : List Step}
    {test : Parsed → Document → Bool}
    (h : (parseInWords .wraps d text).any (fun read => read.toOption.any fun p =>
      (!p.document.global.contains key && p.document.global.nextEntry + n == UInt32.size) &&
        ((p.document.renumbered 0).afterInWords .wraps steps).any (test p)) = true) :
    ∃ p last, parseInWords .wraps d text = some (.ok p) ∧
      p.document.afterInWords .wraps (Step.churn key n ++ steps) = some last ∧ test p last = true := by
  obtain ⟨p, hparse, htest⟩ := exists_parseInWords_of_any h
  obtain ⟨hstart, hsteps⟩ := Bool.and_eq_true_iff.mp htest
  obtain ⟨hkey, hn⟩ := Bool.and_eq_true_iff.mp hstart
  obtain ⟨last, hlast, htest⟩ := (Option.any_eq_true _ _).mp hsteps
  have hround := Document.afterInWords_around (below_parseInWords hparse)
    (Bool.not_eq_true' _ ▸ hkey) (eq_of_beq hn) steps
  exact ⟨p, last, hparse, hround.trans hlast, htest⟩

end IniFile
