/-
  Rosters: what a name table looks like from outside.

  A `NameTable` stores every value under a folded name.  When that name can be told from the value
  itself — `NameTable.Keyed` — the stored names are redundant, and each operation of the table is an
  operation on the plain list of its values that picks members by a predicate:

  - `Roster.change` changes the members picked,
  - `Roster.upsert` changes them or, when there are none, puts a new member at the end,
  - `Roster.erase` takes them out.

  The lemmas say that each table operation is its roster operation (`values_modify`,
  `values_upsert`, `values_erase`), and that rosters go through a map of their members
  (`map_change`, `map_upsert`, `map_erase`), which is how one view of a document is carried over to
  the next.

  Mathlib-free.
-/
import IniFile.NameTable

namespace IniFile

/-! ## Rosters -/

namespace Roster

variable {α β : Type}

/-- Changes every member picked by `p` in its place. -/
def change (p : α → Bool) (f : α → α) (l : List α) : List α := l.map fun a => if p a then f a else a

/-- Changes every member picked by `p`, or puts `fresh` at the end if there is none. -/
def upsert (p : α → Bool) (f : α → α) (fresh : α) (l : List α) : List α :=
  if l.any p then change p f l else l ++ [fresh]

/-- Takes every member picked by `p` out. -/
def erase (p : α → Bool) (l : List α) : List α := l.filter fun a => !p a

theorem change_append (p : α → Bool) (f : α → α) (l m : List α) :
    change p f (l ++ m) = change p f l ++ change p f m :=
  List.map_append

/-- Nothing changes when nobody is picked. -/
theorem change_of_forall_not {p : α → Bool} {l : List α} (f : α → α)
    (h : ∀ a ∈ l, p a = false) : change p f l = l := by
  have hsame : ∀ a ∈ l, (if p a then f a else a) = a := by
    intro a ha
    rw [h a ha]; rfl
  rw [change, List.map_congr_left hsame, List.map_id']

theorem erase_of_forall_not {p : α → Bool} {l : List α} (h : ∀ a ∈ l, p a = false) :
    erase p l = l :=
  List.filter_eq_self.mpr fun a ha => by rw [h a ha]; rfl

/-- A change by the identity is none. -/
theorem upsert_id_of_any {p : α → Bool} {l : List α} (fresh : α) (h : l.any p = true) :
    upsert p id fresh l = l := by
  rw [upsert, if_pos h, change]
  simp

theorem upsert_of_any {p : α → Bool} {l : List α} (f : α → α) (fresh : α)
    (h : l.any p = true) : upsert p f fresh l = change p f l :=
  if_pos h

theorem upsert_of_not_any {p : α → Bool} {l : List α} (f : α → α) (fresh : α)
    (h : l.any p = false) : upsert p f fresh l = l ++ [fresh] :=
  if_neg (by simp [h])

/-- Changes of the members picked, one after the other, are one change. -/
theorem change_change {p : α → Bool} {f : α → α} (g : α → α) {l : List α}
    (hf : ∀ a ∈ l, p (f a) = p a) : change p g (change p f l) = change p (fun a => g (f a)) l := by
  rw [change, change, change, List.map_map]
  apply List.map_congr_left
  intro a ha
  show (if p (if p a then f a else a) then g (if p a then f a else a)
    else if p a then f a else a) = if p a then g (f a) else a
  by_cases hp : p a = true
  · rw [if_pos hp, if_pos hp, hf a ha, if_pos hp]
  · rw [if_neg hp, if_neg hp, if_neg hp]

/-- Changing what an upsert has just put in its place is one upsert. -/
theorem change_upsert {p : α → Bool} {f g : α → α} {fresh : α} {l : List α}
    (hf : ∀ a ∈ l, p (f a) = p a) (hfresh : p fresh = true) :
    change p g (upsert p f fresh l) = upsert p (fun a => g (f a)) (g fresh) l := by
  -- either way the members picked afterwards are those picked before, or the fresh one
  cases h : l.any p with
  | true =>
    rw [upsert_of_any f fresh h, upsert_of_any _ (g fresh) h, change_change g hf]
  | false =>
    have hnone : ∀ a ∈ l, p a = false := by
      intro a ha
      exact eq_false_of_ne_true (List.any_eq_false.mp h a ha)
    rw [upsert_of_not_any f fresh h, upsert_of_not_any _ (g fresh) h, change_append,
      change_of_forall_not g hnone, change, List.map_singleton, if_pos hfresh]

/-! ### What holds of every member -/

theorem forall_change {p : α → Bool} {f : α → α} {l : List α} {P : α → Prop}
    (hl : ∀ a ∈ l, P a) (hf : ∀ a ∈ l, p a = true → P (f a)) : ∀ b ∈ change p f l, P b := by
  intro b hb
  obtain ⟨a, ha, rfl⟩ := List.mem_map.mp hb
  by_cases hp : p a = true
  · rw [if_pos hp]; exact hf a ha hp
  · rw [if_neg hp]; exact hl a ha

theorem forall_upsert {p : α → Bool} {f : α → α} {fresh : α} {l : List α} {P : α → Prop}
    (hl : ∀ a ∈ l, P a) (hf : ∀ a ∈ l, p a = true → P (f a)) (hfresh : P fresh) :
    ∀ b ∈ upsert p f fresh l, P b := by
  cases h : l.any p with
  | true => rw [upsert_of_any f fresh h]; exact forall_change hl hf
  | false =>
    rw [upsert_of_not_any f fresh h]
    intro b hb
    rcases List.mem_append.mp hb with hb | hb
    · exact hl b hb
    · rw [List.mem_singleton.mp hb]; exact hfresh

theorem forall_erase {p : α → Bool} {l : List α} {P : α → Prop} (hl : ∀ a ∈ l, P a) :
    ∀ b ∈ erase p l, P b :=
  fun b hb => hl b (List.mem_filter.mp hb).1

/-! ### Who is found -/

/-- Among members of distinct names, the one of a name is found. -/
theorem find?_eq_some_of_mem {nameOf : α → Text} {l : List α} (h : (l.map nameOf).Nodup) {a : α}
    (ha : a ∈ l) : l.find? (fun b => nameOf b == nameOf a) = some a := by
  induction l with
  | nil => exact absurd ha List.not_mem_nil
  | cons first rest ih =>
    obtain ⟨hfirst, hrest⟩ := List.nodup_cons.mp h
    rcases List.mem_cons.mp ha with rfl | ha
    · exact List.find?_cons_of_pos (beq_self_eq_true _)
    · have hother : (nameOf first == nameOf a) = false := by
        refine beq_eq_false_iff_ne.mpr fun hsame => hfirst ?_
        rw [hsame]
        exact List.mem_map_of_mem ha
      rw [List.find?_cons, hother]
      exact ih hrest ha

/-- What is found depends on who is picked among the members. -/
theorem find?_congr {p q : α → Bool} {l : List α} (h : ∀ a ∈ l, p a = q a) :
    l.find? p = l.find? q := by
  induction l with
  | nil => rfl
  | cons first rest ih =>
    rw [List.find?_cons, List.find?_cons, h first List.mem_cons_self,
      ih fun a ha => h a (List.mem_cons_of_mem _ ha)]

section Found

variable {p q : α → Bool} {f : α → α}

theorem find?_change (hf : ∀ a, q (f a) = q a) (l : List α) :
    (change p f l).find? q = (l.find? q).map fun a => if p a then f a else a := by
  rw [change, List.find?_map]
  refine congrArg (Option.map _) (find?_congr fun a _ => ?_)
  show q (if p a then f a else a) = q a
  split
  · exact hf a
  · rfl

/-- Taking others out makes no difference. -/
theorem find?_erase_of_not (h : ∀ a, p a = true → q a = false) (l : List α) :
    (erase p l).find? q = l.find? q := by
  rw [erase, List.find?_filter]
  refine find?_congr fun a _ => ?_
  cases hp : p a with
  | true => simp [h a hp]
  | false => simp

/-- Those that were taken out are not found. -/
theorem find?_erase_self (p : α → Bool) (l : List α) : (erase p l).find? p = none :=
  List.find?_eq_none.mpr fun a ha => by simpa using (List.mem_filter.mp ha).2

end Found

/-! ### What the members come to together -/

section FlatMap

variable {p : α → Bool} {f : α → α} {t : α → List β} {l : List α}

theorem flatMap_change (hf : ∀ a ∈ l, p a = true → t (f a) = t a) :
    (change p f l).flatMap t = l.flatMap t := by
  rw [change, List.flatMap_map, List.flatMap_def, List.flatMap_def]
  refine congrArg List.flatten (List.map_congr_left fun a ha => ?_)
  by_cases h : p a = true
  · rw [if_pos h, hf a ha h]
  · rw [if_neg h]

theorem flatMap_upsert {fresh : α} (hf : ∀ a ∈ l, p a = true → t (f a) = t a)
    (hfresh : t fresh = []) : (upsert p f fresh l).flatMap t = l.flatMap t := by
  cases h : l.any p with
  | true => rw [upsert_of_any f fresh h, flatMap_change hf]
  | false =>
    rw [upsert_of_not_any f fresh h, List.flatMap_append, List.flatMap_singleton, hfresh,
      List.append_nil]

end FlatMap

/-! ### Rosters under a map -/

section Map

variable {p : α → Bool} {q : β → Bool} {v : α → β} {l : List α}

theorem any_map (hp : ∀ a ∈ l, q (v a) = p a) : (l.map v).any q = l.any p := by
  rw [Bool.eq_iff_iff, List.any_eq_true, List.any_eq_true]
  constructor
  · rintro ⟨b, hb, hq⟩
    obtain ⟨a, ha, rfl⟩ := List.mem_map.mp hb
    exact ⟨a, ha, (hp a ha).symm.trans hq⟩
  · rintro ⟨a, ha, h⟩
    exact ⟨v a, List.mem_map_of_mem ha, (hp a ha).trans h⟩

theorem map_change {f : α → α} {g : β → β} (hp : ∀ a ∈ l, q (v a) = p a)
    (hf : ∀ a ∈ l, p a = true → v (f a) = g (v a)) :
    (change p f l).map v = change q g (l.map v) := by
  rw [change, change, List.map_map, List.map_map]
  apply List.map_congr_left
  intro a ha
  show v (if p a then f a else a) = if q (v a) then g (v a) else v a
  rw [hp a ha]
  by_cases h : p a = true
  · rw [if_pos h, if_pos h, hf a ha h]
  · rw [if_neg h, if_neg h]

theorem map_upsert {f : α → α} {g : β → β} {fresh : α} {fresh' : β}
    (hp : ∀ a ∈ l, q (v a) = p a) (hf : ∀ a ∈ l, p a = true → v (f a) = g (v a))
    (hfresh : v fresh = fresh') :
    (upsert p f fresh l).map v = upsert q g fresh' (l.map v) := by
  have hany := any_map hp
  cases h : l.any p with
  | true => rw [upsert_of_any f fresh h, upsert_of_any g fresh' (hany.trans h), map_change hp hf]
  | false =>
    rw [upsert_of_not_any f fresh h, upsert_of_not_any g fresh' (hany.trans h), List.map_append,
      List.map_singleton, hfresh]

theorem map_erase (hp : ∀ a ∈ l, q (v a) = p a) : (erase p l).map v = erase q (l.map v) := by
  rw [erase, erase, List.filter_map]
  refine congrArg (List.map v) (List.filter_congr fun a ha => ?_)
  show (!p a) = !q (v a)
  rw [hp a ha]

end Map
end Roster

/-! ## Tables as rosters -/

namespace NameTable

variable {α : Type}

/-- Every value is stored under the folded form of a name that it carries itself. -/
def Keyed (t : NameTable α) (nameOf : α → Text) : Prop :=
  ∀ row ∈ t.rows, row.1 = t.fold (nameOf row.2)

/-- Does a value carry the given name, up to folding? -/
def named (t : NameTable α) (nameOf : α → Text) (name : Text) (a : α) : Bool :=
  t.fold (nameOf a) == t.fold name

section Keyed

variable {t : NameTable α} {nameOf : α → Text}

theorem keyed_empty (caseSensitive : Bool) : (empty caseSensitive : NameTable α).Keyed nameOf :=
  fun _ h => absurd h (List.not_mem_nil)

/-- A value and the name that its row stores. -/
theorem row_eq_named (h : t.Keyed nameOf) (name : Text) {row : Text × α} (hrow : row ∈ t.rows) :
    (row.1 == t.fold name) = t.named nameOf name row.2 := by
  rw [h row hrow]
  rfl

theorem contains_eq (h : t.Keyed nameOf) (name : Text) :
    t.contains name = t.values.any (t.named nameOf name) :=
  (Roster.any_map fun _ hrow => (row_eq_named h name hrow).symm).symm

theorem get?_eq (h : t.Keyed nameOf) (name : Text) :
    t.get? name = t.values.find? (t.named nameOf name) := by
  rw [get?, values, List.find?_map]
  exact congrArg (Option.map Prod.snd) (Roster.find?_congr fun _ hrow => row_eq_named h name hrow)

/-- A value that is found is in the table and carries the name. -/
theorem of_get?_eq_some (h : t.Keyed nameOf) {name : Text} {a : α} (ha : t.get? name = some a) :
    a ∈ t.values ∧ t.named nameOf name a = true := by
  obtain ⟨row, hrow, rfl⟩ := Option.map_eq_some_iff.mp ha
  have hmem := List.mem_of_find?_eq_some hrow
  have hname := List.find?_some (p := fun r : Text × α => r.1 == t.fold name) hrow
  exact ⟨List.mem_map_of_mem hmem, row_eq_named h name hmem ▸ hname⟩

/-- Something is found exactly when the table contains the name. -/
theorem isSome_get? (t : NameTable α) (name : Text) : (t.get? name).isSome = t.contains name := by
  rw [get?, Option.isSome_map, List.isSome_find?]
  rfl

theorem values_modify (h : t.Keyed nameOf) (name : Text) (f : α → α) :
    (t.modify name f).values = Roster.change (t.named nameOf name) f t.values := by
  show (t.rows.map fun row => (row.1, if row.1 == t.fold name then f row.2 else row.2)).map
    Prod.snd = _
  rw [List.map_map, Roster.change, values, List.map_map]
  apply List.map_congr_left
  intro row hrow
  show (if row.1 == t.fold name then f row.2 else row.2) = _
  rw [row_eq_named h name hrow]
  rfl

theorem values_upsert (h : t.Keyed nameOf) (name : Text) (f : α → α) (fresh : α) :
    (t.upsert name f fresh).values =
      Roster.upsert (t.named nameOf name) f fresh t.values := by
  by_cases hc : t.contains name = true
  · rw [upsert, dif_pos hc, values_modify h,
      Roster.upsert_of_any f fresh ((contains_eq h name) ▸ hc)]
  · rw [upsert, dif_neg hc, Roster.upsert_of_not_any f fresh
      (((contains_eq h name) ▸ eq_false_of_ne_true hc))]
    show (t.rows ++ [(t.fold name, fresh)]).map Prod.snd = _
    rw [List.map_append]
    rfl

theorem values_erase (h : t.Keyed nameOf) (name : Text) :
    (t.erase name).values = Roster.erase (t.named nameOf name) t.values := by
  rw [values, Roster.erase, values, List.filter_map]
  refine congrArg (List.map Prod.snd) (List.filter_congr fun row hrow => ?_)
  show (row.1 != t.fold name) = !t.named nameOf name row.2
  rw [← row_eq_named h name hrow]
  rfl

theorem keyed_modify (h : t.Keyed nameOf) (name : Text) {f : α → α}
    (hf : ∀ a ∈ t.values, t.named nameOf name a = true → nameOf (f a) = nameOf a) :
    (t.modify name f).Keyed nameOf := by
  intro row hrow
  obtain ⟨old, hold, rfl⟩ := List.mem_map.mp hrow
  show old.1 = t.fold (nameOf (if old.1 == t.fold name then f old.2 else old.2))
  by_cases hnamed : (old.1 == t.fold name) = true
  · rw [if_pos hnamed, hf old.2 (List.mem_map_of_mem hold) (row_eq_named h name hold ▸ hnamed)]
    exact h old hold
  · rw [if_neg hnamed]
    exact h old hold

theorem keyed_upsert (h : t.Keyed nameOf) (name : Text) {f : α → α} {fresh : α}
    (hf : ∀ a ∈ t.values, t.named nameOf name a = true → nameOf (f a) = nameOf a)
    (hfresh : nameOf fresh = name) : (t.upsert name f fresh).Keyed nameOf := by
  by_cases hc : t.contains name = true
  · rw [upsert, dif_pos hc]
    exact keyed_modify h name hf
  · rw [upsert, dif_neg hc]
    intro row hrow
    rcases List.mem_append.mp hrow with hrow | hrow
    · exact h row hrow
    · rw [List.mem_singleton.mp hrow]
      show t.fold name = t.fold (nameOf fresh)
      rw [hfresh]

theorem keyed_erase (h : t.Keyed nameOf) (name : Text) : (t.erase name).Keyed nameOf :=
  fun row hrow => h row (List.mem_filter.mp hrow).1

theorem keyed_mapValues (h : t.Keyed nameOf) {f : α → α}
    (hf : ∀ a ∈ t.values, nameOf (f a) = nameOf a) : (t.mapValues f).Keyed nameOf := by
  intro row hrow
  obtain ⟨old, hold, rfl⟩ := List.mem_map.mp hrow
  show old.1 = t.fold (nameOf (f old.2))
  rw [hf old.2 (List.mem_map_of_mem hold)]
  exact h old hold

/-- The values carry distinct names. -/
theorem nodup_fold_values (h : t.Keyed nameOf) :
    (t.values.map fun a => t.fold (nameOf a)).Nodup := by
  have hrows : t.values.map (fun a => t.fold (nameOf a)) = t.rows.map Prod.fst := by
    rw [values, List.map_map]
    exact List.map_congr_left fun row hrow => (h row hrow).symm
  rw [hrows]
  exact t.distinct

end Keyed

theorem values_mapValues (t : NameTable α) (f : α → α) : (t.mapValues f).values = t.values.map f := by
  rw [values, values]
  show (t.rows.map fun row => (row.1, f row.2)).map Prod.snd = _
  rw [List.map_map, List.map_map]
  rfl

@[simp] theorem values_clear (t : NameTable α) : t.clear.values = [] := rfl

@[simp] theorem values_empty (caseSensitive : Bool) : (empty caseSensitive : NameTable α).values = [] :=
  rfl

/-! ### Every operation keeps the folding -/

@[simp] theorem caseSensitive_modify (t : NameTable α) (name : Text) (f : α → α) :
    (t.modify name f).caseSensitive = t.caseSensitive := rfl

@[simp] theorem caseSensitive_upsert (t : NameTable α) (name : Text) (f : α → α) (fresh : α) :
    (t.upsert name f fresh).caseSensitive = t.caseSensitive := by
  unfold upsert
  by_cases hc : t.contains name = true
  · rw [dif_pos hc, caseSensitive_modify]
  · rw [dif_neg hc]

end NameTable
end IniFile
