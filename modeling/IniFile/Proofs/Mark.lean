/-
  The byte order mark is only read where it was written.

  A mark is dropped at the very start of a text.  Whatever is written there without one must not
  begin with that character by chance: a line does only if it is an entry line whose KEY begins with
  it, and keys that count as the same agree on that.
-/
import IniFile.Proofs.LineContent
import IniFile.Proofs.Lines
import IniFile.Proofs.Sheet

namespace IniFile

/-! ## Lowercase and the mark -/

namespace Text

theorem toNat_ofNat_cases (n : Nat) : (Char.ofNat n).toNat = n ∨ (Char.ofNat n).toNat = 0 := by
  by_cases h : n.isValidChar
  · left
    rw [Char.ofNat, dif_pos h]
    rfl
  · right
    rw [Char.ofNat, dif_neg h]
    rfl

/-- No run of the table reaches the mark. -/
theorem lowerRuns_miss_bom :
    ∀ run ∈ lowerRuns, run.lower + (run.last - run.first) < 0xfeff ∨ 0xfeff < run.lower := by
  decide +kernel

theorem toLower_ne_bom : ∀ n < 128, (Char.ofNat n).toLower ≠ bom := by
  decide +kernel

/-- Nothing but the mark has the mark for its lowercase form. -/
theorem eq_bom_of_lowerChar {c : Char} (h : lowerChar c = bom) : c = bom := by
  unfold lowerChar at h
  -- ASCII is tried out; beyond it the table is consulted, and no run of the table reaches the mark
  by_cases hascii : c.toNat < 0x80
  · rw [if_pos hascii] at h
    refine absurd h ?_
    rw [← Char.ofNat_toNat c]
    exact toLower_ne_bom c.toNat hascii
  · rw [if_neg hascii] at h
    cases hrun : lowerRuns.find? (fun run => run.first ≤ c.toNat && c.toNat ≤ run.last &&
        (c.toNat - run.first) % run.step == 0) with
    | none => simpa [hrun] using h
    | some run =>
      have hmem := List.mem_of_find?_eq_some hrun
      have hin := List.find?_some hrun
      simp only [Bool.and_eq_true, decide_eq_true_eq] at hin
      simp only [hrun] at h
      have hcode : (Char.ofNat (run.lower + (c.toNat - run.first))).toNat = 0xfeff := by
        rw [h]; rfl
      have hmiss := lowerRuns_miss_bom run hmem
      rcases toNat_ofNat_cases (run.lower + (c.toNat - run.first)) with hsame | hzero
      · omega
      · omega

/-- A text begins with the mark when its lowercase form does. -/
theorem head?_lowercase {t : Text} : (lowercase t).head? = some bom ↔ t.head? = some bom := by
  cases t with
  | nil => simp [lowercase, lowercaseAfter]
  | cons c rest =>
    have hbom : lowerChar bom = bom := by decide +kernel
    unfold lowercase lowercaseAfter
    by_cases hsigma : c = 'Σ'
    · subst hsigma
      simp only [if_true, List.cons_append, List.head?_cons, Option.some.injEq]
      unfold lowerSigma
      constructor
      · intro h
        split at h <;> exact absurd h (by decide)
      · intro h
        exact absurd h (by decide)
    · by_cases hdot : c = 'İ'
      · subst hdot
        simp only [hsigma, if_false, if_true, List.cons_append, List.head?_cons, Option.some.injEq]
        constructor <;> intro h <;> exact absurd h (by decide)
      · simp only [hsigma, hdot, if_false, List.cons_append, List.head?_cons, Option.some.injEq]
        exact ⟨eq_bom_of_lowerChar, fun h => by rw [h, hbom]⟩

end Text

/-- Keys that count as the same agree on whether they begin with the mark. -/
theorem Dialect.head?_ne_bom_of_sameKey {d : Dialect} {a b : Text} (h : d.sameKey a b = true)
    (hb : b.head? ≠ some bom) : a.head? ≠ some bom := by
  have hfold := sameKey_iff.mp h
  unfold foldKey at hfold
  intro ha
  cases hcase : d.caseSensitiveKeys with
  | true =>
    rw [hcase, if_pos rfl, if_pos rfl] at hfold
    exact hb (hfold ▸ ha)
  | false =>
    rw [hcase, if_neg Bool.false_ne_true, if_neg Bool.false_ne_true] at hfold
    have hlower := Text.head?_lowercase.mpr ha
    rw [hfold] at hlower
    exact hb (Text.head?_lowercase.mp hlower)

/-! ## Lines and texts -/

/-- A line begins with the mark only if it gives a value to a key that does. -/
theorem Line.head?_ne_bom {d : Dialect} (hd : d.Plain) {raw : Text} {content : Content}
    (h : Line.Says d raw content)
    (hkey : ∀ key value comment, content = .entry key value comment → key.head? ≠ some bom) :
    raw.head? ≠ some bom := by
  intro hraw
  obtain ⟨rest, rfl⟩ := List.head?_eq_some_iff.mp hraw
  have hblank : isBlank bom = false := by decide
  have hstart : Text.trimStart (bom :: rest) = bom :: rest := by
    simp [Text.trimStart, hblank]
  have hbracket : bom ≠ '[' := by decide
  unfold Says at h
  rw [hstart, scanBody_cons, hd.notBom, if_neg Bool.false_ne_true, if_neg hbracket] at h
  obtain ⟨key, after, value, comment, hsplit, -, hne, -, hcontent⟩ := scanEntry_eq_ok h
  obtain ⟨first, more, htrim⟩ := List.exists_cons_of_ne_nil hne
  have hhead : (Text.trim key).head? = some first := by rw [htrim]; rfl
  refine hkey _ _ _ hcontent ?_
  rw [hhead, head?_trim_key hblank hsplit hne hhead]

/-- There is no mark to drop where a text begins with something else. -/
theorem Text.dropBom_of_head?_ne {t : Text} (h : t.head? ≠ some bom) : dropBom t = t := by
  cases t with
  | nil => rfl
  | cons c rest => exact if_neg fun hc => h (by rw [hc]; rfl)

/-- A text that begins with a mark, if it holds one at all, holds none when that is dropped. -/
theorem Text.bom_not_mem_dropBom {t : Text} (h : bom ∉ t.tail) : bom ∉ dropBom t := by
  cases t with
  | nil => exact List.not_mem_nil
  | cons c rest =>
    by_cases hc : c = bom
    · rw [dropBom, if_pos hc]
      exact h
    · rw [dropBom, if_neg hc]
      intro hmem
      rcases List.mem_cons.mp hmem with hsame | hrest
      · exact hc hsame.symm
      · exact h hrest

/-- Lines of which none begins with the mark join to a text that does not either. -/
theorem LineEnding.dropBom_join (e : LineEnding) (closed : Bool) {ls : List Text}
    (h : ∀ l ∈ ls, l.head? ≠ some bom) : Text.dropBom (e.join closed ls) = e.join closed ls := by
  have hhead : (e.join closed ls).head? ≠ some bom := by
    match ls, h with
    | [], _ => simp [join]
    | [l], h =>
      cases l with
      | nil => cases closed <;> cases e <;> simp [join, text, bom]
      | cons c l => cases closed <;> simpa [join] using h (c :: l) List.mem_cons_self
    | l :: m :: rest, h =>
      cases l with
      | nil => cases e <;> simp [join, text, bom]
      | cons c l => simpa [join] using h (c :: l) List.mem_cons_self
  exact Text.dropBom_of_head?_ne hhead

end IniFile
