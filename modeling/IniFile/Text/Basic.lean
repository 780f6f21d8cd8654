/-
  Text.

  The library works on text as a list of characters: every scanner is a recursion on the list, and
  a column is a length.  This file holds the three things every other file needs:

  1. **Classes** — `isBlank` (white space) and `isControl`.
  2. **Trimming** — `trimStart`, `trimEnd`, `trim` take blanks off the ends and nothing else.
  3. **Cutting** — `cut p t` splits `t` around the FIRST character that satisfies `p`.

  The lemmas say what trimming leaves and that cutting loses nothing.

  Mathlib-free.
-/
namespace IniFile

/-- A piece of text, one character at a time. -/
abbrev Text := List Char

/-! ## Classes of characters -/

/-- The **white space** characters: the twenty-five characters with the property `White_Space`. -/
def isBlank (c : Char) : Bool :=
  let n := c.toNat
  (0x9 ≤ n && n ≤ 0xd) || n == 0x20 || n == 0x85 || n == 0xa0 || n == 0x1680 ||
  (0x2000 ≤ n && n ≤ 0x200a) || n == 0x2028 || n == 0x2029 || n == 0x202f || n == 0x205f ||
  n == 0x3000

/-- The **control characters**: the two blocks of sixty-five code points below the printing ones. -/
def isControl (c : Char) : Bool :=
  c.toNat < 0x20 || (0x7f ≤ c.toNat && c.toNat ≤ 0x9f)

namespace Text

/-! ## Trimming -/

/-- The text without its leading blanks. -/
def trimStart (t : Text) : Text := t.dropWhile isBlank

/-- The text without its trailing blanks: a blank goes only if nothing is left behind it. -/
def trimEnd : Text → Text
  | [] => []
  | c :: rest =>
    let kept := trimEnd rest
    if kept.isEmpty && isBlank c then [] else c :: kept

/-- The text without the blanks at its two ends. -/
def trim (t : Text) : Text := trimEnd (trimStart t)

/-- Trimming the end twice is trimming it once. -/
theorem trimEnd_trimEnd : ∀ t : Text, trimEnd (trimEnd t) = trimEnd t
  | [] => rfl
  | c :: rest => by
      have ih := trimEnd_trimEnd rest
      by_cases h : ((trimEnd rest).isEmpty && isBlank c) = true
      · simp [trimEnd, h]
      · simp only [trimEnd, h, Bool.false_eq_true, ↓reduceIte, ih]

/-! ## Cutting at a character -/

/-- The **cut** at the first character satisfying `p`: what stands before it, the character, and what
    follows; `none` when there is no such character. -/
def cut (p : Char → Bool) : Text → Option (Text × Char × Text)
  | [] => none
  | c :: rest =>
    if p c then some ([], c, rest)
    else (cut p rest).map fun (before, mark, after) => (c :: before, mark, after)

/-- Cutting loses nothing, and it cuts at the FIRST character that satisfies `p`. -/
theorem of_cut_eq_some {p : Char → Bool} : ∀ {t before after : Text} {mark : Char},
    cut p t = some (before, mark, after) →
      t = before ++ mark :: after ∧ p mark = true ∧ ∀ c ∈ before, p c = false
  | [], _, _, _, h => by simp [cut] at h
  | c :: rest, before, after, mark, h => by
      by_cases hc : p c = true
      · simp only [cut, hc, ↓reduceIte, Option.some.injEq, Prod.mk.injEq] at h
        obtain ⟨rfl, rfl, rfl⟩ := h
        exact ⟨rfl, hc, by simp⟩
      · simp only [cut, hc, Bool.false_eq_true, ↓reduceIte, Option.map_eq_some_iff,
          Prod.mk.injEq] at h
        obtain ⟨⟨inner, mark', after'⟩, hcut, rfl, rfl, rfl⟩ := h
        obtain ⟨hsplit, hmark, hinner⟩ := of_cut_eq_some hcut
        refine ⟨by rw [hsplit, List.cons_append], hmark, fun d hd => ?_⟩
        rcases List.mem_cons.mp hd with rfl | hd
        · exact eq_false_of_ne_true hc
        · exact hinner d hd

/-- There is no cut exactly when no character satisfies `p`. -/
theorem cut_eq_none_iff {p : Char → Bool} : ∀ {t : Text},
    cut p t = none ↔ ∀ c ∈ t, p c = false
  | [] => by simp [cut]
  | c :: rest => by
      by_cases hc : p c = true
      · simp [cut, hc]
      · simp [cut, hc, cut_eq_none_iff (t := rest)]

end Text
end IniFile
