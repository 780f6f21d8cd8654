/-
  Float literals and what checking makes of them.

  The checker takes a sign, digits, a point and digits, then asks whether there was a digit at all,
  and only then looks for an exponent.  The grammar here knows nothing of that order: a literal is
  some sign, some mantissa and some exponent.  Where a text is no literal, what is wrong with it is
  said about the ONE way to part it into a sign, the longest mantissa part and a rest.

  1. **The grammar** — mantissas, exponents, literals.
  2. **Signs** — the sign that a text starts with, and that the checker takes it.
  3. **Mantissa parts** — digits and at most one point, as far as they go.
  4. **Parting** — every text is parted in one way, and a literal into its own parts.
  5. **Endings** — what can stand behind the mantissa part.
  6. **The verdict** — what the checker finds wrong, from the parts of the text.
  7. **Outcomes** — what checking has to give, and that it gives that; integers are among the floats.

  Mathlib-free.
-/
import IniFile.Proofs.Floats
import IniFile.Proofs.IntegerWidths

namespace IniFile

/-! ## The grammar -/

/-- A **mantissa**: digits; digits and a point, with or without digits behind it; or a point and
    digits. -/
inductive Mantissa : Text → Prop
  | whole {w : Text} (hne : w ≠ []) (hw : w.AllDigits) : Mantissa w
  | pointed {w f : Text} (hne : w ≠ []) (hw : w.AllDigits) (hf : f.AllDigits) :
      Mantissa (w ++ '.' :: f)
  | fraction {f : Text} (hne : f ≠ []) (hf : f.AllDigits) : Mantissa ('.' :: f)

/-- Does the character begin an exponent? -/
def IsExponentMark (c : Char) : Prop := c = 'e' ∨ c = 'E'

/-- An **exponent**, or none. -/
inductive Exponent : Text → Prop
  | absent : Exponent []
  | present {mark : Char} {sign digits : Text} {negative : Bool} (hmark : IsExponentMark mark)
      (hsign : Sign sign negative) (hne : digits ≠ []) (hdigits : digits.AllDigits) :
      Exponent (mark :: (sign ++ digits))

/-- **A float literal**: a sign or none, a mantissa, and an exponent or none. -/
def FloatLiteral (raw : Text) : Prop :=
  ∃ sign negative mantissa exponent, Sign sign negative ∧ Mantissa mantissa ∧ Exponent exponent ∧
    raw = sign ++ (mantissa ++ exponent)

/-- Does an exponent begin here that has no digit, behind a sign or without one? -/
def EmptyExponent (rest : Text) : Prop :=
  ∃ mark after, rest = mark :: after ∧ IsExponentMark mark ∧
    ¬∃ sign negative c more, Sign sign negative ∧ c.isDigit = true ∧ after = sign ++ c :: more

/-! ## Signs -/

/-- A text with the sign that it starts with, if it starts with one. -/
structure Signed (t sign rest : Text) (negative : Bool) : Prop where
  spelled : t = sign ++ rest
  isSign : Sign sign negative
  taken : sign = [] → ∀ c, rest.head? = some c → c ≠ '+' ∧ c ≠ '-'

section Signs

variable {t sign rest other left : Text} {negative positive : Bool}

theorem exists_signed (t : Text) : ∃ sign rest negative, Signed t sign rest negative := by
  cases t with
  | nil => exact ⟨[], [], false, rfl, .unsigned, fun _ _ => nofun⟩
  | cons c rest =>
    by_cases hplus : c = '+'
    · exact ⟨['+'], rest, false, by rw [hplus]; rfl, .plus, nofun⟩
    by_cases hminus : c = '-'
    · exact ⟨['-'], rest, true, by rw [hminus]; rfl, .minus, nofun⟩
    · refine ⟨[], c :: rest, false, rfl, .unsigned, fun _ d hd => ?_⟩
      rw [← Option.some.inj hd]
      exact ⟨hplus, hminus⟩

/-- The sign that a text starts with is the one that is taken. -/
theorem Signed.takeSign (h : Signed t sign rest negative) : takeSign t = (negative, rest) := by
  obtain ⟨rfl, hsign, htaken⟩ := h
  cases hsign with
  | plus | minus => rfl
  | unsigned =>
    cases rest with
    | nil => rfl
    | cons c rest => exact takeSign_of_ne (htaken rfl c rfl).2 (htaken rfl c rfl).1 rest

theorem Signed.unique (h : Signed t sign rest negative) (h' : Signed t other left positive) :
    other = sign ∧ left = rest := by
  have hleft : left = rest := (Prod.mk.inj (h'.takeSign.symm.trans h.takeSign)).2
  refine ⟨?_, hleft⟩
  have hspelled := h'.spelled.symm.trans h.spelled
  rw [hleft] at hspelled
  exact List.append_cancel_right hspelled

theorem ne_sign_of_isDigit {c : Char} (hc : c.isDigit = true) : c ≠ '+' ∧ c ≠ '-' := by
  constructor
  · rintro rfl
    exact absurd hc (by decide)
  · rintro rfl
    exact absurd hc (by decide)

/-- A digit is no sign. -/
theorem signed_of_isDigit (hsign : Sign sign negative) {c : Char} (hc : c.isDigit = true) (more : Text) :
    Signed (sign ++ c :: more) sign (c :: more) negative := by
  refine ⟨rfl, hsign, fun _ d hd => ?_⟩
  rw [← Option.some.inj hd]
  exact ne_sign_of_isDigit hc

end Signs

/-! ## Mantissa parts -/

/-- Digits and at most one point. -/
def MantissaPart (t : Text) : Prop := (∀ c ∈ t, c.isDigit = true ∨ c = '.') ∧ t.count '.' ≤ 1

/-- Is there no digit? -/
def Digitless (t : Text) : Prop := ∀ c ∈ t, c.isDigit = false

section Parts

variable {t u w f : Text} {c : Char}

theorem Text.allDigits_nil : Text.AllDigits [] := fun _ hc => absurd hc List.not_mem_nil

theorem digitless_iff_countP : Digitless t ↔ t.countP Char.isDigit = 0 := by
  rw [List.countP_eq_zero]
  exact forall₂_congr fun _ _ => Bool.eq_false_iff

theorem Text.AllDigits.countP_pointed (hw : w.AllDigits) (hf : f.AllDigits) :
    (w ++ '.' :: f).countP Char.isDigit = w.length + f.length := by
  rw [List.countP_append, List.countP_cons_of_neg (by decide), List.countP_eq_length.mpr hw,
    List.countP_eq_length.mpr hf]

/-- Where every character is a digit, there is none only if there is no character. -/
theorem Text.AllDigits.digitless_iff (h : t.AllDigits) : Digitless t ↔ t = [] := by
  constructor
  · intro hless
    refine List.eq_nil_iff_forall_not_mem.mpr fun c hc => ?_
    exact Bool.noConfusion ((hless c hc).symm.trans (h c hc))
  · rintro rfl
    exact fun _ hc => absurd hc List.not_mem_nil

theorem digitless_pointed_iff (hw : w.AllDigits) (hf : f.AllDigits) :
    Digitless (w ++ '.' :: f) ↔ w = [] ∧ f = [] := by
  have hpoint : ('.' : Char).isDigit = false := rfl
  rw [Digitless, List.forall_mem_append, List.forall_mem_cons, and_iff_right hpoint]
  exact and_congr hw.digitless_iff hf.digitless_iff

theorem mantissaPart_nil : MantissaPart [] := ⟨fun _ hc => absurd hc List.not_mem_nil, Nat.zero_le 1⟩

theorem MantissaPart.of_append (h : MantissaPart (t ++ u)) : MantissaPart t := by
  refine ⟨fun c hc => h.1 c (List.mem_append_left u hc), ?_⟩
  have hcount := h.2
  rw [List.count_append] at hcount
  omega

theorem Text.AllDigits.count_point (h : t.AllDigits) : t.count '.' = 0 :=
  List.count_eq_zero.mpr fun hmem => absurd (h '.' hmem) (by decide)

theorem Text.AllDigits.mantissaPart (h : t.AllDigits) : MantissaPart t :=
  ⟨fun c hc => .inl (h c hc), by rw [h.count_point]; exact Nat.zero_le 1⟩

theorem mantissaPart_pointed (hw : w.AllDigits) (hf : f.AllDigits) : MantissaPart (w ++ '.' :: f) := by
  constructor
  · intro c hc
    rcases List.mem_append.mp hc with hc | hc
    · exact .inl (hw c hc)
    rcases List.mem_cons.mp hc with rfl | hc
    · exact .inr rfl
    · exact .inl (hf c hc)
  · have hcount : (w ++ '.' :: f).count '.' = w.count '.' + (f.count '.' + 1) := by
      rw [List.count_append, List.count_cons_self]
    have hwhole := hw.count_point
    have hfraction := hf.count_point
    omega

/-- A mantissa part is digits, or digits before and behind a point. -/
theorem MantissaPart.cases (h : MantissaPart t) :
    t.AllDigits ∨ ∃ w f : Text, t = w ++ '.' :: f ∧ w.AllDigits ∧ f.AllDigits := by
  have hdigit : ∀ {s : Text}, (∀ c ∈ s, c ∈ t) → '.' ∉ s → s.AllDigits := fun hmem hpoint c hc =>
    (h.1 c (hmem c hc)).resolve_right fun heq => hpoint (heq ▸ hc)
  by_cases hpoint : '.' ∈ t
  · obtain ⟨w, f, rfl⟩ := List.append_of_mem hpoint
    have hcount := h.2
    rw [List.count_append, List.count_cons_self] at hcount
    refine .inr ⟨w, f, rfl, hdigit (fun c => List.mem_append_left _) ?_,
      hdigit (fun c hc => List.mem_append_right w (List.mem_cons_of_mem _ hc)) ?_⟩
    · exact List.count_eq_zero.mp (by omega)
    · exact List.count_eq_zero.mp (by omega)
  · exact .inl (hdigit (fun _ => id) hpoint)

/-- **A mantissa is a mantissa part with a digit in it.** -/
theorem mantissa_iff : Mantissa t ↔ MantissaPart t ∧ ¬Digitless t := by
  constructor
  · intro h
    cases h with
    | whole hne hw => exact ⟨hw.mantissaPart, fun hless => hne (hw.digitless_iff.mp hless)⟩
    | pointed hne hw hf =>
      exact ⟨mantissaPart_pointed hw hf, fun hless => hne ((digitless_pointed_iff hw hf).mp hless).1⟩
    | fraction hne hf =>
      have hnone := Text.allDigits_nil
      exact ⟨mantissaPart_pointed hnone hf, fun hless => hne ((digitless_pointed_iff hnone hf).mp hless).2⟩
  · rintro ⟨hpart, hdigit⟩
    rcases hpart.cases with hw | ⟨w, f, rfl, hw, hf⟩
    · exact .whole (fun hnil => hdigit (hw.digitless_iff.mpr hnil)) hw
    by_cases hwhole : w = []
    · subst hwhole
      exact .fraction (fun hnil => hdigit ((digitless_pointed_iff hw hf).mpr ⟨rfl, hnil⟩)) hf
    · exact .pointed hwhole hw hf

/-- A mantissa part goes on as far as it can. -/
theorem MantissaPart.exists_longest : ∀ (t : Text) {part : Text}, MantissaPart part →
    ∃ more rest, t = more ++ rest ∧ MantissaPart (part ++ more) ∧
      ∀ c left, rest = c :: left → ¬MantissaPart (part ++ more ++ [c])
  | [], part, h => ⟨[], [], rfl, by rwa [List.append_nil], fun _ _ => nofun⟩
  | c :: t, part, h => by
      by_cases hc : MantissaPart (part ++ [c])
      · obtain ⟨more, rest, rfl, hpart, hlongest⟩ := exists_longest t hc
        refine ⟨c :: more, rest, rfl, ?_, fun d left hd => ?_⟩
        · rwa [List.append_cons]
        · rw [List.append_cons part c more]
          exact hlongest d left hd
      · refine ⟨[], c :: t, rfl, by rwa [List.append_nil], fun d left hd => ?_⟩
        rw [List.append_nil, ← (List.cons.inj hd).1]
        exact hc

/-- What does not go on with a mantissa part is no digit, and no point if there is none yet. -/
theorem MantissaPart.stop (h : MantissaPart t) (hc : ¬MantissaPart (t ++ [c])) :
    c.isDigit = false ∧ (t.AllDigits → c ≠ '.') := by
  constructor
  · refine eq_false_of_ne_true fun hdigit => hc ?_
    have hpoint : [c].count '.' = 0 := Text.AllDigits.count_point (List.forall_mem_singleton.mpr hdigit)
    refine ⟨List.forall_mem_append.mpr ⟨h.1, List.forall_mem_singleton.mpr (.inl hdigit)⟩, ?_⟩
    rw [List.count_append, hpoint]
    exact h.2
  · rintro hall rfl
    exact hc (mantissaPart_pointed hall Text.allDigits_nil)

end Parts

/-! ## Parting -/

/-- The text **parted** at its sign and its mantissa part, which goes as far as it can. -/
structure Parted (raw sign part rest : Text) : Prop where
  signed : ∃ negative, Signed raw sign (part ++ rest) negative
  mantissa : MantissaPart part
  longest : ∀ c more, rest = c :: more → ¬MantissaPart (part ++ [c])

section Parting

variable {raw sign part rest other piece left : Text}

theorem exists_parted (raw : Text) : ∃ sign part rest, Parted raw sign part rest := by
  obtain ⟨sign, unsigned, negative, hsigned⟩ := exists_signed raw
  obtain ⟨part, rest, rfl, hpart, hlongest⟩ := mantissaPart_nil.exists_longest unsigned
  exact ⟨sign, part, rest, ⟨negative, hsigned⟩, hpart, hlongest⟩

/-- A part that could go on is not the longest. -/
theorem Parted.eq_nil_of_append {more : Text} (h : Parted raw sign part (more ++ left))
    (hmore : MantissaPart (part ++ more)) : more = [] := by
  cases more with
  | nil => rfl
  | cons c more =>
    rw [List.append_cons] at hmore
    exact absurd hmore.of_append (h.longest c _ rfl)

theorem Parted.spelled (h : Parted raw sign part rest) : raw = sign ++ (part ++ rest) := by
  obtain ⟨_, hsigned⟩ := h.signed
  exact hsigned.spelled

/-- What follows the mantissa part is no digit, and no point if there is none in it. -/
theorem Parted.stop (h : Parted raw sign part rest) {c : Char} (hc : rest.head? = some c) :
    c.isDigit = false ∧ (part.AllDigits → c ≠ '.') := by
  obtain ⟨more, rfl⟩ := List.head?_eq_some_iff.mp hc
  exact h.mantissa.stop (h.longest c more rfl)

/-- **There is one way to part a text.** -/
theorem Parted.unique (h : Parted raw sign part rest) (h' : Parted raw other piece left) :
    other = sign ∧ piece = part ∧ left = rest := by
  obtain ⟨_, hsigned⟩ := h.signed
  obtain ⟨_, hsigned'⟩ := h'.signed
  obtain ⟨hsign, hunsigned⟩ := hsigned.unique hsigned'
  refine ⟨hsign, ?_⟩
  rcases List.append_eq_append_iff.mp hunsigned with ⟨more, rfl, rfl⟩ | ⟨more, rfl, rfl⟩
  · rw [h'.eq_nil_of_append h.mantissa, List.append_nil]
    exact ⟨rfl, rfl⟩
  · rw [h.eq_nil_of_append h'.mantissa, List.append_nil]
    exact ⟨rfl, rfl⟩

/-- A literal is parted into its sign, its mantissa and its exponent. -/
theorem parted_literal {negative : Bool} (hsign : Sign sign negative) (hpart : Mantissa part)
    (hrest : Exponent rest) : Parted (sign ++ (part ++ rest)) sign part rest := by
  obtain ⟨hmantissa, hdigit⟩ := mantissa_iff.mp hpart
  refine ⟨⟨negative, rfl, hsign, fun _ c hc => ?_⟩, hmantissa, ?_⟩
  · -- the mantissa is not empty, and it begins with a digit or a point
    obtain ⟨d, more, rfl⟩ : ∃ d more, part = d :: more := by
      refine List.exists_cons_of_ne_nil fun hnil => hdigit ?_
      rw [hnil]
      exact Text.allDigits_nil.digitless_iff.mpr rfl
    rw [← Option.some.inj hc]
    rcases hmantissa.1 d List.mem_cons_self with hd | rfl
    · exact ne_sign_of_isDigit hd
    · decide
  · rintro c more rfl hlonger
    cases hrest with
    | present hmark =>
      rcases hlonger.1 c (List.mem_append_right part List.mem_cons_self) with hc | hc
      · rcases hmark with rfl | rfl <;> exact absurd hc (by decide)
      · rcases hmark with rfl | rfl <;> exact absurd hc (by decide)

/-- **A text is a literal** if its mantissa part has a digit and the rest is an exponent or nothing. -/
theorem Parted.literal_iff (h : Parted raw sign part rest) :
    FloatLiteral raw ↔ ¬Digitless part ∧ Exponent rest := by
  constructor
  · rintro ⟨_, _, _, _, hsign, hmantissa, hexponent, rfl⟩
    obtain ⟨-, rfl, rfl⟩ := h.unique (parted_literal hsign hmantissa hexponent)
    exact ⟨(mantissa_iff.mp hmantissa).2, hexponent⟩
  · rintro ⟨hdigit, hexponent⟩
    obtain ⟨negative, hsigned⟩ := h.signed
    exact ⟨sign, negative, part, rest, hsigned.isSign, mantissa_iff.mpr ⟨h.mantissa, hdigit⟩, hexponent,
      h.spelled⟩

end Parting

/-! ## Endings -/

/-- What can stand **behind the mantissa part**, and what is wrong with it: nothing at all; something
    that begins no exponent; or an exponent with a sign or none, its digits, and what is left. -/
inductive Ending : Text → Option CoercionFault → Prop
  | finished : Ending [] none
  | stray {c : Char} {more : Text} (hc : ¬IsExponentMark c) :
      Ending (c :: more) (some .trailingCharacters)
  | exponent {mark : Char} {after sign digits left : Text} {negative : Bool}
      (hmark : IsExponentMark mark) (hsigned : Signed after sign (digits ++ left) negative)
      (hdigits : digits.AllDigits) (hleft : ∀ c, left.head? = some c → c.isDigit = false) :
      Ending (mark :: after)
        (if digits = [] then some .emptyExponent
          else if left = [] then none else some .trailingCharacters)

section Endings

variable {rest : Text} {fault? : Option CoercionFault}

theorem exists_digits (t : Text) : ∃ digits left : Text, t = digits ++ left ∧ digits.AllDigits ∧
    ∀ c, left.head? = some c → c.isDigit = false := by
  refine ⟨t.takeWhile Char.isDigit, t.dropWhile Char.isDigit, List.takeWhile_append_dropWhile.symm,
    fun c hc => List.all_eq_true.mp List.all_takeWhile c hc, fun c hc => ?_⟩
  have hstop := List.head?_dropWhile_not Char.isDigit t
  rw [hc] at hstop
  exact hstop

/-- There is nothing else behind a mantissa part. -/
theorem exists_ending (rest : Text) : ∃ fault?, Ending rest fault? := by
  cases rest with
  | nil => exact ⟨_, .finished⟩
  | cons mark after =>
    by_cases hmark : IsExponentMark mark
    · obtain ⟨sign, unsigned, negative, hsigned⟩ := exists_signed after
      obtain ⟨digits, left, rfl, hdigits, hleft⟩ := exists_digits unsigned
      exact ⟨_, .exponent hmark hsigned hdigits hleft⟩
    · exact ⟨_, .stray hmark⟩

/-- Behind the sign, there is no other way to read the digits. -/
theorem Signed.digits_of_append {after sign digits left other more : Text} {negative positive : Bool}
    {c : Char} (h : Signed after sign (digits ++ left) negative)
    (hleft : ∀ c, left.head? = some c → c.isDigit = false) (hsign : Sign other positive)
    (hc : c.isDigit = true) (hafter : after = other ++ c :: more) :
    digits ≠ [] ∧ digits ++ left = c :: more := by
  have hsame : c :: more = digits ++ left := (h.unique (hafter ▸ signed_of_isDigit hsign hc more)).2
  refine ⟨?_, hsame.symm⟩
  rintro rfl
  rw [List.nil_append] at hsame
  exact Bool.noConfusion ((hleft c (by rw [← hsame]; rfl)).symm.trans hc)

/-- **Nothing is wrong** with an exponent, or with nothing at all. -/
theorem Ending.exponent_iff (h : Ending rest fault?) : Exponent rest ↔ fault? = none := by
  cases h with
  | finished => exact iff_of_true .absent rfl
  | stray hc =>
    refine iff_of_false (fun hexponent => ?_) nofun
    cases hexponent with
    | present hmark => exact hc hmark
  | @exponent mark after sign digits left negative hmark hsigned hdigits hleft =>
    constructor
    · intro hexponent
      cases hexponent with
      | @present mark other more positive _ hsign hne hmore =>
        obtain ⟨c, more, rfl⟩ := List.exists_cons_of_ne_nil hne
        obtain ⟨hsome, hsame⟩ :=
          hsigned.digits_of_append hleft hsign (hmore c List.mem_cons_self) rfl
        -- all that is left is digits, so nothing is left
        have hnone : left = [] := by
          cases left with
          | nil => rfl
          | cons d left =>
            have hd := hmore d (hsame ▸ List.mem_append_right digits List.mem_cons_self)
            exact Bool.noConfusion ((hleft d rfl).symm.trans hd)
        rw [if_neg hsome, if_pos hnone]
    · intro hnone
      by_cases hempty : digits = []
      · rw [if_pos hempty] at hnone
        exact absurd hnone nofun
      rw [if_neg hempty] at hnone
      by_cases hdone : left = []
      · rw [hsigned.spelled, hdone, List.append_nil]
        exact .present hmark hsigned.isSign hempty hdigits
      · rw [if_neg hdone] at hnone
        exact absurd hnone nofun

/-- **An exponent without digits** is what is said to be one. -/
theorem Ending.emptyExponent_iff (h : Ending rest fault?) :
    EmptyExponent rest ↔ fault? = some .emptyExponent := by
  cases h with
  | finished => exact iff_of_false (fun ⟨_, _, heq, _⟩ => absurd heq nofun) nofun
  | stray hc =>
    refine iff_of_false ?_ nofun
    rintro ⟨mark, after, heq, hmark, -⟩
    rw [(List.cons.inj heq).1] at hc
    exact hc hmark
  | @exponent mark after sign digits left negative hmark hsigned hdigits hleft =>
    by_cases hempty : digits = []
    · rw [if_pos hempty]
      refine iff_of_true ⟨mark, after, rfl, hmark, ?_⟩ rfl
      rintro ⟨other, positive, c, more, hsign, hc, hafter⟩
      exact (hsigned.digits_of_append hleft hsign hc hafter).1 hempty
    · rw [if_neg hempty]
      refine iff_of_false ?_ (by split <;> nofun)
      rintro ⟨other, behind, heq, -, hnone⟩
      obtain ⟨-, rfl⟩ := List.cons.inj heq
      obtain ⟨c, more, rfl⟩ := List.exists_cons_of_ne_nil hempty
      exact hnone ⟨sign, negative, c, more ++ left, hsigned.isSign, hdigits c List.mem_cons_self,
        hsigned.spelled⟩

/-- Whatever else is wrong is that something is left. -/
theorem Ending.fault_cases (h : Ending rest fault?) :
    fault? = none ∨ fault? = some .emptyExponent ∨ fault? = some .trailingCharacters := by
  cases h with
  | finished => exact .inl rfl
  | stray hc => exact .inr (.inr rfl)
  | exponent hmark hsigned hdigits hleft =>
    split
    · exact .inr (.inl rfl)
    split
    · exact .inl rfl
    · exact .inr (.inr rfl)

end Endings

/-! ## The verdict -/

namespace Numeral

/-- What is wrong with a text as a float literal, if anything. -/
def fault? (raw : Text) : Option CoercionFault :=
  match scan raw with
  | .ok _ => none
  | .error fault => some fault

/-- What the checker finds wrong behind the mantissa part. -/
def faultBehind : Text → Option CoercionFault
  | [] => none
  | mark :: after =>
    if mark = 'e' ∨ mark = 'E' then
      let (digits, left) := takeDigits (takeSign after).2
      if digits.isEmpty then some .emptyExponent
      else if left.isEmpty then none else some .trailingCharacters
    else some .trailingCharacters

section Verdict

variable {raw sign part rest : Text} {found : Option CoercionFault}

/-- What the checker makes of the parts of a text. -/
theorem fault?_of_parts {unsigned whole afterWhole fraction : Text} {negative : Bool}
    (hsign : takeSign raw = (negative, unsigned)) (hwhole : takeDigits unsigned = (whole, afterWhole))
    (hfraction : takeFraction afterWhole = (fraction, rest)) :
    fault? raw =
      if whole.isEmpty && fraction.isEmpty then some .noDigits else faultBehind rest := by
  unfold fault? scan
  rw [hsign]
  dsimp only
  rw [hwhole]
  dsimp only
  rw [hfraction]
  dsimp only
  cases whole.isEmpty && fraction.isEmpty with
  | true => rfl
  | false =>
    cases rest with
    | nil => rfl
    | cons mark after =>
      rw [if_neg Bool.false_ne_true, if_neg Bool.false_ne_true, faultBehind]
      dsimp only
      by_cases hmark : mark = 'e' ∨ mark = 'E'
      · rw [if_pos hmark, if_pos hmark]
        cases (takeDigits (takeSign after).2).1.isEmpty with
        | true => rfl
        | false => cases (takeDigits (takeSign after).2).2.isEmpty <;> rfl
      · rw [if_neg hmark, if_neg hmark]

/-- **The checker takes the mantissa part**: its digits before the point and behind it. -/
theorem parts_of_parted (h : Parted raw sign part rest) :
    ∃ negative whole afterWhole fraction, takeSign raw = (negative, part ++ rest) ∧
      takeDigits (part ++ rest) = (whole, afterWhole) ∧ takeFraction afterWhole = (fraction, rest) ∧
      (Digitless part ↔ whole = [] ∧ fraction = []) := by
  obtain ⟨negative, hsigned⟩ := h.signed
  rcases h.mantissa.cases with hall | ⟨w, f, rfl, hw, hf⟩
  · have hnone : takeFraction rest = ([], rest) := by
      cases rest with
      | nil => rfl
      | cons c rest =>
        have hc := (h.stop rfl).2 hall
        unfold takeFraction
        split
        · rename_i heq
          exact absurd (List.cons.inj heq).1 hc
        · rfl
    refine ⟨negative, part, rest, [], hsigned.takeSign,
      takeDigits_append hall fun c hc => (h.stop hc).1, hnone, ?_⟩
    rw [and_iff_left rfl]
    exact hall.digitless_iff
  · have hwhole : takeDigits ((w ++ '.' :: f) ++ rest) = (w, '.' :: (f ++ rest)) := by
      rw [List.append_assoc]
      refine takeDigits_append hw fun c hc => ?_
      rw [← Option.some.inj hc]
      decide
    exact ⟨negative, w, '.' :: (f ++ rest), f, hsigned.takeSign, hwhole,
      takeDigits_append hf fun c hc => (h.stop hc).1, digitless_pointed_iff hw hf⟩

theorem fault?_of_digitless (h : Parted raw sign part rest) (hless : Digitless part) :
    fault? raw = some .noDigits := by
  obtain ⟨negative, whole, afterWhole, fraction, hsign, hwhole, hfraction, hnone⟩ := parts_of_parted h
  obtain ⟨rfl, rfl⟩ := hnone.mp hless
  exact fault?_of_parts hsign hwhole hfraction

/-- What stands behind the mantissa part is taken as its sign, its digits and what is left. -/
theorem faultBehind_of_ending (h : Ending rest found) : faultBehind rest = found := by
  cases h with
  | finished => rfl
  | stray hc => exact if_neg hc
  | @exponent mark after sign digits left negative hmark hsigned hdigits hleft =>
    have hletter : mark = 'e' ∨ mark = 'E' := hmark
    rw [faultBehind, hsigned.takeSign, takeDigits_append hdigits hleft]
    dsimp only
    rw [if_pos hletter]
    by_cases hempty : digits = []
    · rw [if_pos hempty, if_pos (List.isEmpty_iff.mpr hempty)]
    rw [if_neg hempty, if_neg fun hisEmpty => hempty (List.isEmpty_iff.mp hisEmpty)]
    by_cases hdone : left = []
    · rw [if_pos hdone, if_pos (List.isEmpty_iff.mpr hdone)]
    · rw [if_neg hdone, if_neg fun hisEmpty => hdone (List.isEmpty_iff.mp hisEmpty)]

/-- **The verdict** on a text with a digit in its mantissa part is that on what stands behind it. -/
theorem fault?_of_ending (h : Parted raw sign part rest) (hdigit : ¬Digitless part)
    (hending : Ending rest found) : fault? raw = found := by
  obtain ⟨negative, whole, afterWhole, fraction, hsign, hwhole, hfraction, hnone⟩ := parts_of_parted h
  have hsome : (whole.isEmpty && fraction.isEmpty) = false := by
    refine eq_false_of_ne_true fun hempty => hdigit (hnone.mpr ?_)
    rwa [Bool.and_eq_true, List.isEmpty_iff, List.isEmpty_iff] at hempty
  rw [fault?_of_parts hsign hwhole hfraction, hsome, if_neg Bool.false_ne_true]
  exact faultBehind_of_ending hending

end Verdict

end Numeral

/-! ## Outcomes -/

/-- Is the result what checking the text, with such a mantissa part and such a rest, has to give?
    `expected` is what the kind of number is called in errors. -/
structure ChecksExactly (expected raw part rest : Text) (result : Except Error Numeral) : Prop where
  accepts : (∃ x, result = .ok x) ↔ FloatLiteral raw
  refusal : ∀ err, result = .error err → ∃ fault, err = .coercion raw expected fault ∧
    (fault.message = "no digits".toList ↔ Digitless part) ∧
    (¬Digitless part →
      (fault.message = "empty exponent".toList ↔ EmptyExponent rest) ∧
      (¬EmptyExponent rest → fault.message = "unexpected characters after number".toList))

/-- Does a mark of a radix follow the sign, or begin the text? -/
def HasRadixMark (raw : Text) : Prop :=
  ∃ sign negative mark radix rest, Sign sign negative ∧ RadixMark mark radix ∧ mark ≠ [] ∧
    raw = sign ++ (mark ++ rest)

section Outcomes

variable {raw sign part rest : Text} {n : Int}

theorem Numeral.scan_cases (raw : Text) :
    (fault? raw = none ∧ ∃ x, scan raw = .ok x) ∨
      ∃ fault, fault? raw = some fault ∧ scan raw = .error fault := by
  unfold fault?
  cases scan raw with
  | ok x => exact .inl ⟨rfl, x, rfl⟩
  | error fault => exact .inr ⟨fault, rfl, rfl⟩

/-- **The checker accepts the literals** and nothing else. -/
theorem Parted.fault?_eq_none_iff (h : Parted raw sign part rest) :
    Numeral.fault? raw = none ↔ FloatLiteral raw := by
  rw [h.literal_iff]
  by_cases hless : Digitless part
  · rw [Numeral.fault?_of_digitless h hless]
    exact iff_of_false nofun fun hliteral => hliteral.1 hless
  · obtain ⟨found, hending⟩ := exists_ending rest
    rw [Numeral.fault?_of_ending h hless hending, hending.exponent_iff]
    exact (and_iff_right hless).symm

/-- What is wrong with a text that is no literal. -/
theorem Parted.fault_message (h : Parted raw sign part rest) {fault : CoercionFault}
    (hfault : Numeral.fault? raw = some fault) :
    (fault.message = "no digits".toList ↔ Digitless part) ∧
    (¬Digitless part →
      (fault.message = "empty exponent".toList ↔ EmptyExponent rest) ∧
      (¬EmptyExponent rest → fault.message = "unexpected characters after number".toList)) := by
  by_cases hless : Digitless part
  · rw [Numeral.fault?_of_digitless h hless] at hfault
    cases hfault
    exact ⟨iff_of_true rfl hless, fun hdigit => absurd hless hdigit⟩
  · obtain ⟨found, hending⟩ := exists_ending rest
    rw [Numeral.fault?_of_ending h hless hending] at hfault
    subst hfault
    rw [hending.emptyExponent_iff]
    rcases hending.fault_cases with hnone | hempty | htrailing
    · exact absurd hnone nofun
    · cases hempty
      exact ⟨iff_of_false (by decide) hless, fun _ => ⟨iff_of_true rfl rfl, fun hnot => absurd rfl hnot⟩⟩
    · cases htrailing
      exact ⟨iff_of_false (by decide) hless, fun _ => ⟨iff_of_false (by decide) nofun, fun _ => rfl⟩⟩

/-- **Checking** is exact. -/
theorem Parted.checksExactly (h : Parted raw sign part rest) (expected : Text) :
    ChecksExactly expected raw part rest (expecting raw expected (Numeral.scan raw)) := by
  rcases Numeral.scan_cases raw with ⟨hnone, x, hscan⟩ | ⟨fault, hfault, hscan⟩
  · rw [hscan]
    exact ⟨iff_of_true ⟨x, rfl⟩ (h.fault?_eq_none_iff.mp hnone), fun _ herr => absurd herr nofun⟩
  · have hnot : ¬FloatLiteral raw := fun hliteral => by
      rw [h.fault?_eq_none_iff.mpr hliteral] at hfault
      exact absurd hfault nofun
    rw [hscan]
    refine ⟨iff_of_false nofun hnot, fun err herr => ⟨fault, (Except.error.inj herr).symm, ?_⟩⟩
    exact h.fault_message hfault

/-- An integer literal without a mark is a float literal. -/
theorem IntegerLiteral.float (h : IntegerLiteral raw n) (hmark : ¬HasRadixMark raw) :
    FloatLiteral raw := by
  obtain ⟨sign, negative, mark, radix, digits, m, hsign, hradix, hdigits, rfl, -⟩ := h
  by_cases hnil : mark = []
  · subst hnil
    cases hradix with
    | decimal =>
      obtain ⟨hne, hall, -⟩ := (digits_iff (by decide)).mp hdigits
      refine ⟨sign, negative, digits, [], hsign, .whole hne hall.allDigits, .absent, ?_⟩
      rw [List.append_nil]
      rfl
  · exact absurd ⟨sign, negative, mark, radix, digits, hsign, hradix, hnil, rfl⟩ hmark

/-- **Integers are floats**, but for those with a mark. -/
theorem float_of_readPlainInteger (h : readPlainInteger raw = .ok n) (hmark : ¬HasRadixMark raw) :
    FloatLiteral raw := by
  have hread := Width.plain.readsExactly "integer".toList raw id
  rw [Except.map_id] at hread
  obtain ⟨m, hliteral, -⟩ := (hread.value n).mp h
  exact hliteral.float hmark

end Outcomes

end IniFile
