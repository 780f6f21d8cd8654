/-
  Floats are read back from their text.

  The text of a float is the shortest decimal number that reads back as it, so all that is to be
  shown is that there IS one, and that writing its digits down does not change what is read.

  1. **Rounding** — the nearest number to a quotient depends on the quotient only, and a number of the
     format is nearest to itself.
  2. **Signs** — play no part in rounding.
  3. **The shortest form** — the exact expansion reads back, so the search ends at a decimal number
     that does.
  4. **Layout** — every text has a whole part, a point and a fraction.
  5. **Reading** — all of it together, for finite numbers.

  Mathlib-free.
-/
import IniFile.Number.Numeral
import IniFile.Proofs.Digits

namespace IniFile

/-! ## Rounding -/

/-- Rounding depends on the quotient only. -/
theorem roundHalfEven_mul (num den : Nat) {c : Nat} (hc : 0 < c) :
    roundHalfEven (num * c) (den * c) = roundHalfEven num den := by
  have hbelow : 2 * (num % den * c) < den * c ↔ 2 * (num % den) < den := by
    rw [← Nat.mul_assoc]
    exact Nat.mul_lt_mul_right hc
  have habove : den * c < 2 * (num % den * c) ↔ den < 2 * (num % den) := by
    rw [← Nat.mul_assoc]
    exact Nat.mul_lt_mul_right hc
  unfold roundHalfEven
  rw [Nat.mul_div_mul_right num den hc, Nat.mul_mod_mul_right]
  simp only [hbelow, habove]

/-- A whole number rounds to itself. -/
theorem roundHalfEven_exact (n : Nat) {den : Nat} (hden : 0 < den) :
    roundHalfEven (n * den) den = n := by
  unfold roundHalfEven
  rw [Nat.mul_div_cancel n hden, Nat.mul_mod_left]
  exact if_pos (by omega)

namespace Binary

variable {f : Format}

/-- **The nearest number** depends on the quotient only. -/
theorem nearest_mul (f : Format) (negative : Bool) (num den : Nat) {c : Nat} (hc : 0 < c) :
    nearest f negative (num * c) (den * c) = nearest f negative num den := by
  unfold nearest
  rw [Nat.mul_div_mul_right num den hc]
  have hround : ∀ p, roundHalfEven (num * c) (den * c * p) = roundHalfEven num (den * p) := by
    intro p
    rw [Nat.mul_right_comm, roundHalfEven_mul _ _ hc]
  simp only [hround]

theorem ofParts_magnitude (negative : Bool) (x : Magnitude f) :
    ofParts f negative x.mantissa x.exponent = .finite negative x :=
  dif_pos x.canonical

/-- The exponent that is chosen for a number of the format is its own. -/
theorem exponent_quanta (hprecision : 0 < f.precision) (x : Magnitude f) :
    x.quanta.log2 + 1 - f.precision = x.exponent := by
  obtain ⟨mantissa, exponent, hmantissa, hnormal, htop⟩ := x
  rw [Format.mantissaEnd, Nat.pow_eq] at hmantissa hnormal
  show (mantissa * Nat.pow 2 exponent).log2 + 1 - f.precision = exponent
  rw [Nat.pow_eq]
  rcases Nat.eq_zero_or_pos mantissa with rfl | hpos
  · -- nothing is normal about zero, so its exponent is the least one
    have hzero : exponent = 0 := by
      have hend := Nat.two_pow_pos f.precision
      omega
    subst hzero
    have hlog : (0 * 2 ^ 0).log2 = 0 := by decide
    omega
  · have hmantissa0 : mantissa ≠ 0 := by omega
    have hquanta0 : mantissa * 2 ^ exponent ≠ 0 := by
      have htwo := Nat.two_pow_pos exponent
      exact Nat.mul_ne_zero hmantissa0 (by omega)
    have hlog : (mantissa * 2 ^ exponent).log2 < f.precision + exponent := by
      rw [Nat.log2_lt hquanta0, Nat.pow_add]
      exact Nat.mul_lt_mul_of_pos_right hmantissa (Nat.two_pow_pos exponent)
    rcases hnormal with rfl | hnormal
    · omega
    · have hfull : f.precision - 1 + exponent ≤ (mantissa * 2 ^ exponent).log2 := by
        rw [Nat.le_log2 hquanta0, Nat.pow_add]
        apply Nat.mul_le_mul_right
        obtain ⟨p, hp⟩ : ∃ p, f.precision = p + 1 := ⟨f.precision - 1, by omega⟩
        rw [hp, Nat.pow_succ] at hnormal
        rw [hp, Nat.add_sub_cancel]
        omega
      omega

/-- **A number of the format is nearest to itself.** -/
theorem nearest_quanta (hprecision : 0 < f.precision) (negative : Bool) (x : Magnitude f) :
    nearest f negative x.quanta 1 = .finite negative x := by
  unfold nearest
  dsimp only
  rw [Nat.div_one, exponent_quanta hprecision, Nat.one_mul]
  have hround : roundHalfEven x.quanta (Nat.pow 2 x.exponent) = x.mantissa :=
    roundHalfEven_exact x.mantissa (Nat.two_pow_pos x.exponent)
  have hfits : x.mantissa ≠ f.mantissaEnd := Nat.ne_of_lt x.canonical.1
  rw [hround, if_neg hfits]
  exact ofParts_magnitude negative x

/-! ## Signs -/

theorem ofParts_sign {mantissa exponent : Nat} {x : Magnitude f}
    (h : ofParts f false mantissa exponent = .finite false x) (negative : Bool) :
    ofParts f negative mantissa exponent = .finite negative x := by
  unfold ofParts at h ⊢
  split at h
  · rename_i hcanonical
    obtain ⟨-, rfl⟩ := Binary.finite.inj h
    exact dif_pos hcanonical
  · exact absurd h nofun

/-- A sign plays no part in rounding. -/
theorem nearest_sign {num den : Nat} {x : Magnitude f}
    (h : nearest f false num den = .finite false x) (negative : Bool) :
    nearest f negative num den = .finite negative x := by
  unfold nearest at h ⊢
  dsimp only at h ⊢
  split at h
  · rename_i hcarry
    rw [if_pos hcarry]
    exact ofParts_sign h negative
  · rename_i hcarry
    rw [if_neg hcarry]
    exact ofParts_sign h negative

end Binary

/-- The decimal number is finite in the format, and this is its magnitude. -/
theorem Decimal.toBinary_sign {f : Format} {d : Decimal} {x : Magnitude f}
    (h : d.toBinary f false = .finite false x) (negative : Bool) :
    d.toBinary f negative = .finite negative x := by
  obtain ⟨coefficient, exponent⟩ := d
  have hzero : Binary.zero f false = .finite false x → Binary.zero f negative = .finite negative x := by
    intro hx
    obtain ⟨-, rfl⟩ := Binary.finite.inj hx
    rfl
  unfold toBinary at h ⊢
  dsimp only at h ⊢
  by_cases hnone : coefficient = 0
  · rw [if_pos hnone] at h ⊢
    exact hzero h
  · rw [if_neg hnone] at h ⊢
    cases exponent with
    | ofNat k =>
      dsimp only at h ⊢
      by_cases hlarge : f.limit ≤ 3 * k
      · rw [if_pos hlarge] at h
        exact absurd h nofun
      · rw [if_neg hlarge] at h ⊢
        exact Binary.nearest_sign h negative
    | negSucc k =>
      dsimp only at h ⊢
      by_cases hsmall : coefficient.log2 + 2 + f.scale ≤ 3 * (k + 1)
      · rw [if_pos hsmall] at h ⊢
        exact hzero h
      · rw [if_neg hsmall] at h ⊢
        exact Binary.nearest_sign h negative

/-! ## The shortest form -/

/-- The format is not one of the tiny ones: a mantissa has a bit, and a tenth is not far below the
    quantum. -/
structure Format.Ample (f : Format) : Prop where
  precision : 0 < f.precision
  scale : 2 ≤ f.scale

theorem Format.ample_single : Format.single.Ample := ⟨by decide, by decide⟩

theorem Format.ample_double : Format.double.Ample := ⟨by decide, by decide⟩

namespace Magnitude

variable {f : Format}

theorem zero_eq_of_quanta {x : Magnitude f} (h : x.quanta = 0) (negative : Bool) :
    Binary.zero f negative = .finite negative x := by
  obtain ⟨mantissa, exponent, hcanonical⟩ := x
  have hmantissa : mantissa = 0 := by
    rcases Nat.mul_eq_zero.mp h with hmantissa | hpow
    · exact hmantissa
    · exact absurd hpow (Nat.ne_of_gt (Nat.two_pow_pos exponent))
  have hexponent : exponent = 0 := by
    have hend : 0 < f.mantissaEnd := Nat.two_pow_pos f.precision
    have hnormal := hcanonical.2.1
    omega
  subst hmantissa hexponent
  rfl

/-- **The exact expansion reads back.** -/
theorem readsBack_expansion (hf : f.Ample) (x : Magnitude f) :
    x.readsBack (onGrid f x.expansion 0) = true := by
  refine decide_eq_true ?_
  unfold Decimal.toBinary onGrid
  dsimp only
  by_cases hzero : x.expansion = 0
  · rw [if_pos hzero]
    apply zero_eq_of_quanta
    rcases Nat.mul_eq_zero.mp hzero with hquanta | hfive
    · exact hquanta
    · exact absurd hfive (Nat.ne_of_gt (Nat.pow_pos (by decide)))
  · -- five to the scale has twice as many bits as there are places
    have hbits : 2 * f.scale ≤ x.expansion.log2 := by
      rw [Nat.le_log2 hzero, Nat.pow_mul]
      have hquanta : 0 < x.quanta := by
        refine Nat.pos_of_ne_zero fun hquanta => hzero ?_
        rw [expansion, hquanta, Nat.zero_mul]
      calc (2 ^ 2) ^ f.scale ≤ 5 ^ f.scale := Nat.pow_le_pow_left (by decide) _
        _ ≤ x.quanta * 5 ^ f.scale := Nat.le_mul_of_pos_left _ hquanta
    obtain ⟨k, hscale⟩ : ∃ k, f.scale = k + 1 := ⟨f.scale - 1, by have := hf.scale; omega⟩
    have hexponent : ((0 : Nat) : Int) - f.scale = Int.negSucc k := by omega
    have hten : x.expansion * f.one = x.quanta * 10 ^ f.scale := by
      rw [expansion, Format.one, Nat.pow_eq, Nat.pow_eq, Nat.mul_assoc, ← Nat.mul_pow]
    rw [if_neg hzero, hexponent]
    dsimp only
    rw [if_neg (by omega), ← hscale, hten, Nat.pow_eq]
    calc Binary.nearest f false (x.quanta * 10 ^ f.scale) (10 ^ f.scale)
        = Binary.nearest f false (x.quanta * 10 ^ f.scale) (1 * 10 ^ f.scale) := by rw [Nat.one_mul]
      _ = Binary.nearest f false x.quanta 1 := Binary.nearest_mul f false _ _ (Nat.pow_pos (by decide))
      _ = .finite false x := Binary.nearest_quanta hf.precision false x

/-- A candidate is one because it reads back. -/
theorem readsBack_of_candidate? {x : Magnitude f} {dropped : Nat} {d : Decimal}
    (h : x.candidate? dropped = some d) : x.readsBack d = true := by
  unfold candidate? at h
  dsimp only at h
  cases hbelow : x.readsBack (onGrid f (x.expansion / Nat.pow 10 dropped) dropped) with
  | true =>
    cases habove : x.readsBack (onGrid f (x.expansion / Nat.pow 10 dropped + 1) dropped) with
    | true =>
      rw [hbelow, habove] at h
      dsimp only at h
      split at h
      · rw [← Option.some.inj h, hbelow]
      · rw [← Option.some.inj h, habove]
    | false =>
      rw [hbelow, habove] at h
      rw [← Option.some.inj h, hbelow]
  | false =>
    cases habove : x.readsBack (onGrid f (x.expansion / Nat.pow 10 dropped + 1) dropped) with
    | true =>
      rw [hbelow, habove] at h
      rw [← Option.some.inj h, habove]
    | false =>
      rw [hbelow, habove] at h
      exact absurd h nofun

/-- **The shortest form reads back**: the search stops at a candidate, or at the expansion. -/
theorem readsBack_shortest (hf : f.Ample) (x : Magnitude f) : x.readsBack x.shortest = true := by
  have hsearch : ∀ dropped, x.readsBack (x.search dropped) = true := by
    intro dropped
    induction dropped with
    | zero => exact readsBack_expansion hf x
    | succ dropped ih =>
      unfold search
      cases hcandidate : x.candidate? (dropped + 1) with
      | none => exact ih
      | some d => exact readsBack_of_candidate? hcandidate
  exact hsearch _

end Magnitude

/-! ## Layout -/

namespace Decimal

/-- The decimal number with these digits before and behind the point. -/
def ofPlaces (whole fraction : Text) : Decimal := ⟨ofDigits 10 (whole ++ fraction), -fraction.length⟩

/-- The digits denote the decimal number, and there is no point. -/
structure Whole (d : Decimal) (digits : Text) : Prop where
  nonempty : digits ≠ []
  allDigits : digits.AllDigits
  value : d.coefficient = 0 ∧ ofDigits 10 digits = 0 ∨
    ∃ k, d.exponent = .ofNat k ∧ ofDigits 10 digits = d.coefficient * Nat.pow 10 k

/-- The digits before and behind the point denote the decimal number. -/
structure Pointed (d : Decimal) (whole fraction : Text) : Prop where
  nonempty : whole ≠ []
  before : whole.AllDigits
  behind : fraction.AllDigits
  value : ofPlaces whole fraction = d

theorem whole_of_zero (exponent : Int) : Whole ⟨0, exponent⟩ ['0'] :=
  ⟨List.cons_ne_nil _ _, Text.allDigits_replicate 1, Or.inl ⟨rfl, by decide⟩⟩

theorem whole_ofNat (coefficient k : Nat) :
    Whole ⟨coefficient, .ofNat k⟩ (Nat.toDigits 10 coefficient ++ List.replicate k '0') := by
  have hdigits := Text.allDigits_toDigits coefficient
  refine ⟨List.append_ne_nil_of_left_ne_nil Nat.toDigits_ne_nil _,
    hdigits.append (Text.allDigits_replicate k), Or.inr ⟨k, rfl, ?_⟩⟩
  rw [ofDigits_append_zeros hdigits, ofDigits_toDigits]

/-- The last digits stand behind the point. -/
theorem pointed_of_length {padded : Text} {k : Nat} (hdigits : padded.AllDigits)
    (hlength : k + 2 ≤ padded.length) :
    Pointed ⟨ofDigits 10 padded, .negSucc k⟩ (padded.take (padded.length - (k + 1)))
      (padded.drop (padded.length - (k + 1))) := by
  refine ⟨?_, fun c hc => hdigits c (List.mem_of_mem_take hc),
    fun c hc => hdigits c (List.mem_of_mem_drop hc), ?_⟩
  · intro hnil
    have hcount := congrArg List.length hnil
    rw [List.length_take, List.length_nil] at hcount
    omega
  · have hplaces : padded.length - (padded.length - (k + 1)) = k + 1 := by omega
    rw [ofPlaces, List.take_append_drop, List.length_drop, hplaces]
    rfl

/-- **The text of a decimal number** is all digits, or digits before and behind a point. -/
theorem text_cases (d : Decimal) :
    d.Whole d.text ∨ ∃ whole fraction, d.text = whole ++ '.' :: fraction ∧ d.Pointed whole fraction := by
  obtain ⟨coefficient, exponent⟩ := d
  have hdigits := Text.allDigits_toDigits coefficient
  by_cases hzero : coefficient = 0
  · subst hzero
    exact Or.inl (whole_of_zero exponent)
  · cases exponent with
    | ofNat k =>
      have htext : text ⟨coefficient, .ofNat k⟩ =
          Nat.toDigits 10 coefficient ++ List.replicate k '0' := if_neg hzero
      rw [htext]
      exact Or.inl (whole_ofNat coefficient k)
    | negSucc k =>
      -- zeros in front make sure that something stands before the point
      obtain ⟨padded, hpadded⟩ : ∃ padded : Text, padded =
          List.replicate (k + 1 + 1 - (Nat.toDigits 10 coefficient).length) '0' ++
            Nat.toDigits 10 coefficient := ⟨_, rfl⟩
      have htext : text ⟨coefficient, .negSucc k⟩ = padded.take (padded.length - (k + 1)) ++
          '.' :: padded.drop (padded.length - (k + 1)) := by
        rw [hpadded]
        exact (if_neg hzero).trans (List.append_assoc _ _ _)
      have hlength : k + 2 ≤ padded.length := by
        rw [hpadded, List.length_append, List.length_replicate]
        omega
      have hvalue : ofDigits 10 padded = coefficient := by
        rw [hpadded, ofDigits_zeros_append hdigits, ofDigits_toDigits]
      have hpointed := pointed_of_length (hpadded ▸ (Text.allDigits_replicate _).append hdigits) hlength
      rw [hvalue] at hpointed
      exact Or.inr ⟨_, _, htext, hpointed⟩

end Decimal

/-! ## Reading -/

namespace Numeral

/-- The digits in front of something else. -/
theorem takeDigits_append {t rest : Text} (ht : t.AllDigits)
    (hrest : ∀ c, rest.head? = some c → c.isDigit = false) : takeDigits (t ++ rest) = (t, rest) := by
  have hstop : rest.takeWhile Char.isDigit = [] ∧ rest.dropWhile Char.isDigit = rest := by
    cases rest with
    | nil => exact ⟨rfl, rfl⟩
    | cons c more =>
      have hc := hrest c rfl
      exact ⟨List.takeWhile_cons_of_neg (by rw [hc]; exact Bool.false_ne_true),
        List.dropWhile_cons_of_neg (by rw [hc]; exact Bool.false_ne_true)⟩
  rw [takeDigits, List.takeWhile_append_of_pos ht, List.dropWhile_append_of_pos ht, hstop.1, hstop.2,
    List.append_nil]

/-- **A sign, digits, a point and digits** are a literal. -/
theorem scan_places (negative : Bool) {whole fraction : Text} (hne : whole ≠ [])
    (hwhole : whole.AllDigits) (hfraction : fraction.AllDigits) :
    scan ((if negative then ['-'] else []) ++ (whole ++ '.' :: fraction)) =
      .ok ⟨negative, whole, fraction, false, []⟩ := by
  have hsign : takeSign ((if negative then ['-'] else []) ++ (whole ++ '.' :: fraction)) =
      (negative, whole ++ '.' :: fraction) := by
    cases negative with
    | true => rfl
    | false =>
      obtain ⟨c, rest, rfl⟩ := List.exists_cons_of_ne_nil hne
      exact takeSign_of_isDigit (hwhole c List.mem_cons_self) _
  have hdigits : takeDigits (whole ++ '.' :: fraction) = (whole, '.' :: fraction) := by
    refine takeDigits_append hwhole fun c hc => ?_
    rw [← Option.some.inj hc]
    decide
  have hplaces : takeFraction ('.' :: fraction) = (fraction, []) := by
    have hall : takeDigits (fraction ++ []) = (fraction, []) := takeDigits_append hfraction nofun
    rw [List.append_nil] at hall
    exact hall
  unfold scan
  rw [hsign]
  dsimp only
  rw [hdigits]
  dsimp only
  rw [hplaces]
  dsimp only
  rw [List.isEmpty_eq_false_iff.mpr hne, Bool.false_and, if_neg Bool.false_ne_true]

/-- So it reads as the number that its decimal number is rounded to. -/
theorem read_pointed {f : Format} {negative : Bool} {whole fraction : Text} {d : Decimal}
    {x : Magnitude f} (hd : d.Pointed whole fraction)
    (h : d.toBinary f false = .finite false x) :
    read f ((if negative then ['-'] else []) ++ (whole ++ '.' :: fraction)) =
      .ok (.finite negative x) := by
  have hdecimal : decimal ⟨negative, whole, fraction, false, []⟩ = d := by
    rw [← hd.value]
    show Decimal.mk _ ((0 : Int) - _) = Decimal.mk _ _
    rw [Int.zero_sub]
  unfold read
  rw [scan_places negative hd.nonempty hd.before hd.behind]
  show (if ((decimal ⟨negative, whole, fraction, false, []⟩).toBinary f negative).isFinite then
    Except.ok _ else Except.error _) = _
  rw [hdecimal, Decimal.toBinary_sign h negative]
  rfl

end Numeral

namespace Decimal

/-- A whole number is rounded the same with a zero behind the point. -/
theorem Whole.toBinary_places {f : Format} (hf : f.Ample) {d : Decimal} {digits : Text} {x : Magnitude f}
    (hd : d.Whole digits) (h : d.toBinary f false = .finite false x) :
    (ofPlaces digits ['0']).toBinary f false = .finite false x := by
  have hcoefficient : ofDigits 10 (digits ++ ['0']) = ofDigits 10 digits * 10 :=
    ofDigits_append_zeros hd.allDigits 1
  obtain ⟨coefficient, exponent⟩ := d
  have hvalue := hd.value
  unfold toBinary at h ⊢
  rw [ofPlaces, hcoefficient]
  dsimp only at h hvalue ⊢
  by_cases hzero : coefficient = 0
  · have hnone : ofDigits 10 digits = 0 := by
      rcases hvalue with ⟨-, hnone⟩ | ⟨k, -, hsome⟩
      · exact hnone
      · rw [hsome, hzero, Nat.zero_mul]
    rw [if_pos hzero] at h
    rw [hnone, if_pos (Nat.zero_mul 10)]
    exact h
  · rcases hvalue with ⟨hnone, -⟩ | ⟨k, rfl, hsome⟩
    · exact absurd hnone hzero
    · have hne : coefficient * Nat.pow 10 k * 10 ≠ 0 := by
        have hpow : 0 < Nat.pow 10 k := Nat.pow_pos (by decide)
        exact Nat.mul_ne_zero (Nat.mul_ne_zero hzero (by omega)) (by decide)
      have hscale := hf.scale
      rw [if_neg hzero] at h
      dsimp only at h
      split at h
      · exact absurd h nofun
      · rw [hsome, if_neg hne]
        show (if _ ≤ 3 * (0 + 1) then Binary.zero f false
          else Binary.nearest f false _ (Nat.pow 10 1)) = _
        rw [if_neg (by omega), ← h, Nat.mul_right_comm (coefficient * Nat.pow 10 k)]
        exact Binary.nearest_mul f false _ 1 (by decide)

end Decimal

/-- **The text of a finite float** is a sign, digits, a point and digits; what the digits denote is
    rounded to the float. -/
theorem Binary.fractionText_pointed {f : Format} (hf : f.Ample) (negative : Bool) (x : Magnitude f) :
    ∃ whole fraction d, (Binary.finite negative x).fractionText =
        (if negative then ['-'] else []) ++ (whole ++ '.' :: fraction) ∧
      d.Pointed whole fraction ∧ Decimal.toBinary f false d = .finite false x := by
  have hshortest : x.shortest.toBinary f false = .finite false x :=
    of_decide_eq_true (Magnitude.readsBack_shortest hf x)
  have hsign : ∀ t : Text, ((if negative then ['-'] else []) ++ t).all
      (fun c => c.isDigit || c = '-') = t.all fun c => c.isDigit || c = '-' := by
    intro t
    cases negative <;> rfl
  unfold fractionText text
  dsimp only
  rw [hsign]
  rcases x.shortest.text_cases with hwhole | ⟨whole, fraction, htext, hpointed⟩
  · -- a whole number gets a point and a zero
    have hall : x.shortest.text.all (fun c => c.isDigit || c = '-') = true := by
      refine List.all_eq_true.mpr fun c hc => ?_
      rw [hwhole.allDigits c hc, Bool.true_or]
    rw [if_pos hall, List.append_assoc]
    exact ⟨_, _, _, rfl, ⟨hwhole.nonempty, hwhole.allDigits, Text.allDigits_replicate 1, rfl⟩,
      hwhole.toBinary_places hf hshortest⟩
  · have hpoint : ¬x.shortest.text.all (fun c => c.isDigit || c = '-') = true := by
      intro hall
      rw [htext] at hall
      exact absurd (List.all_eq_true.mp hall '.' (by simp)) (by decide)
    rw [if_neg hpoint, htext]
    exact ⟨whole, fraction, _, rfl, hpointed, hshortest⟩

/-- **A finite float reads back** from its text. -/
theorem Numeral.read_fractionText {f : Format} (hf : f.Ample) (negative : Bool) (x : Magnitude f) :
    Numeral.read f (Binary.finite negative x).fractionText = .ok (.finite negative x) := by
  obtain ⟨whole, fraction, d, htext, hpointed, hvalue⟩ := Binary.fractionText_pointed hf negative x
  rw [htext]
  exact read_pointed hpointed hvalue

end IniFile
