/-
  Digits.

  Numbers are written in decimal digits and read back from them.

  1. **Digits** — what a run of digits denotes, and what zeros in front of it and behind it do.
  2. **Integers** — the text of an integer is a literal of that integer.

  Mathlib-free.
-/
import IniFile.Number.Integer

namespace IniFile

/-! ## Digits -/

/-- Are all characters decimal digits? -/
def Text.AllDigits (t : Text) : Prop := ∀ c ∈ t, c.isDigit = true

theorem Text.AllDigits.append {s t : Text} (hs : AllDigits s) (ht : AllDigits t) :
    AllDigits (s ++ t) := by
  intro c hc
  rcases List.mem_append.mp hc with hc | hc
  · exact hs c hc
  · exact ht c hc

theorem Text.allDigits_toDigits (n : Nat) : AllDigits (Nat.toDigits 10 n) := by
  intro c hc
  exact Nat.isDigit_of_mem_toDigits (by decide) (by decide) hc

theorem Text.allDigits_replicate (n : Nat) : AllDigits (List.replicate n '0') := by
  intro c hc
  rw [List.eq_of_mem_replicate hc]
  decide

theorem digitValue?_of_isDigit {c : Char} (h : c.isDigit = true) :
    digitValue? 10 c = some (c.toNat - '0'.toNat) := by
  have hsmall : c.toNat - '0'.toNat < 10 := by
    simp only [Char.isDigit, Bool.and_eq_true, decide_eq_true_eq] at h
    have hle : c.toNat ≤ 57 := h.2
    show c.toNat - 48 < 10
    omega
  rw [digitValue?, h, if_pos rfl, Option.filter_some, decide_eq_true hsmall, if_pos rfl]

/-- What digits denote is what core reads from them. -/
theorem ofDigits_eq {t : Text} (h : t.AllDigits) : ofDigits 10 t = Nat.ofDigitChars 10 t 0 := by
  have hstep : ∀ n, t.foldl (fun n c => n * 10 + (digitValue? 10 c).getD 0) n =
      t.foldl (fun n c => 10 * n + (c.toNat - '0'.toNat)) n := by
    intro n
    induction t generalizing n with
    | nil => rfl
    | cons c rest ih =>
      obtain ⟨hc, hrest⟩ := List.forall_mem_cons.mp h
      rw [List.foldl_cons, List.foldl_cons, ih hrest, digitValue?_of_isDigit hc, Nat.mul_comm 10 n]
      rfl
  rw [Nat.ofDigitChars_eq_foldl]
  exact hstep 0

/-- **The digits of a number** denote it. -/
theorem ofDigits_toDigits (n : Nat) : ofDigits 10 (Nat.toDigits 10 n) = n := by
  rw [ofDigits_eq (Text.allDigits_toDigits n), Nat.ofDigitChars_ten_toDigits]

/-- Zeros in front count for nothing. -/
theorem ofDigits_zeros_append {t : Text} (h : t.AllDigits) (k : Nat) :
    ofDigits 10 (List.replicate k '0' ++ t) = ofDigits 10 t := by
  rw [ofDigits_eq ((Text.allDigits_replicate k).append h), ofDigits_eq h, Nat.ofDigitChars_append,
    Nat.ofDigitChars_replicate_zero, Nat.mul_zero]

/-- Each zero behind makes a number tenfold. -/
theorem ofDigits_append_zeros {t : Text} (h : t.AllDigits) (k : Nat) :
    ofDigits 10 (t ++ List.replicate k '0') = ofDigits 10 t * Nat.pow 10 k := by
  rw [ofDigits_eq (h.append (Text.allDigits_replicate k)), ofDigits_eq h, Nat.ofDigitChars_append,
    Nat.ofDigitChars_replicate_zero, Nat.mul_comm, Nat.pow_eq]

/-! ## Integers -/

theorem takeSign_of_ne {c : Char} (hminus : c ≠ '-') (hplus : c ≠ '+') (rest : Text) :
    takeSign (c :: rest) = (false, c :: rest) := by
  unfold takeSign
  split
  · rename_i heq
    exact absurd (List.cons.inj heq).1 hminus
  · rename_i heq
    exact absurd (List.cons.inj heq).1 hplus
  · rfl

/-- A text that begins with a digit carries no sign. -/
theorem takeSign_of_isDigit {c : Char} (hc : c.isDigit = true) (rest : Text) :
    takeSign (c :: rest) = (false, c :: rest) := by
  refine takeSign_of_ne ?_ ?_ rest
  · rintro rfl
    exact absurd hc (by decide)
  · rintro rfl
    exact absurd hc (by decide)

theorem takeSign_of_allDigits {t : Text} (h : t.AllDigits) : takeSign t = (false, t) := by
  cases t with
  | nil => rfl
  | cons c rest => exact takeSign_of_isDigit (h c List.mem_cons_self) rest

/-- Digits announce no radix. -/
theorem takeRadix_of_allDigits {t : Text} (h : t.AllDigits) : takeRadix t = (10, t) := by
  unfold takeRadix
  split
  · rename_i c rest
    have hc : c.isDigit = true := h c (List.mem_cons_of_mem _ List.mem_cons_self)
    have hletter : ∀ x : Char, x.isDigit = false → c ≠ x := by
      rintro x hx rfl
      exact Bool.noConfusion (hx.symm.trans hc)
    have hx : ¬(c = 'x' ∨ c = 'X') := not_or.mpr ⟨hletter _ (by decide), hletter _ (by decide)⟩
    have ho : ¬(c = 'o' ∨ c = 'O') := not_or.mpr ⟨hletter _ (by decide), hletter _ (by decide)⟩
    have hb : ¬(c = 'b' ∨ c = 'B') := not_or.mpr ⟨hletter _ (by decide), hletter _ (by decide)⟩
    rw [if_neg hx, if_neg ho, if_neg hb]
  · rfl

/-- Digits behind a sign. -/
theorem readInteger_digits {t : Text} {negative : Bool} {digits : Text}
    (hsign : takeSign t = (negative, digits)) (hne : digits ≠ []) (h : digits.AllDigits) :
    readInteger t =
      .ok (if negative then -(ofDigits 10 digits : Int) else (ofDigits 10 digits : Int)) := by
  have hnone : digits.find? (fun c => (digitValue? 10 c).isNone) = none := by
    refine List.find?_eq_none.mpr fun c hc => ?_
    rw [digitValue?_of_isDigit (h c hc)]
    exact Bool.false_ne_true
  unfold readInteger
  rw [hsign]
  dsimp only
  rw [takeRadix_of_allDigits h]
  dsimp only
  rw [List.isEmpty_eq_false_iff.mpr hne, hnone]
  rfl

/-- **The text of an integer** reads as that integer. -/
theorem readInteger_integerText (n : Int) : readInteger (integerText n) = .ok n := by
  have hdigits := Text.allDigits_toDigits n.natAbs
  unfold integerText
  by_cases hn : n < 0
  · have hsign : takeSign (['-'] ++ Nat.toDigits 10 n.natAbs) = (true, Nat.toDigits 10 n.natAbs) :=
      rfl
    rw [if_pos hn, readInteger_digits hsign Nat.toDigits_ne_nil hdigits, ofDigits_toDigits,
      if_pos rfl]
    congr 1
    omega
  · rw [if_neg hn, List.nil_append,
      readInteger_digits (takeSign_of_allDigits hdigits) Nat.toDigits_ne_nil hdigits,
      ofDigits_toDigits, if_neg Bool.false_ne_true]
    congr 1
    omega

theorem Width.holds_iff {w : Width} {n : Int} : w.holds n = true ↔ w.least ≤ n ∧ n ≤ w.greatest := by
  rw [holds, Bool.and_eq_true, decide_eq_true_eq, decide_eq_true_eq]

/-- What is read at a width is held by it. -/
theorem Width.holds_of_read {w : Width} {raw : Text} {n : Int} (h : w.read raw = .ok n) :
    w.holds n = true := by
  unfold read at h
  cases hread : readInteger raw with
  | error fault =>
    rw [hread] at h
    exact nomatch h
  | ok m =>
    rw [hread] at h
    change (if w.holds m then Except.ok m else .error CoercionFault.outOfRange) = .ok n at h
    split at h
    · rwa [← Except.ok.inj h]
    · exact nomatch h

/-- The text of an integer reads as that integer at every width that holds it. -/
theorem Width.read_integerText {w : Width} {n : Int} (h : w.holds n = true) :
    w.read (integerText n) = .ok n := by
  unfold read
  rw [readInteger_integerText]
  exact if_pos h

end IniFile
