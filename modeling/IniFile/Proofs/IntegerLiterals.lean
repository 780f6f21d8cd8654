/-
  Integer literals and what reading makes of them.

  The reader takes a sign, then a radix mark, then looks for a character that is no digit, and only
  then computes.  The grammar here knows nothing of that order: a literal is some sign, some mark and
  some digits, each digit worth its place among the sixteen.

  1. **The grammar** — signs, radix marks, digits, literals; the first character that no literal has.
  2. **Digits** — the digits of the reader are those of the grammar, and so is what they denote.
  3. **Parts** — the sign and the mark that the reader takes, and that it takes the same from every
     text that begins alike.
  4. **Outcomes** — the reader yields the integer of a literal, misses the digits, or stops at the
     first character that no literal has; no text does two of these.

  Mathlib-free.
-/
import IniFile.Proofs.Digits

namespace IniFile

/-! ## The grammar -/

/-- A digit of a radix and its value, which is its place; letters count in either case. -/
def Digit (radix : Nat) (c : Char) (v : Nat) : Prop :=
  v < radix ∧
    ("0123456789abcdef".toList[v]? = some c ∨ "0123456789ABCDEF".toList[v]? = some c)

/-- One or more digits and the number that they denote. -/
inductive Digits (radix : Nat) : Text → Nat → Prop
  | one {c : Char} {v : Nat} (hc : Digit radix c v) : Digits radix [c] v
  | more {c : Char} {v : Nat} {rest : Text} {m : Nat} (hc : Digit radix c v)
      (hrest : Digits radix rest m) : Digits radix (c :: rest) (v * Nat.pow radix rest.length + m)

/-- A sign, or none; is it a minus? -/
inductive Sign : Text → Bool → Prop
  | unsigned : Sign [] false
  | plus : Sign ['+'] false
  | minus : Sign ['-'] true

/-- The mark of a radix; the decimal one has no mark. -/
inductive RadixMark : Text → Nat → Prop
  | decimal : RadixMark [] 10
  | hexadecimal {x : Char} (h : x = 'x' ∨ x = 'X') : RadixMark ['0', x] 16
  | octal {x : Char} (h : x = 'o' ∨ x = 'O') : RadixMark ['0', x] 8
  | binary {x : Char} (h : x = 'b' ∨ x = 'B') : RadixMark ['0', x] 2

/-- **An integer literal** and the integer that it denotes. -/
def IntegerLiteral (raw : Text) (n : Int) : Prop :=
  ∃ sign negative mark radix digits m, Sign sign negative ∧ RadixMark mark radix ∧
    Digits radix digits m ∧ raw = sign ++ (mark ++ digits) ∧ n = if negative then -(m : Int) else m

/-- Does nothing follow the sign and the mark? -/
def NoDigits (raw : Text) : Prop :=
  ∃ sign negative mark radix, Sign sign negative ∧ RadixMark mark radix ∧ raw = sign ++ mark

/-- Does the text begin a literal? -/
def BeginsLiteral (t : Text) : Prop := ∃ more n, IntegerLiteral (t ++ more) n

/-- The first offending character: the one with which the text no longer begins a literal. -/
def OffendsFirst (raw : Text) (c : Char) : Prop :=
  ∃ front rest, raw = front ++ c :: rest ∧ BeginsLiteral front ∧ ¬BeginsLiteral (front ++ [c])

/-! ## Digits -/

/-- The sixteen digits, among the characters that can be digits at all. -/
theorem digitValue?_ascii : ∀ n < 128, ∀ v < 16, digitValue? 16 (Char.ofNat n) = some v ↔
    ("0123456789abcdef".toList[v]? = some (Char.ofNat n) ∨
      "0123456789ABCDEF".toList[v]? = some (Char.ofNat n)) := by
  decide +kernel

theorem digitValue?_eq_filter {radix : Nat} (h : radix ≤ 16) (c : Char) :
    digitValue? radix c = (digitValue? 16 c).filter (· < radix) := by
  unfold digitValue?
  dsimp only
  rw [Option.filter_filter]
  congr 1
  funext v
  rw [← Bool.decide_and]
  exact decide_eq_decide.mpr ⟨fun hv => ⟨by omega, hv⟩, fun hv => hv.2⟩

/-- No digit is beyond the ASCII characters. -/
theorem digitValue?_of_not_ascii {c : Char} (h : ¬c.toNat < 128) : digitValue? 16 c = none := by
  have hdigit : c.isDigit = false := by
    rw [Char.isDigit, Bool.and_eq_false_iff]
    exact .inr (decide_eq_false fun hle => h (Nat.lt_of_le_of_lt hle (by decide)))
  have hlower : ¬('a' ≤ c ∧ c ≤ 'f') := fun hle => h (Nat.lt_of_le_of_lt hle.2 (by decide))
  have hupper : ¬('A' ≤ c ∧ c ≤ 'F') := fun hle => h (Nat.lt_of_le_of_lt hle.2 (by decide))
  rw [digitValue?, if_neg (ne_true_of_eq_false hdigit), if_neg hlower, if_neg hupper]
  rfl

theorem ascii_of_digit {d : Char} (h : d ∈ "0123456789abcdef".toList ++ "0123456789ABCDEF".toList) :
    d.toNat < 128 := by
  have hall : ("0123456789abcdef".toList ++ "0123456789ABCDEF".toList).all (·.toNat < 128) = true := by
    decide +kernel
  exact of_decide_eq_true (List.all_eq_true.mp hall d h)

/-- **The digits of the reader** are those of the grammar. -/
theorem digitValue?_eq_some_iff {radix : Nat} (h : radix ≤ 16) {c : Char} {v : Nat} :
    digitValue? radix c = some v ↔ Digit radix c v := by
  rw [digitValue?_eq_filter h, Option.filter_eq_some_iff, decide_eq_true_eq, and_comm, Digit]
  refine and_congr_right fun hv => ?_
  by_cases hascii : c.toNat < 128
  · rw [← Char.ofNat_toNat c]
    exact digitValue?_ascii c.toNat hascii v (by omega)
  · refine iff_of_false (by rw [digitValue?_of_not_ascii hascii]; exact nofun) fun hdigit => hascii ?_
    refine ascii_of_digit (List.mem_append.mpr (hdigit.imp ?_ ?_))
    · exact fun hc => List.mem_of_getElem? hc
    · exact fun hc => List.mem_of_getElem? hc

/-- What comes before digits moves up by as many places as there are digits. -/
theorem foldl_digits (radix n : Nat) (t : Text) :
    t.foldl (fun n c => n * radix + (digitValue? radix c).getD 0) n =
      n * Nat.pow radix t.length + ofDigits radix t := by
  induction t generalizing n with
  | nil => exact (Nat.mul_one n).symm
  | cons c rest ih =>
    have hdigits : ofDigits radix (c :: rest) =
        (0 * radix + (digitValue? radix c).getD 0) * Nat.pow radix rest.length + ofDigits radix rest :=
      ih _
    have hpow : Nat.pow radix (c :: rest).length = radix * Nat.pow radix rest.length := Nat.mul_comm _ _
    rw [List.foldl_cons, ih, hdigits, hpow, ← Nat.add_assoc, Nat.add_mul, Nat.zero_mul, Nat.zero_add,
      Nat.mul_assoc]

theorem ofDigits_cons (radix : Nat) (c : Char) (rest : Text) :
    ofDigits radix (c :: rest) =
      (digitValue? radix c).getD 0 * Nat.pow radix rest.length + ofDigits radix rest := by
  rw [ofDigits, List.foldl_cons, foldl_digits, Nat.zero_mul, Nat.zero_add]

/-- Is every character a digit of the radix? -/
def AllDigitsOf (radix : Nat) (t : Text) : Prop := ∀ c ∈ t, (digitValue? radix c).isSome = true

section Values

variable {radix : Nat} {t : Text} {m : Nat}

/-- **What digits denote** is what the reader computes from them. -/
theorem digits_iff (h : radix ≤ 16) :
    Digits radix t m ↔ t ≠ [] ∧ AllDigitsOf radix t ∧ m = ofDigits radix t := by
  constructor
  · intro hdigits
    induction hdigits with
    | @one c v hc =>
      have hvalue := (digitValue?_eq_some_iff h).mpr hc
      refine ⟨List.cons_ne_nil c [], List.forall_mem_singleton.mpr (by rw [hvalue]; rfl), ?_⟩
      rw [ofDigits_cons, hvalue]
      exact (Nat.mul_one v).symm
    | @more c v rest m hc hrest ih =>
      obtain ⟨-, hall, rfl⟩ := ih
      have hvalue := (digitValue?_eq_some_iff h).mpr hc
      refine ⟨List.cons_ne_nil c rest, List.forall_mem_cons.mpr ⟨by rw [hvalue]; rfl, hall⟩, ?_⟩
      rw [ofDigits_cons, hvalue]
      rfl
  · rintro ⟨hne, hall, rfl⟩
    induction t with
    | nil => exact absurd rfl hne
    | cons c rest ih =>
      obtain ⟨hc, hrest⟩ := List.forall_mem_cons.mp hall
      obtain ⟨v, hvalue⟩ := Option.isSome_iff_exists.mp hc
      have hdigit := (digitValue?_eq_some_iff h).mp hvalue
      rw [ofDigits_cons, hvalue]
      cases rest with
      | nil => exact (Nat.mul_one v).symm ▸ .one hdigit
      | cons d rest => exact .more hdigit (ih (List.cons_ne_nil d rest) hrest)

end Values

/-! ## Parts -/

theorem RadixMark.le_sixteen {mark : Text} {radix : Nat} (h : RadixMark mark radix) : radix ≤ 16 := by
  cases h <;> decide

theorem RadixMark.pos {mark : Text} {radix : Nat} (h : RadixMark mark radix) : 0 < radix := by
  cases h <;> decide

/-- The sign that the reader takes. -/
theorem exists_sign (raw : Text) :
    ∃ sign, Sign sign (takeSign raw).1 ∧ raw = sign ++ (takeSign raw).2 := by
  unfold takeSign
  split
  · exact ⟨_, .minus, rfl⟩
  · exact ⟨_, .plus, rfl⟩
  · exact ⟨_, .unsigned, rfl⟩

/-- The mark that the reader takes. -/
theorem exists_radixMark (t : Text) :
    ∃ mark, RadixMark mark (takeRadix t).1 ∧ t = mark ++ (takeRadix t).2 := by
  unfold takeRadix
  split
  · rename_i c rest
    by_cases hx : c = 'x' ∨ c = 'X'
    · rw [if_pos hx]
      exact ⟨_, .hexadecimal hx, rfl⟩
    by_cases ho : c = 'o' ∨ c = 'O'
    · rw [if_neg hx, if_pos ho]
      exact ⟨_, .octal ho, rfl⟩
    by_cases hb : c = 'b' ∨ c = 'B'
    · rw [if_neg hx, if_neg ho, if_pos hb]
      exact ⟨_, .binary hb, rfl⟩
    · rw [if_neg hx, if_neg ho, if_neg hb]
      exact ⟨_, .decimal, rfl⟩
  · exact ⟨_, .decimal, rfl⟩

/-- Whether there is a sign is seen in the first character. -/
theorem takeSign_append {t : Text} (h : t ≠ []) (more : Text) :
    takeSign (t ++ more) = ((takeSign t).1, (takeSign t).2 ++ more) := by
  obtain ⟨c, rest, rfl⟩ := List.exists_cons_of_ne_nil h
  by_cases hminus : c = '-'
  · rw [hminus]
    rfl
  by_cases hplus : c = '+'
  · rw [hplus]
    rfl
  · rw [List.cons_append, takeSign_of_ne hminus hplus, takeSign_of_ne hminus hplus, List.cons_append]

theorem takeRadix_of_ne_zero {c : Char} (h : c ≠ '0') (rest : Text) :
    takeRadix (c :: rest) = (10, c :: rest) := by
  unfold takeRadix
  split
  · rename_i heq
    exact absurd (List.cons.inj heq).1 h
  · rfl

/-- Whether there is a mark is seen in the first two characters, or in one that is not zero. -/
theorem takeRadix_append {t : Text} (h : t ≠ []) (hzero : t ≠ ['0']) (more : Text) :
    takeRadix (t ++ more) = ((takeRadix t).1, (takeRadix t).2 ++ more) := by
  obtain ⟨c, rest, rfl⟩ := List.exists_cons_of_ne_nil h
  by_cases hc : c = '0'
  · subst hc
    have hrest : rest ≠ [] := fun hnil => hzero (by rw [hnil])
    obtain ⟨x, rest, rfl⟩ := List.exists_cons_of_ne_nil hrest
    simp only [List.cons_append, takeRadix]
    split
    · rfl
    split
    · rfl
    split
    · rfl
    · rfl
  · rw [List.cons_append, takeRadix_of_ne_zero hc, takeRadix_of_ne_zero hc, List.cons_append]

/-! ## Outcomes -/

/-- What the reader makes of the parts of a text. -/
theorem readInteger_of_parts {raw unsigned digits : Text} {negative : Bool} {radix : Nat}
    (hsign : takeSign raw = (negative, unsigned)) (hradix : takeRadix unsigned = (radix, digits)) :
    readInteger raw =
      if digits.isEmpty then .error .noDigits
      else match digits.find? fun c => (digitValue? radix c).isNone with
        | some bad => .error (.invalidDigit bad)
        | none =>
          .ok (if negative then -(ofDigits radix digits : Int) else (ofDigits radix digits : Int)) := by
  unfold readInteger
  rw [hsign]
  dsimp only
  rewrite [hradix]
  rfl

theorem isDigit_of_digitValue? {c : Char} (h : (digitValue? 10 c).isSome = true) : c.isDigit = true := by
  obtain ⟨v, hv⟩ := Option.isSome_iff_exists.mp h
  obtain ⟨hlt, hplace⟩ := (digitValue?_eq_some_iff (by decide)).mp hv
  have hlower : ∀ v < 10, ("0123456789abcdef".toList[v]?).all Char.isDigit = true := by decide +kernel
  have hupper : ∀ v < 10, ("0123456789ABCDEF".toList[v]?).all Char.isDigit = true := by decide +kernel
  rcases hplace with hplace | hplace
  · exact (Option.all_eq_true _ _).mp (hlower v hlt) c hplace
  · exact (Option.all_eq_true _ _).mp (hupper v hlt) c hplace

theorem AllDigitsOf.allDigits {t : Text} (h : AllDigitsOf 10 t) : t.AllDigits :=
  fun c hc => isDigit_of_digitValue? (h c hc)

theorem AllDigitsOf.find? {radix : Nat} {t : Text} (h : AllDigitsOf radix t) :
    t.find? (fun c => (digitValue? radix c).isNone) = none := by
  refine List.find?_eq_none.mpr fun c hc => ?_
  rw [Option.isNone_iff_eq_none]
  exact Option.isSome_iff_ne_none.mp (h c hc)

/-- Before digits, the reader takes exactly the sign that is there. -/
theorem Sign.take {sign : Text} {negative : Bool} (h : Sign sign negative) {c : Char} {rest : Text}
    (hc : (digitValue? 16 c).isSome = true) : takeSign (sign ++ c :: rest) = (negative, c :: rest) := by
  have hother : ∀ d : Char, digitValue? 16 d = none → c ≠ d := by
    rintro d hd rfl
    rw [hd] at hc
    exact absurd hc Bool.false_ne_true
  cases h with
  | unsigned => exact takeSign_of_ne (hother _ (by decide)) (hother _ (by decide)) rest
  | plus | minus => rfl

/-- Before digits, the reader takes exactly the mark that is there. -/
theorem RadixMark.take {mark digits : Text} {radix : Nat} (h : RadixMark mark radix)
    (hall : AllDigitsOf radix digits) : takeRadix (mark ++ digits) = (radix, digits) := by
  cases h with
  | decimal => exact takeRadix_of_allDigits hall.allDigits
  | hexadecimal hx => rcases hx with rfl | rfl <;> rfl
  | octal hx => rcases hx with rfl | rfl <;> rfl
  | binary hx => rcases hx with rfl | rfl <;> rfl

/-- A mark and digits begin with a digit. -/
theorem RadixMark.exists_cons {mark digits : Text} {radix : Nat} (h : RadixMark mark radix)
    (hne : digits ≠ []) (hall : AllDigitsOf radix digits) :
    ∃ c rest, mark ++ digits = c :: rest ∧ (digitValue? 16 c).isSome = true := by
  cases h with
  | decimal =>
    obtain ⟨c, rest, rfl⟩ := List.exists_cons_of_ne_nil hne
    have hc := hall c List.mem_cons_self
    rw [digitValue?_eq_filter (by decide)] at hc
    exact ⟨c, rest, rfl, Option.isSome_of_isSome_filter _ _ hc⟩
  | hexadecimal | octal | binary => exact ⟨_, _, rfl, rfl⟩

/-- **A literal is read.** -/
theorem IntegerLiteral.read {raw : Text} {n : Int} (h : IntegerLiteral raw n) :
    readInteger raw = .ok n := by
  obtain ⟨sign, negative, mark, radix, digits, m, hsign, hmark, hdigits, rfl, rfl⟩ := h
  obtain ⟨hne, hall, rfl⟩ := (digits_iff hmark.le_sixteen).mp hdigits
  obtain ⟨c, rest, hcons, hc⟩ := hmark.exists_cons hne hall
  have htaken : takeSign (sign ++ (mark ++ digits)) = (negative, mark ++ digits) := by
    rw [hcons]
    exact hsign.take hc
  rw [readInteger_of_parts htaken (hmark.take hall), List.isEmpty_eq_false_iff.mpr hne, hall.find?]
  rfl

section Front

variable {t u rest : Text}

/-- Texts that begin alike have the same sign. -/
theorem takeSign_front {negative : Bool} (ht : t ≠ []) (h : takeSign (t ++ rest) = (negative, u ++ rest))
    (more : Text) : takeSign (t ++ more) = (negative, u ++ more) := by
  rw [takeSign_append ht] at h ⊢
  obtain ⟨hnegative, hu⟩ := Prod.mk.inj h
  rw [hnegative, List.append_cancel_right hu]

/-- Texts that begin alike have the same mark. -/
theorem takeRadix_front {radix : Nat} (ht : t ≠ []) (hzero : t ≠ ['0'])
    (h : takeRadix (t ++ rest) = (radix, u ++ rest)) (more : Text) :
    takeRadix (t ++ more) = (radix, u ++ more) := by
  rw [takeRadix_append ht hzero] at h ⊢
  obtain ⟨hradix, hu⟩ := Prod.mk.inj h
  rw [hradix, List.append_cancel_right hu]

end Front

/-- Every text has a sign, a mark and a rest, as the reader takes them. -/
theorem exists_parts (raw : Text) :
    ∃ sign negative mark radix digits, Sign sign negative ∧ RadixMark mark radix ∧
      raw = sign ++ (mark ++ digits) ∧ takeSign raw = (negative, mark ++ digits) ∧
        takeRadix (mark ++ digits) = (radix, digits) := by
  obtain ⟨sign, hsign, hraw⟩ := exists_sign raw
  obtain ⟨mark, hmark, hunsigned⟩ := exists_radixMark (takeSign raw).2
  refine ⟨sign, _, mark, _, (takeRadix (takeSign raw).2).2, hsign, hmark, ?_⟩
  rw [← hunsigned]
  exact ⟨hraw, rfl, rfl⟩

section Offending

variable {sign mark good rest : Text} {negative : Bool} {radix : Nat} {c : Char}

/-- Zero is a digit of every radix. -/
theorem RadixMark.digitValue?_zero (h : RadixMark mark radix) : (digitValue? radix '0').isSome = true := by
  cases h <;> rfl

/-- With digits so far, one more makes a literal. -/
theorem beginsLiteral (hsign : Sign sign negative) (hmark : RadixMark mark radix)
    (hgood : AllDigitsOf radix good) : BeginsLiteral (sign ++ (mark ++ good)) := by
  have hall : AllDigitsOf radix (good ++ ['0']) := by
    intro d hd
    rcases List.mem_append.mp hd with hd | hd
    · exact hgood d hd
    · rw [List.mem_singleton.mp hd]
      exact hmark.digitValue?_zero
  have hdigits := (digits_iff hmark.le_sixteen).mpr ⟨List.concat_ne_nil '0' good, hall, rfl⟩
  refine ⟨['0'], _, sign, negative, mark, radix, good ++ ['0'], _, hsign, hmark, hdigits, ?_, rfl⟩
  rw [List.append_assoc, List.append_assoc]

/-- **The first character that is no digit** is the first that no literal has: whatever follows it,
    the reader stops there. -/
theorem offendsFirst (hsign : Sign sign negative) (hmark : RadixMark mark radix)
    (htaken : takeSign (sign ++ (mark ++ (good ++ c :: rest))) = (negative, mark ++ (good ++ c :: rest)))
    (hmarked : takeRadix (mark ++ (good ++ c :: rest)) = (radix, good ++ c :: rest))
    (hgood : AllDigitsOf radix good) (hbad : (digitValue? radix c).isNone = true) :
    OffendsFirst (sign ++ (mark ++ (good ++ c :: rest))) c := by
  refine ⟨sign ++ (mark ++ good), rest, by simp only [List.append_assoc],
    beginsLiteral hsign hmark hgood, ?_⟩
  rintro ⟨more, n, hliteral⟩
  rw [List.append_cons, ← List.append_assoc mark, ← List.append_assoc sign] at htaken
  rw [List.append_cons, ← List.append_assoc mark] at hmarked
  have hne : good ++ [c] ≠ [] := List.concat_ne_nil c good
  have hzero : mark ++ (good ++ [c]) ≠ ['0'] := by
    intro h
    rw [← List.append_assoc] at h
    obtain ⟨-, hc⟩ := List.append_inj' (h.trans (List.nil_append ['0']).symm) rfl
    rw [(List.cons.inj hc).1, Option.isNone_iff_eq_none] at hbad
    exact absurd hmark.digitValue?_zero (by rw [hbad]; exact Bool.false_ne_true)
  have hfind : ((good ++ [c]) ++ more).find? (fun d => (digitValue? radix d).isNone) = some c := by
    rw [List.find?_append, List.find?_append, hgood.find?, List.find?_singleton, if_pos hbad]
    rfl
  have hread := readInteger_of_parts
    (takeSign_front (List.append_ne_nil_of_right_ne_nil _ (List.append_ne_nil_of_right_ne_nil _ hne))
      htaken more)
    (takeRadix_front (List.append_ne_nil_of_right_ne_nil _ hne) hzero hmarked more)
  rw [hfind, List.isEmpty_eq_false_iff.mpr (List.append_ne_nil_of_left_ne_nil hne more),
    if_neg Bool.false_ne_true] at hread
  simp only [List.append_assoc] at hliteral hread
  exact absurd (hliteral.read.symm.trans hread) nofun

end Offending

/-- **The outcomes of the reader**: the integer of a literal; no digits; or the first character that
    no literal has. -/
theorem readInteger_cases (raw : Text) :
    (∃ n, IntegerLiteral raw n ∧ readInteger raw = .ok n) ∨
      (NoDigits raw ∧ readInteger raw = .error .noDigits) ∨
        ∃ c, OffendsFirst raw c ∧ readInteger raw = .error (.invalidDigit c) := by
  obtain ⟨sign, negative, mark, radix, digits, hsign, hmark, rfl, htaken, hmarked⟩ := exists_parts raw
  by_cases hnil : digits = []
  · have hno : NoDigits (sign ++ (mark ++ digits)) :=
      ⟨sign, negative, mark, radix, hsign, hmark, by rw [hnil, List.append_nil]⟩
    refine .inr (.inl ⟨hno, ?_⟩)
    rw [readInteger_of_parts htaken hmarked, hnil]
    rfl
  have hread := readInteger_of_parts htaken hmarked
  rw [List.isEmpty_eq_false_iff.mpr hnil, if_neg Bool.false_ne_true] at hread
  cases hfind : digits.find? fun c => (digitValue? radix c).isNone with
  | none =>
    have hall : AllDigitsOf radix digits := fun c hc => by
      have hc := List.find?_eq_none.mp hfind c hc
      rwa [Bool.not_eq_true, Option.isNone_eq_false_iff] at hc
    have hdigits := (digits_iff hmark.le_sixteen).mpr ⟨hnil, hall, rfl⟩
    rw [hfind] at hread
    exact .inl ⟨_, ⟨sign, negative, mark, radix, digits, _, hsign, hmark, hdigits, rfl, rfl⟩, hread⟩
  | some c =>
    obtain ⟨hbad, good, rest, rfl, hgood⟩ := List.find?_eq_some_iff_append.mp hfind
    have hall : AllDigitsOf radix good := fun d hd => by
      have hd := hgood d hd
      rwa [Option.not_isNone] at hd
    rw [hfind] at hread
    exact .inr (.inr ⟨c, offendsFirst hsign hmark htaken hmarked hall hbad, hread⟩)

section Apart

variable {raw front : Text} {n m : Int} {c d : Char}

/-- The reader reads the literals. -/
theorem readInteger_eq_ok_iff : readInteger raw = .ok n ↔ IntegerLiteral raw n := by
  refine ⟨fun hread => ?_, IntegerLiteral.read⟩
  rcases readInteger_cases raw with ⟨m, hliteral, hm⟩ | ⟨-, hno⟩ | ⟨c, -, hbad⟩
  · rwa [← Except.ok.inj (hm.symm.trans hread)]
  · exact absurd (hno.symm.trans hread) nofun
  · exact absurd (hbad.symm.trans hread) nofun

/-- A literal denotes one integer. -/
theorem IntegerLiteral.unique (hn : IntegerLiteral raw n) (hm : IntegerLiteral raw m) : n = m :=
  Except.ok.inj (hn.read.symm.trans hm.read)

theorem BeginsLiteral.of_append {more : Text} (h : BeginsLiteral (front ++ more)) : BeginsLiteral front := by
  obtain ⟨rest, n, hliteral⟩ := h
  exact ⟨more ++ rest, n, by rwa [← List.append_assoc]⟩

theorem IntegerLiteral.begins (h : IntegerLiteral raw n) : BeginsLiteral raw :=
  ⟨[], n, by rwa [List.append_nil]⟩

theorem NoDigits.begins (h : NoDigits raw) : BeginsLiteral raw := by
  obtain ⟨sign, negative, mark, radix, hsign, hmark, rfl⟩ := h
  have hnone : AllDigitsOf radix [] := fun _ hd => absurd hd List.not_mem_nil
  have hbegins := beginsLiteral hsign hmark hnone
  rwa [List.append_nil] at hbegins

theorem NoDigits.read (h : NoDigits raw) : readInteger raw = .error .noDigits := by
  obtain ⟨sign, negative, mark, radix, hsign, hmark, rfl⟩ := h
  cases hmark with
  | decimal => cases hsign <;> rfl
  | hexadecimal hx | octal hx | binary hx => rcases hx with rfl | rfl <;> cases hsign <;> rfl

/-- What has no digits is no literal. -/
theorem NoDigits.not_literal (h : NoDigits raw) : ¬∃ n, IntegerLiteral raw n :=
  fun ⟨_, hliteral⟩ => absurd (h.read.symm.trans hliteral.read) nofun

/-- A text with an offending character does not begin a literal. -/
theorem OffendsFirst.not_begins (h : OffendsFirst raw c) : ¬BeginsLiteral raw := by
  obtain ⟨front, rest, rfl, -, hnot⟩ := h
  rw [List.append_cons]
  exact fun hbegins => hnot hbegins.of_append

/-- What begins a literal does not go on beyond an offending character. -/
theorem BeginsLiteral.eq_of_append {rest tail more : Text} (hbegins : BeginsLiteral (front ++ more))
    (hnot : ¬BeginsLiteral (front ++ [c])) (heq : c :: rest = more ++ d :: tail) : c = d := by
  cases more with
  | nil => exact (List.cons.inj heq).1
  | cons x more =>
    obtain ⟨rfl, -⟩ := List.cons.inj heq
    rw [List.append_cons] at hbegins
    exact absurd hbegins.of_append hnot

/-- **There is one first offending character.** -/
theorem OffendsFirst.unique (hc : OffendsFirst raw c) (hd : OffendsFirst raw d) : c = d := by
  obtain ⟨front, rest, rfl, hbegins, hnot⟩ := hc
  obtain ⟨other, tail, heq, hbegins', hnot'⟩ := hd
  rcases List.append_eq_append_iff.mp heq with ⟨more, rfl, hmore⟩ | ⟨more, rfl, hmore⟩
  · exact hbegins'.eq_of_append hnot hmore
  · exact (hbegins.eq_of_append hnot' hmore).symm

end Apart

end IniFile
