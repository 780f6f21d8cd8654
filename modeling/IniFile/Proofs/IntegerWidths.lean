/-
  Integers at a width.

  A literal denotes an integer of any size, and a width holds only some of them.  Reading at a width
  gives exactly the integers of literals that it holds; every other text is refused with the text
  itself, the name of the width and what is wrong.

  1. **Widths** — what reading has to give, and that it gives that, in whatever form.
  2. **Words of 128 bits** — the same reader with checked words instead of integers: digits are
     gathered until they do not fit, and a minus goes by way of a signed word.
  3. **All targets** — every width, machine addresses and plain integers.

  Mathlib-free.
-/
import IniFile.Proofs.IntegerLiterals
import IniFile.Scalar

namespace IniFile

/-! ## Widths -/

/-- Is the result what reading an integer of the width from the text has to give?  `wrap` is the form
    in which the integer is handed out, and `name` what the width is called in errors. -/
structure ReadsExactly {α : Type} (w : Width) (name raw : Text) (wrap : Int → α)
    (result : Except Error α) : Prop where
  value : ∀ x, result = .ok x ↔ ∃ n, IntegerLiteral raw n ∧ w.least ≤ n ∧ n ≤ w.greatest ∧ x = wrap n
  refusal : ∀ err, result = .error err → ∃ fault, err = .coercion raw name fault ∧
    (fault.message = "out of range".toList ↔ ∃ n, IntegerLiteral raw n) ∧
    (fault.message = "no digits".toList ↔ NoDigits raw) ∧
    ((¬∃ n, IntegerLiteral raw n) → ¬NoDigits raw → ∃ c, (∀ d, OffendsFirst raw d ↔ d = c) ∧
      fault.message = "invalid digit ".toList ++ Text.quotedChar c)

section Widths

variable {α : Type} {w : Width} {name raw : Text} {wrap : Int → α} {n : Int}

theorem ReadsExactly.of_holds (hliteral : IntegerLiteral raw n) (hholds : w.holds n = true) :
    ReadsExactly w name raw wrap (.ok (wrap n)) where
  value x := by
    obtain ⟨hleast, hgreatest⟩ := Width.holds_iff.mp hholds
    refine ⟨fun hx => ⟨n, hliteral, hleast, hgreatest, (Except.ok.inj hx).symm⟩, ?_⟩
    rintro ⟨m, hm, -, -, rfl⟩
    rw [hliteral.unique hm]
  refusal _ herr := absurd herr nofun

theorem ReadsExactly.of_fault {fault : CoercionFault}
    (hrange : ∀ n, IntegerLiteral raw n → w.holds n = false)
    (hout : fault.message = "out of range".toList ↔ ∃ n, IntegerLiteral raw n)
    (hno : fault.message = "no digits".toList ↔ NoDigits raw)
    (hbad : (¬∃ n, IntegerLiteral raw n) → ¬NoDigits raw → ∃ c, (∀ d, OffendsFirst raw d ↔ d = c) ∧
      fault.message = "invalid digit ".toList ++ Text.quotedChar c) :
    ReadsExactly w name raw wrap (.error (.coercion raw name fault)) where
  value x := by
    refine ⟨nofun, ?_⟩
    rintro ⟨n, hliteral, hleast, hgreatest, -⟩
    exact Bool.noConfusion ((hrange n hliteral).symm.trans (Width.holds_iff.mpr ⟨hleast, hgreatest⟩))
  refusal err herr := ⟨fault, (Except.error.inj herr).symm, hout, hno, hbad⟩

/-- **Reading at a width** is exact, whatever form the integer has in the end. -/
theorem Width.readsExactly (w : Width) (name raw : Text) (wrap : Int → α) :
    ReadsExactly w name raw wrap ((expecting raw name (w.read raw)).map wrap) := by
  unfold read
  rcases readInteger_cases raw with ⟨n, hliteral, hread⟩ | ⟨hno, hread⟩ | ⟨c, hoffends, hread⟩
  · rw [hread]
    show ReadsExactly w name raw wrap
      ((expecting raw name (if w.holds n then .ok n else .error .outOfRange)).map wrap)
    cases hholds : w.holds n with
    | true => exact .of_holds hliteral hholds
    | false =>
      refine .of_fault (fun m hm => hliteral.unique hm ▸ hholds) (iff_of_true rfl ⟨n, hliteral⟩)
        (iff_of_false (by decide) fun hno => hno.not_literal ⟨n, hliteral⟩) fun hnot => ?_
      exact absurd ⟨n, hliteral⟩ hnot
  · rw [hread]
    exact .of_fault (fun n hn => absurd ⟨n, hn⟩ hno.not_literal)
      (iff_of_false (by decide) hno.not_literal) (iff_of_true rfl hno) fun _ hnot => absurd hno hnot
  · have hliteral : ¬∃ n, IntegerLiteral raw n := fun ⟨_, h⟩ => hoffends.not_begins h.begins
    have hno : ¬NoDigits raw := fun h => hoffends.not_begins h.begins
    rw [hread]
    refine .of_fault (fun n hn => absurd ⟨n, hn⟩ hliteral) (iff_of_false ?_ hliteral)
      (iff_of_false ?_ hno) fun _ _ => ⟨c, fun d => ⟨fun hd => hd.unique hoffends, ?_⟩, rfl⟩
    · exact nofun
    · exact nofun
    · rintro rfl
      exact hoffends

end Widths

/-! ## Words of 128 bits -/

/-- Digits gathered in an unsigned word of 128 bits, unless they do not fit. -/
def gatherDigits (radix : Nat) (digits : Text) : Option Nat :=
  digits.foldlM (fun n c =>
    let next := n * radix + (digitValue? radix c).getD 0
    if next < Nat.pow 2 128 then some next else none) 0

/-- The integer of a sign and a magnitude, by way of a signed word of 128 bits if there is a minus.
    The least signed word has no counterpart among the others. -/
def Width.narrow (w : Width) (negative : Bool) (magnitude : Nat) : Except CoercionFault Int :=
  let fit (n : Int) : Except CoercionFault Int := if w.holds n then .ok n else .error .outOfRange
  if !negative then fit magnitude
  else if magnitude = Nat.pow 2 127 then fit (Width.least ⟨true, 128⟩)
  else if magnitude < Nat.pow 2 127 then fit (-(magnitude : Int))
  else .error .outOfRange

/-- The integer of a width that a literal denotes, with words of 128 bits only. -/
def Width.readInWords (w : Width) (raw : Text) : Except CoercionFault Int :=
  let (negative, unsigned) := takeSign raw
  let (radix, digits) := takeRadix unsigned
  if digits.isEmpty then .error .noDigits
  else
    match digits.find? fun c => (digitValue? radix c).isNone with
    | some bad => .error (.invalidDigit bad)
    | none =>
      match gatherDigits radix digits with
      | none => .error .outOfRange
      | some magnitude => w.narrow negative magnitude

/-- Digits fit in a word exactly if their number does, because each of them only makes it larger. -/
theorem gatherDigits_eq {radix : Nat} (h : 0 < radix) (t : Text) :
    gatherDigits radix t =
      if ofDigits radix t < Nat.pow 2 128 then some (ofDigits radix t) else none := by
  have hfrom : ∀ n, n < Nat.pow 2 128 → t.foldlM (fun n c =>
      let next := n * radix + (digitValue? radix c).getD 0
      if next < Nat.pow 2 128 then some next else none) n =
        if n * Nat.pow radix t.length + ofDigits radix t < Nat.pow 2 128 then
          some (n * Nat.pow radix t.length + ofDigits radix t) else none := by
    induction t with
    | nil =>
      intro n hn
      have hnil : n * Nat.pow radix ([] : Text).length + ofDigits radix [] = n := Nat.mul_one n
      rw [hnil, if_pos hn]
      rfl
    | cons c rest ih =>
      intro n hn
      have hsum : n * Nat.pow radix (c :: rest).length + ofDigits radix (c :: rest) =
          (n * radix + (digitValue? radix c).getD 0) * Nat.pow radix rest.length + ofDigits radix rest := by
        rw [← foldl_digits, ← foldl_digits, List.foldl_cons]
      rw [List.foldlM_cons, hsum]
      dsimp only
      generalize n * radix + (digitValue? radix c).getD 0 = next
      by_cases hnext : next < Nat.pow 2 128
      · rw [if_pos hnext]
        exact ih next hnext
      · have hgrows : next ≤ next * Nat.pow radix rest.length :=
          Nat.le_mul_of_pos_right next (Nat.pow_pos h)
        rw [if_neg hnext, if_neg (by omega)]
        rfl
  have hzero := hfrom 0 (Nat.pow_pos (by decide))
  rwa [Nat.zero_mul, Nat.zero_add] at hzero

/-- A width of at most 128 bits begins no lower than the least signed word. -/
theorem Width.least_le {w : Width} (h : w.bits ≤ 128) : least ⟨true, 128⟩ ≤ w.least := by
  obtain ⟨signed, bits⟩ := w
  cases signed with
  | false => exact (by decide : least ⟨true, 128⟩ ≤ 0)
  | true =>
    have hhalf : Nat.pow 2 (bits - 1) ≤ Nat.pow 2 127 :=
      Nat.pow_le_pow_right (by decide) (by simp only at h; omega)
    show -(Nat.pow 2 127 : Int) ≤ -(Nat.pow 2 (bits - 1) : Nat)
    omega

/-- Nor does it go beyond the greatest unsigned word. -/
theorem Width.greatest_le {w : Width} (h : w.bits ≤ 128) : w.greatest ≤ greatest ⟨false, 128⟩ := by
  have hhalf : w.half ≤ Nat.pow 2 128 :=
    Nat.pow_le_pow_right (by decide) (by split <;> omega)
  show (w.half : Int) - 1 ≤ (Nat.pow 2 128 : Nat) - 1
  omega

/-- The way by a signed word makes no difference. -/
theorem Width.narrow_eq {w : Width} (h : w.bits ≤ 128) (negative : Bool) (magnitude : Nat) :
    w.narrow negative magnitude =
      if w.holds (if negative then -(magnitude : Int) else magnitude) then
        .ok (if negative then -(magnitude : Int) else magnitude)
      else .error .outOfRange := by
  cases negative with
  | false => rfl
  | true =>
    unfold narrow
    rw [if_neg (by decide), if_pos rfl]
    by_cases hmin : magnitude = Nat.pow 2 127
    · rw [if_pos hmin, hmin]
      rfl
    by_cases hless : magnitude < Nat.pow 2 127
    · rw [if_neg hmin, if_pos hless]
    · have hleast := least_le h
      have hword : least ⟨true, 128⟩ = -((Nat.pow 2 127 : Nat) : Int) := rfl
      have hbelow : ¬w.holds (-(magnitude : Int)) = true := fun hholds => by
        have := (holds_iff.mp hholds).1
        omega
      rw [if_neg hmin, if_neg hless, if_neg hbelow]

/-- **Words of 128 bits are enough** for every width that has no more bits. -/
theorem Width.readInWords_eq {w : Width} (h : w.bits ≤ 128) (raw : Text) :
    w.readInWords raw = w.read raw := by
  obtain ⟨sign, negative, mark, radix, digits, hsign, hmark, rfl, htaken, hmarked⟩ := exists_parts raw
  unfold readInWords read
  rw [readInteger_of_parts htaken hmarked, htaken]
  dsimp only
  rw [hmarked]
  dsimp only
  by_cases hnil : digits.isEmpty = true
  · rw [if_pos hnil, if_pos hnil]
    rfl
  rw [if_neg hnil, if_neg hnil]
  cases digits.find? fun c => (digitValue? radix c).isNone with
  | some c => rfl
  | none =>
    dsimp only
    rw [gatherDigits_eq hmark.pos]
    generalize ofDigits radix digits = magnitude
    by_cases hword : magnitude < Nat.pow 2 128
    · rw [if_pos hword]
      exact narrow_eq h negative magnitude
    · have hleast := least_le h
      have hgreatest := greatest_le h
      have hlow : least ⟨true, 128⟩ = -((Nat.pow 2 127 : Nat) : Int) := rfl
      have hhigh : greatest ⟨false, 128⟩ = ((Nat.pow 2 128 : Nat) : Int) - 1 := rfl
      have hwords : Nat.pow 2 127 < Nat.pow 2 128 := by decide
      have hoff : ¬w.holds (if negative then -(magnitude : Int) else magnitude) = true := fun hholds => by
        have hrange := holds_iff.mp hholds
        cases negative with
        | false => exact absurd hrange.2 (by rw [if_neg Bool.false_ne_true]; omega)
        | true => exact absurd hrange.1 (by rw [if_pos rfl]; omega)
      rw [if_neg hword]
      exact (if_neg hoff).symm

/-! ## All targets -/

/-- **Integers are read exactly**, at every width, as machine addresses and as plain integers: what a
    literal denotes if it is in range, and otherwise an error that says what is wrong with the text.
    Words of 128 bits are enough to find out. -/
theorem integers_read_exactly (words : Literals) (raw : Text) :
    (∀ w : Width, ReadsExactly w w.name raw .integer (Kind.read words raw (.integer w))) ∧
    (∀ signed, ReadsExactly ⟨signed, 64⟩ (if signed then "isize" else "usize").toList raw .integer
      (Kind.read words raw (.address signed))) ∧
    ReadsExactly ⟨true, 64⟩ "integer".toList raw id (readPlainInteger raw) ∧
    ∀ w : Width, w.bits ≤ 128 → w.readInWords raw = w.read raw := by
  refine ⟨fun w => w.readsExactly w.name raw _, fun signed => Width.readsExactly _ _ raw _, ?_,
    fun w h => w.readInWords_eq h raw⟩
  have hplain := Width.plain.readsExactly "integer".toList raw id
  rwa [Except.map_id] at hplain

/-- The extremes of 128 bits, and a negative zero without a sign bit. -/
theorem integers_read_exactly_sample :
    Width.readInWords ⟨true, 128⟩ ("-0x8".toList ++ List.replicate 31 '0') =
      .ok (Width.least ⟨true, 128⟩) ∧
    Width.readInWords ⟨false, 128⟩ ("0XF".toList ++ List.replicate 31 'f') =
      .ok (Width.greatest ⟨false, 128⟩) ∧
    Width.readInWords ⟨false, 8⟩ "-0".toList = .ok 0 := by
  have hread : ∀ (w : Width) raw, w.bits ≤ 128 → w.readInWords raw = w.read raw :=
    fun w raw => (integers_read_exactly .standard raw).2.2.2 w
  rw [hread _ _ (by decide), hread _ _ (by decide), hread _ _ (by decide)]
  refine ⟨?_, ?_, ?_⟩ <;> rfl

end IniFile
