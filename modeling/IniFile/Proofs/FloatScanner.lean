/-
  Float literals by index.

  The grammar of floats can be checked without taking a text apart: an index goes over the bytes of
  the text, from the first to the last, and a count keeps the digits of the mantissa.  The scanner
  here is that program, one step for each look at a byte and for each decision.  That it looks at
  bytes where the checker looks at characters makes no difference, because no character but one of
  ASCII begins with a byte of ASCII.

  The count is a signed word of 32 bits.  With 2^31 digits in the mantissa a program with checks
  stops, and with 2^32 of them a program without finds no digit; below that the count is exact.

  1. **Bytes of characters** — the first byte tells what the scanner asks about.
  2. **The scanner** — what is next, and one step.
  3. **The index** — what one step does to it, and that it never passes the end.
  4. **Behind a text** — the steps of a scanner that has gone over a text, by what follows there; the
     texts are there for the proof, the scanner has nothing but the index.
  5. **The verdict** — the scanner ends, and finds what the checker finds unless its count
     overflows.
  6. **All of it** — what is accepted, what is said about the rest, the index, and integers.

  Mathlib-free.
-/
import IniFile.Overflow
import IniFile.Proofs.FloatLiterals
import IniFile.Scalar
import IniFile.Text.Utf8

namespace IniFile

/-! ## Bytes of characters -/

namespace Utf8

/-- Are they all characters of ASCII? -/
def isAscii (cs : List Char) : Bool := cs.all (·.toNat < 128)

theorem ascii_of_mem {cs : List Char} (h : isAscii cs = true) {c : Char} (hc : c ∈ cs) : c.toNat < 128 :=
  of_decide_eq_true (List.all_eq_true.mp h c hc)

/-- A character of ASCII is one byte. -/
theorem encodeChar_of_ascii {c : Char} (h : c.toNat < 128) :
    String.utf8EncodeChar c = [UInt8.ofNat c.toNat] :=
  if_pos (Nat.le_of_lt_succ h)

/-- Any other character begins with a byte beyond ASCII. -/
theorem exists_lead_of_not_ascii {c : Char} (h : ¬c.toNat < 128) :
    ∃ b more, String.utf8EncodeChar c = b :: more ∧ 128 ≤ b.toNat := by
  have hone : ¬c.val.toNat ≤ 127 := fun hle => h (Nat.lt_succ_of_le hle)
  unfold String.utf8EncodeChar
  dsimp only
  rw [if_neg hone]
  by_cases htwo : c.val.toNat ≤ 2047
  · rw [if_pos htwo]
    refine ⟨_, _, rfl, ?_⟩
    rw [UInt8.toNat_ofNat']
    omega
  rw [if_neg htwo]
  by_cases hthree : c.val.toNat ≤ 65535
  · rw [if_pos hthree]
    refine ⟨_, _, rfl, ?_⟩
    rw [UInt8.toNat_ofNat']
    omega
  · rw [if_neg hthree]
    refine ⟨_, _, rfl, ?_⟩
    rw [UInt8.toNat_ofNat']
    omega

/-- **The first byte of a character** is that of a character of ASCII only if the two are the same. -/
theorem exists_lead (c : Char) : ∃ b more, String.utf8EncodeChar c = b :: more ∧
    ∀ d : Char, d.toNat < 128 → (d.toNat = b.toNat ↔ c = d) := by
  by_cases hascii : c.toNat < 128
  · refine ⟨_, [], encodeChar_of_ascii hascii, fun d _ => ?_⟩
    rw [UInt8.toNat_ofNat', Nat.mod_eq_of_lt (by omega), eq_comm, Char.toNat_inj]
  · obtain ⟨b, more, hencode, hb⟩ := exists_lead_of_not_ascii hascii
    refine ⟨b, more, hencode, fun d hd => iff_of_false (by omega) ?_⟩
    rintro rfl
    exact hascii hd

theorem encode_append (s t : Text) : encode (s ++ t) = encode s ++ encode t := List.flatMap_append

theorem length_encode_concat {c : Char} (h : c.toNat < 128) (t : Text) :
    (encode (t ++ [c])).length = (encode t).length + 1 := by
  have hone : encode [c] = [UInt8.ofNat c.toNat] := by
    rw [encode, List.flatMap_singleton, encodeChar_of_ascii h]
  rw [encode_append, List.length_append, hone]
  rfl

/-- Text takes up bytes. -/
theorem length_encode_append_eq_iff {s t : Text} :
    (encode s).length = (encode (s ++ t)).length ↔ t = [] := by
  rw [encode_append, List.length_append]
  cases t with
  | nil => exact iff_of_true rfl rfl
  | cons c rest =>
    have hpos := List.length_pos_iff.mpr (String.utf8EncodeChar_ne_nil (c := c))
    refine iff_of_false ?_ (List.cons_ne_nil c rest)
    rw [encode, encode, List.flatMap_cons, List.length_append]
    omega

end Utf8

namespace Numeral

/-! ## The scanner -/

/-- What is next. -/
inductive Phase where
  | sign
  /-- To go over digits, which are counted as digits of the mantissa or not. -/
  | digits (counted : Bool) (next : Phase)
  | point
  | count
  | mark
  | exponentSign
  /-- To see whether the exponent, which began at the index `start`, has a digit. -/
  | exponent (start : Nat)
  | finish
  | stopped (found : Option CoercionFault)
  /-- The count did not fit, and the program stopped there. -/
  | halted
deriving DecidableEq, Repr

/-- A scanner: what is next, the index of the next byte, and the word that counts the digits of the
    mantissa. -/
structure Scanner where
  phase : Phase := .sign
  index : Nat := 0
  digits : Int32 := 0
deriving DecidableEq, Repr

namespace Scanner

/-- The ten digits. -/
def tenDigits : List Char := "0123456789".toList

/-- Is there a byte at the index, and is it one of the given characters? -/
def sees (bytes : List UInt8) (cs : List Char) (s : Scanner) : Bool :=
  bytes[s.index]?.any fun b => cs.any fun c => c.toNat == b.toNat

/-- Moves on by one byte. -/
def advance (s : Scanner) : Scanner := { s with index := s.index + 1 }

/-- Moves on if one of the given characters is there. -/
def skip (bytes : List UInt8) (cs : List Char) (s : Scanner) : Scanner :=
  if s.sees bytes cs then s.advance else s

/-- Goes on to a phase. -/
def enter (phase : Phase) (s : Scanner) : Scanner := { s with phase }

/-- Counts a digit. -/
def count (o : Overflow) (s : Scanner) : Scanner :=
  match o.next s.digits with
  | some digits => { s with digits }
  | none => s.enter .halted

/-- **One step.** -/
def step (o : Overflow) (bytes : List UInt8) (s : Scanner) : Scanner :=
  match s.phase with
  | .sign => (s.skip bytes ['+', '-']).enter (.digits true .point)
  | .digits counted next =>
    if s.sees bytes tenDigits then if counted then s.advance.count o else s.advance
    else s.enter next
  | .point => if s.sees bytes ['.'] then s.advance.enter (.digits true .count) else s.enter .count
  | .count => s.enter (if s.digits = 0 then .stopped (some .noDigits) else .mark)
  | .mark => if s.sees bytes ['e', 'E'] then s.advance.enter .exponentSign else s.enter .finish
  | .exponentSign =>
    let signed := s.skip bytes ['+', '-']
    signed.enter (.digits false (.exponent signed.index))
  | .exponent start => s.enter (if s.index = start then .stopped (some .emptyExponent) else .finish)
  | .finish =>
    s.enter (.stopped (if s.index = bytes.length then none else some .trailingCharacters))
  | .stopped _ => s
  | .halted => s

/-- The scanner after a number of steps. -/
def run (o : Overflow) (bytes : List UInt8) : Nat → Scanner → Scanner
  | 0, s => s
  | n + 1, s => run o bytes n (s.step o bytes)

example : (run .stops (Utf8.encode "-.5e+07".toList) 20 {}).phase = .stopped none := by
  decide +kernel

/-! ## The index -/

section Index

variable {o : Overflow} {bytes : List UInt8} {cs : List Char}

theorem lt_of_sees {s : Scanner} (h : s.sees bytes cs = true) : s.index < bytes.length := by
  rw [sees] at h
  cases hb : bytes[s.index]? with
  | none =>
    rw [hb] at h
    exact absurd h Bool.false_ne_true
  | some b => exact (List.getElem?_eq_some_iff.mp hb).1

/-- The index stays, or it moves on by one, from a byte that is there. -/
def Moves (bytes : List UInt8) (i j : Nat) : Prop := j = i ∨ j = i + 1 ∧ i < bytes.length

theorem moves_skip (s : Scanner) : Moves bytes s.index (s.skip bytes cs).index := by
  unfold skip
  by_cases hsees : s.sees bytes cs = true
  · rw [if_pos hsees]
    exact .inr ⟨rfl, lt_of_sees hsees⟩
  · rw [if_neg hsees]
    exact .inl rfl

theorem index_count (o : Overflow) (s : Scanner) : (s.count o).index = s.index := by
  unfold count
  cases o.next s.digits <;> rfl

/-- **One step** moves the index by one byte at most, and from no place behind the last one. -/
theorem moves_step (s : Scanner) : Moves bytes s.index (s.step o bytes).index := by
  obtain ⟨phase, index, digits⟩ := s
  cases phase with
  | sign | exponentSign => exact moves_skip _
  | count | exponent | finish | stopped | halted => exact .inl rfl
  | digits counted next =>
    show Moves bytes index (if _ then if counted then _ else _ else _ : Scanner).index
    split
    · refine .inr ⟨?_, lt_of_sees ‹_›⟩
      cases counted with
      | true => exact index_count o _
      | false => rfl
    · exact .inl rfl
  | point | mark =>
    show Moves bytes index (if _ then _ else _ : Scanner).index
    split
    · exact .inr ⟨rfl, lt_of_sees ‹_›⟩
    · exact .inl rfl

/-- **The index never passes the end**, however many steps there are. -/
theorem index_run_le {s : Scanner} (h : s.index ≤ bytes.length) (n : Nat) :
    (s.run o bytes n).index ≤ bytes.length := by
  induction n generalizing s with
  | zero => exact h
  | succ n ih =>
    refine ih ?_
    rcases s.moves_step (o := o) with hstay | ⟨hmove, hlt⟩
    · rw [hstay]
      exact h
    · rw [hmove]
      exact hlt

end Index

/-! ## Behind a text -/

/-- The scanner that has gone over a text and counted `k` digits. -/
def behind (before : Text) (phase : Phase) (k : Nat) : Scanner :=
  ⟨phase, (Utf8.encode before).length, Int32.ofNat k⟩

/-- The scanner comes to a phase and stays there. -/
def EndsIn (o : Overflow) (bytes : List UInt8) (s : Scanner) (phase : Phase) : Prop :=
  ∃ n, ∀ m, n ≤ m → (s.run o bytes m).phase = phase

theorem isAscii_tenDigits : Utf8.isAscii tenDigits = true := by decide +kernel

theorem mem_tenDigits_iff {c : Char} : c ∈ tenDigits ↔ c.isDigit = true := by
  have hten : ∀ n < 128, Char.ofNat n ∈ tenDigits ↔ (Char.ofNat n).isDigit = true := by decide +kernel
  by_cases hascii : c.toNat < 128
  · rw [← Char.ofNat_toNat c]
    exact hten c.toNat hascii
  · refine iff_of_false (fun hmem => ?_) fun hdigit => ?_
    · exact hascii (Utf8.ascii_of_mem isAscii_tenDigits hmem)
    · rw [Char.isDigit, Bool.and_eq_true] at hdigit
      exact hascii (Nat.lt_of_le_of_lt (of_decide_eq_true hdigit.2) (by decide))

section Behind

variable {o : Overflow} {raw before rest : Text} {cs : List Char} {c : Char}
  {phase next last : Phase} {k : Nat} {counted : Bool} {found : Option CoercionFault}

/-- A scanner that makes no step any more has come to its end. -/
theorem EndsIn.of_fixed {bytes : List UInt8} {s : Scanner} (h : s.step o bytes = s) :
    EndsIn o bytes s s.phase := by
  have hstays : ∀ n, run o bytes n s = s := by
    intro n
    induction n with
    | zero => rfl
    | succ n ih => rw [run, h, ih]
  exact ⟨0, fun m _ => by rw [hstays]⟩

theorem EndsIn.of_step {bytes : List UInt8} {s : Scanner} (h : EndsIn o bytes (s.step o bytes) last) :
    EndsIn o bytes s last := by
  obtain ⟨n, hn⟩ := h
  refine ⟨n + 1, fun m hm => ?_⟩
  cases m with
  | zero => exact absurd hm (Nat.not_succ_le_zero n)
  | succ m => exact hn m (Nat.le_of_succ_le_succ hm)

/-- **The scanner sees what follows**, by its first byte. -/
theorem sees_behind (hcs : Utf8.isAscii cs = true) (hraw : raw = before ++ rest) :
    (behind before phase k).sees (Utf8.encode raw) cs = rest.head?.any (cs.contains ·) := by
  have hget : (Utf8.encode raw)[(behind before phase k).index]? = (Utf8.encode rest).head? := by
    rw [hraw, Utf8.encode_append, behind, List.getElem?_append_right (Nat.le_refl _), Nat.sub_self,
      List.head?_eq_getElem?]
  rw [sees, hget]
  cases rest with
  | nil => rfl
  | cons c rest =>
    obtain ⟨b, more, hencode, hlead⟩ := Utf8.exists_lead c
    have hhead : (Utf8.encode (c :: rest)).head? = some b := by
      rw [Utf8.encode, List.flatMap_cons, hencode]
      rfl
    rw [hhead]
    show (cs.any fun d => d.toNat == b.toNat) = cs.contains c
    rw [Bool.eq_iff_iff, List.any_eq_true, List.contains_iff_mem]
    constructor
    · rintro ⟨d, hd, hsame⟩
      rwa [(hlead d (Utf8.ascii_of_mem hcs hd)).mp (beq_iff_eq.mp hsame)]
    · intro hc
      exact ⟨c, hc, beq_iff_eq.mpr ((hlead c (Utf8.ascii_of_mem hcs hc)).mpr rfl)⟩

theorem sees_cons (hcs : Utf8.isAscii cs = true) (hraw : raw = before ++ c :: rest) (hc : c ∈ cs) :
    (behind before phase k).sees (Utf8.encode raw) cs = true := by
  rw [sees_behind hcs hraw]
  exact List.contains_iff_mem.mpr hc

theorem not_sees (hcs : Utf8.isAscii cs = true) (hraw : raw = before ++ rest)
    (hrest : ∀ c, rest.head? = some c → c ∉ cs) :
    (behind before phase k).sees (Utf8.encode raw) cs = false := by
  rw [sees_behind hcs hraw]
  cases rest with
  | nil => rfl
  | cons c rest => exact eq_false_of_ne_true fun hc => hrest c rfl (List.contains_iff_mem.mp hc)

/-- A byte that is seen is a whole character. -/
theorem advance_behind (hcs : Utf8.isAscii cs = true) (hc : c ∈ cs) :
    (behind before phase k).advance = behind (before ++ [c]) phase k := by
  rw [behind, behind, Utf8.length_encode_concat (Utf8.ascii_of_mem hcs hc)]
  rfl

/-- A digit is counted while the word has room. -/
theorem count_behind (h : o.Reaches (k + 1)) :
    (behind before phase k).count o = behind before phase (k + 1) := by
  rw [count, show (behind before phase k).digits = Int32.ofNat k from rfl, Overflow.next_ofNat h]
  rfl

/-- **A sign** is gone over if it is there. -/
theorem skip_behind {sign after : Text} {negative : Bool} (hraw : raw = before ++ after)
    (h : Signed after sign rest negative) :
    (behind before phase k).skip (Utf8.encode raw) ['+', '-'] = behind (before ++ sign) phase k := by
  have hascii : Utf8.isAscii ['+', '-'] = true := by decide
  obtain ⟨rfl, hsign, htaken⟩ := h
  unfold skip
  cases hsign with
  | unsigned =>
    have hrest : ∀ c, rest.head? = some c → c ∉ ['+', '-'] := fun c hc => by
      simp [(htaken rfl c hc).1, (htaken rfl c hc).2]
    rw [not_sees hascii hraw hrest, if_neg Bool.false_ne_true, List.append_nil]
  | plus =>
    have hplus : '+' ∈ ['+', '-'] := List.mem_cons_self
    rw [sees_cons hascii hraw hplus, if_pos rfl, advance_behind hascii hplus]
  | minus =>
    have hminus : '-' ∈ ['+', '-'] := List.mem_cons_of_mem _ List.mem_cons_self
    rw [sees_cons hascii hraw hminus, if_pos rfl, advance_behind hascii hminus]

/-- **Digits** are gone over, and counted if they are those of the mantissa. -/
theorem endsIn_digits {ds : Text} (hds : ds.AllDigits)
    (hrest : ∀ c, rest.head? = some c → c.isDigit = false) :
    ∀ {before : Text} {k : Nat}, raw = before ++ (ds ++ rest) →
      (counted = true → o.Reaches (k + ds.length)) →
      EndsIn o (Utf8.encode raw) (behind (before ++ ds) next (if counted then k + ds.length else k))
        last → EndsIn o (Utf8.encode raw) (behind before (.digits counted next) k) last := by
  -- each digit passes from what is ahead of the scanner to what is behind it
  induction ds with
  | nil =>
    intro before k hraw _ h
    have hnone : ∀ c, rest.head? = some c → c ∉ tenDigits := fun c hc hmem =>
      Bool.noConfusion ((hrest c hc).symm.trans (mem_tenDigits_iff.mp hmem))
    rw [List.append_nil, List.length_nil, Nat.add_zero, ite_self] at h
    refine .of_step ?_
    show EndsIn o _ (if (behind before _ _).sees _ tenDigits then _ else _ : Scanner) _
    rw [not_sees isAscii_tenDigits hraw hnone, if_neg Bool.false_ne_true]
    exact h
  | cons c ds ih =>
    intro before k hraw hroom h
    obtain ⟨hc, hds⟩ := List.forall_mem_cons.mp hds
    have hmem := mem_tenDigits_iff.mpr hc
    have hlength : k + (c :: ds).length = k + 1 + ds.length := by rw [List.length_cons]; omega
    rw [hlength] at hroom h
    have hnext : EndsIn o (Utf8.encode raw) (behind (before ++ [c]) (.digits counted next)
        (if counted then k + 1 else k)) last := by
      refine ih hds (by rw [hraw, List.append_assoc]; rfl) (fun hcounted => ?_) ?_
      · rw [if_pos hcounted]
        exact hroom hcounted
      · rw [List.append_cons] at h
        cases counted with
        | true => exact h
        | false => exact h
    refine .of_step ?_
    show EndsIn o _ (if (behind before (.digits counted next) _).sees _ tenDigits then
      if counted then _ else _ else _ : Scanner) _
    rw [sees_cons isAscii_tenDigits hraw hmem, if_pos rfl, advance_behind isAscii_tenDigits hmem]
    cases counted with
    | true => rwa [if_pos rfl, count_behind ((hroom rfl).mono (Nat.le_add_right _ _))]
    | false => exact hnext

/-- **Too many digits**: a program with checks stops among them. -/
theorem halts_digits {ds : Text} (hds : ds.AllDigits) :
    ∀ {before : Text} {k : Nat}, raw = before ++ (ds ++ rest) → k < Nat.pow 2 31 →
      Nat.pow 2 31 ≤ k + ds.length →
      EndsIn .stops (Utf8.encode raw) (behind before (.digits true next) k) .halted := by
  induction ds with
  | nil =>
    intro before k _ hlt hle
    rw [List.length_nil] at hle
    omega
  | cons c ds ih =>
    intro before k hraw hlt hle
    obtain ⟨hc, hds⟩ := List.forall_mem_cons.mp hds
    have hmem := mem_tenDigits_iff.mpr hc
    refine .of_step ?_
    show EndsIn .stops _
      (if (behind before (.digits true next) _).sees _ tenDigits then _ else _ : Scanner) _
    rw [sees_cons isAscii_tenDigits hraw hmem, if_pos rfl, advance_behind isAscii_tenDigits hmem,
      if_pos rfl]
    by_cases hroom : k + 1 < Nat.pow 2 31
    · rw [count_behind fun _ => hroom]
      refine ih hds (by rw [hraw, List.append_assoc]; rfl) hroom ?_
      rw [List.length_cons] at hle
      omega
    · -- this is the digit that does not fit
      have hlast : k = Nat.pow 2 31 - 1 := by omega
      have hhalts : (behind (before ++ [c]) (.digits true next) k).count .stops =
          behind (before ++ [c]) .halted k := by
        rw [count, show (behind (before ++ [c]) (.digits true next) k).digits =
          Int32.ofNat (Nat.pow 2 31 - 1) from congrArg Int32.ofNat hlast, Overflow.next_last]
        rfl
      rw [hhalts]
      exact .of_fixed rfl

/-- **The end** of the text is where nothing follows. -/
theorem endsIn_finish (hraw : raw = before ++ rest) :
    EndsIn o (Utf8.encode raw) (behind before .finish k)
      (.stopped (if rest = [] then none else some .trailingCharacters)) := by
  have hlength : (Utf8.encode before).length = (Utf8.encode raw).length ↔ rest = [] := by
    rw [hraw]
    exact Utf8.length_encode_append_eq_iff
  refine .of_step ?_
  show EndsIn o _ ((behind before .finish k).enter
    (.stopped (if (Utf8.encode before).length = (Utf8.encode raw).length then none else _))) _
  simp only [hlength]
  exact .of_fixed rfl

theorem no_digit_at_point (t : Text) (c : Char) (hc : ('.' :: t).head? = some c) :
    c.isDigit = false := by
  rw [← Option.some.inj hc]
  rfl

/-- **The mantissa part** is gone over, and its digits are counted. -/
theorem endsIn_mantissa {sign part : Text} (hparted : Parted raw sign part rest)
    (hroom : o.Reaches (part.countP Char.isDigit))
    (h : EndsIn o (Utf8.encode raw) (behind (sign ++ part) .count (part.countP Char.isDigit)) last) :
    EndsIn o (Utf8.encode raw) (behind sign (.digits true .point) 0) last := by
  have hascii : Utf8.isAscii ['.'] = true := by decide
  have hraw := hparted.spelled
  rcases hparted.mantissa.cases with hall | ⟨w, f, rfl, hw, hf⟩
  · have hnone : ∀ c, rest.head? = some c → c ∉ ['.'] := fun c hc hmem =>
      (hparted.stop hc).2 hall (List.mem_singleton.mp hmem)
    have hcount : part.countP Char.isDigit = 0 + part.length := by
      rw [Nat.zero_add, List.countP_eq_length.mpr hall]
    rw [hcount] at hroom h
    refine endsIn_digits hall (fun c hc => (hparted.stop hc).1) hraw (fun _ => hroom) (.of_step ?_)
    rw [if_pos rfl]
    show EndsIn o _ (if (behind (sign ++ part) .point _).sees _ ['.'] then _ else _ : Scanner) _
    rw [not_sees hascii (hraw.trans (List.append_assoc _ _ _).symm) hnone, if_neg Bool.false_ne_true]
    exact h
  · -- the point ends the first digits, and the digits behind it go on counting
    have hafter : raw = (sign ++ w) ++ '.' :: (f ++ rest) := by
      rw [hraw, List.append_assoc, List.append_assoc, List.cons_append]
    rw [hw.countP_pointed hf] at hroom h
    rw [← List.append_assoc, List.append_cons] at h
    refine endsIn_digits hw (no_digit_at_point (f ++ rest)) (by rw [hafter, List.append_assoc])
      (fun _ => hroom.mono (by omega)) (.of_step ?_)
    rw [if_pos rfl, Nat.zero_add]
    show EndsIn o _ (if (behind (sign ++ w) .point _).sees _ ['.'] then _ else _ : Scanner) _
    rw [sees_cons hascii hafter (List.mem_singleton.mpr rfl), if_pos rfl,
      advance_behind hascii (List.mem_singleton.mpr rfl)]
    exact endsIn_digits hf (fun c hc => (hparted.stop hc).1)
      (hafter.trans (List.append_cons _ _ _)) (fun _ => hroom) h

/-- **Too many digits in the mantissa part**: a program with checks stops there. -/
theorem halts_mantissa {sign part : Text} (hparted : Parted raw sign part rest)
    (hover : Nat.pow 2 31 ≤ part.countP Char.isDigit) :
    EndsIn .stops (Utf8.encode raw) (behind sign (.digits true .point) 0) .halted := by
  have hascii : Utf8.isAscii ['.'] = true := by decide
  have hraw := hparted.spelled
  rcases hparted.mantissa.cases with hall | ⟨w, f, rfl, hw, hf⟩
  · rw [List.countP_eq_length.mpr hall] at hover
    exact halts_digits hall hraw (by decide) (by omega)
  · have hafter : raw = (sign ++ w) ++ '.' :: (f ++ rest) := by
      rw [hraw, List.append_assoc, List.append_assoc, List.cons_append]
    have hbefore : raw = sign ++ (w ++ '.' :: (f ++ rest)) := by rw [hafter, List.append_assoc]
    rw [hw.countP_pointed hf] at hover
    by_cases hroom : w.length < Nat.pow 2 31
    · refine endsIn_digits hw (no_digit_at_point (f ++ rest)) hbefore
        (fun _ _ => by omega) (.of_step ?_)
      rw [if_pos rfl, Nat.zero_add]
      show EndsIn .stops _ (if (behind (sign ++ w) .point _).sees _ ['.'] then _ else _ : Scanner) _
      rw [sees_cons hascii hafter (List.mem_singleton.mpr rfl), if_pos rfl,
        advance_behind hascii (List.mem_singleton.mpr rfl)]
      exact halts_digits hf (hafter.trans (List.append_cons _ _ _)) hroom hover
    · exact halts_digits hw hbefore (by decide) (by omega)

/-- **What stands behind the mantissa part** is gone over, and the verdict is found. -/
theorem endsIn_ending (hraw : raw = before ++ rest) (h : Ending rest found) :
    EndsIn o (Utf8.encode raw) (behind before .mark k) (.stopped found) := by
  have hletters : Utf8.isAscii ['e', 'E'] = true := by decide
  have hmem : ∀ {d}, d ∈ ['e', 'E'] ↔ IsExponentMark d := by simp [IsExponentMark]
  refine .of_step ?_
  show EndsIn o _ (if (behind before .mark _).sees _ ['e', 'E'] then _ else _ : Scanner) _
  cases h with
  | finished =>
    rw [not_sees hletters hraw fun _ => nofun, if_neg Bool.false_ne_true]
    exact endsIn_finish hraw
  | @stray c more hc =>
    have hnone : ∀ d, (c :: more).head? = some d → d ∉ ['e', 'E'] := fun d hd => by
      rwa [← Option.some.inj hd, hmem]
    rw [not_sees hletters hraw hnone, if_neg Bool.false_ne_true]
    exact endsIn_finish hraw
  | @exponent mark after sign digits left negative hmark hsigned hdigits hleft =>
    have hafter : raw = (before ++ [mark]) ++ after := by rw [hraw, ← List.append_cons]
    have hbehind : raw = (before ++ [mark] ++ sign) ++ (digits ++ left) := by
      rw [hafter, hsigned.spelled, List.append_assoc (before ++ [mark])]
    rw [sees_cons hletters hraw (hmem.mpr hmark), if_pos rfl,
      advance_behind hletters (hmem.mpr hmark)]
    refine .of_step ?_
    show EndsIn o _ (((behind (before ++ [mark]) .exponentSign _).skip _ ['+', '-']).enter
      (.digits false (.exponent ((behind (before ++ [mark]) .exponentSign _).skip _ ['+', '-']).index))) _
    rw [skip_behind hafter hsigned]
    refine endsIn_digits hdigits hleft hbehind nofun (.of_step ?_)
    show EndsIn o _ ((behind (before ++ [mark] ++ sign ++ digits) _ _).enter
      (if (Utf8.encode (before ++ [mark] ++ sign ++ digits)).length =
        (Utf8.encode (before ++ [mark] ++ sign)).length then .stopped _ else .finish)) _
    -- the index is still where the exponent began exactly if there was no digit
    by_cases hempty : digits = []
    · rw [if_pos (Utf8.length_encode_append_eq_iff.mpr hempty).symm, if_pos hempty]
      exact .of_fixed rfl
    · rw [if_neg fun heq => hempty (Utf8.length_encode_append_eq_iff.mp heq.symm), if_neg hempty]
      exact endsIn_finish (hbehind.trans (List.append_assoc _ _ _).symm)

end Behind

/-! ## The verdict -/

/-- A program gets through the mantissa part if it can count that far.  It ends with the verdict of the
    checker, unless the word has wrapped around to nothing. -/
theorem endsIn_stopped {raw sign part rest : Text} {o : Overflow} (hparted : Parted raw sign part rest)
    (hroom : o.Reaches (part.countP Char.isDigit)) :
    EndsIn o (Utf8.encode raw) {}
      (.stopped (if Int32.size ∣ part.countP Char.isDigit then some .noDigits else fault? raw)) := by
  obtain ⟨negative, hsigned⟩ := hparted.signed
  refine .of_step ?_
  show EndsIn o _ (((behind [] .sign 0).skip _ ['+', '-']).enter (.digits true .point)) _
  rw [skip_behind (List.nil_append raw).symm hsigned, List.nil_append]
  refine endsIn_mantissa hparted hroom (.of_step ?_)
  show EndsIn o _ ((behind (sign ++ part) _ _).enter
    (if Int32.ofNat (part.countP Char.isDigit) = 0 then .stopped _ else .mark)) _
  by_cases hempty : Int32.size ∣ part.countP Char.isDigit
  · rw [if_pos (Overflow.ofNat_eq_zero_iff.mpr hempty), if_pos hempty]
    exact .of_fixed rfl
  · have hdigit : ¬Digitless part := fun hless =>
      hempty (digitless_iff_countP.mp hless ▸ Nat.dvd_zero _)
    obtain ⟨found, hending⟩ := exists_ending rest
    rw [if_neg fun hzero => hempty (Overflow.ofNat_eq_zero_iff.mp hzero), if_neg hempty,
      fault?_of_ending hparted hdigit hending]
    exact endsIn_ending (hparted.spelled.trans (List.append_assoc _ _ _).symm) hending

/-- **The verdict** of the scanner is that of the checker as long as its count does not overflow. -/
theorem endsIn_fault? {raw sign part rest : Text} (hparted : Parted raw sign part rest)
    (hfew : part.countP Char.isDigit < Nat.pow 2 31) (o : Overflow) :
    EndsIn o (Utf8.encode raw) {} (.stopped (fault? raw)) := by
  have hends := endsIn_stopped hparted (o := o) fun _ => hfew
  by_cases hempty : Int32.size ∣ part.countP Char.isDigit
  · have hlt := Nat.lt_trans hfew (show Nat.pow 2 31 < Int32.size by decide)
    have hless : Digitless part := digitless_iff_countP.mpr (Nat.eq_zero_of_dvd_of_lt hempty hlt)
    rw [if_pos hempty] at hends
    rwa [fault?_of_digitless hparted hless]
  · rwa [if_neg hempty] at hends

/-- A program with checks stops at the digit that it cannot count. -/
theorem endsIn_halted {raw sign part rest : Text} (hparted : Parted raw sign part rest)
    (hmany : Nat.pow 2 31 ≤ part.countP Char.isDigit) :
    EndsIn .stops (Utf8.encode raw) {} .halted := by
  obtain ⟨negative, hsigned⟩ := hparted.signed
  refine .of_step ?_
  show EndsIn .stops _ (((behind [] .sign 0).skip _ ['+', '-']).enter (.digits true .point)) _
  rw [skip_behind (List.nil_append raw).symm hsigned, List.nil_append]
  exact halts_mantissa hparted hmany

end Scanner
end Numeral

/-! ## All of it -/

/-- **Float literals are checked exactly.**  There is one way to part the text into a sign, a mantissa
    part and a rest; by these, what is no literal is refused with an error that says what is wrong
    with it.  The scanner finds the same as long as its count does not overflow, and its index never
    passes the end; integers without a mark are accepted. -/
theorem floats_checked_exactly (raw expected : Text) :
    ∃ sign part rest, (∀ other piece left, Parted raw other piece left ↔
        other = sign ∧ piece = part ∧ left = rest) ∧
      ChecksExactly expected raw part rest (expecting raw expected (Numeral.scan raw)) ∧
      (part.countP Char.isDigit < Nat.pow 2 31 →
        ∀ o, Numeral.Scanner.EndsIn o (Utf8.encode raw) {} (.stopped (Numeral.fault? raw))) ∧
      (∀ o n, (Numeral.Scanner.run o (Utf8.encode raw) n {}).index ≤ (Utf8.encode raw).length) ∧
      ∀ n, readPlainInteger raw = .ok n → ¬HasRadixMark raw →
        ∃ x, expecting raw expected (Numeral.scan raw) = .ok x := by
  obtain ⟨sign, part, rest, hparted⟩ := exists_parted raw
  have hexact := hparted.checksExactly expected
  refine ⟨sign, part, rest, fun other piece left => ⟨hparted.unique, ?_⟩, hexact,
    Numeral.Scanner.endsIn_fault? hparted,
    fun o => Numeral.Scanner.index_run_le (Nat.zero_le _), fun n hread hmark => ?_⟩
  · rintro ⟨rfl, rfl, rfl⟩
    exact hparted
  · exact hexact.accepts.mpr (float_of_readPlainInteger hread hmark)

/-- An integer with a sign and no mark. -/
theorem floats_checked_exactly_sample :
    readPlainInteger "-12".toList = .ok (-12) ∧ ¬HasRadixMark "-12".toList ∧
      ∃ x, expecting "-12".toList "f32".toList (Numeral.scan "-12".toList) = .ok x := by
  have hread : readPlainInteger "-12".toList = .ok (-12) := rfl
  have hmark : ¬HasRadixMark "-12".toList := by
    rintro ⟨sign, negative, mark, radix, rest, hsign, hradix, hne, hraw⟩
    cases hsign <;> cases hradix <;> simp_all
  obtain ⟨_, _, _, -, -, -, -, hinteger⟩ := floats_checked_exactly "-12".toList "f32".toList
  exact ⟨hread, hmark, hinteger (-12) hread hmark⟩

/-- Zeros are a literal, and all of them are counted. -/
theorem literal_zeros {n : Nat} (hn : n ≠ 0) :
    FloatLiteral (List.replicate n '0') ∧ (List.replicate n '0').countP Char.isDigit = n ∧
      Parted (List.replicate n '0') [] (List.replicate n '0') [] := by
  have hall := Text.allDigits_replicate n
  have hmantissa : Mantissa (List.replicate n '0') :=
    .whole ((not_congr (List.replicate_eq_nil_iff _)).mpr hn) hall
  have hspelled : List.replicate n '0' = [] ++ (List.replicate n '0' ++ []) := by
    rw [List.append_nil, List.nil_append]
  refine ⟨⟨[], false, _, [], .unsigned, hmantissa, .absent, hspelled⟩, ?_, ?_⟩
  · rw [List.countP_eq_length.mpr hall, List.length_replicate]
  · have hparted := parted_literal .unsigned hmantissa .absent
    rwa [← hspelled] at hparted

/-- **Zeros beyond counting.**  They are a literal, but a program with checks stops at 2^31 of them, and
    one without finds no digit in 2^32 of them. -/
theorem zeros_beyond_counting :
    (FloatLiteral (List.replicate (Nat.pow 2 31) '0') ∧
      Numeral.Scanner.EndsIn .stops (Utf8.encode (List.replicate (Nat.pow 2 31) '0')) {} .halted) ∧
    FloatLiteral (List.replicate Int32.size '0') ∧
      Numeral.Scanner.EndsIn .wraps (Utf8.encode (List.replicate Int32.size '0')) {}
        (.stopped (some .noDigits)) := by
  obtain ⟨hfirst, hfew, hpartedFew⟩ := literal_zeros (n := Nat.pow 2 31) (by decide)
  obtain ⟨hsecond, hmany, hpartedMany⟩ := literal_zeros (n := Int32.size) (by decide)
  refine ⟨⟨hfirst, Numeral.Scanner.endsIn_halted hpartedFew (Nat.le_of_eq hfew.symm)⟩, hsecond, ?_⟩
  have hends := Numeral.Scanner.endsIn_stopped hpartedMany (o := .wraps) nofun
  rwa [hmany, if_pos (Nat.dvd_refl _)] at hends

end IniFile
