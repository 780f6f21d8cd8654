/-
  Overflow.

  Programs count in machine words.  What becomes of a program when a count no longer fits depends on
  how it was built: with checks it stops, without them the word wraps around and the program goes on.

  Sections and entries are numbered in unsigned words of 32 bits (`Document.settle`), and the check
  of float literals counts digits in a signed one (`Overflow.next`).

  Mathlib-free.
-/

namespace IniFile

/-- What a program does when a count does not fit in its word. -/
inductive Overflow where
  /-- It stops, as one built with checks does. -/
  | stops
  /-- It goes on with what is left in the word. -/
  | wraps
deriving DecidableEq, Repr

/-- One more in a signed word of 32 bits, if the program goes on. -/
def Overflow.next (o : Overflow) (n : Int32) : Option Int32 :=
  if o = .stops ∧ n = Int32.maxValue then none else some (n + 1)

/-- A program gets from 0 to a count in such a word. -/
def Overflow.Reaches (o : Overflow) (n : Nat) : Prop := o = .stops → n < Nat.pow 2 31

namespace Overflow

variable {o : Overflow} {m n : Nat}

theorem Reaches.mono (h : o.Reaches n) (hle : m ≤ n) : o.Reaches m := fun hstops =>
  Nat.lt_of_le_of_lt hle (h hstops)

theorem next_ofNat (h : o.Reaches (n + 1)) : o.next (Int32.ofNat n) = some (Int32.ofNat (n + 1)) := by
  rw [next, if_neg, Int32.ofNat_add]
  · rfl
  · rintro ⟨hstops, hmax⟩
    have hlt : n + 1 < 2147483648 := h hstops
    have hbits := congrArg (fun w : Int32 => w.toBitVec.toNat) hmax
    simp [Int32.maxValue] at hbits
    omega

theorem next_last : Overflow.stops.next (Int32.ofNat (Nat.pow 2 31 - 1)) = none := by decide

/-- The word is empty again after every 2^32 counts. -/
theorem ofNat_eq_zero_iff : Int32.ofNat n = 0 ↔ Int32.size ∣ n := by
  rw [← Int32.toBitVec_inj, ← BitVec.toNat_inj, Nat.dvd_iff_mod_eq_zero]
  simp

end Overflow
end IniFile
