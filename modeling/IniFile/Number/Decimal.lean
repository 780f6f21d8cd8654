/-
  Decimal numbers and binary ones.

  A decimal number is a coefficient and a power of ten.  This file goes both ways:

  1. **Reading** — `Decimal.toBinary` rounds a decimal number to the nearest binary one.  Powers of
     ten far outside the format's range are settled without being computed.
  2. **Shortest form** — `Magnitude.shortest` is the decimal number with the FEWEST digits that
     reads back as the magnitude; of two such the nearer, and the greater one half-way between.
     The search drops as many digits of the exact decimal expansion as it can; dropping none always
     reads back, so it needs no other end.
  3. **Layout** — `Decimal.text` writes the digits in positional notation, never with an exponent.

  Mathlib-free.
-/
import IniFile.Number.Binary
import IniFile.Text.Basic

namespace IniFile

/-- The number `coefficient * 10 ^ exponent`. -/
structure Decimal where
  coefficient : Nat
  exponent : Int
deriving DecidableEq, Repr

/-! ## Reading -/

/-- The binary number nearest to a decimal one.  From `10 ^ limit ≥ 2 ^ (3 * limit)` a large
    exponent means infinity and a small one zero, whatever the coefficient's digits are. -/
def Decimal.toBinary (f : Format) (negative : Bool) (x : Decimal) : Binary f :=
  if x.coefficient = 0 then .zero f negative
  else
    match x.exponent with
    | .ofNat k =>
      if f.limit ≤ 3 * k then .infinite negative
      else .nearest f negative (x.coefficient * Nat.pow 10 k * f.one) 1
    | .negSucc k =>
      if x.coefficient.log2 + 2 + f.scale ≤ 3 * (k + 1) then .zero f negative
      else .nearest f negative (x.coefficient * f.one) (Nat.pow 10 (k + 1))

/-! ## The shortest form -/

namespace Magnitude

variable {f : Format}

/-- The exact decimal expansion of a magnitude, as a multiple of `10 ^ -scale`. -/
def expansion (x : Magnitude f) : Nat := x.quanta * Nat.pow 5 f.scale

/-- The decimal number `coefficient * 10 ^ dropped` on the grid of the exact expansion. -/
def onGrid (f : Format) (coefficient dropped : Nat) : Decimal :=
  ⟨coefficient, (dropped : Int) - f.scale⟩

/-- Does the decimal number read back as the magnitude? -/
def readsBack (x : Magnitude f) (d : Decimal) : Bool :=
  d.toBinary f false = .finite false x

/-- The decimal number that reads back as the magnitude and has its last `dropped` digits dropped,
    if there is one: the neighbour below or above, the nearer of the two when both do. -/
def candidate? (x : Magnitude f) (dropped : Nat) : Option Decimal :=
  let grid := Nat.pow 10 dropped
  let below := onGrid f (x.expansion / grid) dropped
  let above := onGrid f (x.expansion / grid + 1) dropped
  let rest := x.expansion % grid
  match x.readsBack below, x.readsBack above with
  | true, true => some (if 2 * rest < grid then below else above)
  | true, false => some below
  | false, true => some above
  | false, false => none

/-- The first candidate when at most `dropped` digits go. -/
def search (x : Magnitude f) : Nat → Decimal
  | 0 => onGrid f x.expansion 0
  | dropped + 1 => (x.candidate? (dropped + 1)).getD (x.search dropped)

/-- The **shortest** decimal number that reads back as the magnitude. -/
def shortest (x : Magnitude f) : Decimal :=
  x.search (Nat.toDigits 10 x.expansion).length

end Magnitude

/-! ## Positional notation -/

/-- The digits of a decimal number in positional notation. -/
def Decimal.text (x : Decimal) : Text :=
  let digits := Nat.toDigits 10 x.coefficient
  if x.coefficient = 0 then ['0']
  else
    match x.exponent with
    | .ofNat k => digits ++ List.replicate k '0'
    | .negSucc k =>
      let places := k + 1
      let padded := List.replicate (places + 1 - digits.length) '0' ++ digits
      padded.take (padded.length - places) ++ ['.'] ++ padded.drop (padded.length - places)

/-- The text of a number: its sign and its shortest digits. -/
def Binary.text {f : Format} : Binary f → Text
  | .finite negative x => (if negative then ['-'] else []) ++ x.shortest.text
  | .infinite negative => (if negative then ['-'] else []) ++ ['i', 'n', 'f']
  | .nan => ['N', 'a', 'N']

/-- The text of a number that also tells it from a whole one: when it holds only digits and a sign,
    `.0` follows. -/
def Binary.fractionText {f : Format} (x : Binary f) : Text :=
  if x.text.all fun c => c.isDigit || c = '-' then x.text ++ ['.', '0'] else x.text

example : ((⟨1, -1⟩ : Decimal).toBinary .double false).text = "0.1".toList := by decide +kernel
example : ((⟨5, -324⟩ : Decimal).toBinary .double true).isFinite = true := by decide +kernel
example : ((⟨1, 23⟩ : Decimal).toBinary .double false).fractionText
    = "100000000000000000000000.0".toList := by decide +kernel

end IniFile
