/-
  Binary floating-point numbers.

  A finite number of a format is a sign and a whole number of QUANTA, the format's least positive
  number `2 ^ -scale`.  The count of quanta is `mantissa * 2 ^ exponent` with a mantissa of at most
  `precision` bits, so that everything about a number is exact arithmetic on `Nat`:

  1. **Format** — `Format.single` and `Format.double`.
  2. **Numbers** — `Binary f`, with one pair (mantissa, exponent) for each magnitude.
  3. **Rounding** — `Binary.nearest` takes any quotient of quanta to the nearest number, a tie going
     to the even mantissa, and to infinity when no number of the format is large enough.

  Mathlib-free.
-/
namespace IniFile

/-! ## Formats -/

/-- A binary format: the mantissa has `precision` bits, the quantum is `2 ^ -scale`, and `top` is
    the greatest exponent over the quantum. -/
structure Format where
  precision : Nat
  scale : Nat
  top : Nat
deriving DecidableEq, Repr

/-- The format of thirty-two bits. -/
def Format.single : Format := ⟨24, 149, 253⟩

/-- The format of sixty-four bits. -/
def Format.double : Format := ⟨53, 1074, 2045⟩

/-- The first mantissa that is too large for the format. -/
def Format.mantissaEnd (f : Format) : Nat := Nat.pow 2 f.precision

/-- The number of quanta in one. -/
def Format.one (f : Format) : Nat := Nat.pow 2 f.scale

/-- The exponent of the first power of two that is too large for the format. -/
def Format.limit (f : Format) : Nat := f.top + f.precision - f.scale

/-! ## Numbers -/

/-- The one pair that stands for a magnitude: the mantissa fits, and it fills its bits unless the
    exponent is already the least one. -/
def Format.Canonical (f : Format) (mantissa exponent : Nat) : Prop :=
  mantissa < f.mantissaEnd ∧ (exponent = 0 ∨ f.mantissaEnd ≤ 2 * mantissa) ∧ exponent ≤ f.top

instance (f : Format) (mantissa exponent : Nat) : Decidable (f.Canonical mantissa exponent) :=
  inferInstanceAs (Decidable (_ ∧ (_ ∨ _) ∧ _))

/-- The size of a finite number. -/
structure Magnitude (f : Format) where
  mantissa : Nat
  exponent : Nat
  canonical : f.Canonical mantissa exponent
deriving DecidableEq, Repr

/-- The number of quanta in a magnitude. -/
def Magnitude.quanta {f : Format} (x : Magnitude f) : Nat := x.mantissa * Nat.pow 2 x.exponent

/-- A number of the format `f`: finite, infinite, or not a number. -/
inductive Binary (f : Format) where
  | finite (negative : Bool) (magnitude : Magnitude f)
  | infinite (negative : Bool)
  | nan
deriving DecidableEq, Repr

/-- Numbers of thirty-two bits. -/
abbrev Single := Binary .single

/-- Numbers of sixty-four bits. -/
abbrev Double := Binary .double

/-! ## Rounding -/

/-- The whole number nearest to `num / den`; half-way it is the even one. -/
def roundHalfEven (num den : Nat) : Nat :=
  let whole := num / den
  let rest := num % den
  if 2 * rest < den then whole
  else if den < 2 * rest then whole + 1
  else whole + whole % 2

namespace Binary

/-- A zero with its sign. -/
def zero (f : Format) (negative : Bool) : Binary f :=
  .finite negative ⟨0, 0, Nat.two_pow_pos _, .inl rfl, Nat.zero_le _⟩

/-- The number with this mantissa and exponent, or an infinity if the format has none. -/
def ofParts (f : Format) (negative : Bool) (mantissa exponent : Nat) : Binary f :=
  if h : f.Canonical mantissa exponent then .finite negative ⟨mantissa, exponent, h⟩
  else .infinite negative

/-- The number **nearest** to `num / den` quanta.  The exponent is the least one under which the
    whole part fits the mantissa; rounding up may carry into one bit more. -/
def nearest (f : Format) (negative : Bool) (num den : Nat) : Binary f :=
  let bits := (num / den).log2 + 1
  let exponent := bits - f.precision
  let mantissa := roundHalfEven num (den * Nat.pow 2 exponent)
  if mantissa = f.mantissaEnd then ofParts f negative (f.mantissaEnd / 2) (exponent + 1)
  else ofParts f negative mantissa exponent

/-- Neither infinite nor undefined. -/
def isFinite {f : Format} : Binary f → Bool
  | .finite .. => true
  | _ => false

/-- The same number in another format, rounded if the other format is too narrow. -/
def convert {f : Format} (g : Format) : Binary f → Binary g
  | .finite negative x => nearest g negative (x.quanta * g.one) f.one
  | .infinite negative => .infinite negative
  | .nan => .nan

/-- The number of the format nearest to a whole number. -/
def ofInt (f : Format) (n : Int) : Binary f :=
  nearest f (n < 0) (n.natAbs * f.one) 1

end Binary

example : Binary.ofInt .double 9007199254740993 = Binary.ofInt .double 9007199254740992 := by decide +kernel
example : (Binary.ofInt .single (Nat.pow 2 128)).isFinite = false := by decide +kernel

end IniFile
