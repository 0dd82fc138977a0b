/-
# `CallLang.Binary.Format` — binary number formats and rounding into them

A format is given by its precision, the exponent of its least positive number,
and the code of its infinity.  The code of a magnitude counts the magnitudes
below it, so order on codes is order on magnitudes, and the code of a number is
its bit pattern without the sign.  Magnitudes are measured in units of the
least positive number, where every one of them is an integer.

Rounding takes an exact quotient of integers to the nearest code, ties to even.
-/

namespace CallLang

/-- A binary format.  The least positive number is `2 ^ -scale`; numbers have
at most `precision` significant bits. -/
structure Format where
  precision : Nat
  scale : Nat
  infinity : Nat

/-- The 64-bit format. -/
def Format.binary64 : Format := ⟨53, 1074, 0x7ff0000000000000⟩

/-- The 32-bit format. -/
def Format.binary32 : Format := ⟨24, 149, 0x7f800000⟩

/-- The 16-bit format. -/
def Format.binary16 : Format := ⟨11, 24, 0x7c00⟩

/-- The integer nearest to `num / den`, ties to even. -/
def roundQuotient (num den : Nat) : Nat :=
  let floor := num / den
  let rest := num % den
  if 2 * rest < den then floor
  else if den < 2 * rest then floor + 1
  else floor + floor % 2

/-- The code of the number with `precision` significant bits that is nearest to
`num / den` units, ties to even.  The range of exponents is unbounded above.
A quotient of at least `2 ^ precision` units loses its last `drop` bits. -/
def nearestCode (precision num den : Nat) : Nat :=
  let drop := (num / den).log2 + 1 - precision
  drop * Nat.pow 2 (precision - 1) + roundQuotient num (den * Nat.pow 2 drop)

/-- What becomes of results below the least normal number: they are rounded to
a subnormal number, or flushed to zero. -/
inductive Underflow
  | gradual
  | flushed
  deriving DecidableEq, Repr

namespace Format

/-- The code of the least normal number. -/
def leastNormal (F : Format) : Nat :=
  Nat.pow 2 (F.precision - 1)

/-- How many units make one. -/
def one (F : Format) : Nat :=
  Nat.pow 2 F.scale

/-- The magnitude with a finite code, in units of the least positive number. -/
def units (F : Format) (code : Nat) : Nat :=
  if code < F.leastNormal then code
  else (F.leastNormal + code % F.leastNormal) * Nat.pow 2 (code / F.leastNormal - 1)

/-- The code nearest to `num / den` units.  What rounds past the greatest
finite number is infinite.  Whether a result is flushed is decided after it is
rounded to full precision, one bit below the least unit. -/
def round (F : Format) (u : Underflow) (num den : Nat) : Nat :=
  match u with
  | .gradual => min (nearestCode F.precision num den) F.infinity
  | .flushed =>
    let fine := nearestCode F.precision (2 * num) den
    if fine < 2 * F.leastNormal then 0 else min (fine - F.leastNormal) F.infinity

theorem round_le_infinity (F : Format) (u : Underflow) (num den : Nat) :
    F.round u num den ≤ F.infinity := by
  cases u with
  | gradual => exact Nat.min_le_right _ _
  | flushed =>
    simp only [round]
    split
    · exact Nat.zero_le _
    · exact Nat.min_le_right _ _

/-- The code of a magnitude with a subnormal one taken as zero. -/
def flush (F : Format) (code : Nat) : Nat :=
  if code < F.leastNormal then 0 else code

theorem flush_le (F : Format) (code : Nat) : F.flush code ≤ code := by
  unfold flush
  split
  · exact Nat.zero_le _
  · exact Nat.le_refl _

end Format

end CallLang
