/-
# `CallLang.Decimal.Shortest` — between decimal and binary

Reading a decimal rounds it correctly.  Writing a binary number finds the
decimal with the fewest digits that reads back as that number: for one digit,
two digits and so on, the two neighbours of the number on the decimal grid are
read back; of two that do, the nearer is taken, and of two equally near the one
with the even last digit.
-/
import CallLang.Binary.Arithmetic
import CallLang.Decimal.Digits

namespace CallLang

/-- The number `significand * 10 ^ exponent`. -/
structure Decimal where
  significand : Nat
  exponent : Int
  deriving DecidableEq, Repr

/-- The exponent of the leading decimal digit of the positive quotient
`num / den`. -/
def decade (num den : Nat) : Int :=
  if den ≤ num then (decimalLength (num / den) : Int) - 1
  else -(decimalLength ((den + num - 1) / num - 1) : Int)

/-- The quotient `num / den` counted in units of `10 ^ exponent`. -/
def inDecimalUnits (num den : Nat) (exponent : Int) : Nat × Nat :=
  if exponent < 0 then (num * Nat.pow 10 exponent.natAbs, den)
  else (num, den * Nat.pow 10 exponent.natAbs)

namespace Decimal

/-- A decimal as a quotient of two integers. -/
def quotient (d : Decimal) : Nat × Nat :=
  if d.exponent < 0 then (d.significand, Nat.pow 10 d.exponent.natAbs)
  else (d.significand * Nat.pow 10 d.exponent.natAbs, 1)

/-- The code nearest to a decimal. -/
def code (F : Format) (d : Decimal) : Nat :=
  F.round .gradual (d.quotient.1 * F.one) d.quotient.2

/-- The decimal with `digits` digits nearest to the positive quotient
`num / den`, ties to even. -/
def rounded (digits num den : Nat) : Decimal :=
  let exponent := decade num den - ((digits : Int) - 1)
  let x := inDecimalUnits num den exponent
  ⟨roundQuotient x.1 x.2, exponent⟩

/-! ## Fewest digits -/

/-- The decimal with `digits` digits that reads back as `code`, if one of the
two neighbours of the number on that grid does. -/
def candidate? (F : Format) (code digits : Nat) : Option Decimal :=
  let num := F.units code
  let den := F.one
  let exponent := decade num den - ((digits : Int) - 1)
  let x := inDecimalUnits num den exponent
  let below : Decimal := ⟨x.1 / x.2, exponent⟩
  let above : Decimal := ⟨x.1 / x.2 + 1, exponent⟩
  if below.code F = code then
    if above.code F = code then some ⟨roundQuotient x.1 x.2, exponent⟩ else some below
  else if above.code F = code then some above
  else none

/-- The number with a finite code, written out exactly. -/
def exact (F : Format) (code : Nat) : Decimal :=
  ⟨F.units code * Nat.pow 5 F.scale, -(F.scale : Int)⟩

/-- The decimal with the fewest digits, at most 17, that reads back as `code`. -/
def shortest (F : Format) (code : Nat) : Decimal :=
  ((List.range 17).findSome? fun i => candidate? F code (i + 1)).getD (exact F code)

/-! ## Reading -/

/-- The 64-bit number nearest to a decimal, with a sign.  The bounds keep the
powers of ten small: a positive number times `10 ^ 342` is past the greatest
finite number, and one with `b` bits divided by `10 ^ e` rounds to zero once
`3 * e` exceeds `b` by 1076. -/
def toBinary (negative : Bool) (d : Decimal) : Binary Format.binary64 :=
  if d.significand = 0 then .zero negative
  else if 342 ≤ d.exponent then .infinite negative
  else if d.significand.log2 + 1 + 1076 ≤ -3 * d.exponent then .zero negative
  else .ofQuotient .gradual negative (d.quotient.1 * Format.binary64.one) d.quotient.2

end Decimal

end CallLang
