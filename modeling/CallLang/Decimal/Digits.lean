/-
# `CallLang.Decimal.Digits` — rows of decimal digits

Integers are read from and written to rows of ASCII digits, the first digit
weighing most.  Writing gives no digit in excess, so reading back what was
written gives the integer again (`digitsValue_digitChars`).
-/

namespace CallLang

/-- One of the ten ASCII digits. -/
def isDigit (c : Char) : Bool :=
  '0' ≤ c && c ≤ '9'

/-- The number that a row of digits denotes. -/
def digitsValue (ds : List Char) : Nat :=
  Nat.ofDigitChars 10 ds 0

/-- The digits of a number. -/
def digitChars (n : Nat) : List Char :=
  Nat.toDigits 10 n

/-- How many digits a number has. -/
def decimalLength (n : Nat) : Nat :=
  (digitChars n).length

theorem digitsValue_digitChars (n : Nat) : digitsValue (digitChars n) = n :=
  Nat.ofDigitChars_toDigits (by decide) (by decide)

/-- A row of digits without the zeros at its end. -/
def stripZeros (ds : List Char) : List Char :=
  (ds.reverse.dropWhile (· = '0')).reverse

/-- A row of characters with `fill` put before it up to the width. -/
def padLeft (width : Nat) (fill : Char) (cs : List Char) : List Char :=
  List.replicate (width - cs.length) fill ++ cs

/-- A row of characters behind the sign of a number. -/
def withSign (negative : Bool) (cs : List Char) : List Char :=
  if negative then '-' :: cs else cs

/-- The text of an integer. -/
def integerText (n : Int) : String :=
  String.ofList (withSign (n < 0) (digitChars n.natAbs))

end CallLang
