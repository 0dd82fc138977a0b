/-
# `CallLang.Numeral` — the grammar of number texts

    numeral  ::=  '-'? ( digits ( '.' digits? )? | '.' digits ) exponent?
    exponent ::=  ( 'e' | 'E' ) ( '+' | '-' )? digits

with ASCII digits only.  A number text is a numeral, or a numeral followed by
one line feed.  A numeral without point and exponent denotes an integer.
-/
import CallLang.Decimal.Digits

namespace CallLang

/-- A text without its one final line feed, if it has one. -/
def dropFinalNewline (cs : List Char) : List Char :=
  if cs.getLast? = some '\n' then cs.dropLast else cs

/-! ## Numerals -/

/-- The exponent part of a numeral. -/
structure ExponentPart where
  negative : Bool
  digits : List Char
  deriving DecidableEq, Repr

/-- Splits off a minus or a plus sign; the answer says whether it is a minus. -/
def readEitherSign : List Char → Bool × List Char
  | '-' :: cs => (true, cs)
  | '+' :: cs => (false, cs)
  | cs => (false, cs)

/-- A numeral, by its parts.  `fraction` is `some []` when a point stands
there with no digit behind it. -/
structure Numeral where
  negative : Bool
  whole : List Char
  fraction : Option (List Char)
  exponent : Option ExponentPart
  deriving DecidableEq, Repr

namespace Numeral

/-- Splits off a minus sign. -/
def readSign : List Char → Bool × List Char
  | '-' :: cs => (true, cs)
  | cs => (false, cs)

/-- Splits off a point and the digits behind it. -/
def readFraction : List Char → Option (List Char) × List Char
  | '.' :: cs => (some (cs.takeWhile isDigit), cs.dropWhile isDigit)
  | cs => (none, cs)

/-- Reads what follows the mark of an exponent: a sign at will and at least
one digit, up to the end. -/
def readExponentPart? (cs : List Char) : Option ExponentPart :=
  let (negative, digits) := readEitherSign cs
  if digits ≠ [] ∧ digits.all isDigit then some ⟨negative, digits⟩ else none

/-- Reads the end of a numeral: nothing, or an exponent. -/
def readExponent? : List Char → Option (Option ExponentPart)
  | [] => some none
  | 'e' :: cs => (readExponentPart? cs).map some
  | 'E' :: cs => (readExponentPart? cs).map some
  | _ => none

/-- Reads a numeral that takes up the whole text.  At least one digit stands
before the exponent. -/
def read? (cs : List Char) : Option Numeral := do
  let (negative, cs) := readSign cs
  let whole := cs.takeWhile isDigit
  let (fraction, cs) := readFraction (cs.dropWhile isDigit)
  if whole = [] ∧ fraction.getD [] = [] then none
  let exponent ← readExponent? cs
  some ⟨negative, whole, fraction, exponent⟩

/-- Reads a number text: a numeral with at most one line feed behind it. -/
def ofText? (text : String) : Option Numeral :=
  read? (dropFinalNewline text.toList)

/-- A numeral without point and exponent denotes an integer. -/
def isInteger (n : Numeral) : Bool :=
  n.fraction.isNone && n.exponent.isNone

/-- The integer that the digits before the point denote, with the sign. -/
def toInt (n : Numeral) : Int :=
  if n.negative then -(digitsValue n.whole : Int) else digitsValue n.whole

/-- All digits before the exponent. -/
def significant (n : Numeral) : List Char :=
  n.whole ++ n.fraction.getD []

/-- The power of ten that scales the last of the `significant` digits. -/
def scale (n : Numeral) : Int :=
  let written : Int := match n.exponent with
    | none => 0
    | some ⟨negative, digits⟩ =>
      if negative then -(digitsValue digits : Int) else digitsValue digits
  written - (n.fraction.getD []).length

end Numeral

/-- Whether a text is a number text. -/
def isNumberText (text : String) : Bool :=
  (Numeral.ofText? text).isSome

end CallLang
