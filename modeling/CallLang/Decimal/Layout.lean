/-
# `CallLang.Decimal.Layout` — how decimals are laid out as text

A decimal is written positionally while its leading digit is near the point,
and with an exponent otherwise.  A layout says where positional writing ends.
-/
import CallLang.Decimal.Shortest

namespace CallLang

/-- Where positional writing ends: it covers leading digits from `10 ^ least`
up to, and excluding, `10 ^ limit`.  With `pointZero` an integral number in
positional writing gets ".0" behind it. -/
structure Layout where
  least : Int
  limit : Int
  pointZero : Bool

/-- The layout of shortest decimals. -/
def Layout.plain : Layout := ⟨-4, 16, true⟩

/-- The layout of decimals rounded to `digits` digits. -/
def Layout.general (digits : Nat) : Layout := ⟨-4, digits, false⟩

namespace Layout

/-- Digits `ds` with the leading one at `10 ^ lead`, written positionally. -/
def positional (l : Layout) (ds : List Char) (lead : Int) : List Char :=
  if lead < 0 then
    '0' :: '.' :: (List.replicate (lead.natAbs - 1) '0' ++ ds)
  else
    let whole := lead.toNat + 1
    if ds.length ≤ whole then
      ds ++ List.replicate (whole - ds.length) '0' ++ (if l.pointZero then ['.', '0'] else [])
    else ds.take whole ++ '.' :: ds.drop whole

/-- Digits `ds` with the leading one at `10 ^ lead`, written with an exponent of
at least two digits. -/
def scientific (ds : List Char) (lead : Int) : List Char :=
  let mantissa := match ds with
    | [] => []
    | [d] => [d]
    | d :: rest => d :: '.' :: rest
  mantissa ++ 'e' :: (if lead < 0 then '-' else '+') :: padLeft 2 '0' (digitChars lead.natAbs)

/-- The text of a positive decimal. -/
def write (l : Layout) (d : Decimal) : List Char :=
  let all := digitChars d.significand
  let lead := d.exponent + (all.length : Int) - 1
  let ds := stripZeros all
  if l.least ≤ lead ∧ lead < l.limit then l.positional ds lead else scientific ds lead

end Layout

/-! ## Fixed places -/

/-- The quotient `num / den` rounded to `places` places behind the point, ties
to even. -/
def fixedPlaces (places num den : Nat) : List Char :=
  let ds := padLeft (places + 1) '0' (digitChars (roundQuotient (num * Nat.pow 10 places) den))
  let whole := ds.length - places
  ds.take whole ++ '.' :: ds.drop whole

/-! ## Numbers -/

namespace Binary

variable {F : Format}

/-- The integer that a number is equal to, if there is one. -/
def integer? : Binary F → Option Int
  | .nan => none
  | .signed s c =>
    if c.val = F.infinity then none
    else if F.units c.val % F.one = 0 then
      some (if s then -((F.units c.val / F.one : Nat) : Int) else (F.units c.val / F.one : Nat))
    else none

/-- The shortest text that reads back as the number; integral ones end in
".0". -/
def shortestText : Binary F → String
  | .nan => "nan"
  | .signed s c =>
    String.ofList <| withSign s <|
      if c.val = F.infinity then "inf".toList
      else if c.val = 0 then "0.0".toList
      else Layout.plain.write (.shortest F c.val)

/-- The number rounded to `digits` digits, without trailing zeros. -/
def generalText (digits : Nat) : Binary F → String
  | .nan => "nan"
  | .signed s c =>
    String.ofList <| withSign s <|
      if c.val = F.infinity then "inf".toList
      else if c.val = 0 then "0".toList
      else (Layout.general digits).write (.rounded digits (F.units c.val) F.one)

/-- The number with `places` places behind the point, filled up to a width with
spaces. -/
def fixedText (width places : Nat) : Binary F → String
  | .nan => String.ofList (padLeft width ' ' "nan".toList)
  | .signed s c =>
    String.ofList <| padLeft width ' ' <| withSign s <|
      if c.val = F.infinity then "inf".toList
      else fixedPlaces places (F.units c.val) F.one

end Binary

end CallLang
