/-
# `CallLang.Timing.Stats` — means and percentiles of measured times

Times are 64-bit floating numbers, and every operation on them rounds once.
Sums run from left to right.  A percentile lies between two neighbours of the
ordered row; an index below zero counts from the end.
-/
import CallLang.Binary.Arithmetic
import CallLang.Sort.Runs

namespace CallLang

/-- A measured time, or a number computed from some. -/
abbrev Real64 : Type := Binary Format.binary64

/-- Why a row of times has no such number. -/
inductive StatsError
  | divisionByZero
  | indexNotANumber
  | indexInfinite
  | indexOutOfRange
  deriving DecidableEq, Repr

/-- The text of the report. -/
def StatsError.message : StatsError → String
  | .divisionByZero => "division by zero"
  | .indexNotANumber => "cannot convert float NaN to integer"
  | .indexInfinite => "cannot convert float infinity to integer"
  | .indexOutOfRange => "list index out of range"

namespace Real64

/-- Whether one time is less than another; "not a number" is not. -/
def lt (x y : Real64) : Bool :=
  match x.rank?, y.rank? with
  | some m, some n => m < n
  | _, _ => false

/-- The greatest integer that is not above a number. -/
def floor (x : Real64) : Except StatsError Int :=
  match x with
  | .nan => .error .indexNotANumber
  | .signed s c =>
    if c.val = Format.binary64.infinity then .error .indexInfinite
    else .ok (Binary.signedUnits (F := .binary64) s c.val / Format.binary64.one)

/-- The least integer that is not below a number. -/
def ceil (x : Real64) : Except StatsError Int :=
  (floor x.neg).map (- ·)

/-- The number nearest to a quotient of two integers.  A zero quotient has the
sign of the divisor. -/
def ofRatio (num den : Int) : Real64 :=
  .ofQuotient .gradual ((num < 0) != (den < 0)) (num.natAbs * Format.binary64.one) den.natAbs

end Real64

/-! ## Numbers of a row -/

/-- The mean of a row. -/
def mean (values : List Real64) : Except StatsError Real64 :=
  if values = [] then .error .divisionByZero
  else .ok (.div .gradual (values.foldl (.add .gradual) (.zero false)) (.ofInt values.length))

/-- The element at an index; an index below zero counts from the end. -/
def elementAt (values : List Real64) (index : Int) : Except StatsError Real64 :=
  let place := if index < 0 then index + values.length else index
  if place < 0 then .error .indexOutOfRange
  else match values[place.toNat]? with
    | some x => .ok x
    | none => .error .indexOutOfRange

/-- The percentile `q` of a row, interpolated between the two neighbours of its
place. -/
def percentile (values : List Real64) (q : Real64) : Except StatsError Real64 :=
  match orderedRow Real64.lt values with
  | [x] => .ok x
  | ordered => do
    let place : Real64 := .mul .gradual (.ofInt ((ordered.length : Int) - 1)) q
    let low ← place.floor
    let high ← place.ceil
    if low = high then elementAt ordered low
    else
      let weight : Real64 := .sub .gradual place (.ofInt low)
      let x ← elementAt ordered low
      let y ← elementAt ordered high
      .ok (.add .gradual (.mul .gradual x (.sub .gradual (.ofInt 1) weight))
        (.mul .gradual y weight))

/-- The first least element of a row. -/
def least (first : Real64) (rest : List Real64) : Real64 :=
  rest.foldl (fun best x => if x.lt best then x else best) first

/-- The first greatest element of a row. -/
def greatest (first : Real64) (rest : List Real64) : Real64 :=
  rest.foldl (fun best x => if best.lt x then x else best) first

end CallLang
