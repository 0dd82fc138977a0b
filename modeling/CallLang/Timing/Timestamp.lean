/-
# `CallLang.Timing.Timestamp` — a moment as text

A moment is counted in seconds from the start of 1970 and written as date and
time of day in one word, `YYYYMMDDThhmmssZ`.
-/
import CallLang.Decimal.Layout

namespace CallLang

/-- The date of a day counted from the start of 1970.  Years are taken to begin
in March, so that the leap day ends one; five months have 153 days. -/
def civilDate (day : Int) : Int × Int × Int :=
  let shifted := day + 719468
  let era := shifted / 146097
  let dayOfEra := shifted % 146097
  let yearOfEra := (dayOfEra - dayOfEra / 1460 + dayOfEra / 36524 - dayOfEra / 146096) / 365
  let dayOfYear := dayOfEra - (365 * yearOfEra + yearOfEra / 4 - yearOfEra / 100)
  let marchMonth := (5 * dayOfYear + 2) / 153
  let dayOfMonth := dayOfYear - (153 * marchMonth + 2) / 5 + 1
  let month := if marchMonth < 10 then marchMonth + 3 else marchMonth - 9
  let year := yearOfEra + era * 400 + (if month ≤ 2 then 1 else 0)
  (year, month, dayOfMonth)

/-- A number in a width, filled up with zeros. -/
def zeroFilled (width : Nat) (n : Int) : String :=
  String.ofList (padLeft width '0' (digitChars n.toNat))

/-- A moment as one word. -/
def utcStamp (seconds : Int) : String :=
  let (year, month, day) := civilDate (seconds / 86400)
  let time := seconds % 86400
  zeroFilled 4 year ++ zeroFilled 2 month ++ zeroFilled 2 day ++ "T"
    ++ zeroFilled 2 (time / 3600) ++ zeroFilled 2 (time / 60 % 60) ++ zeroFilled 2 (time % 60)
    ++ "Z"

end CallLang
