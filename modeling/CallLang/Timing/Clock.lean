/-
# `CallLang.Timing.Clock` — sampling times from readings of a clock

A clock gives one reading in nanoseconds after another.  A sample reads it
before and after a number of calls and divides what has elapsed by that number.
-/
import CallLang.Timing.Stats

namespace CallLang

/-- A clock with given readings, which start over at the end; `next` readings
have been taken. -/
structure Clock where
  ticks : List Int
  next : Nat := 0

/-- Takes a reading. -/
def Clock.read (c : Clock) : Int × Clock :=
  (c.ticks.getD (c.next % c.ticks.length) 0, { c with next := c.next + 1 })

/-- Mean milliseconds per call, given the nanoseconds that elapsed. -/
def millisPerCall (elapsed calls : Int) : Except StatsError Real64 :=
  if calls = 0 then .error .divisionByZero
  else .ok (.div .gradual (Real64.ofRatio elapsed calls) (.ofInt 1000000))

/-- Takes samples of `calls` calls each. -/
def Clock.sample (calls : Int) (c : Clock) : Nat → Except StatsError (List Real64 × Clock)
  | 0 => .ok ([], c)
  | samples + 1 => do
    let (start, c) := c.read
    let (stop, c) := c.read
    let time ← millisPerCall (stop - start) calls
    let (times, c) ← c.sample calls samples
    .ok (time :: times, c)

/-- How many calls are made in all; a count below zero counts as none. -/
def totalCalls (calls samples : Int) : Nat :=
  calls.toNat * samples.toNat

end CallLang
