/-
# `CallLang.Sort.Search` — where a test stops to hold

A test may hold for the first elements of an ordered row and fail for the
others.  Halving a stretch of the row finds the place where it stops to hold;
longer and longer strides find a stretch that contains the place.  A row may be
searched from either end.  The places that are asked for are fixed, so a search
has one answer even in a row that is not ordered.
-/

namespace CallLang

/-- The end from which a row is searched and merged.  A row that is taken
backward is given with its last element first. -/
inductive Direction
  | forward
  | backward
  deriving DecidableEq, Repr

/-- The middle of `[l, r)`.  Of two middle places it is the one that stands
later in the row as it is written, not as it is given. -/
def Direction.middle : Direction → Nat → Nat → Nat
  | .forward, l, r => l + (r - l) / 2
  | .backward, l, r => l + (r - l - 1) / 2

theorem Direction.middle_mem (d : Direction) {l r : Nat} (h : l < r) :
    l ≤ d.middle l r ∧ d.middle l r < r := by
  cases d <;> simp only [middle] <;> omega

/-- The place in `[l, r)` at which a test stops to hold, found by halving. -/
def bisect (d : Direction) (holds : Nat → Bool) (l r : Nat) : Nat :=
  if h : l < r then
    have := d.middle_mem h
    if holds (d.middle l r) then bisect d holds (d.middle l r + 1) r
    else bisect d holds l (d.middle l r)
  else l
termination_by r - l

/-- Strides over a row of `n` elements while a test holds.  The answer is the
last place at which it was seen to hold, and the next one, at which it fails or
the row ends.  Each stride is about twice as long as the one before it. -/
def stride (holds : Nat → Bool) (n last next : Nat) : Nat × Nat :=
  if next < n then
    if holds next then stride holds n next (2 * next + 1) else (last, next)
  else (last, n)
termination_by n - next

/-- How many of the first elements of a row have a property. -/
def countLeading {α : Type} (d : Direction) (p : α → Bool) (xs : List α) : Nat :=
  let holds (i : Nat) : Bool := xs[i]?.any p
  if holds 0 then
    let (last, next) := stride holds xs.length 0 1
    bisect d holds (last + 1) next
  else 0

/-- Inserts an element into an ordered row, behind its equals. -/
def insertOrdered {α : Type} (lt : α → α → Bool) (xs : List α) (x : α) : List α :=
  xs.insertIdx (bisect .forward (fun i => xs[i]?.any (!lt x ·)) 0 xs.length) x

end CallLang
