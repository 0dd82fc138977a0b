/-
# `CallLang.Sort.Runs` — ordering a row by its runs

A row is cut into runs that are ordered already, or fall all the way and are
reversed.  A short run is filled up by insertion.  Runs are merged with their
neighbours so that merges stay balanced: a boundary between two runs has a
depth, the first binary digit in which their middles differ as parts of the
whole row, and deeper boundaries are merged first.  Equal elements keep their
order.
-/
import CallLang.Sort.Merge

namespace CallLang

variable {α : Type}

/-! ## Cutting off a run -/

/-- Splits off the longest run behind `last` in which each element follows the
one before it. -/
def splitRun (follows : α → α → Bool) (last : α) : List α → List α × List α
  | [] => ([], [])
  | x :: xs =>
    if follows last x then
      let (run, rest) := splitRun follows x xs
      (x :: run, rest)
    else ([], x :: xs)

theorem length_splitRun_le (follows : α → α → Bool) (last : α) (xs : List α) :
    (splitRun follows last xs).2.length ≤ xs.length := by
  induction xs generalizing last with
  | nil => exact Nat.le_refl _
  | cons x xs ih =>
    unfold splitRun
    split
    · exact Nat.le_succ_of_le (ih x)
    · exact Nat.le_refl _

/-- The run at the start of a row, in order, and what is behind it. -/
def leadingRun (lt : α → α → Bool) : List α → List α × List α
  | [] => ([], [])
  | [x] => ([x], [])
  | x :: y :: rest =>
    if lt y x then
      let (run, others) := splitRun (fun a b => lt b a) y rest
      ((x :: y :: run).reverse, others)
    else
      let (run, others) := splitRun (fun a b => !lt b a) y rest
      (x :: y :: run, others)

theorem length_leadingRun_le (lt : α → α → Bool) (x : α) (xs : List α) :
    (leadingRun lt (x :: xs)).2.length ≤ xs.length := by
  cases xs with
  | nil => exact Nat.le_refl _
  | cons y rest =>
    simp only [leadingRun]
    split <;> exact Nat.le_succ_of_le (length_splitRun_le _ _ _)

/-- The run at the start of a row, filled up to at least `least` elements as far
as there are any. -/
def filledRun (lt : α → α → Bool) (least : Nat) (xs : List α) : List α × List α :=
  let (run, others) := leadingRun lt xs
  let lacking := least - run.length
  ((others.take lacking).foldl (insertOrdered lt) run, others.drop lacking)

theorem length_filledRun_le (lt : α → α → Bool) (least : Nat) (x : α) (xs : List α) :
    (filledRun lt least (x :: xs)).2.length ≤ xs.length := by
  have := length_leadingRun_le lt x xs
  simp only [filledRun, List.length_drop]
  omega

/-- How many elements a run of a row of `total` elements has at least: all of
them in a short row, otherwise between 32 and 64, and such that the number of
runs is near a power of two. -/
def leastRun (total : Nat) : Nat :=
  let unit := Nat.pow 2 (total.log2 - 5)
  (total + unit - 1) / unit

/-! ## Merging runs -/

/-- A run of a row, where it starts, and the depth of the boundary behind it. -/
structure Run (α : Type) where
  start : Nat
  items : List α
  depth : Nat := 0

/-- The depth of the boundary between a run and one of `size` elements behind
it, in a row of `total` elements. -/
def Run.boundaryDepth (total : Nat) (r : Run α) (size : Nat) : Nat :=
  let middle := 2 * r.start + r.items.length
  let nextMiddle := middle + r.items.length + size
  ((List.range (total.log2 + 2)).find? fun digit =>
    middle * Nat.pow 2 digit / total ≠ nextMiddle * Nat.pow 2 digit / total).getD 0

/-- Merges the topmost of the waiting runs, as long as the boundary below the
top is deeper than `depth`. -/
def mergeDeeper (lt : α → α → Bool) (depth patience : Nat) : List (Run α) → List (Run α) × Nat
  | top :: next :: rest =>
    if depth < next.depth then
      let (items, patience) := mergeRuns lt patience next.items top.items
      mergeDeeper lt depth patience ({ next with items } :: rest)
    else (top :: next :: rest, patience)
  | waiting => (waiting, patience)
termination_by waiting => waiting.length

/-- Merges all waiting runs.  A run goes with the smaller of its neighbours. -/
def mergeAll (lt : α → α → Bool) (patience : Nat) : List (Run α) → List α
  | [] => []
  | [run] => run.items
  | [top, next] => (mergeRuns lt patience next.items top.items).1
  | top :: next :: below :: rest =>
    if below.items.length < top.items.length then
      let (items, patience) := mergeRuns lt patience below.items next.items
      mergeAll lt patience (top :: { below with items } :: rest)
    else
      let (items, patience) := mergeRuns lt patience next.items top.items
      mergeAll lt patience ({ next with items } :: below :: rest)
termination_by waiting => waiting.length

/-- Puts a run of items on top of the waiting runs, after the merges that are
due. -/
def addRun (lt : α → α → Bool) (total patience start : Nat) (items : List α)
    (waiting : List (Run α)) : List (Run α) × Nat :=
  match waiting with
  | [] => ([{ start, items }], patience)
  | top :: _ =>
    let depth := top.boundaryDepth total items.length
    match mergeDeeper lt depth patience waiting with
    | ([], patience) => ([{ start, items }], patience)
    | (top :: rest, patience) => ({ start, items } :: { top with depth } :: rest, patience)

/-- Cuts the rest of a row of `total` elements into runs and merges them with
those that wait. -/
def mergeFrom (lt : α → α → Bool) (total patience : Nat) (waiting : List (Run α)) :
    List α → List α
  | [] => mergeAll lt patience waiting
  | x :: xs =>
    have := length_filledRun_le lt (leastRun total) x xs
    let (waiting, patience) :=
      addRun lt total patience (total - (xs.length + 1))
        (filledRun lt (leastRun total) (x :: xs)).1 waiting
    mergeFrom lt total patience waiting (filledRun lt (leastRun total) (x :: xs)).2
termination_by xs => xs.length

/-- A row in order.  At first, merges are as patient as a stretch is long that
pays. -/
def orderedRow (lt : α → α → Bool) (xs : List α) : List α :=
  mergeFrom lt xs.length Merge.longStretch [] xs

end CallLang
