/-
# `CallLang.Cache` — a least-recently-used memo

A cache holds the answers to the most recent requests, the latest first.  A
request that it can answer is a hit and becomes the latest; any other is a miss
and is computed.  Only computations that succeed are stored, and the oldest
answer makes room for a new one.
-/

namespace CallLang

/-- A cache of answers `α` under keys `κ`, with its counters. -/
structure Cache (κ α : Type) where
  capacity : Nat
  entries : List (κ × α) := []
  hits : Nat := 0
  misses : Nat := 0

namespace Cache

variable {κ α ε : Type} [BEq κ]

/-- The stored answer for a key. -/
def find? (c : Cache κ α) (k : κ) : Option α :=
  c.entries.lookup k

/-- Counts a hit and makes its answer the latest. -/
def touch (c : Cache κ α) (k : κ) (a : α) : Cache κ α :=
  { c with entries := (k, a) :: c.entries.filter (·.1 != k), hits := c.hits + 1 }

/-- Counts a miss. -/
def countMiss (c : Cache κ α) : Cache κ α :=
  { c with misses := c.misses + 1 }

/-- Stores an answer as the latest. -/
def store (c : Cache κ α) (k : κ) (a : α) : Cache κ α :=
  { c with entries := ((k, a) :: c.entries).take c.capacity }

/-- Answers a request from the cache, or by computing the answer. -/
def request (c : Cache κ α) (compute : κ → Except ε α) (k : κ) : Except ε α × Cache κ α :=
  match c.find? k with
  | some a => (.ok a, c.touch k a)
  | none =>
    match compute k with
    | .ok a => (.ok a, c.countMiss.store k a)
    | .error e => (.error e, c.countMiss)

/-- Forgets all answers and counts. -/
def clear (c : Cache κ α) : Cache κ α :=
  { capacity := c.capacity }

/-- How many answers are stored. -/
def size (c : Cache κ α) : Nat :=
  c.entries.length

end Cache

end CallLang
