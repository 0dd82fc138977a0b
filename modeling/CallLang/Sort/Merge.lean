/-
# `CallLang.Sort.Merge` — merging two ordered runs

Two neighbouring runs are merged from the end at which the shorter one stands.
As long as they alternate, the elements are placed one at a time.  When one run
has won often enough in a row, whole stretches are placed, whose ends are
searched for.  How often is enough is the patience of the merge: it falls while
stretches stay long, and rises when they do not pay.
-/
import CallLang.Sort.Search

namespace CallLang

variable {α : Type}

/-- Whether the head `y` of the second run goes before the head `x` of the
first.  Of equal heads, the head of the first run goes before. -/
def Direction.overtakes (d : Direction) (lt : α → α → Bool) (y x : α) : Bool :=
  match d with
  | .forward => lt y x
  | .backward => lt x y

/-- A merge under way.  What has been placed is kept newest first.  No element
of the second run goes behind the last one of the first. -/
structure Merge (α : Type) where
  placed : List α := []
  first : List α
  second : List α

namespace Merge

/-- Nothing is left to compare: the second run is used up, or the first has only
its last element. -/
def settled (m : Merge α) : Bool :=
  m.second.isEmpty || m.first.length ≤ 1

/-- The elements in order, once nothing is left to compare. -/
def result (m : Merge α) : List α :=
  m.placed.reverse ++ m.second ++ m.first

/-- How many elements have not been placed. -/
def remaining (m : Merge α) : Nat :=
  m.first.length + m.second.length

/-- Places elements of the first run.  A settled merge stays as it is. -/
def takeFirst (m : Merge α) (k : Nat) : Merge α :=
  if m.settled then m
  else { m with placed := (m.first.take k).reverse ++ m.placed, first := m.first.drop k }

/-- Places elements of the second run.  A settled merge stays as it is. -/
def takeSecond (m : Merge α) (k : Nat) : Merge α :=
  if m.settled then m
  else { m with placed := (m.second.take k).reverse ++ m.placed, second := m.second.drop k }

/-! ## Every step places an element -/

theorem remaining_takeFirst_le (m : Merge α) (k : Nat) :
    (m.takeFirst k).remaining ≤ m.remaining := by
  unfold takeFirst
  split
  · exact Nat.le_refl _
  · simp only [remaining, List.length_drop]; omega

theorem remaining_takeSecond_le (m : Merge α) (k : Nat) :
    (m.takeSecond k).remaining ≤ m.remaining := by
  unfold takeSecond
  split
  · exact Nat.le_refl _
  · simp only [remaining, List.length_drop]; omega

theorem remaining_takeFirst_lt {m : Merge α} {k : Nat} (h : ¬ m.settled) (hk : 0 < k) :
    (m.takeFirst k).remaining < m.remaining := by
  have hf : 1 < m.first.length := by simp [settled] at h; omega
  simp only [takeFirst, h, remaining]
  simp only [Bool.false_eq_true, if_false, List.length_drop]
  omega

theorem remaining_takeSecond_lt {m : Merge α} {k : Nat} (h : ¬ m.settled) (hk : 0 < k) :
    (m.takeSecond k).remaining < m.remaining := by
  have hs : 0 < m.second.length := by
    cases hm : m.second with
    | nil => simp [settled, hm] at h
    | cons => simp
  simp only [takeSecond, h, remaining]
  simp only [Bool.false_eq_true, if_false, List.length_drop]
  omega

theorem takeFirst_zero (m : Merge α) : m.takeFirst 0 = m := by
  unfold takeFirst; split <;> simp

theorem takeSecond_zero (m : Merge α) : m.takeSecond 0 = m := by
  unfold takeSecond; split <;> simp

/-! ## One element, or a stretch of each run -/

/-- Whether the head of the second run is to be placed next. -/
def secondIsNext (d : Direction) (lt : α → α → Bool) (m : Merge α) : Bool :=
  match m.first, m.second with
  | x :: _, y :: _ => d.overtakes lt y x
  | _, _ => false

/-- How many elements of the first run go before the head of the second. -/
def leadOfFirst (d : Direction) (lt : α → α → Bool) (m : Merge α) : Nat :=
  match m.second with
  | [] => 0
  | y :: _ => countLeading d (!d.overtakes lt y ·) m.first

/-- How many elements of the second run go before the head of the first. -/
def leadOfSecond (d : Direction) (lt : α → α → Bool) (m : Merge α) : Nat :=
  match m.first with
  | [] => 0
  | x :: _ => countLeading d (d.overtakes lt · x) m.second

/-- Places a stretch of each run and the element that ends it; the answer tells
how long the longer stretch was.  The run that stands before the other in the
row has its turn first. -/
def takeStretches (d : Direction) (lt : α → α → Bool) (m : Merge α) : Nat × Merge α :=
  match d with
  | .forward =>
    let j := m.leadOfFirst d lt
    let m := (m.takeFirst j).takeSecond 1
    let k := m.leadOfSecond d lt
    (max j k, (m.takeSecond k).takeFirst 1)
  | .backward =>
    let k := m.leadOfSecond d lt
    let m := (m.takeSecond k).takeFirst 1
    let j := m.leadOfFirst d lt
    (max j k, (m.takeFirst j).takeSecond 1)

theorem remaining_takeFirst_takeSecond_lt {m : Merge α} (k : Nat) (h : ¬ m.settled) :
    ((m.takeFirst k).takeSecond 1).remaining < m.remaining := by
  rcases Nat.eq_zero_or_pos k with rfl | hk
  · rw [takeFirst_zero]; exact remaining_takeSecond_lt h Nat.one_pos
  · exact Nat.lt_of_le_of_lt (remaining_takeSecond_le _ _) (remaining_takeFirst_lt h hk)

theorem remaining_takeSecond_takeFirst_lt {m : Merge α} (k : Nat) (h : ¬ m.settled) :
    ((m.takeSecond k).takeFirst 1).remaining < m.remaining := by
  rcases Nat.eq_zero_or_pos k with rfl | hk
  · rw [takeSecond_zero]; exact remaining_takeFirst_lt h Nat.one_pos
  · exact Nat.lt_of_le_of_lt (remaining_takeFirst_le _ _) (remaining_takeSecond_lt h hk)

theorem remaining_takeStretches_lt (d : Direction) (lt : α → α → Bool) {m : Merge α}
    (h : ¬ m.settled) : (m.takeStretches d lt).2.remaining < m.remaining := by
  cases d with
  | forward =>
    exact Nat.lt_of_le_of_lt (remaining_takeFirst_le _ _)
      (Nat.lt_of_le_of_lt (remaining_takeSecond_le _ _) (remaining_takeFirst_takeSecond_lt _ h))
  | backward =>
    exact Nat.lt_of_le_of_lt (remaining_takeSecond_le _ _)
      (Nat.lt_of_le_of_lt (remaining_takeFirst_le _ _) (remaining_takeSecond_takeFirst_lt _ h))

/-! ## The whole merge -/

/-- How a merge goes on: one element at a time, where one of the runs has won
`streak` times in a row, or by stretches. -/
inductive Pace
  | single (firstWins : Bool) (streak : Nat)
  | stretches
  deriving DecidableEq, Repr

/-- The length from which on a stretch pays. -/
def longStretch : Nat := 7

/-- Merges to the end; the answer is the row and the patience that is left. -/
def finish (d : Direction) (lt : α → α → Bool) (pace : Pace) (patience : Nat) (m : Merge α) :
    List α × Nat :=
  if h : m.settled then (m.result, patience)
  else match pace with
  | .single firstWins streak =>
    if m.secondIsNext d lt then
      have := remaining_takeSecond_lt h Nat.one_pos
      let streak := if firstWins then 1 else streak + 1
      (m.takeSecond 1).finish d lt
        (if patience ≤ streak then .stretches else .single false streak) patience
    else
      have := remaining_takeFirst_lt h Nat.one_pos
      let streak := if firstWins then streak + 1 else 1
      (m.takeFirst 1).finish d lt
        (if patience ≤ streak then .stretches else .single true streak) patience
  | .stretches =>
    have := remaining_takeStretches_lt d lt h
    let next := (m.takeStretches d lt).2
    if next.settled then (next.result, patience)
    else if longStretch ≤ (m.takeStretches d lt).1 then
      next.finish d lt .stretches (max 1 (patience - 1))
    else next.finish d lt (.single true 0) (patience + 1)
termination_by m.remaining

end Merge

/-- Merges two neighbouring runs.  Elements of the first that go before all of
the second stay in place, and so do elements of the second that go behind all
of the first. -/
def mergeRuns (lt : α → α → Bool) (patience : Nat) (xs ys : List α) : List α × Nat :=
  match ys with
  | [] => (xs, patience)
  | y :: _ =>
    let ahead := countLeading .forward (!lt y ·) xs
    let first := xs.drop ahead
    match first.getLast? with
    | none => (xs ++ ys, patience)
    | some x =>
      let rest := ys.length - countLeading .backward (!lt · x) ys.reverse
      let second := ys.take rest
      let (merged, patience) :=
        if first.length ≤ second.length then
          (Merge.takeSecond { first, second } 1).finish .forward lt (.single true 0) patience
        else
          let (merged, patience) :=
            (Merge.takeSecond { first := second.reverse, second := first.reverse } 1).finish
              .backward lt (.single true 0) patience
          (merged.reverse, patience)
      (xs.take ahead ++ merged ++ ys.drop rest, patience)

end CallLang
