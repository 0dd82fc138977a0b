/-
# `CallLang.Session` — running one text after another

A session keeps what one run can leave behind for the next: the parsed
programs, by source text, and the kernels that were made.  Neither changes an
answer.  Kernels are listed in the order of their first use, unless the session
works without made kernels.
-/
import CallLang.Cache
import CallLang.Run
import CallLang.Text.IntegerText

namespace CallLang

/-! ## Settings -/

/-- How a session is set up. -/
structure Settings where
  cacheMax : Nat
  makesKernels : Bool
  deriving DecidableEq, Repr

/-- Why settings are refused. -/
inductive SettingsError
  | cacheMax (fault : IntegerTextError)
  | cacheTooLarge
  deriving DecidableEq, Repr

/-- The settings that two raw texts stand for, where they are given.  The cache
holds 256 programs by default and at least one; kernels are made unless the
second text is exactly "1". -/
def Settings.read (cacheMax withoutKernels : Option String) : Except SettingsError Settings :=
  match readInteger ((cacheMax.getD "256").toList) with
  | .error fault => .error (.cacheMax fault)
  | .ok n =>
    if IntType.int64.greatest < n then .error .cacheTooLarge
    else .ok ⟨max 1 n.toNat, withoutKernels ≠ some "1"⟩

/-! ## Sessions -/

/-- The state of a session. -/
structure Session where
  programs : Cache String Expr
  makesKernels : Bool
  arithmetic : List Arithmetic := []
  comparisons : List Comparison := []

/-- A row of names with one more, unless it is there already. -/
def insertNew {α : Type} [BEq α] (xs : List α) (x : α) : List α :=
  if xs.contains x then xs else xs ++ [x]

namespace Session

/-- A session in which nothing has been run. -/
def start (settings : Settings) : Session :=
  { programs := { capacity := settings.cacheMax }, makesKernels := settings.makesKernels }

/-- Notes one event of a run. -/
def note (s : Session) (event : Event) : Session :=
  if !s.makesKernels then s
  else match event with
    | .arithmeticKernel name => { s with arithmetic := insertNew s.arithmetic name }
    | .comparisonKernel name => { s with comparisons := insertNew s.comparisons name }
    | _ => s

/-- Runs a source text.  It is parsed only if the session does not hold its
program. -/
def run (s : Session) (channel : Channel) (source : String) : Outcome RunError Value × Session :=
  let (parsed, programs) := s.programs.request parseSource source
  let outcome := runParsed channel parsed
  (outcome, outcome.events.foldl note { s with programs })

/-- Forgets the parsed programs; the kernels stay. -/
def clear (s : Session) : Session :=
  { s with programs := s.programs.clear }

end Session

/-! ## Histories -/

/-- A step of a session. -/
inductive Step
  | run (channel : Channel) (source : String)
  | clear
  | kernels

/-- What a step answers. -/
inductive StepAnswer
  | ran (outcome : Outcome RunError Value)
  | cleared
  | kernels (arithmetic : List Arithmetic) (comparisons : List Comparison)

/-- Takes one step. -/
def Session.step (s : Session) : Step → StepAnswer × Session
  | .run channel source =>
    let (outcome, s') := s.run channel source
    (.ran outcome, s')
  | .clear => (.cleared, s.clear)
  | .kernels => (.kernels s.arithmetic s.comparisons, s)

/-- Takes a row of steps; each answer comes with the session after it. -/
def Session.steps (s : Session) : List Step → List (StepAnswer × Session)
  | [] => []
  | step :: rest =>
    let next := s.step step
    next :: next.2.steps rest

end CallLang
