/-
# `CallLang.Outcome` — what an evaluation does and how it ends

An evaluation leaves a row of events behind and ends in a value or an error.
The events stay when it ends in an error.  Printing is an event in one of two
forms: the value is handed over, or its text is written out as a line.
-/
import CallLang.EvalError

namespace CallLang

/-- Something that happens during an evaluation. -/
inductive Event
  | printed (v : Value)
  | wrote (text : String)
  | arithmeticKernel (name : Arithmetic)
  | comparisonKernel (name : Comparison)

/-- The events of an evaluation, and its end: a value, or an error of the type
`ε`. -/
structure Outcome (ε α : Type) where
  events : List Event
  result : Except ε α

namespace Outcome

variable {ε α β : Type}

/-- Ends at once in a value. -/
protected def pure (a : α) : Outcome ε α :=
  ⟨[], .ok a⟩

/-- Changes the value of an evaluation and nothing else. -/
protected def map (f : α → β) (x : Outcome ε α) : Outcome ε β :=
  ⟨x.events, x.result.map f⟩

/-- Goes on with the value of the first part, after its events. -/
protected def bind (x : Outcome ε α) (f : α → Outcome ε β) : Outcome ε β :=
  match x.result with
  | .ok a =>
    let y := f a
    ⟨x.events ++ y.events, y.result⟩
  | .error e => ⟨x.events, .error e⟩

instance : Monad (Outcome ε) where
  map := Outcome.map
  pure := Outcome.pure
  bind := Outcome.bind

/-- Ends at once as a check ends. -/
def ofExcept (r : Except ε α) : Outcome ε α :=
  ⟨[], r⟩

/-- Ends at once in an error. -/
def fail (e : ε) : Outcome ε α :=
  ⟨[], .error e⟩

/-- Leaves one event behind. -/
def record (event : Event) : Outcome ε Unit :=
  ⟨[event], .ok ()⟩

/-- The same evaluation with its error seen as one of another type. -/
def mapError {ε' : Type} (f : ε → ε') (x : Outcome ε α) : Outcome ε' α :=
  ⟨x.events, x.result.mapError f⟩

/-- The values handed over, in order. -/
def printed (x : Outcome ε α) : List Value :=
  x.events.filterMap fun
    | .printed v => some v
    | _ => none

/-- The text written out. -/
def written (x : Outcome ε α) : String :=
  String.join <| x.events.filterMap fun
    | .wrote text => some text
    | _ => none

end Outcome

/-- Where printed values go: to a caller that collects them, or out as text. -/
inductive Channel
  | collect
  | write
  deriving DecidableEq, Repr

/-- Prints a value. -/
def Channel.emit (channel : Channel) (v : Value) : Outcome EvalError Unit :=
  match channel with
  | .collect => .record (.printed v)
  | .write => do
    let text ← Outcome.ofExcept (v.text.mapError .kind)
    .record (.wrote (text ++ "\n"))

end CallLang
