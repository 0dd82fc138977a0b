/-
# `CallLang.Stack` — runs on a stack that may be used up

A call within a call is read by a call of the parser within another, and an
expression within an expression is evaluated by a call of the evaluator within
another.  The host keeps them on its stack.  `run` is the run of a text on a stack
that has room for all of them; `runWithin` is its run on a given one.  Where that
has no room left the host breaks off, with an error that is none of the
language's, and what was printed before stays.

The room depends on the host, on what it keeps on its stack besides, and on what a
call takes there for its own work.  So it is given as two counts of what can be
nested (`Stack`).
-/
import CallLang.Run

namespace CallLang

/-- The room for what is nested: how many calls of a text can be open at once while
it is parsed, and how many expressions, each within the one before, can be under
evaluation.  What a call does by itself, without another within it, is not counted. -/
structure Stack where
  parsing : Nat
  evaluating : Nat

/-- How something ends that the host breaks off or that fails by itself. -/
inductive HostError (ε : Type)
  | language (error : ε)
  | stackExhausted
  deriving DecidableEq, Repr

/-- The same end, with an error of the language seen as one of another type. -/
def HostError.map {ε ε' : Type} (f : ε → ε') : HostError ε → HostError ε'
  | .language error => .language (f error)
  | .stackExhausted => .stackExhausted

/-- What the language does by itself, as something that the host does. -/
def Outcome.onHost {ε α : Type} (x : Outcome ε α) : Outcome (HostError ε) α :=
  x.mapError .language

/-! ## Parsing -/

namespace ParseState

/-- How many calls are open. -/
def height : ParseState → Nat
  | .start => 0
  | .operator outer => outer.length + 1
  | .params _ outer => outer.length + 1
  | .string _ _ outer => outer.length + 1

/-- Reads tokens as `feed` does, with room for so many open calls. -/
def feedWithin (room : Nat) (s : ParseState) (count : Nat) :
    List Token → Except (HostError ParseError) (Expr × Nat)
  | [] => .error (.language s.atEnd)
  | t :: ts =>
    match s.step t with
    | .more s' =>
      if room < s'.height then .error .stackExhausted else s'.feedWithin room (count + 1) ts
    | .done e => .ok (e, count + 1)
    | .fail error => .error (.language error)

end ParseState

/-- The leading call of a source text, parsed with room for so many open calls. -/
def parseSourceWithin (room : Nat) (source : String) : Except (HostError ParseError) Expr :=
  (ParseState.start.feedWithin room 0 (tokenize source)).map (·.1)

/-! ## Evaluation -/

/-- Evaluates a node; `enter` evaluates the expressions in it. -/
def evalNode (channel : Channel) (enter : Expr → Outcome (HostError EvalError) Value) :
    Expr → Outcome (HostError EvalError) Value
  | .number text => do
    let x ← (Outcome.ofExcept (readNumber text)).onHost
    pure (.number x)
  | .string text => pure (.string text)
  | .binary op params => do
    (Outcome.ofExcept (checkArity op.label (OperatorName.arithmetic op).arity params.length)).onHost
    let operands ← params.mapM fun param => do
      let v ← enter param
      (Outcome.ofExcept (v.asNumber op.label)).onHost
    (arithmeticResult op operands).onHost
  | .predicate name params => do
    (Outcome.ofExcept
      (checkArity name.label (OperatorName.comparison name).arity params.length)).onHost
    let values ← params.mapM enter
    let holds ← (compareRow name values).onHost
    pure (.boolean (holds.all id))
  | .conditional [test, yes, no] => do
    let v ← enter test
    let b ← (Outcome.ofExcept (asTest v)).onHost
    if b then enter yes else enter no
  | .conditional params =>
    (Outcome.fail (.arity "if" (.exactly 3 params.length))).onHost
  | .unary name (some param) => do
    (Outcome.ofExcept (checkArity name.label name.arity 1)).onHost
    let v ← enter param
    match name with
    | .print => do
      (channel.emit v).onHost
      pure v
    | name => (Outcome.fail (.unsupportedOperation name)).onHost
  | .unary name none => do
    (Outcome.ofExcept (checkArity name.label name.arity 0)).onHost
    (Outcome.fail (.unsupportedNode "NoneType")).onHost
  | .foreign typeName => (Outcome.fail (.unsupportedNode typeName)).onHost

/-- Evaluates an expression as `eval` does, with room for so many expressions, each
within the one before. -/
def evalWithin (channel : Channel) : Nat → Expr → Outcome (HostError EvalError) Value
  | 0, _ => Outcome.fail .stackExhausted
  | room + 1, e => evalNode channel (evalWithin channel room) e

/-- Evaluates an expression with so much room, and checks that its value has a kind. -/
def evaluateWithin (room : Nat) (channel : Channel) (e : Expr) :
    Outcome (HostError EvalError) Value := do
  let v ← evalWithin channel room e
  (Outcome.ofExcept (v.validate "result")).onHost
  pure v

/-! ## Runs -/

/-- Runs a source text on a stack. -/
def runWithin (stack : Stack) (channel : Channel) (source : String) :
    Outcome (HostError RunError) Value :=
  match parseSourceWithin stack.parsing source with
  | .error error => .fail (error.map .parse)
  | .ok e => (evaluateWithin stack.evaluating channel e).mapError (·.map .eval)

end CallLang
