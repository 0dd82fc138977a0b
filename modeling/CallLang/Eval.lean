/-
# `CallLang.Eval` — evaluation

Parameters are evaluated from left to right.  Arithmetic checks each operand as
soon as it is there and folds to the left; a predicate compares every adjacent
pair, also behind a pair for which it fails; a conditional evaluates its test
and one branch only.
-/
import CallLang.Expr
import CallLang.Literal
import CallLang.Outcome

namespace CallLang

/-! ## Single steps -/

/-- Refuses a wrong number of parameters. -/
def checkArity (label : String) (arity : Arity) (count : Nat) : Except EvalError Unit :=
  match arity.check count with
  | none => .ok ()
  | some fault => .error (.arity label fault)

/-- One step of arithmetic on two values, each of which must be a number. -/
def stepValues (op : Arithmetic) (left right : Value) : Except EvalError Scalar := do
  let x ← left.asNumber op.label
  let y ← right.asNumber op.label
  match x.step? op y with
  | some z => .ok z
  | none => .error (.integerOverflow op)

/-- Folds the operands of a call into the result so far, left to right.  A
divisor that counts as zero is refused. -/
def foldOperands (op : Arithmetic) (acc : Scalar) : List Scalar → Except EvalError Scalar
  | [] => .ok acc
  | y :: ys =>
    if op = .divide ∧ y.isZero then .error .divisionByZero
    else match acc.step? op y with
      | some z => foldOperands op z ys
      | none => .error (.integerOverflow op)

/-- Compares two values of one kind.  Booleans are only equal or unequal;
strings are ordered by their characters. -/
def compareValues (name : Comparison) (left right : Value) : Outcome EvalError Bool := do
  let leftKind ← Outcome.ofExcept left.kindOrFail
  let rightKind ← Outcome.ofExcept right.kindOrFail
  if leftKind ≠ rightKind then
    Outcome.fail (.mixedKinds name leftKind rightKind)
  else
    match left, right with
    | .boolean a, .boolean b =>
      if name = .equal then pure (a == b)
      else if name = .notEqual then pure (a != b)
      else Outcome.fail (.unorderedBooleans name)
    | .string s, .string t => pure (name.holds (some (compare s t)))
    | _, _ => do
      Outcome.record (.comparisonKernel name)
      let x ← Outcome.ofExcept (left.asNumber name.label)
      let y ← Outcome.ofExcept (right.asNumber name.label)
      pure (name.holds (x.order y))

/-- Compares each value with the next one. -/
def comparePairs (name : Comparison) (first : Value) : List Value → Outcome EvalError (List Bool)
  | [] => pure []
  | next :: rest => do
    let holds ← compareValues name first next
    (holds :: ·) <$> comparePairs name next rest

/-- Compares each value of a row with the next one. -/
def compareRow (name : Comparison) : List Value → Outcome EvalError (List Bool)
  | [] => pure []
  | first :: rest => comparePairs name first rest

/-- The result of arithmetic on a row of operands. -/
def arithmeticResult (op : Arithmetic) : List Scalar → Outcome EvalError Value
  | [] => Outcome.fail (.arity op.label (.atLeast 1 0))
  | first :: rest => do
    Outcome.record (.arithmeticKernel op)
    let result ← Outcome.ofExcept (foldOperands op first rest)
    pure (.number result)

/-- The truth of a test. -/
def asTest (v : Value) : Except EvalError Bool :=
  match v with
  | .boolean b => .ok b
  | v => do
    let kind ← v.kindOrFail
    .error (.notABoolean kind)

/-! ## Expressions -/

mutual

/-- Evaluates an expression; printed values go to the channel. -/
def eval (channel : Channel) : Expr → Outcome EvalError Value
  | .number text => do
    let x ← Outcome.ofExcept (readNumber text)
    pure (.number x)
  | .string text => pure (.string text)
  | .binary op params => do
    Outcome.ofExcept (checkArity op.label (OperatorName.arithmetic op).arity params.length)
    let operands ← evalOperands channel op params
    arithmeticResult op operands
  | .predicate name params => do
    Outcome.ofExcept (checkArity name.label (OperatorName.comparison name).arity params.length)
    let values ← evalAll channel params
    let holds ← compareRow name values
    pure (.boolean (holds.all id))
  | .conditional [test, yes, no] => do
    let v ← eval channel test
    let b ← Outcome.ofExcept (asTest v)
    if b then eval channel yes else eval channel no
  | .conditional params =>
    Outcome.fail (.arity "if" (.exactly 3 params.length))
  | .unary name (some param) => do
    Outcome.ofExcept (checkArity name.label name.arity 1)
    let v ← eval channel param
    match name with
    | .print => do
      channel.emit v
      pure v
    | name => Outcome.fail (.unsupportedOperation name)
  | .unary name none => do
    Outcome.ofExcept (checkArity name.label name.arity 0)
    Outcome.fail (.unsupportedNode "NoneType")
  | .foreign typeName => Outcome.fail (.unsupportedNode typeName)

/-- Evaluates the operands of an arithmetic call, each of which must be a
number. -/
def evalOperands (channel : Channel) (op : Arithmetic) : List Expr → Outcome EvalError (List Scalar)
  | [] => pure []
  | param :: params => do
    let v ← eval channel param
    let x ← Outcome.ofExcept (v.asNumber op.label)
    (x :: ·) <$> evalOperands channel op params

/-- Evaluates parameters from left to right. -/
def evalAll (channel : Channel) : List Expr → Outcome EvalError (List Value)
  | [] => pure []
  | param :: params => do
    let v ← eval channel param
    (v :: ·) <$> evalAll channel params

end

/-- Evaluates an expression and checks that its value has a kind. -/
def evaluate (channel : Channel) (e : Expr) : Outcome EvalError Value := do
  let v ← eval channel e
  Outcome.ofExcept (v.validate "result")
  pure v

end CallLang
