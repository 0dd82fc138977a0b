/-
# `CallLang.Run` — from a source text to its outcome

Running a text parses all of it before anything is evaluated, so a text that is
no program leaves no event behind.  A run here has all the stack that it needs; that
the host breaks it off for want of stack is in `CallLang.Stack`.
-/
import CallLang.Eval
import CallLang.Parse

namespace CallLang

/-- Why a run fails by itself: the text is no program, or its evaluation fails. -/
inductive RunError
  | parse (e : ParseError)
  | eval (e : EvalError)
  deriving DecidableEq, Repr

/-- The class of an error, for the errors that have one. -/
def RunError.errorClass? : RunError → Option ErrorClass
  | .parse e => some e.diagnostic.errorClass
  | .eval e => e.errorClass?

/-- The text of the report. -/
def RunError.message : RunError → String
  | .parse e => e.diagnostic.message
  | .eval e => e.message

/-- Goes on from a parse with the evaluation of what was read. -/
def runParsed (channel : Channel) (parsed : Except ParseError Expr) : Outcome RunError Value :=
  match parsed with
  | .error e => .fail (.parse e)
  | .ok e => (evaluate channel e).mapError .eval

/-- Runs a source text. -/
def run (channel : Channel) (source : String) : Outcome RunError Value :=
  runParsed channel (parseSource source)

end CallLang
