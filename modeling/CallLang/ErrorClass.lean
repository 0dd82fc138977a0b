/-
# `CallLang.ErrorClass` — the classes of reported errors

Every error of the language belongs to one of nine classes.  The classes form
a tree under `base`; three of them also belong to a general class of errors,
so that a handler for the general class sees them too.
-/
import CallLang.Token

namespace CallLang

/-- The classes of errors. -/
inductive ErrorClass
  | base
  | grammar
  | unexpectedEnd
  | unhandledToken
  | runtime
  | arity
  | kind
  | zeroDivision
  | overflow
  deriving DecidableEq, Repr

namespace ErrorClass

/-- The name under which a class is reported. -/
def label : ErrorClass → String
  | .base => "LispError"
  | .grammar => "LispSyntaxError"
  | .unexpectedEnd => "UnexpectedEOFError"
  | .unhandledToken => "UnhandledTokenError"
  | .runtime => "LispRuntimeError"
  | .arity => "LispArityError"
  | .kind => "LispTypeError"
  | .zeroDivision => "LispZeroDivisionError"
  | .overflow => "LispOverflowError"

/-- All classes. -/
def all : List ErrorClass :=
  [.base, .grammar, .unexpectedEnd, .unhandledToken, .runtime, .arity, .kind, .zeroDivision,
    .overflow]

/-- The class that a name stands for. -/
def ofLabel? (label : String) : Option ErrorClass :=
  all.find? (·.label = label)

/-- A class and the classes above it within the language, nearest first. -/
def ancestry : ErrorClass → List ErrorClass
  | .base => [.base]
  | .grammar => [.grammar, .base]
  | .unexpectedEnd => [.unexpectedEnd, .base]
  | .unhandledToken => [.unhandledToken, .base]
  | .runtime => [.runtime, .base]
  | .arity => [.arity, .runtime, .base]
  | .kind => [.kind, .runtime, .base]
  | .zeroDivision => [.zeroDivision, .runtime, .base]
  | .overflow => [.overflow, .runtime, .base]

/-- The general classes that a class belongs to, nearest first. -/
def generalClasses : ErrorClass → List String
  | .grammar => ["SyntaxError", "Exception", "BaseException"]
  | .zeroDivision => ["ZeroDivisionError", "ArithmeticError", "Exception", "BaseException"]
  | .overflow => ["OverflowError", "ArithmeticError", "Exception", "BaseException"]
  | _ => ["Exception", "BaseException"]

/-- The names of all classes that an error of this class belongs to: those of
the language before the general ones. -/
def lineage (c : ErrorClass) : List String :=
  c.ancestry.map label ++ c.generalClasses

end ErrorClass

/-- A reported error: its class, its message, and the token it is found at, if
there is one. -/
structure Diagnostic where
  errorClass : ErrorClass
  message : String
  token : Option Token := none
  deriving DecidableEq, Repr

namespace Diagnostic

/-- Where the token of the error starts. -/
def start (d : Diagnostic) : Option Nat := d.token.map (·.pos)

/-- Where the token of the error ends. -/
def stop (d : Diagnostic) : Option Nat := d.token.map (·.stop)

/-- The message under the short name by which tools look for it; grammar
errors alone have it. -/
def shortMessage (d : Diagnostic) : Option String :=
  if d.errorClass = .grammar then some d.message else none

/-- Reports that the text ended too early. -/
def unexpectedEnd : Diagnostic :=
  ⟨.unexpectedEnd, "Unexpected eof.", none⟩

/-- Reports a token that stands where a parameter belongs. -/
def unhandledToken (t : Token) : Diagnostic :=
  ⟨.unhandledToken, "Unhandled token: " ++ t.text ++ ".", some t⟩

end Diagnostic

end CallLang
