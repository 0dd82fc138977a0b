/-
# `CallLang.Install` — an installation that lacks a module

Evaluation needs the numeric backend, reading does not.  Without the backend a
text can still be scanned and parsed, and running it is refused once it is
known to be a program.  Without any other required module nothing works.
-/
import CallLang.Parse

namespace CallLang

/-- What a caller asks of an installation. -/
inductive Service
  | tokenize
  | parse
  | run
  | evaluate
  deriving DecidableEq, Repr

/-- What an installation that lacks a module can answer. -/
inductive PartialAnswer
  | tokens (tokens : List Token)
  | expr (e : Expr)

/-- Why an installation that lacks a module refuses a request. -/
inductive InstallError
  | importHalted (missing : String)
  | parse (e : ParseError)
  | backendMissing (service : String)
  deriving DecidableEq, Repr

/-- The text of the report. -/
def InstallError.message : InstallError → String
  | .importHalted missing => "import of " ++ missing ++ " halted; None in sys.modules"
  | .parse e => e.diagnostic.message
  | .backendMissing service =>
    "jax is required for " ++ service ++ "(). Install runtime deps first."

/-- Whether a module belongs to the numeric backend. -/
def isBackendModule (name : String) : Bool :=
  "jax".toList.isPrefixOf name.toList

/-- What a text leads to without the backend: its program is known, and then
refused. -/
def refuseProgram (service source : String) : Except InstallError PartialAnswer :=
  match parseSource source with
  | .ok _ => .error (.backendMissing service)
  | .error e => .error (.parse e)

/-- The answer of an installation that lacks the module `missing`. -/
def answerWithout (missing : String) (service : Service) (source : String) :
    Except InstallError PartialAnswer :=
  if !isBackendModule missing then .error (.importHalted missing)
  else match service with
    | .tokenize => .ok (.tokens (tokenize source))
    | .parse => match parseSource source with
      | .ok e => .ok (.expr e)
      | .error e => .error (.parse e)
    | .run => refuseProgram "run" source
    | .evaluate => refuseProgram "evaluate" source

end CallLang
