/-
# `CallLang.EvalError` — what can go wrong in an evaluation

Each constructor is one cause.  Its report is derived from it: the class of the
error, and the text.  Two causes lie outside the classes of the language, since
they come from the limits of the integers that it works with.
-/
import CallLang.ErrorClass
import CallLang.Value

namespace CallLang

/-- Why an evaluation fails. -/
inductive EvalError
  | arity (label : String) (fault : ArityFault)
  | notANumeral (text : String)
  | numeralOutOfRange (text : String)
  | tooManyDigits (count : Nat)
  | integerTooWide
  | kind (fault : KindError)
  | invalid (place : String) (fault : KindError)
  | notANumber (place : String) (found : Kind)
  | notABoolean (found : Kind)
  | mixedKinds (name : Comparison) (left right : Kind)
  | unorderedBooleans (name : Comparison)
  | divisionByZero
  | integerOverflow (name : Arithmetic)
  | unsupportedOperation (name : OperatorName)
  | unsupportedNode (typeName : String)
  deriving DecidableEq, Repr

/-- The greatest number of digits that an integer is read from. -/
def maxIntegerDigits : Nat := 4300

/-- The text of the report that an integer has too many digits to be read. -/
def tooManyDigitsText (count : Nat) : String :=
  "Exceeds the limit (" ++ integerText maxIntegerDigits
    ++ " digits) for integer string conversion: value has " ++ integerText count
    ++ " digits; use sys.set_int_max_str_digits() to increase the limit"

namespace EvalError

/-- The class of an error, for the errors that have one. -/
def errorClass? : EvalError → Option ErrorClass
  | .arity _ _ => some .arity
  | .notANumeral _ => some .kind
  | .numeralOutOfRange _ => some .kind
  | .tooManyDigits _ => none
  | .integerTooWide => none
  | .kind _ => some .kind
  | .invalid _ _ => some .kind
  | .notANumber _ _ => some .kind
  | .notABoolean _ => some .kind
  | .mixedKinds _ _ _ => some .kind
  | .unorderedBooleans _ => some .kind
  | .divisionByZero => some .zeroDivision
  | .integerOverflow _ => some .overflow
  | .unsupportedOperation _ => some .runtime
  | .unsupportedNode _ => some .runtime

/-- The text of the report. -/
def message : EvalError → String
  | .arity label fault => fault.message label
  | .notANumeral text => "Invalid numeric literal: " ++ text ++ "."
  | .numeralOutOfRange text => "Numeric literal out of range: " ++ text ++ "."
  | .tooManyDigits count => tooManyDigitsText count
  | .integerTooWide => "The integer does not fit 64 bits."
  | .kind fault => fault.message
  | .invalid place fault => place ++ ": " ++ fault.message
  | .notANumber place found => place ++ " expects numbers, got " ++ found.label
  | .notABoolean found => "if expects a boolean predicate, got " ++ found.label ++ "."
  | .mixedKinds name left right =>
    name.label ++ " cannot compare " ++ left.label ++ " with " ++ right.label ++ "."
  | .unorderedBooleans name => name.label ++ " is not defined for booleans."
  | .divisionByZero => "Division by zero."
  | .integerOverflow name => "Integer overflow in " ++ name.label ++ "."
  | .unsupportedOperation name => "Unsupported unary operation: " ++ name.label ++ "."
  | .unsupportedNode typeName => "Unsupported expression node: " ++ typeName ++ "."

/-- The report of an error, for the errors that have a class. -/
def diagnostic? (e : EvalError) : Option Diagnostic :=
  e.errorClass?.map (⟨·, e.message, none⟩)

end EvalError

/-! ## Checks of single values -/

namespace Value

/-- The kind of a value. -/
def kindOrFail (v : Value) : Except EvalError Kind :=
  v.kind.mapError .kind

/-- Checks that a value has a kind; `place` says in the report where it was
found. -/
def validate (place : String) (v : Value) : Except EvalError Unit :=
  match v.kind with
  | .ok _ => .ok ()
  | .error fault => .error (.invalid place fault)

/-- The number that a value is; `place` says in the report who asks for it.  A
plain integer has to fit 64 bits, and stays plain. -/
def asNumber (place : String) : Value → Except EvalError Scalar
  | .number x => .ok x
  | .integer n => if IntType.plain.Holds n then .ok (.integer n) else .error .integerTooWide
  | .boolean _ => .error (.notANumber place .boolean)
  | .string _ => .error (.notANumber place .string)
  | .tensor shape => .error (.kind (.notScalar shape))
  | .other typeName => .error (.kind (.unsupportedType typeName))

end Value

end CallLang
