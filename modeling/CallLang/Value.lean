/-
# `CallLang.Value` — the values of programs and of callers

Programs make numbers, booleans and strings.  A caller may also hand in plain
numbers, which have no type yet, tensors and values of other types; `kind` says
which values the language can work with, and names the fault of every other.
-/
import CallLang.Decimal.Layout
import CallLang.Scalar.Kernel

namespace CallLang

/-- The kinds of value that the language tells apart. -/
inductive Kind
  | number
  | string
  | boolean
  deriving DecidableEq, Repr

/-- The name of a kind. -/
def Kind.label : Kind → String
  | .number => "number"
  | .string => "string"
  | .boolean => "boolean"

/-- A value.  An `integer` is a plain one, of any size.  A `tensor` has at least
one axis; a tensor without axes is the number or boolean it holds. -/
inductive Value
  | integer (n : Int)
  | number (x : Scalar)
  | boolean (b : Bool)
  | string (s : String)
  | tensor (shape : List Nat)
  | other (typeName : String)

/-- A plain real number as a value. -/
def Value.real (x : Binary Format.binary64) : Value :=
  .number (.real x)

/-- Why a value has no kind. -/
inductive KindError
  | unsupportedType (typeName : String)
  | notScalar (shape : List Nat)
  deriving DecidableEq, Repr

/-- The lengths of the axes of a tensor, in parentheses; a single one has a
comma behind it. -/
def shapeText (shape : List Nat) : String :=
  match shape with
  | [n] => "(" ++ integerText n ++ ",)"
  | ns => "(" ++ ", ".intercalate (ns.map fun (n : Nat) => integerText n) ++ ")"

/-- What is wrong with a value that has no kind. -/
def KindError.message : KindError → String
  | .unsupportedType typeName => "Unsupported runtime type " ++ typeName
  | .notScalar shape => "Expected a scalar value, got shape " ++ shapeText shape

/-- The kind of a value. -/
def Value.kind : Value → Except KindError Kind
  | .integer _ => .ok .number
  | .number _ => .ok .number
  | .boolean _ => .ok .boolean
  | .string _ => .ok .string
  | .tensor shape => .error (.notScalar shape)
  | .other typeName => .error (.unsupportedType typeName)

/-! ## Untyped form and text -/

/-- A value without its number type. -/
inductive Plain
  | integer (n : Int)
  | real (x : Binary Format.binary64)
  | boolean (b : Bool)
  | string (s : String)

/-- The untyped form of a number. -/
def Scalar.plain : Scalar → Plain
  | .int _ n => .integer n.val
  | .float t x => .real (widen t .double x)

/-- The untyped form of a value. -/
def Value.plain : Value → Except KindError Plain
  | .integer n => .ok (.integer n)
  | .number x => .ok x.plain
  | .boolean b => .ok (.boolean b)
  | .string s => .ok (.string s)
  | .tensor shape => .error (.notScalar shape)
  | .other typeName => .error (.unsupportedType typeName)

/-- The text of a floating number.  An integral number is written as that
integer, with all its digits and no sign on zero; `fraction` writes any other
finite number. -/
def realText (fraction : Binary Format.binary64 → String) (x : Binary Format.binary64) : String :=
  match x with
  | .nan => "NaN"
  | .signed s c =>
    if c.val = Format.binary64.infinity then (if s then "-Infinity" else "Infinity")
    else match x.integer? with
      | some n => integerText n
      | none => fraction x

/-- The text of a number.  Fractions of the 32-bit type are rounded to seven
digits; the others are the shortest that read back. -/
def Scalar.text : Scalar → String
  | .int _ n => integerText n.val
  | .float .single x => realText (Binary.generalText 7) (widen .single .double x)
  | .float t x => realText Binary.shortestText (widen t .double x)

theorem Scalar.text_float64 (x : Binary Format.binary64) :
    (Scalar.float64 x).text = realText Binary.shortestText x := rfl

/-- The text under which a value is printed. -/
def Value.text : Value → Except KindError String
  | .integer n => .ok (integerText n)
  | .number x => .ok x.text
  | .boolean b => .ok (if b then "true" else "false")
  | .string s => .ok s
  | .tensor shape => .error (.notScalar shape)
  | .other typeName => .error (.unsupportedType typeName)

end CallLang
