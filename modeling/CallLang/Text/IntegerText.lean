/-
# `CallLang.Text.IntegerText` — integers in settings and on the command line

    integer  ::=  space* ( '+' | '-' )? digit ( '_'? digit )* space*

Digits of all scripts are digits here, and spaces of all scripts are spaces in
a text that is not plain ASCII.  An integer may have at most 4300 digits.
-/
import CallLang.EvalError
import CallLang.Text.DecimalDigit
import CallLang.Text.Quoted
import CallLang.Text.Space
import CallLang.Word

namespace CallLang

/-- Why a text is no integer. -/
inductive IntegerTextError
  | notAnInteger (text : List Char)
  | tooManyDigits (count : Nat)
  deriving DecidableEq, Repr

/-- The text of the report; it shows at most 200 characters of the quoted
text. -/
def IntegerTextError.message : IntegerTextError → String
  | .notAnInteger text =>
    "invalid literal for int() with base 10: " ++ String.ofList ((quoted text).take 200)
  | .tooManyDigits count => tooManyDigitsText count

/-- The ASCII character that stands for a character of any script. -/
def toAscii (c : Char) : Char :=
  if c.toNat < 127 then c
  else if isSpace c then ' '
  else match decimalDigitValue? c with
    | some n => Char.ofNat ('0'.toNat + n)
    | none => '?'

/-- Whether single underscores stand between digits only. -/
def underscoresBetween : List Char → Bool
  | [] => false
  | '_' :: _ => false
  | [_] => true
  | _ :: '_' :: ds => underscoresBetween ds
  | _ :: d :: ds => underscoresBetween (d :: ds)

/-- The integer that a text stands for. -/
def readInteger (text : List Char) : Except IntegerTextError Int :=
  let ascii := if text.all (·.toNat < 128) then text else text.map toAscii
  let (negative, cs) := readEitherSign (ascii.dropWhile isBlank)
  let row := cs.takeWhile fun c => isDigit c || c = '_'
  let rest := cs.dropWhile fun c => isDigit c || c = '_'
  let digits := row.filter isDigit
  if !underscoresBetween row then .error (.notAnInteger text)
  else if maxIntegerDigits < digits.length then .error (.tooManyDigits digits.length)
  else if rest.any (!isBlank ·) then .error (.notAnInteger text)
  else .ok (if negative then -(digitsValue digits : Int) else digitsValue digits)

end CallLang
