/-
# `CallLang.Literal` — the number that a number text stands for

An integer text stands for a 64-bit integer, and is refused outside that range.
Any other number text stands for the nearest 64-bit floating number, and is
refused when that is infinite; rounding to a subnormal number or to zero, with
the sign that is written, is no fault.
-/
import CallLang.EvalError
import CallLang.Numeral

namespace CallLang

/-- The magnitude that a numeral with a point or an exponent denotes. -/
def Numeral.magnitude (n : Numeral) : Decimal :=
  ⟨digitsValue n.significant, n.scale⟩

/-- The number that a text stands for. -/
def readNumber (text : String) : Except EvalError Scalar :=
  match Numeral.ofText? text with
  | none => .error (.notANumeral text)
  | some n =>
    if n.isInteger then
      if maxIntegerDigits < n.whole.length then .error (.tooManyDigits n.whole.length)
      else if IntType.int64.Holds n.toInt then .ok (.int64 n.toInt)
      else .error (.numeralOutOfRange text)
    else
      let x := n.magnitude.toBinary n.negative
      if x.isFinite then .ok (.float64 x) else .error (.numeralOutOfRange text)

end CallLang
