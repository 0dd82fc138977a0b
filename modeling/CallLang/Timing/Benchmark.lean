/-
# `CallLang.Timing.Benchmark` — the programs that are timed

Three families of programs, by size: a wide sum of many numbers, a deep sum of
nested calls, and nested conditionals.  A size below one repeats nothing.
-/
import CallLang.Decimal.Digits

namespace CallLang

/-- The families of timed programs. -/
inductive Benchmark
  | wideSum
  | deepSum
  | nestedIf
  deriving DecidableEq, Repr

namespace Benchmark

/-- The name of a family. -/
def label : Benchmark → String
  | .wideSum => "wide_sum"
  | .deepSum => "deep_sum"
  | .nestedIf => "nested_if"

/-- All families, in the order in which they are timed. -/
def all : List Benchmark :=
  [.wideSum, .deepSum, .nestedIf]

end Benchmark

/-- A text repeated. -/
def repeated (count : Nat) (text : String) : String :=
  String.join (List.replicate count text)

/-- The sum of the numbers below `n`. -/
def wideSum (n : Nat) : String :=
  "(+ " ++ " ".intercalate ((List.range n).map fun (i : Nat) => integerText i) ++ ")"

/-- One added `n` times to zero, each time in a call of its own. -/
def deepSum (n : Nat) : String :=
  repeated n "(+ 1 " ++ "0" ++ repeated n ")"

/-- The number one behind `n` tests that hold. -/
def nestedIf (n : Nat) : String :=
  repeated n "(if (< 1 2) " ++ "1" ++ repeated n " 0)"

/-- The program of a family and a size. -/
def Benchmark.source (b : Benchmark) (size : Int) : String :=
  match b with
  | .wideSum => CallLang.wideSum size.toNat
  | .deepSum => CallLang.deepSum size.toNat
  | .nestedIf => CallLang.nestedIf size.toNat

end CallLang
