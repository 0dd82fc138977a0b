/-
# `CallLang.Scalar.Kernel` — arithmetic and comparison of typed numbers

A kernel acts on two numbers in their common type.  Integer kernels wrap; a
step of a program (`Scalar.step?`) therefore compares the wrapped result with
the exact one and refuses it when they differ.  Floating kernels flush, except
those of the 16-bit type: neither operands nor results are subnormal.
-/
import CallLang.Operator
import CallLang.Scalar.Basic

namespace CallLang

/-- The operation on unbounded integers, for the operations that have one. -/
def Arithmetic.exact? : Arithmetic → Option (Int → Int → Int)
  | .add => some (· + ·)
  | .subtract => some (· - ·)
  | .multiply => some (· * ·)
  | .divide => none

/-- Whether a comparison holds, given how two values are ordered.  Without an
order between them, they are only unequal. -/
def Comparison.holds (c : Comparison) : Option Ordering → Bool
  | none => c = .notEqual
  | some .lt => c = .notEqual || c = .less || c = .lessEqual
  | some .eq => c = .equal || c = .lessEqual || c = .greaterEqual
  | some .gt => c = .notEqual || c = .greater || c = .greaterEqual

/-- The floating type in which integers of a type are divided. -/
def IntType.quotientType (t : IntType) : FloatType :=
  if t.width.bits = 64 then .double else .single

/-- The operation on two floating numbers of one type. -/
def Arithmetic.onFloats (op : Arithmetic) (t : FloatType) (x y : Binary t.format) :
    Binary t.format :=
  match op with
  | .add => x.add t.underflow y
  | .subtract => x.sub t.underflow y
  | .multiply => x.mul t.underflow y
  | .divide => x.div t.underflow y

namespace Scalar

/-- The kernel of an operation.  Integers are divided as floating numbers, into
which they are brought as they stand. -/
def kernel (op : Arithmetic) (x y : Scalar) : Scalar :=
  match pair x y with
  | .ints t a b =>
    match op.exact? with
    | some f => .int t (.wrap t (f a.val b.val))
    | none => .float t.quotientType (op.onFloats t.quotientType (toFloat _ x) (toFloat _ y))
  | .floats t a b => .float t (op.onFloats t a b)

/-- A step of a program: the result of the kernel, unless it is an integer that
differs from the exact one. -/
def step? (op : Arithmetic) (x y : Scalar) : Option Scalar :=
  let out := kernel op x y
  match op.exact?, out, x, y with
  | some f, .int _ n, .int _ a, .int _ b => if n.val = f a.val b.val then some out else none
  | _, _, _, _ => some out

/-- How two numbers are ordered; "not a number" is not ordered at all. -/
def order (x y : Scalar) : Option Ordering :=
  match pair x y with
  | .ints _ a b => some (compare a.val b.val)
  | .floats _ a b => do
    let m ← a.rank?
    let n ← b.rank?
    some (compare m n)

/-- Whether a number counts as zero: an integer zero, or a floating number that
kernels take as zero. -/
def isZero : Scalar → Bool
  | .int _ n => n.val = 0
  | .float t x => (t.operand x).rank? = some 0

end Scalar

end CallLang
