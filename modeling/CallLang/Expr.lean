/-
# `CallLang.Expr` — expressions

A program is one call.  Its parameters are number texts, strings and calls
again.  Nothing is checked when an expression is built: counts and kinds are a
matter of evaluation, and a number keeps the text it was written with.
-/
import CallLang.Operator

namespace CallLang

/-- An expression.  The operand of a unary call is absent when the call has no
parameter at all.  A `foreign` node is anything else that a caller has put into
a tree; only the name of its type is known. -/
inductive Expr
  | number (text : String)
  | string (text : String)
  | conditional (params : List Expr)
  | predicate (name : Comparison) (params : List Expr)
  | binary (name : Arithmetic) (params : List Expr)
  | unary (name : OperatorName) (param : Option Expr)
  | foreign (typeName : String)
  deriving Repr

namespace Expr

/-- The call of an operator.  A unary call keeps the first parameter only. -/
def call (op : Operator) (params : List Expr) : Expr :=
  match op with
  | .conditional => .conditional params
  | .named (.comparison name) => .predicate name params
  | .named (.arithmetic name) => .binary name params
  | .named .print => .unary .print params.head?

end Expr

end CallLang
