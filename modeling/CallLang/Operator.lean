/-
# `CallLang.Operator` — the operators and how many parameters they take

There are twelve operators: the conditional, six comparisons, four arithmetic
operations and printing.  Each has one written form and one arity; the table
lists them in order.
-/
import CallLang.Decimal.Digits

namespace CallLang

/-- The comparisons of two values. -/
inductive Comparison
  | equal
  | notEqual
  | less
  | lessEqual
  | greater
  | greaterEqual
  deriving DecidableEq, Repr

/-- The operations on two numbers. -/
inductive Arithmetic
  | add
  | subtract
  | multiply
  | divide
  deriving DecidableEq, Repr

/-- The operators that have a name of their own; the conditional has none. -/
inductive OperatorName
  | comparison (c : Comparison)
  | arithmetic (a : Arithmetic)
  | print
  deriving DecidableEq, Repr

/-- An operator, as it stands behind an open paren. -/
inductive Operator
  | conditional
  | named (name : OperatorName)
  deriving DecidableEq, Repr

/-- How many parameters a call may have; `most` is `none` when there is no
upper bound. -/
structure Arity where
  least : Nat
  most : Option Nat
  deriving DecidableEq, Repr

/-! ## Names -/

/-- The name under which a comparison is reported. -/
def Comparison.label : Comparison → String
  | .equal => "EQUAL"
  | .notEqual => "NOT_EQUAL"
  | .less => "LESS_THAN"
  | .lessEqual => "LESS_THAN_OR_EQUAL"
  | .greater => "GREATER_THAN"
  | .greaterEqual => "GREATER_THAN_OR_EQUAL"

/-- The name under which an arithmetic operation is reported. -/
def Arithmetic.label : Arithmetic → String
  | .add => "ADD"
  | .subtract => "SUBTRACT"
  | .multiply => "MULTIPLY"
  | .divide => "DIVIDE"

/-- The name under which a named operator is reported. -/
def OperatorName.label : OperatorName → String
  | .comparison c => c.label
  | .arithmetic a => a.label
  | .print => "PRINT"

/-- The written form of a comparison. -/
def Comparison.sign : Comparison → String
  | .equal => "="
  | .notEqual => "/="
  | .less => "<"
  | .lessEqual => "<="
  | .greater => ">"
  | .greaterEqual => ">="

/-- The written form of an arithmetic operation. -/
def Arithmetic.sign : Arithmetic → String
  | .add => "+"
  | .subtract => "-"
  | .multiply => "*"
  | .divide => "/"

/-- The written form of an operator. -/
def Operator.text : Operator → String
  | .conditional => "if"
  | .named (.comparison c) => c.sign
  | .named (.arithmetic a) => a.sign
  | .named .print => "print"

/-! ## The table -/

/-- The families of operators. -/
inductive Family
  | conditional
  | predicate
  | binaryOperation
  | unaryOperation
  deriving DecidableEq, Repr

/-- The name under which a family is reported. -/
def Family.label : Family → String
  | .conditional => "conditional"
  | .predicate => "predicate"
  | .binaryOperation => "binary_operation"
  | .unaryOperation => "unary_operation"

/-- The arity of a named operator: a comparison needs a pair, an arithmetic
operation one operand, and printing takes exactly one. -/
def OperatorName.arity : OperatorName → Arity
  | .comparison _ => ⟨2, none⟩
  | .arithmetic _ => ⟨1, none⟩
  | .print => ⟨1, some 1⟩

/-- The arity of the conditional: a test and two branches. -/
def conditionalArity : Arity := ⟨3, some 3⟩

namespace Operator

/-- The family of an operator. -/
def family : Operator → Family
  | .conditional => .conditional
  | .named (.comparison _) => .predicate
  | .named (.arithmetic _) => .binaryOperation
  | .named .print => .unaryOperation

/-- The name of an operator, if it has one. -/
def name? : Operator → Option OperatorName
  | .conditional => none
  | .named name => some name

/-- The arity of an operator. -/
def arity : Operator → Arity
  | .conditional => conditionalArity
  | .named name => name.arity

/-- All operators, in the order of the table. -/
def all : List Operator :=
  [ .conditional,
    .named (.comparison .equal),
    .named (.comparison .notEqual),
    .named (.comparison .lessEqual),
    .named (.comparison .less),
    .named (.comparison .greaterEqual),
    .named (.comparison .greater),
    .named (.arithmetic .add),
    .named (.arithmetic .subtract),
    .named (.arithmetic .multiply),
    .named (.arithmetic .divide),
    .named .print ]

/-- The operator that a text names. -/
def ofText? (text : String) : Option Operator :=
  all.find? (·.text = text)

theorem mem_all (op : Operator) : op ∈ all := by
  rcases op with _ | _ | _ | _
  · decide
  · rename_i c; cases c <;> decide
  · rename_i a; cases a <;> decide
  · decide

theorem text_injective {op op' : Operator} (h : op.text = op'.text) : op = op' := by
  have key : ∀ a ∈ all, ∀ b ∈ all, a.text = b.text → a = b := by decide
  exact key op (mem_all op) op' (mem_all op') h

/-- A text names an operator exactly when it is its written form. -/
theorem ofText?_eq_some_iff {text : String} {op : Operator} :
    ofText? text = some op ↔ op.text = text := by
  unfold ofText?
  constructor
  · intro h
    simpa using List.find?_some h
  · intro h
    subst h
    cases hf : all.find? (fun o => decide (o.text = op.text)) with
    | none => simpa using List.find?_eq_none.1 hf op (mem_all op)
    | some o =>
      have ho : o.text = op.text := by simpa using List.find?_some hf
      rw [text_injective ho]

theorem ofText?_eq_none_iff {text : String} :
    ofText? text = none ↔ ∀ op : Operator, op.text ≠ text := by
  simp [Option.eq_none_iff_forall_ne_some, ofText?_eq_some_iff]

end Operator

/-! ## Counting parameters -/

/-- A count of parameters that an arity does not admit, with the bound it
breaks. -/
inductive ArityFault
  | exactly (bound count : Nat)
  | atLeast (bound count : Nat)
  | atMost (bound count : Nat)
  deriving DecidableEq, Repr

/-- Checks a count of parameters.  When both bounds agree, the bound is exact. -/
def Arity.check (a : Arity) (count : Nat) : Option ArityFault :=
  if a.most = some a.least then
    if count = a.least then none else some (.exactly a.least count)
  else if count < a.least then some (.atLeast a.least count)
  else match a.most with
    | none => none
    | some most => if most < count then some (.atMost most count) else none

/-- A number of parameters in words. -/
def paramsText (count : Nat) : String :=
  if count = 1 then "1 param" else integerText count ++ " params"

/-- What is wrong with the count of parameters of the operator `label`. -/
def ArityFault.message (label : String) : ArityFault → String
  | .exactly bound count =>
    label ++ " expects exactly " ++ paramsText bound ++ ", got " ++ integerText count ++ "."
  | .atLeast bound count =>
    label ++ " expects at least " ++ paramsText bound ++ ", got " ++ integerText count ++ "."
  | .atMost bound count =>
    label ++ " expects at most " ++ paramsText bound ++ ", got " ++ integerText count ++ "."

end CallLang
