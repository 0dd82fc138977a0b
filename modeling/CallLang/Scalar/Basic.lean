/-
# `CallLang.Scalar.Basic` — typed numbers

A number of the language carries its type: an integer of fixed width, or a
binary floating number.  Programs make 64-bit numbers only; a caller may hand
in the others.  Two numbers of different types meet in a common type
(`Scalar.pair`).

A plain number, which a caller has written without a type, has 64 bits, but it
gives way: beside an integer with a type a plain integer takes that type, and so
does a plain real number beside a floating one.  It is wrapped or rounded there.
Of two integers that both have a type none is changed, wherever an integer type
holds both.
-/
import CallLang.Binary.Arithmetic
import CallLang.Decimal.Digits

namespace CallLang

/-! ## Integer types -/

/-- The widths of integers.  `plain` is that of plain integers. -/
inductive Width
  | w8
  | w16
  | w32
  | w64
  | plain
  deriving DecidableEq, Repr

/-- The number of bits of a width. -/
def Width.bits : Width → Nat
  | .w8 => 8
  | .w16 => 16
  | .w32 => 32
  | .w64 => 64
  | .plain => 64

/-- How many integers a width has. -/
def Width.count : Width → Nat
  | .w8 => 0x100
  | .w16 => 0x10000
  | .w32 => 0x100000000
  | .w64 => 0x10000000000000000
  | .plain => 0x10000000000000000

/-- The greater of two widths. -/
def Width.max (v w : Width) : Width :=
  if v.bits < w.bits then w else v

/-- The width of twice as many bits, where there is one. -/
def Width.double? : Width → Option Width
  | .w8 => some .w16
  | .w16 => some .w32
  | .w32 => some .w64
  | .w64 => none
  | .plain => none

/-- A type of integers. -/
structure IntType where
  signed : Bool
  width : Width
  deriving DecidableEq, Repr

namespace IntType

/-- The signed integers of 64 bits, in which programs compute. -/
def int64 : IntType := ⟨true, .w64⟩

/-- The type of plain integers. -/
def plain : IntType := ⟨true, .plain⟩

/-- The least integer of a type. -/
def least (t : IntType) : Int :=
  if t.signed then -((t.width.count : Int) / 2) else 0

/-- The greatest integer of a type. -/
def greatest (t : IntType) : Int :=
  if t.signed then (t.width.count : Int) / 2 - 1 else (t.width.count : Int) - 1

/-- Whether an integer belongs to a type. -/
def Holds (t : IntType) (n : Int) : Prop :=
  t.least ≤ n ∧ n ≤ t.greatest

instance (t : IntType) (n : Int) : Decidable (t.Holds n) :=
  inferInstanceAs (Decidable (_ ∧ _))

/-- The integer of a type that agrees with `n` modulo the number of integers
the type has. -/
def wrap (t : IntType) (n : Int) : Int :=
  if t.signed then n.bmod t.width.count else n % t.width.count

theorem holds_wrap (t : IntType) (n : Int) : t.Holds (t.wrap n) := by
  obtain ⟨signed, width⟩ := t
  have low : ∀ m : Nat, 0 < m → -((m : Int) / 2) ≤ n.bmod m := fun m hm => Int.le_bmod hm
  have high : ∀ m : Nat, 0 < m → n.bmod m < ((m : Int) + 1) / 2 := fun m hm => Int.bmod_lt hm
  cases signed with
  | false =>
    cases width <;>
      simp only [Holds, least, greatest, wrap, Width.count, Bool.false_eq_true, if_false] <;> omega
  | true =>
    have hl := low width.count (by cases width <;> decide)
    have hh := high width.count (by cases width <;> decide)
    cases width <;>
      simp only [Holds, least, greatest, wrap, Width.count, if_true] at hl hh ⊢ <;> omega

/-- Whether integers of type `s` take the type `t` beside one of that type. -/
def GivesWay (s t : IntType) : Prop :=
  s.width = .plain ∧ t.width ≠ .plain

instance (s t : IntType) : Decidable (s.GivesWay t) :=
  inferInstanceAs (Decidable (_ ∧ _))

/-- The common type of two types: that of the other, where one gives way, and else
the least integer type that holds both, if there is one. -/
def join (s t : IntType) : Option IntType :=
  if s.GivesWay t then some t
  else if t.GivesWay s then some s
  else if s.signed = t.signed then some ⟨s.signed, s.width.max t.width⟩
  else
    let signed := if s.signed then s.width else t.width
    let unsigned := if s.signed then t.width else s.width
    if unsigned.bits < signed.bits then some ⟨true, signed⟩
    else unsigned.double?.map (⟨true, ·⟩)

/-- The name of a type. -/
def label (t : IntType) : String :=
  (if t.signed then "int" else "uint") ++ integerText t.width.bits

end IntType

/-- The integers of a type. -/
def Fixed (t : IntType) : Type :=
  { n : Int // t.Holds n }

/-- The integer of a type that an integer wraps to. -/
def Fixed.wrap (t : IntType) (n : Int) : Fixed t :=
  ⟨t.wrap n, t.holds_wrap n⟩

/-! ## Floating types -/

/-- The floating types.  `plain` is that of plain real numbers. -/
inductive FloatType
  | half
  | single
  | double
  | plain
  deriving DecidableEq, Repr

namespace FloatType

/-- The format of a floating type. -/
def format : FloatType → Format
  | .half => .binary16
  | .single => .binary32
  | .double => .binary64
  | .plain => .binary64

/-- What becomes of subnormal numbers in the kernels of a type.  The 16-bit type
keeps them. -/
def underflow : FloatType → Underflow
  | .half => .gradual
  | .single => .flushed
  | .double => .flushed
  | .plain => .flushed

/-- The common type of two floating types: the wider one, unless one is plain. -/
def max : FloatType → FloatType → FloatType
  | .plain, t => t
  | s, .plain => s
  | .double, _ => .double
  | _, .double => .double
  | .single, _ => .single
  | _, .single => .single
  | .half, .half => .half

/-- The name of a type. -/
def label : FloatType → String
  | .half => "float16"
  | .single => "float32"
  | .double => "float64"
  | .plain => "float64"

end FloatType

/-- A number as the kernels of its type take it: where they flush, a subnormal
one is zero. -/
def FloatType.operand (t : FloatType) (x : Binary t.format) : Binary t.format :=
  match t.underflow with
  | .gradual => x
  | .flushed => x.flush

/-- A number brought into another floating type; within one type it stays as
it is. -/
def widen : (s t : FloatType) → Binary s.format → Binary t.format
  | .half, .half, x => x
  | .single, .single, x => x
  | .double, .double, x => x
  | .double, .plain, x => x
  | .plain, .double, x => x
  | .plain, .plain, x => x
  | _, _, x => x.convert

/-! ## Numbers -/

/-- A typed number. -/
inductive Scalar
  | int (t : IntType) (n : Fixed t)
  | float (t : FloatType) (x : Binary t.format)

namespace Scalar

/-- The type of a number, by name. -/
def typeLabel : Scalar → String
  | .int t _ => t.label
  | .float t _ => t.label

/-- A 64-bit integer, wrapped. -/
def int64 (n : Int) : Scalar :=
  .int .int64 (.wrap .int64 n)

/-- A 64-bit floating number. -/
def float64 (x : Binary Format.binary64) : Scalar :=
  .float .double x

/-- A plain integer, wrapped. -/
def integer (n : Int) : Scalar :=
  .int .plain (.wrap .plain n)

/-- A plain real number. -/
def real (x : Binary Format.binary64) : Scalar :=
  .float .plain x

/-- A number brought into a floating type. -/
def toFloat (t : FloatType) : Scalar → Binary t.format
  | .int _ n => .ofInt n.val
  | .float s x => t.operand (widen s t (s.operand x))

/-! ## Two numbers in a common type -/

/-- Two numbers of one type. -/
inductive Pair
  | ints (t : IntType) (a b : Fixed t)
  | floats (t : FloatType) (x y : Binary t.format)

/-- Brings two numbers into their common type.  Two integers without a common
integer type meet as 64-bit floating numbers; an integer and a floating number
meet in the floating type.  A floating number is taken as an operand of its own
type first, and of the common type then: a plain number that is rounded into a
narrower type may be subnormal there. -/
def pair : Scalar → Scalar → Pair
  | .int s a, .int t b =>
    match s.join t with
    | some u => .ints u (.wrap u a.val) (.wrap u b.val)
    | none => .floats .double (.ofInt a.val) (.ofInt b.val)
  | .int _ a, .float t y => .floats t (.ofInt a.val) (t.operand y)
  | .float t x, .int _ b => .floats t (t.operand x) (.ofInt b.val)
  | .float s x, .float t y =>
    .floats (s.max t) (toFloat (s.max t) (.float s x)) (toFloat (s.max t) (.float t y))

end Scalar

end CallLang
