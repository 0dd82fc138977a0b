/-
# `CallLang.Binary.Arithmetic` — numbers of a binary format

A number is a sign and the code of a magnitude, or "not a number".  The
operations compute the exact result and round it once.  They follow the usual
rules for zeros and infinities: a sum that is exactly zero is negative only when
both operands are, and a product or quotient has the sign that its operands
give it even when it is zero.
-/
import CallLang.Binary.Format

namespace CallLang

/-- A number of the format `F`. -/
inductive Binary (F : Format)
  | nan
  | signed (negative : Bool) (code : Fin (F.infinity + 1))
  deriving DecidableEq

namespace Binary

variable {F : Format}

/-- The number with a sign and a code; codes past infinity count as infinity. -/
def ofCode (negative : Bool) (code : Nat) : Binary F :=
  .signed negative ⟨min code F.infinity, Nat.lt_succ_of_le (Nat.min_le_right _ _)⟩

/-- Zero with a sign. -/
def zero (negative : Bool) : Binary F :=
  .signed negative ⟨0, Nat.zero_lt_succ _⟩

/-- Infinity with a sign. -/
def infinite (negative : Bool) : Binary F :=
  .signed negative ⟨F.infinity, Nat.lt_succ_self _⟩

/-- The number nearest to `num / den` units, with a sign. -/
def ofQuotient (u : Underflow) (negative : Bool) (num den : Nat) : Binary F :=
  .signed negative ⟨F.round u num den, Nat.lt_succ_of_le (F.round_le_infinity u num den)⟩

/-- The number nearest to an integer. -/
def ofInt (n : Int) : Binary F :=
  ofQuotient .gradual (n < 0) (n.natAbs * F.one) 1

/-- Whether a number is neither infinite nor "not a number". -/
def isFinite : Binary F → Bool
  | .nan => false
  | .signed _ c => c.val < F.infinity

/-- The value of a finite number in units of the least positive number. -/
def signedUnits (negative : Bool) (code : Nat) : Int :=
  if negative then -(F.units code : Int) else F.units code

/-- A subnormal number taken as zero of its sign. -/
def flush : Binary F → Binary F
  | .nan => .nan
  | .signed s c => .signed s ⟨F.flush c.val, Nat.lt_of_le_of_lt (F.flush_le c.val) c.isLt⟩

/-- The same number in another format, rounded where it does not fit. -/
def convert {G : Format} : Binary F → Binary G
  | .nan => .nan
  | .signed s c =>
    if c.val = F.infinity then infinite s
    else ofQuotient .gradual s (F.units c.val * G.one) F.one

/-! ## Operations -/

/-- The same magnitude with the other sign. -/
def neg : Binary F → Binary F
  | .nan => .nan
  | .signed s c => .signed (!s) c

/-- The sum. -/
def add (u : Underflow) : Binary F → Binary F → Binary F
  | .signed s a, .signed t b =>
    if a.val = F.infinity then
      if b.val = F.infinity ∧ s ≠ t then .nan else infinite s
    else if b.val = F.infinity then infinite t
    else
      let total := signedUnits (F := F) s a.val + signedUnits (F := F) t b.val
      if total = 0 then zero (s && t) else ofQuotient u (total < 0) total.natAbs 1
  | _, _ => .nan

/-- The difference. -/
def sub (u : Underflow) (x y : Binary F) : Binary F :=
  add u x y.neg

/-- The product. -/
def mul (u : Underflow) : Binary F → Binary F → Binary F
  | .signed s a, .signed t b =>
    if a.val = F.infinity ∨ b.val = F.infinity then
      if a.val = 0 ∨ b.val = 0 then .nan else infinite (s ^^ t)
    else ofQuotient u (s ^^ t) (F.units a.val * F.units b.val) F.one
  | _, _ => .nan

/-- The quotient.  A nonzero number divided by zero is infinite. -/
def div (u : Underflow) : Binary F → Binary F → Binary F
  | .signed s a, .signed t b =>
    if a.val = F.infinity then
      if b.val = F.infinity then .nan else infinite (s ^^ t)
    else if b.val = F.infinity then zero (s ^^ t)
    else if b.val = 0 then
      if a.val = 0 then .nan else infinite (s ^^ t)
    else ofQuotient u (s ^^ t) (F.units a.val * F.one) (F.units b.val)
  | _, _ => .nan

/-! ## Order -/

/-- The place of a number in the order; both zeros share one place, and "not a
number" has none. -/
def rank? : Binary F → Option Int
  | .nan => none
  | .signed s c => some (if s then -(c.val : Int) else c.val)

end Binary

/-- The bit pattern of a number; "not a number" has none of its own. -/
def Binary.bits? : Binary Format.binary64 → Option Nat
  | .nan => none
  | .signed s c => some ((if s then 0x8000000000000000 else 0) + c.val)

end CallLang
