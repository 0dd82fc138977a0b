/-
# `CallLang.Proofs.IntegerSteps` — steps on integers of 32 and of 64 bits

A caller may hand in integers of three types, signed and unsigned ones of 32 bits
and signed ones of 64 bits.  Two of one type stay in it, two of different types
meet in 64 bits (`IntType.promoted`), where both are what they were.  A step on
them is exact there, or refused (`stepValues_int`): at the upper end of the type
as at the lower one, and however often the kernel has wrapped on its way.

A signed and an unsigned integer of 32 bits leave no step that could be refused:
sums, differences and products of two such are integers of 64 bits
(`Arithmetic.Means.holds_mixed`).
-/
import CallLang.Proofs.Exact

namespace CallLang

/-! ## Types of a step -/

namespace IntType

/-- The signed integers of 32 bits. -/
def int32 : IntType := ⟨true, .w32⟩

/-- The unsigned integers of 32 bits. -/
def uint32 : IntType := ⟨false, .w32⟩

/-- The types of integers that a caller may hand in for a step. -/
def stepTypes : List IntType := [int32, uint32, int64]

/-- The type in which a step on two integers is made: their own if they share it,
64 bits otherwise. -/
def promoted (s t : IntType) : IntType :=
  if s = t then s else int64

theorem join_eq_promoted {s t : IntType} (hs : s ∈ stepTypes) (ht : t ∈ stepTypes) :
    s.join t = some (s.promoted t) := by
  have hall : ∀ s ∈ stepTypes, ∀ t ∈ stepTypes, s.join t = some (s.promoted t) := by decide
  exact hall s hs t ht

theorem not_givesWay {s : IntType} (hs : s ∈ stepTypes) (t : IntType) : ¬ s.GivesWay t := by
  have hall : ∀ s ∈ stepTypes, s.width ≠ .plain := by decide
  exact fun h => hall s hs h.1

end IntType

/-! ## Operations on the integers -/

namespace Arithmetic

/-- `Means op f`: on unbounded integers, `op` is to be `f`. -/
inductive Means : Arithmetic → (Int → Int → Int) → Prop
  | add : Means .add (· + ·)
  | subtract : Means .subtract (· - ·)
  | multiply : Means .multiply (· * ·)

theorem Means.exact? {op : Arithmetic} {f : Int → Int → Int} (hf : op.Means f) :
    op.exact? = some f := by
  cases hf <;> rfl

theorem Means.holds_mixed {op : Arithmetic} {f : Int → Int → Int} (hf : op.Means f) {m n : Int}
    (hm : IntType.int32.Holds m) (hn : IntType.uint32.Holds n) :
    IntType.int64.Holds (f m n) ∧ IntType.int64.Holds (f n m) := by
  have hm' : -2147483648 ≤ m ∧ m ≤ 2147483647 := hm
  have hn' : 0 ≤ n ∧ n ≤ 4294967295 := hn
  have hfits : ∀ r : Int, IntType.int64.Holds r ↔
      -9223372036854775808 ≤ r ∧ r ≤ 9223372036854775807 := fun r => Iff.rfl
  rw [hfits, hfits]
  cases hf with
  | add =>
      beta_reduce
      omega
  | subtract =>
      beta_reduce
      omega
  | multiply =>
      beta_reduce
      -- a product is not linear: the bounds on `m` are carried over by `n`
      have hlow : -2147483648 * n ≤ m * n := Int.mul_le_mul_of_nonneg_right hm'.1 hn'.1
      have hhigh : m * n ≤ 2147483647 * n := Int.mul_le_mul_of_nonneg_right hm'.2 hn'.1
      rw [Int.mul_comm n m]
      omega

end Arithmetic

/-! ## The step -/

theorem stepValues_number (op : Arithmetic) (x y : Scalar) :
    stepValues op (.number x) (.number y) =
      match x.step? op y with
      | some z => .ok z
      | none => .error (.integerOverflow op) := rfl

/-- A step on two integers has the exact result in their common type, or none. -/
theorem stepValues_int {op : Arithmetic} {f : Int → Int → Int} (hf : op.Means f)
    {s t : IntType} (hs : s ∈ IntType.stepTypes) (ht : t ∈ IntType.stepTypes)
    (a : Fixed s) (b : Fixed t) :
    stepValues op (.number (.int s a)) (.number (.int t b)) =
      if h : (s.promoted t).Holds (f a.val b.val) then
        .ok (.int (s.promoted t) ⟨f a.val b.val, h⟩)
      else .error (.integerOverflow op) := by
  rw [stepValues_number, Scalar.step?_int hf.exact? (IntType.not_givesWay hs t)
    (IntType.not_givesWay ht s) (IntType.join_eq_promoted hs ht) a b]
  by_cases h : (s.promoted t).Holds (f a.val b.val)
  · simp only [dif_pos h]
  · simp only [dif_neg h]

/-- **A step on integers is exact on every mix of their types.**  Where the common
type holds the exact result, the step returns it, as an integer of that type;
where it does not, the step reports an overflow.  A signed and an unsigned
integer of 32 bits never overflow. -/
theorem stepValues_integers {op : Arithmetic} {f : Int → Int → Int} (hf : op.Means f)
    {s t : IntType} (hs : s ∈ IntType.stepTypes) (ht : t ∈ IntType.stepTypes)
    (a : Fixed s) (b : Fixed t) :
    (∀ h : (s.promoted t).Holds (f a.val b.val),
      stepValues op (.number (.int s a)) (.number (.int t b)) =
        .ok (.int (s.promoted t) ⟨f a.val b.val, h⟩)) ∧
    (¬ (s.promoted t).Holds (f a.val b.val) →
      ∃ err, stepValues op (.number (.int s a)) (.number (.int t b)) = .error err ∧
        err.errorClass? = some .overflow ∧
        err.message = "Integer overflow in " ++ op.label ++ ".") ∧
    (s = .int32 ∧ t = .uint32 ∨ s = .uint32 ∧ t = .int32 →
      ∃ z, stepValues op (.number (.int s a)) (.number (.int t b)) = .ok z) := by
  have hstep := stepValues_int hf hs ht a b
  refine ⟨fun h => ?_, fun h => ?_, fun hmixed => ?_⟩
  · rw [hstep, dif_pos h]
  · exact ⟨.integerOverflow op, by rw [hstep, dif_neg h], rfl, rfl⟩
  · have hfits : (s.promoted t).Holds (f a.val b.val) := by
      obtain ⟨rfl, rfl⟩ | ⟨rfl, rfl⟩ := hmixed
      · exact (hf.holds_mixed a.property b.property).1
      · exact (hf.holds_mixed b.property a.property).2
    exact ⟨_, by rw [hstep, dif_pos hfits]⟩

/-- The least signed integer of 32 bits times the greatest unsigned one is there
in 64 bits, while one less than an unsigned zero is an overflow. -/
theorem stepValues_integers_extremes :
    (∃ h, stepValues .multiply (.number (.int .int32 ⟨-2147483648, by decide⟩))
        (.number (.int .uint32 ⟨4294967295, by decide⟩)) =
      .ok (.int .int64 ⟨-9223372034707292160, h⟩)) ∧
    ∃ err, stepValues .subtract (.number (.int .uint32 ⟨0, by decide⟩))
        (.number (.int .uint32 ⟨1, by decide⟩)) = .error err ∧
      err.errorClass? = some .overflow ∧ err.message = "Integer overflow in SUBTRACT." := by
  refine ⟨⟨by decide, ?_⟩, ?_⟩
  · exact (stepValues_integers .multiply (s := .int32) (t := .uint32) (by decide) (by decide)
      ⟨-2147483648, by decide⟩ ⟨4294967295, by decide⟩).1 (by decide)
  · exact (stepValues_integers .subtract (s := .uint32) (t := .uint32) (by decide) (by decide)
      ⟨0, by decide⟩ ⟨1, by decide⟩).2.1 (by decide)

end CallLang
