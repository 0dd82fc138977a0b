/-
# `CallLang.Proofs.Sums` — sums of natural numbers

A tree of sums over natural numbers (`Expr.IsSum`) may be nested in any way and as wide
as one likes.  Natural numbers only add up, so that no result on the way is greater than
the total: the total alone decides how the tree ends.

| | |
| :-- | :-- |
| `IsSum.exists_value` | where 64 bits hold the total, the tree ends in it |
| `IsSum.lt_of_value` | where they do not, the tree ends in no value |

In the second case the error need not be an overflow, since a literal may be out of range
before anything is added.
-/
import Mathlib.Algebra.Order.BigOperators.Group.List
import CallLang.Proofs.PrintedIntegers
import CallLang.Proofs.Prints
import CallLang.Proofs.RoundTrip

namespace CallLang

/-! ## The steps of a sum -/

theorem Arithmetic.foldRow_add (ns : List Int) : Arithmetic.add.foldRow ns = ns.sum := by
  cases ns with
  | nil => rfl
  | cons n ns =>
      rw [List.sum_eq_foldl, List.foldl_cons, Int.zero_add]
      rfl

namespace ExactStep

theorem fits_ofFold_add {acc : Int} {ns : List Int} (hacc : 0 ≤ acc) (hns : ∀ n ∈ ns, 0 ≤ n)
    (htotal : acc + ns.sum < 2 ^ 63) : ∀ s ∈ ofFold .add acc ns, s.Fits := by
  induction ns generalizing acc with
  | nil => exact List.forall_mem_nil _
  | cons n ns ih =>
      obtain ⟨hn, hrest⟩ := List.forall_mem_cons.mp hns
      have hsum : 0 ≤ ns.sum := List.sum_nonneg hrest
      rw [List.sum_cons, ← Int.add_assoc] at htotal
      have hfits : IntType.int64.Holds (acc + n) := by
        rw [IntType.holds_int64_iff]
        omega
      exact List.forall_mem_cons.mpr ⟨hfits, ih (Int.add_nonneg hacc hn) hrest htotal⟩

theorem fits_ofRow_add {ns : List Int} (hns : ∀ n ∈ ns, 0 ≤ n) (htotal : ns.sum < 2 ^ 63) :
    ∀ s ∈ ofRow .add ns, s.Fits := by
  cases ns with
  | nil => exact List.forall_mem_nil _
  | cons n ns =>
      obtain ⟨hn, hrest⟩ := List.forall_mem_cons.mp hns
      rw [List.sum_cons] at htotal
      exact fits_ofFold_add hn hrest htotal

end ExactStep

/-! ## Sums as expressions -/

theorem toList_integerText_natCast (k : Nat) : (integerText k).toList = digitChars k := by
  have hneg : ¬ (k : Int) < 0 := Int.not_lt.mpr (Int.natCast_nonneg k)
  rw [integerText, String.toList_ofList, decide_eq_false hneg]
  rfl

namespace Expr

/-- A tree of sums whose literals are natural numbers in their decimal form. -/
inductive IsSum : Expr → Prop
  | number (k : Nat) : IsSum (.number (integerText k))
  | add {params : List Expr} :
      params ≠ [] → (∀ p ∈ params, IsSum p) → IsSum (.binary .add params)

theorem exactValues_eq_map (params : List Expr) :
    exactValues params = params.map exactValue := by
  induction params with
  | nil => rfl
  | cons p params ih => rw [exactValues, ih, List.map_cons]

theorem exactStepsAll_eq_flatMap (params : List Expr) :
    exactStepsAll params = params.flatMap exactSteps := by
  induction params with
  | nil => rfl
  | cons p params ih => rw [exactStepsAll, ih, List.flatMap_cons]

/-- A literal in decimal form has the value of the integer that it is written for. -/
theorem exactValue_integerText (n : Int) : (number (integerText n)).exactValue = n := by
  have hwrites := writesInteger_integerText n
  rw [exactValue, hwrites.ofText?_eq, Option.map_some, Option.getD_some,
    ← hwrites.denotedInteger_eq, denotedInteger_integerText]

theorem isInteger_integerText {n : Int} {x : Scalar} (h : readNumber (integerText n) = .ok x) :
    (number (integerText n)).IsInteger :=
  .number (writesInteger_integerText n).ofText?_eq rfl h

theorem exactValue_add (params : List Expr) :
    (binary .add params).exactValue = (params.map exactValue).sum := by
  rw [exactValue, exactValues_eq_map, Arithmetic.foldRow_add]

theorem exactSteps_add (params : List Expr) :
    (binary .add params).exactSteps =
      params.flatMap exactSteps ++ ExactStep.ofRow .add (params.map exactValue) := by
  rw [exactSteps, exactStepsAll_eq_flatMap, exactValues_eq_map]

namespace IsSum

variable {channel : Channel} {e : Expr}

theorem exactValue_nonneg (h : e.IsSum) : 0 ≤ e.exactValue := by
  induction h with
  | number k =>
      rw [exactValue_integerText]
      exact Int.natCast_nonneg k
  | add _ _ ih =>
      rw [exactValue_add]
      exact List.sum_nonneg (List.forall_mem_map.mpr ih)

theorem isParam (h : e.IsSum) : e.IsParam := by
  induction h with
  | number k =>
      refine .number ?_
      have hnumeral : IsNumeral ([] ++ (digitChars k ++ [])) :=
        .parts (Or.inl rfl) (.whole (isDigits_digitChars k)) .none
      rwa [List.append_nil, List.nil_append, ← toList_integerText_natCast] at hnumeral
  | add _ _ ih => exact .call (.binary ih)

theorem printNodes_eq_nil (h : e.IsSum) : e.printNodes = [] := by
  induction h with
  | number k => rfl
  | add _ _ ih => exact printNodesAll_eq_nil ih

/-! ## Totals -/

theorem fits (h : e.IsSum) (htotal : e.exactValue < 2 ^ 63) :
    e.IsInteger ∧ ∀ s ∈ e.exactSteps, s.Fits := by
  induction h with
  | number k =>
      rw [exactValue_integerText] at htotal
      have hholds : IntType.int64.Holds k := by
        rw [IntType.holds_int64_iff]
        omega
      have hsmall : (k : Int).natAbs < 2 ^ 63 := by omega
      have hread := readNumber_integerText (lt_ten_pow hsmall (by decide))
      rw [if_pos hholds] at hread
      exact ⟨isInteger_integerText hread, List.forall_mem_nil _⟩
  | @add params hne hsums ih =>
      rw [exactValue_add] at htotal
      have hnonneg : ∀ n ∈ params.map exactValue, 0 ≤ n :=
        List.forall_mem_map.mpr fun p hp => (hsums p hp).exactValue_nonneg
      have hparams : ∀ p ∈ params, p.IsInteger ∧ ∀ s ∈ p.exactSteps, s.Fits := by
        intro p hp
        have hle := List.single_le_sum hnonneg _ (List.mem_map_of_mem hp)
        exact ih p hp (Int.lt_of_le_of_lt hle htotal)
      refine ⟨.binary (by decide) hne fun p hp => (hparams p hp).1, ?_⟩
      rw [exactSteps_add]
      refine List.forall_mem_append.mpr ⟨?_, ExactStep.fits_ofRow_add hnonneg htotal⟩
      intro s hs
      obtain ⟨p, hp, hs⟩ := List.mem_flatMap.mp hs
      exact (hparams p hp).2 s hs

theorem isInteger_of_value (h : e.IsSum) {v : Value} (hv : (eval channel e).result = .ok v) :
    e.IsInteger := by
  induction h generalizing v with
  | number k =>
      obtain ⟨x, hread, -⟩ := eval_number_eq_ok_iff.mp hv
      exact isInteger_integerText hread
  | @add params hne _ ih =>
      obtain ⟨x, xs, -, hoperands, -, -⟩ := eval_binary_eq_ok_iff.mp hv
      have hends := forall₂_mem_left (evalOperands_eq_ok_iff.mp hoperands)
      refine .binary (by decide) hne ?_
      intro p hp
      obtain ⟨-, -, w, hw, -⟩ := hends p hp
      exact ih p hp hw

section Total

variable {total : Nat}

/-- A sum whose total fits ends in it. -/
theorem exists_value (channel : Channel) (h : e.IsSum) (heq : e.exactValue = total)
    (htotal : total < 2 ^ 63) :
    ∃ v, (eval channel e).result = .ok v ∧ v.IsInt64 total := by
  rw [← heq]
  obtain ⟨hint, hfits⟩ := h.fits (by omega)
  have hfollows : Follows channel e.exactSteps (·.IsInt64 e.exactValue) (eval channel e) :=
    eval_follows hint
  have hend := hfollows.result
  rwa [List.find?_eq_none.mpr fun s hs => by simpa using hfits s hs] at hend

/-- A sum whose total does not fit ends in no value at all. -/
theorem lt_of_value (h : e.IsSum) (heq : e.exactValue = total) {v : Value}
    (hv : (eval channel e).result = .ok v) : total < 2 ^ 63 := by
  have hfollows : Follows channel e.exactSteps (·.IsInt64 e.exactValue) (eval channel e) :=
    eval_follows (h.isInteger_of_value hv)
  cases hfollows with
  | value _ _ hvalue _ =>
      -- the value is a 64-bit integer, and the total is that integer
      obtain ⟨_, ⟨a, ha, -⟩, -⟩ := hvalue
      have hholds := IntType.holds_int64_iff.mp a.property
      omega
  | overflow _ _ _ herror _ => exact nomatch herror.symm.trans hv

end Total

end IsSum

end Expr

end CallLang
