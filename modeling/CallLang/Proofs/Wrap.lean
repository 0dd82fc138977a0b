/-
# `CallLang.Proofs.Wrap` — integers that wrap, and steps that notice it

An integer type gives back exactly the integers that it holds, so that a
wrapped result agrees with the exact one precisely when the exact one fits
(`IntType.wrap_eq_self_iff`).  Two types that do not give way have a common type
only if that type holds all their integers; a step on two such integers is
therefore exact, or refused (`Scalar.step?_int`).
-/
import CallLang.Scalar.Kernel

namespace CallLang

namespace IntType

variable {s t u : IntType} {n : Int}

theorem wrap_eq_self (h : t.Holds n) : t.wrap n = n := by
  obtain ⟨signed, width⟩ := t
  obtain ⟨hleast, hgreatest⟩ := h
  cases signed with
  | false =>
      have hcount : n < (width.count : Int) := Int.lt_of_le_sub_one hgreatest
      exact Int.emod_eq_of_lt hleast hcount
  | true =>
      show n.bmod width.count = n
      simp only [least, greatest, if_true] at hleast hgreatest
      exact Int.bmod_eq_of_le hleast (by omega)

/-- Wrapping changes exactly the integers outside the type. -/
theorem wrap_eq_self_iff : t.wrap n = n ↔ t.Holds n := by
  constructor
  · intro h
    rw [← h]
    exact t.holds_wrap n
  · exact wrap_eq_self

/-! ## Common types -/

theorem Holds.mono (hleast : u.least ≤ s.least) (hgreatest : s.greatest ≤ u.greatest)
    (h : s.Holds n) : u.Holds n :=
  ⟨Int.le_trans hleast h.1, Int.le_trans h.2 hgreatest⟩

theorem join_comm (s t : IntType) : s.join t = t.join s := by
  obtain ⟨signed, width⟩ := s
  obtain ⟨signed', width'⟩ := t
  cases signed <;> cases signed' <;> cases width <;> cases width' <;> rfl

theorem join_of_givesWay (h : s.GivesWay t) : s.join t = some t :=
  if_pos h

/-- Where the first of two types does not give way, the bounds of their common type
lie around its bounds. -/
theorem bounds_of_join (hs : ¬ s.GivesWay t) (h : s.join t = some u) :
    u.least ≤ s.least ∧ s.greatest ≤ u.greatest := by
  obtain ⟨signed, width⟩ := s
  obtain ⟨signed', width'⟩ := t
  cases signed <;> cases width <;> cases signed' <;> cases width' <;>
    first
    | exact absurd ⟨rfl, by decide⟩ hs
    | (cases h <;> decide)

theorem Holds.join_left (hs : ¬ s.GivesWay t) (h : s.join t = some u) (hn : s.Holds n) :
    u.Holds n :=
  have hb := bounds_of_join hs h
  hn.mono hb.1 hb.2

theorem Holds.join_right (ht : ¬ t.GivesWay s) (h : s.join t = some u) (hn : t.Holds n) :
    u.Holds n :=
  hn.join_left ht (join_comm t s ▸ h)

end IntType

namespace Scalar

variable {s t u : IntType}

theorem pair_int (hs : ¬ s.GivesWay t) (ht : ¬ t.GivesWay s) (h : s.join t = some u)
    (a : Fixed s) (b : Fixed t) :
    pair (.int s a) (.int t b) = .ints u ⟨a.val, a.property.join_left hs h⟩
      ⟨b.val, b.property.join_right ht h⟩ := by
  simp only [pair, h, Fixed.wrap, IntType.wrap_eq_self (a.property.join_left hs h),
    IntType.wrap_eq_self (b.property.join_right ht h)]

theorem pair_int64 (a b : Fixed .int64) : pair (.int .int64 a) (.int .int64 b) = .ints .int64 a b :=
  pair_int (by decide) (by decide) rfl a b

/-- **A step on integers is exact or refused.**  Its result is the exact one in
the common type; where the exact one does not fit, there is no result. -/
theorem step?_int {op : Arithmetic} {f : Int → Int → Int} (hf : op.exact? = some f)
    (hs : ¬ s.GivesWay t) (ht : ¬ t.GivesWay s) (h : s.join t = some u)
    (a : Fixed s) (b : Fixed t) :
    (Scalar.int s a).step? op (.int t b) =
      if hr : u.Holds (f a.val b.val) then some (.int u ⟨f a.val b.val, hr⟩) else none := by
  have hkernel : kernel op (.int s a) (.int t b) = .int u (.wrap u (f a.val b.val)) := by
    simp only [kernel, pair_int hs ht h, hf]
  simp only [step?, hkernel, hf, Fixed.wrap, IntType.wrap_eq_self_iff]
  split
  next hr => simp only [IntType.wrap_eq_self hr]
  next => rfl

end Scalar

end CallLang
