/-
# `CallLang.Proofs.Decimals` — decimals and the binary numbers nearest to them

A decimal is a rational number (`Decimal.toRat`), and its code is that of the nearest
magnitude (`code_eq_of_isNearest`): it depends on the value alone, and not on how the
value is split into a significand and an exponent (`code_congr`).

| | |
| :-- | :-- |
| `code_shortest` | the shortest decimal of a code has that code |
| `code_eq_infinity_iff` | the finite numbers end half a step behind the greatest one |
| `exists_toBinary` | the bounds that keep the powers of ten small change nothing |
-/
import Mathlib.Algebra.Order.Field.Power
import CallLang.Decimal.Shortest
import CallLang.Proofs.Rounding

namespace CallLang

namespace Decimal

/-- The rational number that a decimal is. -/
def toRat (d : Decimal) : ℚ :=
  d.significand * 10 ^ d.exponent

theorem toRat_eq_zero {d : Decimal} (h : d.significand = 0) : d.toRat = 0 := by
  rw [toRat, h, Nat.cast_zero, zero_mul]

theorem toRat_nonneg (d : Decimal) : 0 ≤ d.toRat := by
  unfold toRat
  positivity

/-! ## As a quotient -/

theorem quotient_pos (d : Decimal) : 0 < d.quotient.2 := by
  unfold quotient
  split
  · exact Nat.pow_pos (by decide)
  · exact Nat.one_pos

theorem quotient_eq (d : Decimal) : (d.quotient.1 / d.quotient.2 : ℚ) = d.toRat := by
  unfold quotient toRat
  split
  next hneg =>
    obtain ⟨n, hn⟩ := Int.exists_eq_neg_ofNat hneg.le
    rw [hn, Int.natAbs_neg, Int.natAbs_natCast, zpow_neg, zpow_natCast, div_eq_mul_inv]
    show _ * (((10 ^ n : Nat) : ℚ))⁻¹ = _
    push_cast
    rfl
  next hneg =>
    obtain ⟨n, hn⟩ := Int.eq_ofNat_of_zero_le (not_lt.mp hneg)
    rw [hn, Int.natAbs_natCast, zpow_natCast, Nat.cast_one, div_one]
    show ((d.significand * 10 ^ n : Nat) : ℚ) = _
    push_cast
    rfl

/-! ## The code of a decimal -/

section Code

variable {F : Format} (hp : 2 ≤ F.precision) {d e : Decimal} {c : Nat}

include hp

theorem isNearest_quotient (d : Decimal) :
    F.IsNearest (d.toRat * F.one)
      (nearestCode F.precision (d.quotient.1 * F.one) d.quotient.2) := by
  have hvalue : ((d.quotient.1 * F.one : Nat) / d.quotient.2 : ℚ) = d.toRat * F.one := by
    rw [← quotient_eq]
    push_cast
    ring
  rw [← hvalue]
  exact Format.isNearest_nearestCode hp d.quotient_pos

/-- The code of a decimal is that of the nearest magnitude, or of infinity. -/
theorem code_eq_of_isNearest (h : F.IsNearest (d.toRat * F.one) c) :
    d.code F = min c F.infinity := by
  rw [code, Format.round, (isNearest_quotient hp d).unique h]

/-- A finite code is nearest to its decimal. -/
theorem isNearest_code (h : d.code F ≠ F.infinity) : F.IsNearest (d.toRat * F.one) (d.code F) := by
  have hnearest := isNearest_quotient hp d
  rw [code_eq_of_isNearest hp hnearest] at h ⊢
  rwa [Nat.min_eq_left (by omega)]

theorem code_congr (h : d.toRat = e.toRat) : d.code F = e.code F :=
  code_eq_of_isNearest hp (h ▸ isNearest_quotient hp e)

theorem code_eq_of_toRat (hc : c ≤ F.infinity) (h : d.toRat * F.one = F.units c) :
    d.code F = c := by
  have hnearest : F.IsNearest (d.toRat * F.one) c := h ▸ F.isNearest_units c
  rw [code_eq_of_isNearest hp hnearest, Nat.min_eq_left hc]

theorem code_eq_zero (h : d.toRat * F.one < 1 / 2) : d.code F = 0 := by
  have hnonneg : 0 ≤ d.toRat * F.one := mul_nonneg d.toRat_nonneg (Nat.cast_nonneg _)
  rw [code_eq_of_isNearest hp (Format.isNearest_zero hnonneg h), Nat.zero_min]

theorem code_of_significand_eq_zero (h : d.significand = 0) : d.code F = 0 := by
  refine code_eq_zero hp ?_
  rw [toRat_eq_zero h, zero_mul]
  exact one_half_pos

/-! ## The shortest decimal -/

theorem code_exact (hc : c ≤ F.infinity) : (exact F c).code F = c := by
  refine code_eq_of_toRat hp hc ?_
  show ((F.units c * 5 ^ F.scale : Nat) : ℚ) * 10 ^ (-(F.scale : ℤ)) * ((2 ^ F.scale : Nat) : ℚ) = _
  rw [zpow_neg, zpow_natCast, show (10 : ℚ) = 5 * 2 by norm_num, mul_pow]
  push_cast
  field_simp

omit hp in
theorem code_of_candidate? {digits : Nat} (h : candidate? F c digits = some d) : d.code F = c := by
  simp only [candidate?] at h
  split at h
  next hbelow =>
    split at h
    next habove =>
      cases h
      -- Both neighbours read back, and the nearer one is one of them.
      unfold roundQuotient
      grind
    next =>
      cases h
      exact hbelow
  next =>
    split at h
    next habove =>
      cases h
      exact habove
    next => cases h

theorem code_shortest (hc : c ≤ F.infinity) : (shortest F c).code F = c := by
  rw [shortest]
  cases hfound : (List.range 17).findSome? fun i => candidate? F c (i + 1) with
  | none => exact code_exact hp hc
  | some d =>
      obtain ⟨i, -, hi⟩ := List.exists_of_findSome?_eq_some hfound
      exact code_of_candidate? hi

end Code

/-! ## Reading into 64 bits -/

theorem precision_binary64 : 2 ≤ Format.binary64.precision := by
  decide

section Binary64

variable {d : Decimal}

/-- A decimal is past the finite numbers of 64 bits from half a step behind the
greatest one on. -/
theorem code_eq_infinity_iff :
    d.code .binary64 = Format.binary64.infinity ↔ 2 ^ 1024 - 2 ^ 970 ≤ d.toRat := by
  have hone : (0 : ℚ) < Format.binary64.one := by exact_mod_cast Format.binary64.one_pos
  have hnearest := isNearest_quotient precision_binary64 d
  rw [code_eq_of_isNearest precision_binary64 hnearest, min_eq_right_iff]
  refine (hnearest.le_iff (k := Format.binary64.infinity - 1) rfl).trans ?_
  rw [show Format.binary64.infinity - 1 + 1 = Format.binary64.infinity from rfl,
    Format.midpoint_infinity, mul_le_mul_iff_right₀ two_pos, mul_le_mul_iff_left₀ hone]

theorem code_of_large (hsig : d.significand ≠ 0) (hlarge : 342 ≤ d.exponent) :
    d.code .binary64 = Format.binary64.infinity := by
  have hpos : (1 : ℚ) ≤ d.significand := by exact_mod_cast Nat.pos_of_ne_zero hsig
  have hlimit : (2 : ℚ) ^ 1024 ≤ 10 ^ 342 := by
    have hnat : 2 ^ 1024 ≤ 10 ^ 342 := by decide +kernel
    have hcast := Nat.cast_le (α := ℚ).mpr hnat
    rwa [Nat.cast_pow, Nat.cast_pow] at hcast
  rw [code_eq_infinity_iff]
  calc (2 : ℚ) ^ 1024 - 2 ^ 970 ≤ 2 ^ 1024 := sub_le_self _ (by positivity)
    _ ≤ 10 ^ 342 := hlimit
    _ = 10 ^ (342 : ℤ) := (zpow_natCast 10 342).symm
    _ ≤ 10 ^ d.exponent := zpow_le_zpow_right₀ (by norm_num) hlarge
    _ ≤ d.significand * 10 ^ d.exponent := le_mul_of_one_le_left (by positivity) hpos

theorem two_pow_mul_le_ten_pow {a b k : Nat} (h : a + b ≤ 3 * k) : 2 ^ a * 2 ^ b ≤ 10 ^ k :=
  calc 2 ^ a * 2 ^ b = 2 ^ (a + b) := (Nat.pow_add 2 a b).symm
    _ ≤ 2 ^ (3 * k) := Nat.pow_le_pow_right two_pos h
    _ = 8 ^ k := Nat.pow_mul 2 3 k
    _ ≤ 10 ^ k := Nat.pow_le_pow_left (by decide) k

theorem code_of_small (hsmall : d.significand.log2 + 1 + 1076 ≤ -3 * d.exponent) :
    d.code .binary64 = 0 := by
  obtain ⟨k, hk⟩ := Int.exists_eq_neg_ofNat (by omega : d.exponent ≤ 0)
  have hscale : Format.binary64.scale = 1074 := rfl
  have hbits : d.significand * Format.binary64.one * 2 < 10 ^ k :=
    calc d.significand * Format.binary64.one * 2
        = d.significand * 2 ^ (Format.binary64.scale + 1) := by
          rw [Nat.mul_assoc, Format.one_mul_two]
      _ < 2 ^ (d.significand.log2 + 1) * 2 ^ (Format.binary64.scale + 1) :=
          Nat.mul_lt_mul_of_pos_right Nat.lt_log2_self (Nat.two_pow_pos _)
      _ ≤ 10 ^ k := two_pow_mul_le_ten_pow (by omega)
  refine code_eq_zero precision_binary64 ?_
  rw [toRat, hk, zpow_neg, zpow_natCast, ← div_eq_mul_inv, div_mul_eq_mul_div,
    div_lt_div_iff₀ (by positivity) two_pos, one_mul]
  exact_mod_cast hbits

/-- Reading a decimal gives the number of its code: the bounds that are checked first
lie in what is rounded to zero and to infinity. -/
theorem exists_toBinary (negative : Bool) (d : Decimal) :
    ∃ c : Fin (Format.binary64.infinity + 1),
      d.toBinary negative = .signed negative c ∧ c.val = d.code .binary64 := by
  unfold toBinary
  split
  next hzero => exact ⟨_, rfl, (code_of_significand_eq_zero precision_binary64 hzero).symm⟩
  next hsig =>
    split
    next hlarge => exact ⟨_, rfl, (code_of_large hsig hlarge).symm⟩
    next =>
      split
      next hsmall => exact ⟨_, rfl, (code_of_small hsmall).symm⟩
      next => exact ⟨_, rfl, rfl⟩

end Binary64

end Decimal

end CallLang
