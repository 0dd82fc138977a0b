/-
# `CallLang.Proofs.Rounding` — rounding goes to the nearest number

What rounding is to do is said here in rational numbers, without bits: a code is
nearest to a quantity if no other magnitude is nearer, and if it is even whenever
another one is as near (`Format.IsNearest`).

| | |
| :-- | :-- |
| `Format.isNearest_nearestCode` | the rounding of `CallLang.Binary.Format` finds such a code |
| `Format.IsNearest.unique` | there is no second one |
| `Format.IsNearest.le_iff` | it reaches an even code from the midpoint before that code on |

By the second line rounding depends on the quantity alone, however it is written as a
quotient of integers.
-/
import Mathlib.Algebra.Order.Field.Basic
import Mathlib.Algebra.Order.Field.Rat
import Mathlib.Data.Nat.Cast.Order.Field
import Mathlib.Order.Monotone.Basic
import Mathlib.Tactic.FieldSimp
import Mathlib.Tactic.Linarith
import Mathlib.Tactic.NormNum
import Mathlib.Tactic.Ring
import CallLang.Binary.Format

namespace CallLang

/-! ## The nearest integer -/

section NearestInteger

variable {num den : Nat}

theorem mod_div_compare (num : Nat) (hden : 0 < den) :
    (2 * (num % den) < den ↔ ((num % den : Nat) / den : ℚ) < 1 / 2) ∧
    (den < 2 * (num % den) ↔ 1 / 2 < ((num % den : Nat) / den : ℚ)) := by
  have hpos : (0 : ℚ) < den := by exact_mod_cast hden
  rw [div_lt_div_iff₀ hpos two_pos, div_lt_div_iff₀ two_pos hpos, one_mul, mul_comm _ (2 : ℚ)]
  exact ⟨by exact_mod_cast Iff.rfl, by exact_mod_cast Iff.rfl⟩

theorem div_eq_floor_add (num : Nat) (hden : 0 < den) :
    (num / den : ℚ) = (num / den : Nat) + (num % den : Nat) / den ∧
    ((num % den : Nat) / den : ℚ) < 1 := by
  have hpos : (0 : ℚ) < den := by exact_mod_cast hden
  have hnum : (num : ℚ) = den * (num / den : Nat) + (num % den : Nat) := by
    exact_mod_cast (Nat.div_add_mod num den).symm
  constructor
  · nth_rewrite 1 [hnum]
    field_simp
  · rw [div_lt_one hpos]
    exact_mod_cast Nat.mod_lt num hden

/-- A quotient is at most one half away from its nearest integer, and that is even if
it is exactly so far. -/
theorem roundQuotient_near (num : Nat) (hden : 0 < den) :
    |(num / den : ℚ) - roundQuotient num den| ≤ 1 / 2 ∧
    (|(num / den : ℚ) - roundQuotient num den| = 1 / 2 → roundQuotient num den % 2 = 0) := by
  obtain ⟨hbelow, habove⟩ := mod_div_compare num hden
  obtain ⟨hsplit, hlt⟩ := div_eq_floor_add num hden
  have hnonneg : (0 : ℚ) ≤ (num % den : Nat) / den := by positivity
  rw [hsplit, roundQuotient]
  generalize ((num % den : Nat) / den : ℚ) = rest at *
  generalize num / den = floor at *
  split
  next hsmall =>
    have hrest := hbelow.mp hsmall
    rw [add_sub_cancel_left, abs_of_nonneg hnonneg]
    exact ⟨hrest.le, fun heq => absurd heq hrest.ne⟩
  next hsmall =>
    split
    next hlarge =>
      have hrest := habove.mp hlarge
      have hdist : |(floor : ℚ) + rest - ((floor + 1 : Nat) : ℚ)| = 1 - rest := by
        rw [abs_of_nonpos] <;> push_cast <;> linarith
      rw [hdist]
      exact ⟨by linarith, fun heq => by linarith⟩
    next hlarge =>
      have hrest : rest = 1 / 2 :=
        le_antisymm (not_lt.mp (mt habove.mpr hlarge)) (not_lt.mp (mt hbelow.mpr hsmall))
      refine ⟨?_, fun _ => by omega⟩
      rcases Nat.mod_two_eq_zero_or_one floor with hparity | hparity
      all_goals
        rw [hparity, hrest, abs_le]
        push_cast
        constructor <;> linarith

theorem nearest_of_near {q : ℚ} {m : Nat} (hnear : |q - m| ≤ 1 / 2)
    (heven : |q - m| = 1 / 2 → m % 2 = 0) (k : Nat) :
    |q - m| ≤ |q - k| ∧ (|q - k| = |q - m| → k = m ∨ m % 2 = 0) := by
  by_cases hk : k = m
  · subst hk
    exact ⟨le_refl _, fun _ => Or.inl rfl⟩
  · have hapart : (1 : ℚ) ≤ |(k : ℚ) - m| := by
      have hne : (k : ℤ) - m ≠ 0 := by omega
      exact_mod_cast Int.one_le_abs hne
    have htriangle : |(k : ℚ) - m| ≤ |q - k| + |q - m| := by
      rw [abs_sub_comm q (k : ℚ)]
      exact abs_sub_le (k : ℚ) q m
    have hfar : 1 / 2 ≤ |q - k| := by linarith
    exact ⟨hnear.trans hfar, fun heq => Or.inr (heven (le_antisymm hnear (heq ▸ hfar)))⟩

theorem le_roundQuotient {n : Nat} (h : n ≤ num / den) : n ≤ roundQuotient num den := by
  unfold roundQuotient
  grind

theorem roundQuotient_le {n : Nat} (h : num / den < n) : roundQuotient num den ≤ n := by
  unfold roundQuotient
  grind

end NearestInteger

/-! ## Magnitudes -/

namespace Format

variable {F : Format} {c z d m : Nat}

theorem leastNormal_pos (F : Format) : 0 < F.leastNormal :=
  Nat.two_pow_pos (F.precision - 1)

theorem one_pos (F : Format) : 0 < F.one :=
  Nat.two_pow_pos F.scale

theorem one_mul_two (F : Format) : F.one * 2 = 2 ^ (F.scale + 1) :=
  (Nat.pow_succ 2 F.scale).symm

theorem units_binade (hm : m ≤ 2 * F.leastNormal) (hd : d = 0 ∨ F.leastNormal ≤ m) :
    F.units (d * F.leastNormal + m) = m * 2 ^ d := by
  have hpos := F.leastNormal_pos
  by_cases hsubnormal : m < F.leastNormal
  · obtain rfl : d = 0 := by omega
    rw [Nat.zero_mul, Nat.zero_add, units, if_pos hsubnormal, Nat.pow_zero, Nat.mul_one]
  · obtain ⟨r, rfl⟩ := Nat.exists_eq_add_of_le (Nat.not_lt.mp hsubnormal)
    have hcode : d * F.leastNormal + (F.leastNormal + r) = r + F.leastNormal * (d + 1) := by ring
    have hnormal : ¬ r + F.leastNormal * (d + 1) < F.leastNormal := by
      have hle := Nat.le_mul_of_pos_right F.leastNormal (Nat.succ_pos d)
      omega
    rw [hcode, units, if_neg hnormal, Nat.add_mul_mod_self_left, Nat.add_mul_div_left _ _ hpos]
    rcases Nat.lt_or_ge r F.leastNormal with hr | hr
    · rw [Nat.mod_eq_of_lt hr, Nat.div_eq_of_lt hr, Nat.zero_add, Nat.add_sub_cancel]
      rfl
    · -- the first magnitude with the next exponent
      obtain rfl : r = F.leastNormal := by omega
      rw [Nat.mod_self, Nat.div_self hpos, Nat.add_zero, Nat.add_sub_cancel_left]
      show F.leastNormal * 2 ^ (d + 1) = _
      rw [Nat.pow_succ]
      ring

theorem exists_binade (F : Format) (c : Nat) :
    ∃ d m, c = d * F.leastNormal + m ∧ m < 2 * F.leastNormal ∧ (d = 0 ∨ F.leastNormal ≤ m) := by
  have hpos := F.leastNormal_pos
  have hrest := Nat.mod_lt c hpos
  have hsplit := Nat.div_add_mod c F.leastNormal
  rw [Nat.mul_comm] at hsplit
  cases hq : c / F.leastNormal with
  | zero =>
      rw [hq] at hsplit
      exact ⟨0, c, by omega, by omega, Or.inl rfl⟩
  | succ d =>
      refine ⟨d, F.leastNormal + c % F.leastNormal, ?_, by omega, Or.inr (Nat.le_add_right _ _)⟩
      rw [hq, Nat.succ_mul] at hsplit
      omega

theorem binade_lt {e n : Nat} (hn : n < 2 * F.leastNormal) (hexp : e < d) :
    n * 2 ^ e < F.leastNormal * 2 ^ d :=
  calc n * 2 ^ e < 2 * F.leastNormal * 2 ^ e := Nat.mul_lt_mul_of_pos_right hn (Nat.two_pow_pos e)
    _ = F.leastNormal * 2 ^ (e + 1) := by rw [Nat.pow_succ]; ring
    _ ≤ F.leastNormal * 2 ^ d := Nat.mul_le_mul_left _ (Nat.pow_le_pow_right two_pos hexp)

theorem leastNormal_even (hp : 2 ≤ F.precision) : F.leastNormal % 2 = 0 := by
  obtain ⟨k, hk⟩ := Nat.exists_eq_add_of_le' hp
  show 2 ^ (F.precision - 1) % 2 = 0
  rw [hk, Nat.add_sub_assoc one_le_two]
  exact Nat.mul_mod_left (2 ^ k) 2

theorem units_strictMono (F : Format) : StrictMono F.units := by
  refine strictMono_nat_of_lt_succ fun c => ?_
  obtain ⟨d, m, rfl, hm, hd⟩ := F.exists_binade c
  rw [Nat.add_assoc, units_binade hm.le hd, units_binade hm (by omega)]
  exact Nat.mul_lt_mul_of_pos_right (Nat.lt_succ_self m) (Nat.two_pow_pos d)

theorem units_zero (F : Format) : F.units 0 = 0 :=
  if_pos F.leastNormal_pos

theorem units_infinity :
    binary64.units binary64.infinity = 2 ^ 1024 * binary64.one := by
  decide +kernel

theorem units_greatest :
    binary64.units (binary64.infinity - 1) + 2 * (2 ^ 970 * binary64.one) =
      binary64.units binary64.infinity := by
  decide +kernel

theorem midpoint_infinity :
    (binary64.units (binary64.infinity - 1) + binary64.units binary64.infinity : ℚ) =
      2 * ((2 ^ 1024 - 2 ^ 970) * binary64.one) := by
  have hlimit := congrArg (Nat.cast (R := ℚ)) units_infinity
  have hstep := congrArg (Nat.cast (R := ℚ)) units_greatest
  simp only [-Nat.reducePow, Nat.cast_add, Nat.cast_mul, Nat.cast_pow, Nat.cast_ofNat]
    at hlimit hstep
  -- The powers stay closed, since writing them out is slow.
  generalize (2 : ℚ) ^ 1024 = limit at hlimit ⊢
  generalize (2 : ℚ) ^ 970 = half at hstep ⊢
  linarith

/-! ## The nearest magnitude -/

/-- The magnitude with code `c` is nearest to `q` units: none is nearer, and `c` is
even if another one is as near. -/
def IsNearest (F : Format) (q : ℚ) (c : Nat) : Prop :=
  ∀ z, |q - F.units c| ≤ |q - F.units z| ∧
    (|q - F.units z| = |q - F.units c| → z = c ∨ c % 2 = 0)

theorem isNearest_units (F : Format) (c : Nat) : F.IsNearest (F.units c) c := by
  intro z
  rw [sub_self, abs_zero]
  refine ⟨abs_nonneg _, fun heq => Or.inl ?_⟩
  have hsame : (F.units c : ℚ) = F.units z := sub_eq_zero.mp (abs_eq_zero.mp heq)
  exact (F.units_strictMono.injective (by exact_mod_cast hsame)).symm

theorem isNearest_zero {q : ℚ} (hnonneg : 0 ≤ q) (hsmall : q < 1 / 2) : F.IsNearest q 0 := by
  intro z
  rw [units_zero, Nat.cast_zero, sub_zero, abs_of_nonneg hnonneg]
  cases z with
  | zero =>
      rw [units_zero, Nat.cast_zero, sub_zero, abs_of_nonneg hnonneg]
      exact ⟨le_refl q, fun _ => Or.inl rfl⟩
  | succ z =>
      have hunit : (1 : ℚ) ≤ F.units (z + 1) := by
        exact_mod_cast F.units_zero ▸ F.units_strictMono (Nat.succ_pos z)
      have hfarther : q < |q - F.units (z + 1)| := by
        rw [abs_sub_comm, abs_of_pos (by linarith)]
        linarith
      exact ⟨hfarther.le, fun heq => absurd heq hfarther.ne'⟩

namespace IsNearest

variable {q : ℚ}

theorem not_lt (hc : F.IsNearest q c) (hz : F.IsNearest q z) : ¬ c < z := by
  intro hlt
  have htie : |q - F.units c| = |q - F.units z| := le_antisymm (hc z).1 (hz c).1
  -- Both codes are even, so that another one stands between them.
  have hcEven := ((hc z).2 htie.symm).resolve_left (by omega)
  have hzEven := ((hz c).2 htie).resolve_left (by omega)
  have hlow : (F.units c : ℚ) < F.units (c + 1) := by
    exact_mod_cast F.units_strictMono (Nat.lt_succ_self c)
  have hhigh : (F.units (c + 1) : ℚ) < F.units z := by
    exact_mod_cast F.units_strictMono (by omega : c + 1 < z)
  have hmiddle : 2 * q = F.units c + F.units z := by
    rcases abs_eq_abs.mp htie with heq | heq <;> linarith
  have hnearer := (hc (c + 1)).1
  rw [abs_of_pos (by linarith)] at hnearer
  rcases le_abs.mp hnearer with hle | hle <;> linarith

theorem unique (hc : F.IsNearest q c) (hz : F.IsNearest q z) : c = z :=
  Nat.le_antisymm (Nat.not_lt.mp (hz.not_lt hc)) (Nat.not_lt.mp (hc.not_lt hz))

/-- The nearest code has reached an even code exactly if the quantity has reached the
midpoint before it. -/
theorem le_iff (h : F.IsNearest q c) {k : Nat} (hk : (k + 1) % 2 = 0) :
    k + 1 ≤ c ↔ F.units k + F.units (k + 1) ≤ 2 * q := by
  have hstep : (F.units k : ℚ) < F.units (k + 1) := by
    exact_mod_cast F.units_strictMono (Nat.lt_succ_self k)
  constructor
  · intro hle
    have hunits : (F.units (k + 1) : ℚ) ≤ F.units c := by
      exact_mod_cast F.units_strictMono.monotone hle
    by_contra hbelow
    have hnearer := (h k).1
    rw [abs_sub_comm, abs_of_pos (by linarith)] at hnearer
    rcases le_abs.mp hnearer with hle | hle <;> linarith
  · intro hmiddle
    by_contra hbelow
    have hle : c ≤ k := by omega
    have hunits : (F.units c : ℚ) ≤ F.units k := by
      exact_mod_cast F.units_strictMono.monotone hle
    obtain ⟨hnext, htie⟩ := h (k + 1)
    rw [abs_of_pos (by linarith : 0 < q - F.units c)] at hnext htie
    have hnotNearer : |q - F.units (k + 1)| ≤ q - F.units k := by
      rw [abs_le]
      constructor <;> linarith
    have hsame : F.units k ≤ F.units c := by
      have hrat : (F.units k : ℚ) ≤ F.units c := by linarith
      exact_mod_cast hrat
    obtain rfl : c = k := Nat.le_antisymm hle (F.units_strictMono.le_iff_le.mp hsame)
    have heven := (htie (le_antisymm hnotNearer hnext)).resolve_left (by omega)
    omega

end IsNearest

/-! ## Rounding -/

theorem quotient_bounds {precision : Nat} (hp : 0 < precision) (quotient : Nat) :
    let drop := quotient.log2 + 1 - precision
    quotient < 2 * 2 ^ (precision - 1) * 2 ^ drop ∧
      (drop = 0 ∨ 2 ^ (precision - 1) * 2 ^ drop ≤ quotient) := by
  intro drop
  have hbits : 2 * 2 ^ (precision - 1) * 2 ^ drop = 2 ^ (precision + drop) := by
    rw [← Nat.pow_succ', Nat.succ_eq_add_one, Nat.sub_add_cancel hp, Nat.pow_add]
  constructor
  · rw [hbits]
    exact Nat.lt_of_lt_of_le Nat.lt_log2_self (Nat.pow_le_pow_right (by decide) (by omega))
  · by_cases hdrop : drop = 0
    · exact Or.inl hdrop
    · right
      have hlog : precision - 1 + drop = quotient.log2 := by omega
      have hne : quotient ≠ 0 := by
        rintro rfl
        simp only [Nat.log2_zero] at hlog
        omega
      rw [← Nat.pow_add, hlog]
      exact Nat.log2_self_le hne

/-- Rounding to a multiple of the power of two that the exponent asks for gives the
nearest magnitude: those with a lesser exponent are farther. -/
theorem isNearest_binade {q : ℚ} (hparity : F.leastNormal % 2 = 0) (hm : m ≤ 2 * F.leastNormal)
    (hd : d = 0 ∨ F.leastNormal ≤ m ∧ ((F.leastNormal * 2 ^ d : Nat) : ℚ) ≤ q)
    (hnear : |q / 2 ^ d - m| ≤ 1 / 2) (heven : |q / 2 ^ d - m| = 1 / 2 → m % 2 = 0) :
    F.IsNearest q (d * F.leastNormal + m) := by
  have hpow : (0 : ℚ) < 2 ^ d := by positivity
  have hscale : ∀ k : Nat, |q - ((k * 2 ^ d : Nat) : ℚ)| = 2 ^ d * |q / 2 ^ d - k| := by
    intro k
    rw [← abs_of_pos hpow, ← abs_mul, abs_of_pos hpow, mul_sub, mul_div_cancel₀ q hpow.ne']
    push_cast
    rw [mul_comm (k : ℚ)]
  have hcode : F.units (d * F.leastNormal + m) = m * 2 ^ d := units_binade hm (hd.imp_right (·.1))
  have hnearest : ∀ k : Nat, |q - ((m * 2 ^ d : Nat) : ℚ)| ≤ |q - ((k * 2 ^ d : Nat) : ℚ)| := by
    intro k
    rw [hscale, hscale]
    exact mul_le_mul_of_nonneg_left (nearest_of_near hnear heven k).1 hpow.le
  intro z
  rw [hcode]
  obtain ⟨e, n, rfl, hn, he⟩ := F.exists_binade z
  have hz := units_binade hn.le he
  rw [hz]
  rcases Nat.lt_or_ge e d with hexp | hexp
  · obtain ⟨-, hfull⟩ := hd.resolve_left (by omega)
    have hbelow : ((n * 2 ^ e : Nat) : ℚ) < ((F.leastNormal * 2 ^ d : Nat) : ℚ) := by
      exact_mod_cast binade_lt hn hexp
    have hfarther : |q - ((m * 2 ^ d : Nat) : ℚ)| < |q - ((n * 2 ^ e : Nat) : ℚ)| := by
      refine lt_of_le_of_lt (hnearest F.leastNormal) ?_
      rw [abs_of_nonneg (by linarith), abs_of_pos (by linarith)]
      linarith
    exact ⟨hfarther.le, fun heq => absurd heq hfarther.ne'⟩
  · have hmultiple : n * 2 ^ e = n * 2 ^ (e - d) * 2 ^ d := by
      rw [Nat.mul_assoc, ← Nat.pow_add, Nat.sub_add_cancel hexp]
    rw [hmultiple] at hz ⊢
    refine ⟨hnearest _, fun heq => ?_⟩
    rw [hscale, hscale] at heq
    rcases (nearest_of_near hnear heven _).2 (mul_left_cancel₀ hpow.ne' heq) with hsame | hm
    · rw [hsame, ← hcode] at hz
      exact Or.inl (F.units_strictMono.injective hz)
    · right
      rw [Nat.add_mod, Nat.mul_mod, hparity, hm, Nat.mul_zero]

/-- Rounding goes to the nearest magnitude. -/
theorem isNearest_nearestCode (hp : 2 ≤ F.precision) {num den : Nat} (hden : 0 < den) :
    F.IsNearest (num / den) (nearestCode F.precision num den) := by
  obtain ⟨hupper, hlower⟩ := quotient_bounds (by omega : 0 < F.precision) (num / den)
  rw [nearestCode]
  generalize (num / den).log2 + 1 - F.precision = d at *
  have hden' : 0 < den * 2 ^ d := Nat.mul_pos hden (Nat.two_pow_pos d)
  obtain ⟨hnear, heven⟩ := roundQuotient_near num hden'
  have hquotient : (num / den / 2 ^ d : ℚ) = num / (den * 2 ^ d : Nat) := by
    push_cast
    rw [div_div]
  have hfloor : num / (den * 2 ^ d) = num / den / 2 ^ d := (Nat.div_div_eq_div_mul ..).symm
  rw [← hquotient] at hnear heven
  refine isNearest_binade (leastNormal_even hp) ?_ ?_ hnear heven
  · rw [Nat.mul_comm] at hupper
    exact roundQuotient_le (hfloor.trans_lt (Nat.div_lt_of_lt_mul hupper))
  · refine hlower.imp_right fun hfull => ⟨le_roundQuotient ?_, ?_⟩
    · exact ((Nat.le_div_iff_mul_le (Nat.two_pow_pos d)).mpr hfull).trans_eq hfloor.symm
    · have hdiv : ((num / den : Nat) : ℚ) ≤ num / den := Nat.cast_div_le
      exact le_trans (by exact_mod_cast hfull) hdiv

end Format

end CallLang
