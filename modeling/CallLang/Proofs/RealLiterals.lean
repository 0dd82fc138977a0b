/-
# `CallLang.Proofs.RealLiterals` — what the other number texts stand for

A number text with a point or an exponent denotes a rational number, which is said here
by its parts, apart from rounding (`Numeral.toRat`, `Denotes`); its digits and its
exponent have no bound, and may cancel.  Reading it rounds once.

    the number it denotes, as a magnitude     outcome
    below 2 ^ 1024 - 2 ^ 970                  the nearest 64-bit number
    from there on                             out of range, a kind error

The bound is the midpoint between the greatest finite number and the one that would
follow it.  What is nearest is said over all finite numbers of both signs
(`Binary.IsNearestTo`).  Below half of the least positive number that is a zero, with
the sign that the text has.
-/
import CallLang.Proofs.Decimals
import CallLang.Proofs.PrintedIntegers
import CallLang.Proofs.Words

namespace CallLang

/-! ## The number that a text denotes -/

theorem digitsValue_append (ds es : List Char) :
    digitsValue (ds ++ es) = digitsValue ds * 10 ^ es.length + digitsValue es := by
  rw [digitsValue, Nat.ofDigitChars_append, Nat.ofDigitChars_eq_ofDigitChars_zero, Nat.mul_comm]
  rfl

/-- A magnitude with a sign. -/
def withNegative (negative : Bool) (a : ℚ) : ℚ :=
  if negative then -a else a

namespace Numeral

/-- The exponent that is written. -/
def power (n : Numeral) : ℤ :=
  match n.exponent with
  | none => 0
  | some part => if part.negative then -(digitsValue part.digits : ℤ) else digitsValue part.digits

/-- The rational number that a numeral denotes: digits before the point count ones,
those behind it parts of one, and the exponent moves the point. -/
def toRat (n : Numeral) : ℚ :=
  let fraction := n.fraction.getD []
  withNegative n.negative
    ((digitsValue n.whole + digitsValue fraction / 10 ^ fraction.length) * 10 ^ n.power)

theorem scale_eq (n : Numeral) : n.scale = n.power - (n.fraction.getD []).length := by
  unfold scale power
  cases n.exponent <;> rfl

theorem toRat_eq (n : Numeral) : n.toRat = withNegative n.negative n.magnitude.toRat := by
  have hmagnitude : n.magnitude.toRat = (digitsValue (n.whole ++ n.fraction.getD []) : ℚ) *
      10 ^ (n.power - (n.fraction.getD []).length) := by
    rw [← scale_eq]
    rfl
  rw [toRat, hmagnitude, digitsValue_append, zpow_sub₀ (by norm_num), zpow_natCast]
  congr 1
  push_cast
  field_simp

end Numeral

/-- `Denotes text x`: the text writes a numeral that denotes `x`, with a line feed behind
it at will. -/
def Denotes (text : String) (x : ℚ) : Prop :=
  FeedAtWill (fun cs => ∃ n, WritesNumeral cs n ∧ n.toRat = x) text

theorem denotes_iff {text : String} {x : ℚ} :
    Denotes text x ↔ ∃ n, Numeral.ofText? text = some n ∧ n.toRat = x := by
  simp only [Denotes, Numeral.ofText?, Numeral.read?_eq_some_iff]
  refine (dropFinalNewline_iff ?_).symm
  rintro cs ⟨n, hn, -⟩
  exact (isNumeral_iff_writesNumeral.mpr ⟨n, hn⟩).newline_not_mem

/-! ## The nearest number -/

section Signs

variable {a b : ℚ} {s t : Bool}

theorem withNegative_zero (s : Bool) : withNegative s 0 = 0 := by
  cases s with
  | false => rfl
  | true => exact neg_zero

theorem abs_withNegative (ha : 0 ≤ a) : |withNegative s a| = a := by
  cases s with
  | false => exact abs_of_nonneg ha
  | true => exact (abs_neg a).trans (abs_of_nonneg ha)

theorem abs_withNegative_sub (s : Bool) (a b : ℚ) :
    |withNegative s a - withNegative s b| = |a - b| := by
  cases s with
  | false => rfl
  | true =>
      show |-a - -b| = |a - b|
      rw [neg_sub_neg, abs_sub_comm]

theorem abs_withNegative_sub_of_ne (ha : 0 ≤ a) (hb : 0 ≤ b) (hst : s ≠ t) :
    |withNegative s a - withNegative t b| = a + b := by
  cases s with
  | false =>
      obtain rfl : t = true := by simpa using hst.symm
      show |a - -b| = a + b
      rw [sub_neg_eq_add, abs_of_nonneg (add_nonneg ha hb)]
  | true =>
      obtain rfl : t = false := by simpa using hst.symm
      show |-a - b| = a + b
      rw [← neg_add', abs_neg, abs_of_nonneg (add_nonneg ha hb)]

theorem abs_sub_le_withNegative (ha : 0 ≤ a) (hb : 0 ≤ b) (s t : Bool) :
    |a - b| ≤ |withNegative s a - withNegative t b| := by
  by_cases hst : s = t
  · rw [hst, abs_withNegative_sub]
  · rw [abs_withNegative_sub_of_ne ha hb hst, abs_le]
    constructor <;> linarith

end Signs

namespace Binary

variable {F : Format}

/-- Whether the last bit of a number is zero. -/
def IsEven : Binary F → Prop
  | .nan => False
  | .signed _ c => c.val % 2 = 0

/-- `y.IsNearestTo x`: `y` is a finite number and none is nearer to `x`; if another value
is as near, then `y` is even. -/
def IsNearestTo (x : ℚ) (y : Binary F) : Prop :=
  ∃ r, y.toRat? = some r ∧ ∀ (z : Binary F) (t : ℚ), z.toRat? = some t →
    |x - r| ≤ |x - t| ∧ (|x - t| = |x - r| → t = r ∨ y.IsEven)

theorem toRat?_signed {s : Bool} {c : Fin (F.infinity + 1)} (hc : c.val ≠ F.infinity) :
    (signed s c : Binary F).toRat? = some (withNegative s (F.units c.val / F.one)) := by
  rw [toRat?, if_neg hc, signedUnits, withNegative]
  cases s
  · simp
  · simp [neg_div]

theorem exists_signed {x : Binary F} {r : ℚ} (h : x.toRat? = some r) :
    ∃ s c, x = .signed s c ∧ c.val ≠ F.infinity ∧
      r = withNegative s (F.units c.val / F.one) := by
  cases x with
  | nan => cases h
  | signed s c =>
      have hfinite : c.val ≠ F.infinity := by
        intro hinf
        simp [toRat?, hinf] at h
      rw [toRat?_signed hfinite] at h
      exact ⟨s, c, rfl, hfinite, (Option.some.inj h).symm⟩

/-- The number of the nearest code, with the sign of a quantity, is nearest to it. -/
theorem isNearestTo_signed {s : Bool} {c : Fin (F.infinity + 1)} {a : ℚ} (ha : 0 ≤ a)
    (hc : c.val ≠ F.infinity) (h : F.IsNearest (a * F.one) c.val) :
    (signed s c : Binary F).IsNearestTo (withNegative s a) := by
  have hone : (0 : ℚ) < F.one := by exact_mod_cast F.one_pos
  have hscale : ∀ k : Nat, |a * F.one - F.units k| = |a - F.units k / F.one| * F.one := by
    intro k
    rw [← abs_of_pos hone, ← abs_mul, abs_of_pos hone, sub_mul, div_mul_cancel₀ _ hone.ne']
  refine ⟨_, toRat?_signed hc, fun z t hz => ?_⟩
  obtain ⟨s', k, rfl, -, rfl⟩ := exists_signed hz
  have hunits : ∀ k : Nat, (0 : ℚ) ≤ F.units k / F.one := fun k => by positivity
  obtain ⟨hle, htie⟩ := h k.val
  rw [hscale, hscale] at hle htie
  have hnearer := le_of_mul_le_mul_right hle hone
  have hsigned := abs_sub_le_withNegative ha (hunits k.val) s s'
  rw [abs_withNegative_sub]
  refine ⟨hnearer.trans hsigned, fun heq => ?_⟩
  have hsame := le_antisymm (hsigned.trans_eq heq) hnearer
  rcases htie (by rw [hsame]) with hcode | heven
  · left
    rw [hcode]
    by_cases hs : s' = s
    · rw [hs]
    · -- Zero stands between the two, and is no nearer than they are.
      have hzero := (h 0).1
      rw [hscale, hscale, F.units_zero, Nat.cast_zero, zero_div, sub_zero,
        abs_of_nonneg ha] at hzero
      have hshorter := le_of_mul_le_mul_right hzero hone
      rw [hcode, abs_withNegative_sub_of_ne ha (hunits c.val) (Ne.symm hs)] at heq
      have hmagnitude : (F.units c.val / F.one : ℚ) = 0 :=
        le_antisymm (by linarith) (hunits c.val)
      rw [hmagnitude, withNegative_zero, withNegative_zero]
  · exact Or.inr heven

end Binary

/-! ## Reading -/

namespace Numeral

theorem readSign_fst (cs : List Char) : (readSign cs).1 = decide (cs.head? = some '-') := by
  unfold readSign
  split
  next => rfl
  next hne =>
    refine (decide_eq_false fun hhead => ?_).symm
    obtain ⟨tail, rfl⟩ := List.head?_eq_some_iff.mp hhead
    exact hne tail rfl

variable {text : String} {n : Numeral}

theorem negative_of_ofText? (h : ofText? text = some n) :
    n.negative = decide (text.toList.head? = some '-') := by
  obtain ⟨feed, hfeed, htext⟩ := exists_feed text.toList
  rw [← (read?_eq_some_iff_parts.mp h).1, readSign_fst]
  generalize dropFinalNewline text.toList = cs at htext ⊢
  rw [htext]
  cases cs with
  | cons c cs => rfl
  | nil => rcases hfeed with rfl | rfl <;> rfl

theorem isPlain_of_isInteger (h : ofText? text = some n) (hinteger : n.isInteger) :
    IsPlain text := by
  obtain ⟨feed, hfeed, htext⟩ := exists_feed text.toList
  have hwrites : WritesNumeral (dropFinalNewline text.toList) n := read?_eq_some_iff.mp h
  generalize dropFinalNewline text.toList = cs at hwrites htext
  cases hwrites with
  | @parts negative whole fs es fraction exponent hwhole hfraction hne hexponent =>
      obtain ⟨hnoFraction, hnoExponent⟩ := Bool.and_eq_true_iff.mp hinteger
      obtain rfl := Option.isNone_iff_eq_none.mp hnoFraction
      obtain rfl := Option.isNone_iff_eq_none.mp hnoExponent
      cases hfraction
      cases hexponent
      rw [Option.getD_none, List.append_nil] at hne
      rw [List.append_nil, List.append_nil] at htext
      exact WritesInteger.isPlain ⟨⟨hne, hwhole⟩, feed, hfeed, htext⟩

/-- A numeral that is no integer is rounded, and refused if that gives infinity. -/
theorem readNumber_of_ofText? (h : ofText? text = some n) (hreal : n.isInteger = false) :
    ∃ c : Fin (Format.binary64.infinity + 1), c.val = n.magnitude.code .binary64 ∧
      readNumber text =
        if c.val < Format.binary64.infinity then .ok (.float64 (.signed n.negative c))
        else .error (.numeralOutOfRange text) := by
  obtain ⟨c, hread, hc⟩ := Decimal.exists_toBinary n.negative n.magnitude
  refine ⟨c, hc, ?_⟩
  simp [readNumber, h, hreal, hread, Binary.isFinite]

end Numeral

/-- **Real literals.**  A number text with a point or an exponent denotes one rational
number.  It is out of range exactly if the magnitude of that number is at least
`2 ^ 1024 - 2 ^ 970`, and there is no other error.  Otherwise it is read as the number
of 64 bits that is nearest, an even one of two that are equally near; the sign is the
one that the text has, also when the number is a zero. -/
theorem readNumber_real {text : String} (h : isNumberText text) (hreal : ¬ IsPlain text) :
    ∃ x : ℚ, (∀ y, Denotes text y ↔ y = x) ∧
      (2 ^ 1024 - 2 ^ 970 ≤ |x| → ∃ err, readNumber text = .error err ∧
        err.errorClass? = some .kind ∧
        err.message = "Numeric literal out of range: " ++ text ++ ".") ∧
      (|x| < 2 ^ 1024 - 2 ^ 970 → ∃ c, Binary.IsNearestTo x
          (.signed (text.toList.head? = some '-') c : Binary Format.binary64) ∧
        readNumber text = .ok (.float64 (.signed (text.toList.head? = some '-') c))) := by
  obtain ⟨n, hn⟩ := Option.isSome_iff_exists.mp h
  have hinteger : n.isInteger = false :=
    Bool.eq_false_iff.mpr fun hinteger => hreal (Numeral.isPlain_of_isInteger hn hinteger)
  obtain ⟨c, hc, hread⟩ := Numeral.readNumber_of_ofText? hn hinteger
  have hmagnitude : |n.toRat| = n.magnitude.toRat := by
    rw [n.toRat_eq, abs_withNegative n.magnitude.toRat_nonneg]
  refine ⟨n.toRat, fun y => ?_, fun hlarge => ?_, fun hsmall => ?_⟩
  · rw [denotes_iff, hn]
    simp [eq_comm]
  · rw [hmagnitude, ← Decimal.code_eq_infinity_iff, ← hc] at hlarge
    rw [if_neg (by omega)] at hread
    exact ⟨_, hread, rfl, rfl⟩
  · have hfinite : c.val ≠ Format.binary64.infinity := by
      rw [hc]
      intro hinf
      exact absurd (Decimal.code_eq_infinity_iff.mp hinf) (not_le.mpr (hmagnitude ▸ hsmall))
    have hlt : c.val < Format.binary64.infinity := by omega
    rw [if_pos hlt] at hread
    rw [← Numeral.negative_of_ofText? hn]
    refine ⟨c, ?_, hread⟩
    rw [n.toRat_eq]
    refine Binary.isNearestTo_signed n.magnitude.toRat_nonneg hfinite ?_
    rw [hc] at hfinite ⊢
    exact Decimal.isNearest_code Decimal.precision_binary64 hfinite

/-- A number far below the least positive one is read as a zero with its sign, and no
number is nearer; one past the midpoint behind the greatest finite number is refused. -/
theorem readNumber_real_ends :
    (∃ x, Denotes "-1E-400" x ∧ Binary.IsNearestTo x (.zero true : Binary Format.binary64)) ∧
    readNumber "-1E-400" = .ok (.float64 (.zero true)) ∧
    (∃ x, Denotes "1.7976931348623159e308" x ∧ 2 ^ 1024 - 2 ^ 970 ≤ |x|) ∧
    ∃ err, readNumber "1.7976931348623159e308" = .error err ∧ err.errorClass? = some .kind := by
  have hzero : readNumber "-1E-400" = .ok (.float64 (.zero true)) := rfl
  have hpast : (readNumber "1.7976931348623159e308").isOk = false := by decide +kernel
  obtain ⟨x, hx, hxLarge, hxSmall⟩ := @readNumber_real "-1E-400" rfl (by decide)
  obtain ⟨y, hy, hyLarge, hySmall⟩ :=
    @readNumber_real "1.7976931348623159e308" rfl (by decide)
  have hxBound : |x| < 2 ^ 1024 - 2 ^ 970 := by
    by_contra hlarge
    obtain ⟨err, herr, -⟩ := hxLarge (not_lt.mp hlarge)
    rw [hzero] at herr
    cases herr
  have hyBound : 2 ^ 1024 - 2 ^ 970 ≤ |y| := by
    by_contra hsmall
    obtain ⟨c, -, hread⟩ := hySmall (not_le.mp hsmall)
    rw [hread] at hpast
    cases hpast
  obtain ⟨c, hnearest, hread⟩ := hxSmall hxBound
  obtain ⟨err, herr, hclass, -⟩ := hyLarge hyBound
  refine ⟨⟨x, (hx x).mpr rfl, ?_⟩, hzero, ⟨y, (hy y).mpr rfl, hyBound⟩, err, herr, hclass⟩
  rw [hzero] at hread
  cases hread
  exact hnearest

end CallLang
