/-
# `CallLang.Proofs.PrintedIntegers` — integers that are printed and read again

An integer has one decimal form: its digits without a zero in excess, behind a
minus sign if it is below zero (`IsDecimalForm`).  It is what the printer writes
and nothing else is (`isDecimalForm_iff`), and the reader finds the integer in it
again, as long as the digits are not too many and 64 bits hold it
(`readNumber_integerText`).

Three kinds of number are printed so.

| | |
| :-- | :-- |
| 64-bit integers | read back as they were |
| floating numbers with an integral value | in full; read as that integer, or out of range |
| integers read from a text | printed in the one form, however they were written |

The value of a floating number is told by `Binary.toRat?`, which knows nothing of the
printer.  A finite number of 64 bits is below `2 ^ 1024`, so that its digits are never too
many to be read (`natAbs_lt_of_integer?`).
-/
import Mathlib.Data.Rat.Cast.Order
import CallLang.Proofs.IntegerLiterals
import CallLang.Proofs.Rounding
import CallLang.Proofs.Wrap

namespace CallLang

/-! ## Digits without a zero in excess -/

/-- A row of digits that starts with a zero only if it is nothing else. -/
structure IsCanonical (ds : List Char) : Prop where
  digits : IsDigits ds
  noExcess : ds.head? = some '0' → ds = ['0']

theorem isDigit_iff_toNat {c : Char} : isDigit c ↔ 48 ≤ c.toNat ∧ c.toNat ≤ 57 :=
  Char.isDigit_iff_toNat

theorem digitChar_toNat {c : Char} (h : isDigit c) : (c.toNat - 48).digitChar = c := by
  have key : ∀ m ≤ 57, 48 ≤ m → (m - 48).digitChar = Char.ofNat m := by decide
  obtain ⟨hlow, hhigh⟩ := isDigit_iff_toNat.mp h
  rw [key c.toNat hhigh hlow, Char.ofNat_toNat]

theorem head?_digitChars_ne {n : Nat} (hpos : 0 < n) : (digitChars n).head? ≠ some '0' := by
  induction n using Nat.strongRecOn with
  | ind n ih =>
      by_cases hlt : n < 10
      · have key : ∀ m < 10, 0 < m → m.digitChar ≠ '0' := by decide
        rw [digitChars, Nat.toDigits_of_lt_base hlt]
        exact fun hhead => key n hlt hpos (Option.some.inj hhead)
      · have hle : 10 ≤ n := Nat.le_of_not_lt hlt
        have htens := ih (n / 10) (by omega) (by omega)
        rw [digitChars, Nat.toDigits_of_base_le (by decide) hle,
          List.head?_append_of_ne_nil _ Nat.toDigits_ne_nil]
        exact htens

theorem isDigits_digitChars (n : Nat) : IsDigits (digitChars n) :=
  ⟨Nat.toDigits_ne_nil, fun _ hc => Nat.isDigit_of_mem_toDigits (by decide) (by decide) hc⟩

theorem isCanonical_digitChars (n : Nat) : IsCanonical (digitChars n) := by
  refine ⟨isDigits_digitChars n, fun hhead => ?_⟩
  rcases Nat.eq_zero_or_pos n with rfl | hpos
  · rfl
  · exact absurd hhead (head?_digitChars_ne hpos)

theorem toDigits_append {ds : List Char} (hds : ∀ c ∈ ds, isDigit c) {n : Nat} (hpos : 0 < n) :
    Nat.toDigits 10 n ++ ds = Nat.toDigits 10 (Nat.ofDigitChars 10 ds n) := by
  induction ds generalizing n with
  | nil => rw [List.append_nil, Nat.ofDigitChars_nil]
  | cons d ds ih =>
      obtain ⟨hd, hrest⟩ := List.forall_mem_cons.mp hds
      have hlt : d.toNat - 48 < 10 := by
        obtain ⟨-, hhigh⟩ := isDigit_iff_toNat.mp hd
        omega
      have hdigit : [d] = Nat.toDigits 10 (d.toNat - 48) := by
        rw [Nat.toDigits_of_lt_base hlt, digitChar_toNat hd]
      rw [List.append_cons, hdigit, Nat.toDigits_append_toDigits (by decide) hpos hlt,
        ih hrest (by omega), Nat.ofDigitChars_cons]
      rfl

theorem IsCanonical.digitChars_digitsValue {ds : List Char} (h : IsCanonical ds) :
    digitChars (digitsValue ds) = ds := by
  cases ds with
  | nil => exact absurd rfl h.digits.1
  | cons d ds =>
      obtain ⟨hd, hrest⟩ := List.forall_mem_cons.mp h.digits.2
      by_cases hzero : d = '0'
      · rw [h.noExcess (congrArg some hzero)]
        rfl
      · obtain ⟨hlow, hhigh⟩ := isDigit_iff_toNat.mp hd
        have hpos : 0 < d.toNat - 48 := by
          refine Nat.sub_pos_of_lt (Nat.lt_of_le_of_ne hlow fun heq => hzero ?_)
          rw [← Char.ofNat_toNat d, ← heq]
        have hdigit : Nat.toDigits 10 (d.toNat - 48) = [d] := by
          rw [Nat.toDigits_of_lt_base (by omega), digitChar_toNat hd]
        have hall := toDigits_append hrest hpos
        rw [hdigit, List.singleton_append] at hall
        rw [digitChars, digitsValue, Nat.ofDigitChars_cons, Nat.mul_zero, Nat.zero_add]
        exact hall.symm

/-! ## The decimal form of an integer -/

/-- `IsDecimalForm text n`: the text is the digits of `n` without a zero in
excess, behind a minus sign if `n` is below zero, and nothing else. -/
def IsDecimalForm (text : String) (n : Int) : Prop :=
  ∃ ds, IsCanonical ds ∧ digitsValue ds = n.natAbs ∧ text.toList = withSign (n < 0) ds

/-- The decimal form of an integer is its text. -/
theorem isDecimalForm_iff {text : String} {n : Int} :
    IsDecimalForm text n ↔ text = integerText n := by
  constructor
  · rintro ⟨ds, hds, hvalue, htext⟩
    rw [integerText, ← hvalue, hds.digitChars_digitsValue, ← htext, String.ofList_toList]
  · rintro rfl
    exact ⟨_, isCanonical_digitChars _, digitsValue_digitChars _, String.toList_ofList⟩

theorem writesInteger_integerText (n : Int) :
    WritesInteger (integerText n) (n < 0) (digitChars n.natAbs) :=
  ⟨isDigits_digitChars _, [], Or.inl rfl, by
    rw [integerText, String.toList_ofList, List.append_nil]⟩

theorem denotedInteger_integerText (n : Int) : denotedInteger (integerText n) = n := by
  rw [(writesInteger_integerText n).denotedInteger_eq, Numeral.toInt, digitsValue_digitChars]
  by_cases hneg : n < 0
  · simp only [hneg, decide_true, if_true]
    omega
  · simp only [hneg, decide_false, Bool.false_eq_true, if_false]
    omega

/-- The text of an integer is read as that integer if 64 bits hold it, and is out
of range otherwise. -/
theorem readNumber_integerText {n : Int} (h : n.natAbs < 10 ^ maxIntegerDigits) :
    readNumber (integerText n) =
      if IntType.int64.Holds n then .ok (.int64 n)
      else .error (.numeralOutOfRange (integerText n)) := by
  have hlength : (digitChars n.natAbs).length ≤ maxIntegerDigits :=
    (Nat.length_toDigits_le_iff (by decide) (by decide)).mpr h
  rw [(writesInteger_integerText n).readNumber_eq, if_neg (Nat.not_lt.mpr hlength),
    denotedInteger_integerText]

/-! ## The value of a floating number -/

namespace Binary

variable {F : Format}

/-- The rational that a finite number is. -/
def toRat? : Binary F → Option ℚ
  | .nan => none
  | .signed s c =>
    if c.val = F.infinity then none else some (signedUnits (F := F) s c.val / F.one)

theorem mod_eq_zero_and_div_eq_iff {u o : Nat} (ho : 0 < o) {m : Int} :
    (u % o = 0 ∧ ((u / o : Nat) : Int) = m) ↔ (u : Int) = m * o := by
  constructor
  · rintro ⟨hmod, rfl⟩
    have hsplit := Nat.div_add_mod u o
    rw [hmod, Nat.add_zero, Nat.mul_comm] at hsplit
    exact_mod_cast hsplit.symm
  · intro h
    have hnonneg : 0 ≤ m := by
      by_contra hneg
      have hbelow : m * o < 0 := Int.mul_neg_of_neg_of_pos (by omega) (by omega)
      omega
    obtain ⟨k, rfl⟩ := Int.eq_ofNat_of_zero_le hnonneg
    have hk : u = k * o := by exact_mod_cast h
    subst hk
    exact ⟨Nat.mul_mod_left k o, by rw [Nat.mul_div_cancel k ho]⟩

theorem natAbs_signedUnits (s : Bool) (code : Nat) :
    (signedUnits (F := F) s code).natAbs = F.units code := by
  cases s with
  | false => exact Int.natAbs_natCast _
  | true => exact (Int.natAbs_neg _).trans (Int.natAbs_natCast _)

section Finite

variable {s : Bool} {c : Fin (F.infinity + 1)} {n : Int}

theorem ne_infinity_of_integer? (h : (signed s c : Binary F).integer? = some n) :
    c.val ≠ F.infinity := by
  intro hinf
  simp [integer?, hinf] at h

theorem integer?_signed_eq_some_iff (hfinite : c.val ≠ F.infinity) :
    (signed s c : Binary F).integer? = some n ↔
      signedUnits (F := F) s c.val = n * F.one := by
  cases s with
  | false =>
      simp only [signedUnits, Bool.false_eq_true, if_false]
      rw [← mod_eq_zero_and_div_eq_iff F.one_pos]
      simp [integer?, hfinite]
  | true =>
      simp only [signedUnits, if_true]
      rw [neg_eq_iff_eq_neg, ← Int.neg_mul, ← mod_eq_zero_and_div_eq_iff F.one_pos]
      simp [integer?, hfinite, neg_eq_iff_eq_neg]

end Finite

/-- The integer that a number is equal to is its value. -/
theorem integer?_eq_some_iff {x : Binary F} {n : Int} :
    x.integer? = some n ↔ x.toRat? = some (n : ℚ) := by
  cases x with
  | nan => simp [integer?, toRat?]
  | signed s c =>
      by_cases hinf : c.val = F.infinity
      · simp [integer?, toRat?, hinf]
      · have hone : (F.one : ℚ) ≠ 0 := by exact_mod_cast F.one_pos.ne'
        simp only [toRat?, hinf, if_false, Option.some.injEq, div_eq_iff hone]
        rw [integer?_signed_eq_some_iff hinf]
        exact_mod_cast Iff.rfl

theorem natAbs_lt_of_integer? {x : Binary Format.binary64} {n : Int} (h : x.integer? = some n) :
    n.natAbs < 2 ^ 1024 := by
  cases x with
  | nan => cases h
  | signed s c =>
      have hfinite := ne_infinity_of_integer? h
      have hcode : c.val < Format.binary64.infinity :=
        Nat.lt_of_le_of_ne (Nat.le_of_lt_succ c.isLt) hfinite
      have hunits := Format.binary64.units_strictMono hcode
      have hvalue : Format.binary64.units c.val = n.natAbs * Format.binary64.one := by
        rw [← natAbs_signedUnits s, (integer?_signed_eq_some_iff hfinite).mp h, Int.natAbs_mul,
          Int.natAbs_natCast]
      rw [hvalue, Format.units_infinity] at hunits
      exact Nat.lt_of_mul_lt_mul_right hunits

/-- A number with an integral value is printed as that integer. -/
theorem text_of_integer? {x : Binary Format.binary64} {n : Int} (h : x.integer? = some n) :
    (Scalar.float64 x).text = integerText n := by
  cases x with
  | nan => cases h
  | signed s c =>
      simp only [Scalar.text_float64, realText, if_neg (ne_infinity_of_integer? h), h]

end Binary

/-! ## What is printed is read -/

theorem lt_ten_pow {m b d : Nat} (hm : m < 2 ^ b) (hb : b ≤ d) : m < 10 ^ d :=
  calc m < 2 ^ b := hm
    _ ≤ 10 ^ b := Nat.pow_le_pow_left (by decide) b
    _ ≤ 10 ^ d := Nat.pow_le_pow_right (by decide) hb

theorem readNumber_int64_text (v : Fixed .int64) :
    readNumber (integerText v.val) = .ok (.int .int64 v) := by
  have hholds := IntType.holds_int64_iff.mp v.property
  have hsmall : v.val.natAbs < 2 ^ 64 := by omega
  rw [readNumber_integerText (lt_ten_pow hsmall (by decide)), if_pos v.property]
  refine congrArg (fun w => Except.ok (Scalar.int .int64 w)) (Subtype.ext ?_)
  exact IntType.wrap_eq_self v.property

theorem isInt64_of_isPlain {text : String} {x : Scalar} (hplain : IsPlain text)
    (h : readNumber text = .ok x) : x.IsInt64 (denotedInteger text) := by
  have hnumber : isNumberText text := by
    rw [isNumberText]
    cases hnumeral : Numeral.ofText? text with
    | some _ => rfl
    | none =>
        simp only [readNumber, hnumeral] at h
        cases h
  obtain ⟨negative, ds, hwrites⟩ := exists_writesInteger hnumber hplain
  rw [hwrites.denotedInteger_eq]
  exact isInt64_of_readNumber hwrites.ofText?_eq rfl h

/-- **Printed integers are read again.**  A 64-bit integer is read from its text
as it was.  A floating number with an integral value is printed as that integer,
in full; its text is read as the integer if 64 bits hold it, and is refused as out
of range otherwise.  An integer that is read from a text, however it is written
there, is printed in its decimal form. -/
theorem printed_integers :
    (∀ v : Fixed .int64, ∃ text, (Value.number (.int .int64 v)).text = .ok text ∧
      readNumber text = .ok (.int .int64 v)) ∧
    (∀ (x : Binary Format.binary64) (n : Int), x.toRat? = some (n : ℚ) →
      ∃ text, (Value.number (.float64 x)).text = .ok text ∧ IsDecimalForm text n ∧
        (-2 ^ 63 ≤ n ∧ n < 2 ^ 63 → ∃ y, readNumber text = .ok y ∧ y.IsInt64 n) ∧
        (¬ (-2 ^ 63 ≤ n ∧ n < 2 ^ 63) →
          ∃ err, readNumber text = .error err ∧ err.errorClass? = some .kind ∧
            err.message = "Numeric literal out of range: " ++ text ++ ".")) ∧
    (∀ source x, IsPlain source → readNumber source = .ok x →
      ∃ text, (Value.number x).text = .ok text ∧ IsDecimalForm text (denotedInteger source)) := by
  refine ⟨fun v => ⟨_, rfl, readNumber_int64_text v⟩, ?_, ?_⟩
  · intro x n hvalue
    have hinteger := Binary.integer?_eq_some_iff.mpr hvalue
    have hread := readNumber_integerText
      (lt_ten_pow (Binary.natAbs_lt_of_integer? hinteger) (by decide))
    have hrange : IntType.int64.Holds n ↔ -2 ^ 63 ≤ n ∧ n < 2 ^ 63 := by
      rw [IntType.holds_int64_iff]
      omega
    refine ⟨integerText n, congrArg Except.ok (Binary.text_of_integer? hinteger),
      isDecimalForm_iff.mpr rfl, ?_, ?_⟩
    · intro hin
      have hholds := hrange.mpr hin
      rw [if_pos hholds] at hread
      exact ⟨_, hread, _, IntType.wrap_eq_self hholds, rfl⟩
    · intro hout
      rw [if_neg (mt hrange.mp hout)] at hread
      exact ⟨_, hread, rfl, rfl⟩
  · intro source x hplain hread
    obtain ⟨a, ha, rfl⟩ := isInt64_of_isPlain hplain hread
    rw [← ha]
    exact ⟨_, rfl, isDecimalForm_iff.mpr rfl⟩

/-- The floating number `2 ^ 63`. -/
def Binary.pastInt64 : Binary Format.binary64 :=
  .ofCode false 0x43e0000000000000

/-- The floating number `2 ^ 63` is printed as an integer one past those of 64
bits, and is not read again; an integer with zeros in front and a line feed
behind is printed without them. -/
theorem printed_integers_edges :
    Binary.pastInt64.toRat? = some ((2 ^ 63 : Int) : ℚ) ∧
    (Value.number (.float64 .pastInt64)).text = .ok "9223372036854775808" ∧
    (∃ err, readNumber "9223372036854775808" = .error err ∧ err.errorClass? = some .kind ∧
      err.message = "Numeric literal out of range: 9223372036854775808.") ∧
    IsPlain "-007\n" ∧ readNumber "-007\n" = .ok (.int64 (-7)) ∧
    (Value.number (.int64 (-7))).text = .ok "-7" := by
  have hinteger : Binary.pastInt64.integer? = some (2 ^ 63) := by decide +kernel
  have hvalue := Binary.integer?_eq_some_iff.mp hinteger
  obtain ⟨text, htext, hform, -, hout⟩ := printed_integers.2.1 _ _ hvalue
  obtain rfl : text = "9223372036854775808" := isDecimalForm_iff.mp hform
  have hplain : IsPlain "-007\n" := by decide
  have hread : readNumber "-007\n" = .ok (.int64 (-7)) := rfl
  obtain ⟨text, hprinted, hform⟩ := printed_integers.2.2 _ _ hplain hread
  obtain rfl : text = "-7" := isDecimalForm_iff.mp hform
  exact ⟨hvalue, htext, hout (by decide), hplain, hread, hprinted⟩

end CallLang
