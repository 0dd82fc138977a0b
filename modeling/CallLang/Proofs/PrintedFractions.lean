/-
# `CallLang.Proofs.PrintedFractions` — fractions that are printed and read again

A finite number of 64 bits without an integral value is printed as the shortest decimal
that reads back, and the decimal is laid out as a text.  What is laid out is a numeral
with a point or an exponent, and it denotes the decimal, wherever the point is put.

    leading digit          layout                      example
    below 10 ^ -4          digits, then an exponent    5e-324
    below one              zeros behind the point      0.001
    below 10 ^ 16          a point among the digits    12.5
    from 10 ^ 16 on        digits, then an exponent    1.5e+16

Rounding what the text denotes therefore leads back to the number
(`Decimal.code_shortest`), with all its bits.
-/
import CallLang.Proofs.RealLiterals

namespace CallLang

/-! ## Zeros around digits -/

section Zeros

variable {ds : List Char}

theorem digitsValue_append_zeros (ds : List Char) (count : Nat) :
    digitsValue (ds ++ List.replicate count '0') = digitsValue ds * 10 ^ count := by
  rw [digitsValue, Nat.ofDigitChars_append, Nat.ofDigitChars_replicate_zero, Nat.mul_comm]
  rfl

theorem exists_stripZeros (ds : List Char) :
    ∃ count, ds = stripZeros ds ++ List.replicate count '0' := by
  have hzeros : ∀ c ∈ ds.reverse.takeWhile (· = '0'), c = '0' := by
    intro c hc
    have hzero := List.all_eq_true.mp List.all_takeWhile c hc
    exact of_decide_eq_true hzero
  have hrow := List.eq_replicate_of_mem hzeros
  have hsplit := List.takeWhile_append_dropWhile (p := (· = '0')) (l := ds.reverse)
  rw [hrow] at hsplit
  refine ⟨(ds.reverse.takeWhile (· = '0')).length, ?_⟩
  rw [stripZeros, ← List.reverse_replicate, ← List.reverse_append, hsplit, List.reverse_reverse]

theorem forall_mem_append_zeros (count : Nat) (hds : ∀ c ∈ ds, isDigit c) :
    ∀ c ∈ ds ++ List.replicate count '0', isDigit c := by
  intro c hc
  refine forall_mem_zeros_append count hds c ?_
  exact List.mem_append.mpr (List.mem_append.mp hc).symm

end Zeros

/-! ## Layouts -/

/-- A row of digits with the first one at `10 ^ lead`. -/
def digitsAt (lead : ℤ) (ds : List Char) : ℚ :=
  digitsValue ds * 10 ^ (lead + 1 - ds.length)

/-- `LaysOut cs a`: the characters write a numeral of magnitude `a` without a sign, and
have a point or an exponent in them. -/
def LaysOut (cs : List Char) (a : ℚ) : Prop :=
  ∃ n, WritesNumeral cs n ∧ n.negative = false ∧ n.magnitude.toRat = a ∧ ('.' ∈ cs ∨ 'e' ∈ cs)

section Layouts

variable {whole fs es ds : List Char} {lead : ℤ}

theorem laysOut_point (hwhole : IsDigits whole) (hfs : ∀ c ∈ fs, isDigit c) :
    LaysOut (whole ++ '.' :: fs) (digitsValue (whole ++ fs) * 10 ^ (-(fs.length : ℤ))) := by
  have hne : whole ++ fs ≠ [] := List.append_ne_nil_of_left_ne_nil hwhole.1 fs
  have hwrites : WritesNumeral (withSign false (whole ++ ('.' :: fs ++ [])))
      ⟨false, whole, some fs, none⟩ := .parts hwhole.2 (.point hfs) hne .none
  rw [List.append_nil] at hwrites
  refine ⟨_, hwrites, rfl, ?_, Or.inl (List.mem_append_right _ List.mem_cons_self)⟩
  rw [Decimal.toRat, Numeral.magnitude, Numeral.scale_eq, Numeral.power, zero_sub]
  rfl

theorem laysOut_positional {l : Layout} (hpoint : l.pointZero) (hds : IsDigits ds) :
    LaysOut (l.positional ds lead) (digitsAt lead ds) := by
  unfold Layout.positional digitsAt
  split
  next hlead =>
    have hzero : IsDigits ['0'] := ⟨List.cons_ne_nil _ _, List.forall_mem_singleton.mpr rfl⟩
    have hlaid := laysOut_point hzero (forall_mem_zeros_append (lead.natAbs - 1) hds.2)
    have hvalue : digitsValue (['0'] ++ (List.replicate (lead.natAbs - 1) '0' ++ ds)) =
        digitsValue ds := (digitsValue_zeros 1 _).trans (digitsValue_zeros _ ds)
    have hplaces : -((List.replicate (lead.natAbs - 1) '0' ++ ds).length : ℤ) =
        lead + 1 - ds.length := by
      rw [List.length_append, List.length_replicate]
      omega
    rwa [hvalue, hplaces] at hlaid
  next hlead =>
    dsimp only
    split
    next hshort =>
      generalize hcount : lead.toNat + 1 - ds.length = count
      have hwhole : IsDigits (ds ++ List.replicate count '0') :=
        ⟨List.append_ne_nil_of_left_ne_nil hds.1 _, forall_mem_append_zeros count hds.2⟩
      have hlaid := laysOut_point hwhole (List.forall_mem_singleton.mpr (rfl : isDigit '0'))
      have hvalue : digitsValue (ds ++ List.replicate count '0' ++ ['0']) =
          digitsValue ds * 10 ^ (count + 1) := by
        rw [List.append_assoc, ← List.replicate_succ', digitsValue_append_zeros]
      have hplaces : ((count + 1 : Nat) : ℤ) + -(['0'].length : ℤ) = lead + 1 - ds.length := by
        rw [List.length_singleton]
        omega
      rw [hvalue, Nat.cast_mul, Nat.cast_pow, mul_assoc, Nat.cast_ofNat, ← zpow_natCast,
        ← zpow_add₀ (by norm_num), hplaces] at hlaid
      exact hlaid
    next hlong =>
      have hwhole : IsDigits (ds.take (lead.toNat + 1)) := by
        refine ⟨fun hnil => ?_, fun c hc => hds.2 c (List.mem_of_mem_take hc)⟩
        rw [List.take_eq_nil_iff] at hnil
        exact hds.1 (hnil.resolve_left (Nat.succ_ne_zero _))
      have hfraction : ∀ c ∈ ds.drop (lead.toNat + 1), isDigit c :=
        fun c hc => hds.2 c (List.mem_of_mem_drop hc)
      have hlaid := laysOut_point hwhole hfraction
      have hplaces : -((ds.drop (lead.toNat + 1)).length : ℤ) = lead + 1 - ds.length := by
        rw [List.length_drop]
        omega
      rwa [List.take_append_drop, hplaces] at hlaid

theorem writesExponent_padded (lead : ℤ) :
    WritesExponent
      ('e' :: (if lead < 0 then '-' else '+') :: padLeft 2 '0' (digitChars lead.natAbs))
      (some ⟨lead < 0, padLeft 2 '0' (digitChars lead.natAbs)⟩) := by
  have hdigits : IsDigits (padLeft 2 '0' (digitChars lead.natAbs)) :=
    ⟨List.append_ne_nil_of_right_ne_nil _ (isDigits_digitChars _).1,
      forall_mem_zeros_append _ (isDigits_digitChars _).2⟩
  by_cases hneg : lead < 0
  · rw [if_pos hneg, decide_eq_true hneg]
    exact .marked (Or.inl rfl) .minus hdigits
  · rw [if_neg hneg, decide_eq_false hneg]
    exact .marked (Or.inl rfl) .plus hdigits

theorem laysOut_exponent {fraction : Option (List Char)} (hwhole : IsDigits whole)
    (hfraction : WritesFraction fs fraction) :
    LaysOut (whole ++ (fs ++
        'e' :: (if lead < 0 then '-' else '+') :: padLeft 2 '0' (digitChars lead.natAbs)))
      (digitsValue (whole ++ fraction.getD []) * 10 ^ (lead - (fraction.getD []).length)) := by
  have hne : whole ++ fraction.getD [] ≠ [] := List.append_ne_nil_of_left_ne_nil hwhole.1 _
  have hwrites : WritesNumeral (withSign false _) ⟨false, whole, fraction, _⟩ :=
    .parts hwhole.2 hfraction hne (writesExponent_padded lead)
  have hvalue : digitsValue (padLeft 2 '0' (digitChars lead.natAbs)) = lead.natAbs :=
    (digitsValue_zeros _ _).trans (digitsValue_digitChars _)
  refine ⟨_, hwrites, rfl, ?_, Or.inr ?_⟩
  · have hpower : (if lead < 0 then -(lead.natAbs : ℤ) else lead.natAbs) = lead := by
      split <;> omega
    rw [Decimal.toRat, Numeral.magnitude, Numeral.scale_eq, Numeral.power]
    simp only [hvalue, decide_eq_true_eq, hpower]
    rfl
  · exact List.mem_append_right _ (List.mem_append_right _ List.mem_cons_self)

theorem laysOut_scientific (hds : IsDigits ds) :
    LaysOut (Layout.scientific ds lead) (digitsAt lead ds) := by
  cases ds with
  | nil => exact absurd rfl hds.1
  | cons d rest =>
      obtain ⟨hd, hrest⟩ := List.forall_mem_cons.mp hds.2
      have hwhole : IsDigits [d] := ⟨List.cons_ne_nil _ _, List.forall_mem_singleton.mpr hd⟩
      have hplaces : lead + 1 - ((d :: rest).length : ℤ) = lead - rest.length := by
        rw [List.length_cons]
        omega
      rw [digitsAt, hplaces]
      cases rest with
      | nil => exact laysOut_exponent hwhole .none
      | cons e rest => exact laysOut_exponent hwhole (.point hrest)

end Layouts

namespace Decimal

theorem toRat_eq_digitsAt (d : Decimal) :
    d.toRat = digitsAt (d.exponent + ((digitChars d.significand).length : ℤ) - 1)
      (stripZeros (digitChars d.significand)) := by
  obtain ⟨count, hstrip⟩ := exists_stripZeros (digitChars d.significand)
  have hvalue :
      d.significand = digitsValue (stripZeros (digitChars d.significand)) * 10 ^ count := by
    rw [← digitsValue_append_zeros, ← hstrip, digitsValue_digitChars]
  have hlength := congrArg List.length hstrip
  rw [List.length_append, List.length_replicate] at hlength
  have hplaces : (count : ℤ) + d.exponent =
      d.exponent + ((digitChars d.significand).length : ℤ) - 1 + 1 -
        (stripZeros (digitChars d.significand)).length := by
    rw [hlength]
    omega
  rw [toRat, digitsAt, ← hplaces, zpow_add₀ (by norm_num), zpow_natCast, ← mul_assoc]
  congr 1
  exact_mod_cast hvalue

theorem isDigits_stripZeros {d : Decimal} (hpos : 0 < d.significand) :
    IsDigits (stripZeros (digitChars d.significand)) := by
  obtain ⟨count, hstrip⟩ := exists_stripZeros (digitChars d.significand)
  constructor
  · intro hnil
    rw [hnil] at hstrip
    have hzero : digitsValue (digitChars d.significand) = 0 * 10 ^ count := by
      rw [hstrip]
      exact digitsValue_append_zeros [] count
    rw [digitsValue_digitChars] at hzero
    omega
  · intro c hc
    refine (isDigits_digitChars d.significand).2 c ?_
    rw [hstrip]
    exact List.mem_append_left _ hc

/-- The text of a positive decimal writes it. -/
theorem laysOut_write {l : Layout} (hpoint : l.pointZero) {d : Decimal} (hpos : 0 < d.significand) :
    LaysOut (l.write d) d.toRat := by
  rw [toRat_eq_digitsAt, Layout.write]
  split
  · exact laysOut_positional hpoint (isDigits_stripZeros hpos)
  · exact laysOut_scientific (isDigits_stripZeros hpos)

end Decimal

/-! ## Printing and reading -/

theorem WritesNumeral.signed {cs : List Char} {n : Numeral} (h : WritesNumeral cs n)
    (hn : n.negative = false) (s : Bool) :
    WritesNumeral (withSign s cs) { n with negative := s } := by
  cases h with
  | parts hwhole hfraction hne hexponent =>
      cases hn
      exact .parts hwhole hfraction hne hexponent

theorem mem_withSign (s : Bool) {c : Char} {cs : List Char} (h : c ∈ cs) : c ∈ withSign s cs := by
  cases s with
  | false => exact h
  | true => exact List.mem_cons_of_mem _ h

/-- A numeral is one token. -/
theorem tokenize_numeral {cs : List Char} (h : IsNumeral cs) :
    tokenize (String.ofList cs) =
      [⟨.number, String.ofList cs, 0, (String.ofList cs).length⟩] := by
  obtain ⟨hne, hword⟩ := h.isWordChar
  rw [tokenize, String.toList_ofList, scan_lastWord hne hword, wordToken,
    (wordKind_eq_number_iff hword).mpr h, String.length_ofList, Nat.zero_add]

namespace Binary

variable {s : Bool} {c : Fin (Format.binary64.infinity + 1)}

/-- The shortest decimal of a finite number other than zero is written, and read back as
that number. -/
theorem shortestText_reads (hfinite : c.val ≠ Format.binary64.infinity) (hc : c.val ≠ 0) :
    ∃ cs, (signed s c : Binary Format.binary64).shortestText = String.ofList cs ∧ IsNumeral cs ∧
      ('.' ∈ cs ∨ 'e' ∈ cs) ∧ readNumber (String.ofList cs) = .ok (.float64 (.signed s c)) := by
  have hcode : (Decimal.shortest .binary64 c.val).code .binary64 = c.val :=
    Decimal.code_shortest Decimal.precision_binary64 (Nat.le_of_lt_succ c.isLt)
  have htext : (signed s c : Binary Format.binary64).shortestText =
      String.ofList (withSign s (Layout.plain.write (.shortest .binary64 c.val))) := by
    rw [shortestText, if_neg hfinite, if_neg hc]
  generalize Decimal.shortest .binary64 c.val = d at hcode htext
  have hpos : 0 < d.significand := by
    refine Nat.pos_of_ne_zero fun hzero => hc ?_
    rw [← hcode]
    exact Decimal.code_of_significand_eq_zero Decimal.precision_binary64 hzero
  obtain ⟨n, hn, hnegative, hmagnitude, hmark⟩ := Decimal.laysOut_write (l := .plain) rfl hpos
  generalize Layout.plain.write d = cs at hn hmark htext
  have hwrites := hn.signed hnegative s
  have hnumeral : IsNumeral (withSign s cs) := isNumeral_iff_writesNumeral.mpr ⟨_, hwrites⟩
  have hmarked : '.' ∈ withSign s cs ∨ 'e' ∈ withSign s cs :=
    hmark.imp (mem_withSign s) (mem_withSign s)
  have hread : Numeral.ofText? (String.ofList (withSign s cs)) = some { n with negative := s } := by
    rw [Numeral.ofText?, String.toList_ofList, dropFinalNewline_of_not_mem hnumeral.newline_not_mem]
    exact Numeral.read?_eq_some_iff.mpr hwrites
  have hreal : ({ n with negative := s } : Numeral).isInteger = false := by
    refine Bool.eq_false_iff.mpr fun hinteger => ?_
    have hplain := Numeral.isPlain_of_isInteger hread hinteger
    rw [IsPlain, String.toList_ofList] at hplain
    rcases hmarked with hmem | hmem
    · exact (hplain '.' hmem).1 rfl
    · exact (hplain 'e' hmem).2.1 rfl
  obtain ⟨c', hc', hresult⟩ := Numeral.readNumber_of_ofText? hread hreal
  have hsame : c' = c := by
    refine Fin.ext (hc'.trans ?_)
    rw [← hcode]
    exact Decimal.code_congr Decimal.precision_binary64 hmagnitude
  rw [hsame, if_pos (by omega)] at hresult
  exact ⟨_, htext, hnumeral, hmarked, hresult⟩

/-- A finite number without an integral value is printed by its digits. -/
theorem text_of_fraction {x : Binary Format.binary64} {r : ℚ} (hvalue : x.toRat? = some r)
    (hfraction : ∀ n : ℤ, r ≠ n) : (Scalar.float64 x).text = x.shortestText := by
  have hnone : x.integer? = none := by
    cases hinteger : x.integer? with
    | none => rfl
    | some n =>
        rw [integer?_eq_some_iff.mp hinteger] at hvalue
        exact absurd (Option.some.inj hvalue).symm (hfraction n)
  obtain ⟨s, c, rfl, hfinite, -⟩ := exists_signed hvalue
  simp only [Scalar.text_float64, realText, if_neg hfinite, hnone]

end Binary

/-- **Printed fractions are read again.**  A finite number of 64 bits without an integral
value is printed as a text that is one number token, with a point or an exponent in it,
and that is read as the number as it was, with its sign and all its bits. -/
theorem printed_fractions {x : Binary Format.binary64} {r : ℚ} (hvalue : x.toRat? = some r)
    (hfraction : ∀ n : ℤ, r ≠ n) :
    ∃ text, (Value.number (.float64 x)).text = .ok text ∧
      tokenize text = [⟨.number, text, 0, text.length⟩] ∧
      ('.' ∈ text.toList ∨ 'e' ∈ text.toList) ∧
      readNumber text = .ok (.float64 x) := by
  have hprinted := Binary.text_of_fraction hvalue hfraction
  obtain ⟨s, c, rfl, hfinite, rfl⟩ := Binary.exists_signed hvalue
  have hc : c.val ≠ 0 := by
    intro hzero
    refine hfraction 0 ?_
    rw [hzero, Format.units_zero, Nat.cast_zero, zero_div, withNegative_zero, Int.cast_zero]
  obtain ⟨cs, htext, hnumeral, hmark, hread⟩ := Binary.shortestText_reads hfinite hc
  refine ⟨String.ofList cs, congrArg Except.ok (hprinted.trans htext), tokenize_numeral hnumeral,
    ?_, hread⟩
  rwa [String.toList_ofList]

/-- The least positive number with a minus sign. -/
def Binary.negatedLeast : Binary Format.binary64 :=
  .ofCode true 1

/-- It has one digit and an exponent, and is read from them again. -/
theorem printed_fractions_negatedLeast :
    (∃ r : ℚ, Binary.negatedLeast.toRat? = some r ∧ ∀ n : ℤ, r ≠ n) ∧
    (Value.number (.float64 .negatedLeast)).text = .ok "-5e-324" ∧
    tokenize "-5e-324" = [⟨.number, "-5e-324", 0, 7⟩] ∧
    readNumber "-5e-324" = .ok (.float64 .negatedLeast) := by
  have hinteger : Binary.negatedLeast.integer? = none := by decide +kernel
  have hprinted : (Scalar.float64 .negatedLeast).text = "-5e-324" := by decide +kernel
  obtain ⟨r, hvalue⟩ : ∃ r, Binary.negatedLeast.toRat? = some r := ⟨_, rfl⟩
  have hfraction : ∀ n : ℤ, r ≠ n := by
    rintro n rfl
    rw [Binary.integer?_eq_some_iff.mpr hvalue] at hinteger
    cases hinteger
  obtain ⟨text, htext, htoken, -, hread⟩ := printed_fractions hvalue hfraction
  obtain rfl : text = "-5e-324" := (Except.ok.inj htext).symm.trans hprinted
  exact ⟨⟨r, hvalue, hfraction⟩, htext, htoken, hread⟩

end CallLang
