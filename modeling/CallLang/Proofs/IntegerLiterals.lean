/-
# `CallLang.Proofs.IntegerLiterals` — what integer texts stand for

A number text without point and exponent is a minus sign at will, digits, and a
line feed at will (`exists_writesInteger`).  The integer that it denotes is read
off its characters here, apart from the reader (`denotedInteger`), and
`readNumber_integer` says what becomes of every such text:

    digits written       the integer it denotes    outcome
    at most 4300         fits 64 bits              that integer
    at most 4300         does not fit              out of range, a kind error
    more than 4300       any                       too many digits, no class

The last row counts digits and not sizes.  Zeros in front denote nothing
(`digitsValue_zeros`), but they count, so a long row of
them in front of a small number is refused (`readNumber_zeroPadded`), with an
error that belongs to no class of the language.
-/
import Mathlib.Algebra.Ring.Int.Defs
import CallLang.Proofs.Exact
import CallLang.Proofs.Numerals

namespace CallLang

/-! ## The integer that a text denotes -/

/-- The digits that a text is written with. -/
def writtenDigits (text : String) : List Char :=
  text.toList.filter isDigit

/-- The integer that the digits of a text denote, below zero when the text starts
with a minus sign. -/
def denotedInteger (text : String) : Int :=
  if text.toList.head? = some '-' then -(digitsValue (writtenDigits text) : Int)
  else digitsValue (writtenDigits text)

/-- A text without the marks of a fraction and of an exponent. -/
def IsPlain (text : String) : Prop :=
  ∀ c ∈ text.toList, c ≠ '.' ∧ c ≠ 'e' ∧ c ≠ 'E'

instance (text : String) : Decidable (IsPlain text) :=
  List.decidableBAll (fun c => c ≠ '.' ∧ c ≠ 'e' ∧ c ≠ 'E') text.toList

theorem IntType.holds_int64_iff {n : Int} :
    IntType.int64.Holds n ↔ -2 ^ 63 ≤ n ∧ n ≤ 2 ^ 63 - 1 :=
  Iff.rfl

theorem digitsValue_zeros (count : Nat) (ds : List Char) :
    digitsValue (List.replicate count '0' ++ ds) = digitsValue ds := by
  induction count with
  | zero => rfl
  | succ count ih =>
      rw [List.replicate_succ, List.cons_append, digitsValue, Nat.ofDigitChars_cons]
      exact ih

theorem forall_mem_zeros_append (count : Nat) {ds : List Char} (hds : ∀ c ∈ ds, isDigit c) :
    ∀ c ∈ List.replicate count '0' ++ ds, isDigit c := by
  intro c hc
  rcases List.mem_append.mp hc with hzero | hc
  · rw [List.eq_of_mem_replicate hzero]
    rfl
  · exact hds c hc

/-! ## Texts of integers -/

section Digits

variable {ds : List Char}

theorem IsDigits.mem_withSign (hds : IsDigits ds) {negative : Bool} {c : Char}
    (hc : c ∈ withSign negative ds) : isDigit c ∨ c = '-' := by
  cases negative with
  | false => exact Or.inl (hds.2 c hc)
  | true =>
      rcases List.mem_cons.mp hc with hminus | hc
      · exact Or.inr hminus
      · exact Or.inl (hds.2 c hc)

end Digits

/-- `WritesInteger text negative ds`: the text is the digits `ds` behind a sign,
with a line feed at the end at will. -/
structure WritesInteger (text : String) (negative : Bool) (ds : List Char) : Prop where
  digits : IsDigits ds
  toList : ∃ feed, (feed = [] ∨ feed = ['\n']) ∧ text.toList = withSign negative ds ++ feed

theorem IsNumeral.exists_withSign {cs : List Char} (h : IsNumeral cs)
    (hplain : ∀ c ∈ cs, c ≠ '.' ∧ c ≠ 'e' ∧ c ≠ 'E') :
    ∃ negative ds, IsDigits ds ∧ cs = withSign negative ds := by
  cases h with
  | @parts sign mantissa exponent hsign hmantissa hexponent =>
      have hbehind : ∀ c ∈ mantissa ++ exponent, c ≠ '.' ∧ c ≠ 'e' ∧ c ≠ 'E' :=
        fun c hc => hplain c (List.mem_append_right sign hc)
      cases hexponent with
      | @marked mark _ _ hmark =>
          obtain ⟨-, hlower, hupper⟩ := hbehind mark (by simp)
          exact absurd hmark (not_or.mpr ⟨hlower, hupper⟩)
      | none =>
          cases hmantissa with
          | wholePoint => exact absurd rfl (hbehind '.' (by simp)).1
          | point => exact absurd rfl (hbehind '.' (by simp)).1
          | whole hds =>
              rw [List.append_nil]
              rcases hsign with rfl | rfl
              · exact ⟨false, _, hds, rfl⟩
              · exact ⟨true, _, hds, rfl⟩

theorem exists_writesInteger {text : String} (h : isNumberText text) (hplain : IsPlain text) :
    ∃ negative ds, WritesInteger text negative ds := by
  obtain ⟨feed, hfeed, htext⟩ := exists_feed text.toList
  have hnumeral : IsNumeral (dropFinalNewline text.toList) := Numeral.read?_isSome_iff.mp h
  obtain ⟨negative, ds, hds, hsigned⟩ := hnumeral.exists_withSign fun c hc => by
    refine hplain c ?_
    rw [htext]
    exact List.mem_append_left feed hc
  exact ⟨negative, ds, hds, feed, hfeed, hsigned ▸ htext⟩

namespace WritesInteger

variable {text : String} {negative : Bool} {ds : List Char}

theorem ofText?_eq (h : WritesInteger text negative ds) :
    Numeral.ofText? text = some ⟨negative, ds, none, none⟩ := by
  obtain ⟨hds, feed, hfeed, htext⟩ := h
  have hnumeral : WritesNumeral (withSign negative (ds ++ ([] ++ []))) ⟨negative, ds, none, none⟩ :=
    .parts hds.2 .none (List.append_ne_nil_of_left_ne_nil hds.1 _) .none
  rw [List.append_nil, List.append_nil] at hnumeral
  have hfeedless : '\n' ∉ withSign negative ds := by
    intro hmem
    rcases hds.mem_withSign hmem with hdigit | hminus
    · exact absurd hdigit (by decide)
    · exact absurd hminus (by decide)
  rw [Numeral.ofText?, htext, dropFinalNewline_append hfeedless hfeed]
  exact Numeral.read?_eq_some_iff.mpr hnumeral

theorem isNumberText (h : WritesInteger text negative ds) : isNumberText text := by
  rw [CallLang.isNumberText, h.ofText?_eq]
  rfl

theorem isPlain (h : WritesInteger text negative ds) : IsPlain text := by
  obtain ⟨hds, feed, hfeed, htext⟩ := h
  intro c hc
  rw [htext] at hc
  rcases List.mem_append.mp hc with hc | hc
  · rcases hds.mem_withSign hc with hdigit | rfl
    · refine ⟨?_, ?_, ?_⟩ <;> rintro rfl <;> exact absurd hdigit (by decide)
    · decide
  · rcases hfeed with rfl | rfl
    · exact nomatch hc
    · rw [List.mem_singleton.mp hc]
      decide

theorem writtenDigits_eq (h : WritesInteger text negative ds) : writtenDigits text = ds := by
  obtain ⟨hds, feed, hfeed, htext⟩ := h
  have hkeep : ds.filter isDigit = ds := List.filter_eq_self.mpr hds.2
  have hdrop : feed.filter isDigit = [] := by rcases hfeed with rfl | rfl <;> rfl
  have hsign : (withSign negative ds).filter isDigit = ds.filter isDigit := by
    cases negative <;> rfl
  rw [writtenDigits, htext, List.filter_append, hsign, hkeep, hdrop, List.append_nil]

theorem denotedInteger_eq (h : WritesInteger text negative ds) :
    denotedInteger text = (⟨negative, ds, none, none⟩ : Numeral).toInt := by
  rw [denotedInteger, h.writtenDigits_eq]
  obtain ⟨hds, feed, -, htext⟩ := h
  rw [htext]
  cases negative with
  | true => rfl
  | false =>
      have hhead : (ds ++ feed).head? ≠ some '-' := fun hminus =>
        (IsMantissa.whole hds).head_ne '-' hminus rfl
      exact (if_neg hhead).trans rfl

/-- What becomes of the text, by the number of its digits and the size of its
integer. -/
theorem readNumber_eq (h : WritesInteger text negative ds) :
    readNumber text =
      if maxIntegerDigits < ds.length then .error (.tooManyDigits ds.length)
      else if IntType.int64.Holds (denotedInteger text) then .ok (.int64 (denotedInteger text))
      else .error (.numeralOutOfRange text) := by
  rw [h.denotedInteger_eq]
  simp only [readNumber, h.ofText?_eq, Numeral.isInteger, Option.isNone_none, Bool.and_self,
    if_true]

end WritesInteger

/-! ## The outcome -/

/-- **Integer texts.** A plain number text of at most 4300 digits stands for the
64-bit integer it denotes, and is refused as out of range when it denotes none.
A longer one is refused whatever it denotes, by an error outside the classes of
the language. -/
theorem readNumber_integer {text : String} (h : isNumberText text) (hplain : IsPlain text) :
    ((writtenDigits text).length ≤ 4300 →
      (-2 ^ 63 ≤ denotedInteger text ∧ denotedInteger text ≤ 2 ^ 63 - 1 →
        ∃ x, readNumber text = .ok x ∧ x.IsInt64 (denotedInteger text)) ∧
      (¬ (-2 ^ 63 ≤ denotedInteger text ∧ denotedInteger text ≤ 2 ^ 63 - 1) →
        ∃ err, readNumber text = .error err ∧ err.errorClass? = some .kind ∧
          err.message = "Numeric literal out of range: " ++ text ++ ".")) ∧
    (4300 < (writtenDigits text).length →
      ∃ err, readNumber text = .error err ∧ err.errorClass? = none ∧
        err.message = tooManyDigitsText (writtenDigits text).length) := by
  obtain ⟨negative, ds, hwrites⟩ := exists_writesInteger h hplain
  have hread := hwrites.readNumber_eq
  rw [← hwrites.writtenDigits_eq, maxIntegerDigits] at hread
  refine ⟨fun hshort => ?_, fun hlong => ?_⟩
  · rw [if_neg (Nat.not_lt.mpr hshort)] at hread
    refine ⟨fun hfits => ?_, fun hfits => ?_⟩
    · rw [if_pos (IntType.holds_int64_iff.mpr hfits)] at hread
      have hx := isInt64_of_readNumber hwrites.ofText?_eq rfl hread
      rw [← hwrites.denotedInteger_eq] at hx
      exact ⟨_, hread, hx⟩
    · rw [if_neg (mt IntType.holds_int64_iff.mp hfits)] at hread
      exact ⟨_, hread, rfl, rfl⟩
  · rw [if_pos hlong] at hread
    exact ⟨_, hread, rfl, rfl⟩

/-- A sign, zeros in front and a line feed behind. -/
theorem readNumber_minusSeven :
    isNumberText "-007\n" ∧ IsPlain "-007\n" ∧
    ∃ x, readNumber "-007\n" = .ok x ∧ x.IsInt64 (-7) := by
  have hnumber : isNumberText "-007\n" := by decide
  have hplain : IsPlain "-007\n" := by decide
  have hvalue : denotedInteger "-007\n" = -7 := by decide
  refine ⟨hnumber, hplain, ?_⟩
  rw [← hvalue]
  exact ((readNumber_integer hnumber hplain).1 (by decide)).1 (by decide)

/-! ## Long texts of small integers -/

/-- The text of a row of digits behind some zeros. -/
def zeroPadded (zeros : Nat) (ds : List Char) : String :=
  String.ofList (List.replicate zeros '0' ++ ds)

section ZeroPadded

variable {ds : List Char}

theorem writesInteger_zeroPadded (zeros : Nat) (hds : IsDigits ds) :
    WritesInteger (zeroPadded zeros ds) false (List.replicate zeros '0' ++ ds) := by
  refine ⟨⟨List.append_ne_nil_of_right_ne_nil _ hds.1, forall_mem_zeros_append zeros hds.2⟩, [],
    Or.inl rfl, ?_⟩
  rw [zeroPadded, String.toList_ofList, List.append_nil, withSign, if_neg Bool.false_ne_true]

theorem denotedInteger_zeroPadded (zeros : Nat) (hds : IsDigits ds) :
    denotedInteger (zeroPadded zeros ds) = digitsValue ds := by
  rw [(writesInteger_zeroPadded zeros hds).denotedInteger_eq, Numeral.toInt,
    if_neg Bool.false_ne_true, digitsValue_zeros]

/-- Zeros in front count among the digits. -/
theorem readNumber_zeroPadded {zeros : Nat} (hds : IsDigits ds)
    (hlong : maxIntegerDigits < zeros + ds.length) :
    readNumber (zeroPadded zeros ds) = .error (.tooManyDigits (zeros + ds.length)) := by
  rw [(writesInteger_zeroPadded zeros hds).readNumber_eq, List.length_append,
    List.length_replicate, if_pos hlong]

end ZeroPadded

/-- The digit seven behind 4300 zeros is a plain number text that denotes 7, and
it is refused for its length, by an error outside the classes of the language. -/
theorem readNumber_paddedSeven :
    isNumberText (zeroPadded 4300 ['7']) ∧ IsPlain (zeroPadded 4300 ['7']) ∧
    denotedInteger (zeroPadded 4300 ['7']) = 7 ∧
    ∃ err, readNumber (zeroPadded 4300 ['7']) = .error err ∧ err.errorClass? = none ∧
      err.message = tooManyDigitsText 4301 := by
  have hseven : IsDigits ['7'] := ⟨List.cons_ne_nil _ _, List.forall_mem_singleton.mpr rfl⟩
  have hwrites := writesInteger_zeroPadded 4300 hseven
  have hlong : maxIntegerDigits < 4300 + ['7'].length := by decide
  have hread := readNumber_zeroPadded hseven hlong
  exact ⟨hwrites.isNumberText, hwrites.isPlain, denotedInteger_zeroPadded 4300 hseven, _, hread,
    rfl, rfl⟩

end CallLang
