/-
# `CallLang.Proofs.Order` — how two values are ordered

Six comparisons are read off one question, how two values are ordered
(`compareValues_eq`): less, equal, greater, or not at all.  That is why they
agree with each other, although the comparison of numbers of different types is
not exact: an integer is rounded into a floating type, subnormal numbers are
taken as zero, and a plain number gives way to the type of the other, into which
an integer is wrapped (`Scalar.order_integer`) and a real number is rounded.

| | |
| :-- | :-- |
| `Scalar.order_swap` | the question put the other way round has the mirrored answer |
| `Scalar.order_eq_none_iff` | it has no answer exactly where "not a number" takes part |

The first rests on the common type of two numbers, which does not depend on
which of them comes first (`Scalar.pair_swap`).  The second rests on this, that
what brings a number into the common type keeps "not a number" as it is and makes
it of nothing else.
-/
import CallLang.Eval
import CallLang.Proofs.Outcome
import CallLang.Proofs.Wrap

namespace CallLang

/-! ## The common type of two numbers -/

namespace Scalar

/-- The same two numbers, the other one first. -/
def Pair.swap : Pair → Pair
  | .ints t a b => .ints t b a
  | .floats t x y => .floats t y x

theorem pair_swap (x y : Scalar) : pair y x = (pair x y).swap := by
  cases x with
  | int s a =>
      cases y with
      | int t b =>
          simp only [pair, IntType.join_comm t s]
          cases s.join t <;> rfl
      | float t y => rfl
  | float s x =>
      cases y with
      | int t b => rfl
      | float t y => cases s <;> cases t <;> rfl

/-! ## The order the other way round -/

/-- How two numbers of one type are ordered. -/
def Pair.order : Pair → Option Ordering
  | .ints _ a b => some (compare a.val b.val)
  | .floats _ x y => do
    let m ← x.rank?
    let n ← y.rank?
    some (compare m n)

theorem order_eq (x y : Scalar) : x.order y = (pair x y).order := by
  unfold order
  cases pair x y <;> rfl

theorem Pair.order_swap (p : Pair) : p.swap.order = p.order.map Ordering.swap := by
  cases p with
  | ints t a b => exact congrArg some (Int.compare_swap a.val b.val).symm
  | floats t x y =>
      simp only [swap, order]
      cases x.rank? with
      | none => cases y.rank? <;> rfl
      | some m =>
          cases y.rank? with
          | none => rfl
          | some n => exact congrArg some (Int.compare_swap m n).symm

theorem order_swap (x y : Scalar) : y.order x = (x.order y).map Ordering.swap := by
  rw [order_eq, order_eq, pair_swap, Pair.order_swap]

end Scalar

/-! ## Numbers that are not ordered -/

namespace Binary

variable {F : Format} {x : Binary F}

theorem rank?_eq_none_iff : x.rank? = none ↔ x = .nan := by
  cases x with
  | nan => exact iff_of_true rfl rfl
  | signed s c => exact iff_of_false nofun nofun

theorem flush_eq_nan_iff : x.flush = .nan ↔ x = .nan := by
  cases x with
  | nan => exact Iff.rfl
  | signed s c => exact iff_of_false nofun nofun

theorem convert_eq_nan_iff {G : Format} : (x.convert : Binary G) = .nan ↔ x = .nan := by
  cases x with
  | nan => exact iff_of_true rfl rfl
  | signed s c =>
      refine iff_of_false ?_ nofun
      by_cases hc : c.val = F.infinity <;> simp [convert, hc, infinite, ofQuotient]

theorem ofInt_ne_nan (n : Int) : (ofInt n : Binary F) ≠ .nan := nofun

end Binary

theorem FloatType.operand_eq_nan_iff {t : FloatType} {x : Binary t.format} :
    t.operand x = .nan ↔ x = .nan := by
  unfold operand
  split
  · exact Iff.rfl
  · exact Binary.flush_eq_nan_iff

theorem widen_eq_nan_iff {s t : FloatType} {x : Binary s.format} :
    widen s t x = .nan ↔ x = .nan := by
  cases s <;> cases t <;> first | exact Iff.rfl | exact Binary.convert_eq_nan_iff

/-- "Not a number", of any floating type. -/
inductive Scalar.IsNan : Scalar → Prop
  | float (t : FloatType) : IsNan (.float t .nan)

namespace Scalar

theorem isNan_float_iff {t : FloatType} {x : Binary t.format} :
    (Scalar.float t x).IsNan ↔ x = .nan := by
  constructor
  · intro h
    cases h
    rfl
  · rintro rfl
    exact .float t

theorem not_isNan_int {t : IntType} {n : Fixed t} : ¬ (Scalar.int t n).IsNan := nofun

theorem Pair.order_floats_eq_none_iff {t : FloatType} {x y : Binary t.format} :
    (Pair.floats t x y).order = none ↔ x = .nan ∨ y = .nan := by
  rw [← Binary.rank?_eq_none_iff, ← Binary.rank?_eq_none_iff]
  simp only [order]
  cases x.rank? <;> cases y.rank? <;> simp

theorem toFloat_eq_nan_iff {t : FloatType} {x : Scalar} : x.toFloat t = .nan ↔ x.IsNan := by
  cases x with
  | int s a => exact iff_of_false (Binary.ofInt_ne_nan a.val) not_isNan_int
  | float s x =>
      rw [toFloat, FloatType.operand_eq_nan_iff, widen_eq_nan_iff, FloatType.operand_eq_nan_iff,
        isNan_float_iff]

theorem order_eq_none_iff {x y : Scalar} : x.order y = none ↔ x.IsNan ∨ y.IsNan := by
  rw [order_eq]
  cases x with
  | int s a =>
      cases y with
      | int t b =>
          refine iff_of_false ?_ (not_or.mpr ⟨not_isNan_int, not_isNan_int⟩)
          simp only [pair]
          cases s.join t with
          | some u => exact Option.some_ne_none _
          | none => exact mt Pair.order_floats_eq_none_iff.mp (by simp [Binary.ofInt_ne_nan])
      | float t y =>
          simp [pair, Pair.order_floats_eq_none_iff, Binary.ofInt_ne_nan, not_isNan_int,
            FloatType.operand_eq_nan_iff, isNan_float_iff]
  | float s x =>
      cases y with
      | int t b =>
          simp [pair, Pair.order_floats_eq_none_iff, Binary.ofInt_ne_nan, not_isNan_int,
            FloatType.operand_eq_nan_iff, isNan_float_iff]
      | float t y =>
          rw [pair, Pair.order_floats_eq_none_iff, toFloat_eq_nan_iff, toFloat_eq_nan_iff]

/-! ## Plain integers -/

/-- A plain integer beside one with a type is the integer of that type that it
wraps to. -/
theorem order_integer {t : IntType} {n : Int} (ht : t.width ≠ .plain)
    (hn : IntType.plain.Holds n) (b : Fixed t) :
    (Scalar.integer n).order (.int t b) = some (compare (t.wrap n) b.val) := by
  have hjoin : IntType.plain.join t = some t := IntType.join_of_givesWay ⟨rfl, ht⟩
  simp only [order_eq, integer, pair, hjoin, Pair.order, Fixed.wrap, IntType.wrap_eq_self hn,
    IntType.wrap_eq_self b.property]

/-- So is a plain real number rounded to the type of the number beside it: one tenth,
as 64 bits and as 32 bits hold it. -/
example :
    (Scalar.real (.signed false ⟨0x3fb999999999999a, by decide⟩)).order
      (.float .single (.signed false ⟨0x3dcccccd, by decide⟩)) = some .eq := by
  decide +kernel

end Scalar

/-! ## Comparisons read off an order -/

namespace Comparison

/-- The comparison that holds of two values when this one holds of them the
other way round. -/
def mirror : Comparison → Comparison
  | .equal => .equal
  | .notEqual => .notEqual
  | .less => .greater
  | .lessEqual => .greaterEqual
  | .greater => .less
  | .greaterEqual => .lessEqual

theorem holds_swap (name : Comparison) (o : Option Ordering) :
    name.holds (o.map Ordering.swap) = name.mirror.holds o := by
  cases o with
  | none => cases name <;> rfl
  | some o => cases o <;> cases name <;> rfl

/-- Values that are not ordered are unequal, and nothing else. -/
theorem holds_none_iff {name : Comparison} : name.holds none ↔ name = .notEqual := by
  simp [holds]

theorem count_holds_some (o : Ordering) :
    [less.holds (some o), equal.holds (some o), greater.holds (some o)].count true = 1 := by
  cases o <;> rfl

theorem holds_notEqual (o : Option Ordering) : notEqual.holds o = !equal.holds o := by
  cases o with
  | none => rfl
  | some o => cases o <;> rfl

theorem holds_lessEqual (o : Option Ordering) :
    lessEqual.holds o = (less.holds o || equal.holds o) := by
  cases o with
  | none => rfl
  | some o => cases o <;> rfl

theorem holds_greaterEqual (o : Option Ordering) :
    greaterEqual.holds o = (greater.holds o || equal.holds o) := by
  cases o with
  | none => rfl
  | some o => cases o <;> rfl

end Comparison

/-! ## Values that are accepted as numbers -/

namespace Value

variable {place : String} {v : Value} {x : Scalar}

/-- A value is accepted as the number it is, or as a plain integer of 64 bits. -/
theorem asNumber_cases (h : v.asNumber place = .ok x) :
    v = .number x ∨ ∃ n, v = .integer n ∧ IntType.plain.Holds n ∧ x = .integer n := by
  cases v with
  | number y => exact Or.inl (congrArg _ (Except.ok.inj h))
  | integer n =>
      simp only [asNumber] at h
      split at h
      next hfits => exact Or.inr ⟨n, rfl, hfits, (Except.ok.inj h).symm⟩
      next => cases h
  | boolean | string | tensor | other => cases h

theorem asNumber_integer {n : Int} (h : IntType.plain.Holds n) :
    (Value.integer n).asNumber place = .ok (.integer n) :=
  if_pos h

theorem asNumber_congr (h : v.asNumber place = .ok x) (place' : String) :
    v.asNumber place' = .ok x := by
  rcases asNumber_cases h with rfl | ⟨n, rfl, hfits, rfl⟩
  · rfl
  · exact asNumber_integer hfits

theorem kindOrFail_of_asNumber (h : v.asNumber place = .ok x) : v.kindOrFail = .ok .number := by
  rcases asNumber_cases h with rfl | ⟨n, rfl, -, -⟩ <;> rfl

/-- "Not a number" as a value. -/
def IsNan (v : Value) : Prop :=
  ∃ x, v = .number x ∧ x.IsNan

theorem isNan_iff (h : v.asNumber place = .ok x) : v.IsNan ↔ x.IsNan := by
  rcases asNumber_cases h with rfl | ⟨n, rfl, -, rfl⟩
  · constructor
    · rintro ⟨y, hy, hnan⟩
      cases hy
      exact hnan
    · exact fun hnan => ⟨x, rfl, hnan⟩
  · refine iff_of_false ?_ Scalar.not_isNan_int
    rintro ⟨y, hy, -⟩
    cases hy

theorem not_isNan_string (s : String) : ¬ (Value.string s).IsNan := by
  rintro ⟨x, hx, -⟩
  cases hx

end Value

theorem compareValues_numbers {place : String} {v w : Value} {x y : Scalar}
    (hv : v.asNumber place = .ok x) (hw : w.asNumber place = .ok y) (name : Comparison) :
    (compareValues name v w).result = .ok (name.holds (x.order y)) := by
  have hx := Value.asNumber_congr hv name.label
  have hy := Value.asNumber_congr hw name.label
  have hkind := Value.kindOrFail_of_asNumber hv
  have hkind' := Value.kindOrFail_of_asNumber hw
  rcases Value.asNumber_cases hv with rfl | ⟨m, rfl, -, -⟩ <;>
    rcases Value.asNumber_cases hw with rfl | ⟨n, rfl, -, -⟩ <;>
    simp [compareValues, hkind, hkind', hx, hy]

theorem compareValues_number (name : Comparison) (x y : Scalar) :
    (compareValues name (.number x) (.number y)).result = .ok (name.holds (x.order y)) := by
  have hnumber : ∀ z : Scalar, (Value.number z).asNumber name.label = .ok z := fun _ => rfl
  exact compareValues_numbers (hnumber x) (hnumber y) name

/-! ## The laws of comparison -/

namespace Value

/-- `v.OrderedTo w o`: the values are two strings, or both are accepted as numbers,
and `o` is how they are ordered. -/
inductive OrderedTo : Value → Value → Option Ordering → Prop
  | strings (s t : String) : OrderedTo (.string s) (.string t) (some (compare s t))
  | numbers {place : String} {v w : Value} {x y : Scalar} :
      v.asNumber place = .ok x → w.asNumber place = .ok y → OrderedTo v w (x.order y)

variable {v w : Value} {o : Option Ordering}

theorem OrderedTo.swap (h : v.OrderedTo w o) : w.OrderedTo v (o.map Ordering.swap) := by
  cases h with
  | strings s t =>
      have hswap : compare t s = (compare s t).swap := Std.OrientedOrd.eq_swap
      rw [Option.map_some, ← hswap]
      exact .strings t s
  | @numbers _ _ _ x y hv hw =>
      rw [← Scalar.order_swap x y]
      exact .numbers hw hv

theorem OrderedTo.eq_none_iff (h : v.OrderedTo w o) : o = none ↔ v.IsNan ∨ w.IsNan := by
  cases h with
  | strings s t =>
      exact iff_of_false nofun (not_or.mpr ⟨not_isNan_string s, not_isNan_string t⟩)
  | numbers hv hw => rw [isNan_iff hv, isNan_iff hw, Scalar.order_eq_none_iff]

/-- Two strings, or two values that are accepted as numbers. -/
def Comparable (v w : Value) : Prop :=
  (∃ s t, v = .string s ∧ w = .string t) ∨
    ∃ place x y, v.asNumber place = .ok x ∧ w.asNumber place = .ok y

theorem Comparable.exists_orderedTo (h : v.Comparable w) : ∃ o, v.OrderedTo w o := by
  rcases h with ⟨s, t, rfl, rfl⟩ | ⟨place, x, y, hv, hw⟩
  · exact ⟨_, .strings s t⟩
  · exact ⟨_, .numbers hv hw⟩

end Value

theorem compareValues_eq {v w : Value} {o : Option Ordering} (h : v.OrderedTo w o)
    (name : Comparison) : (compareValues name v w).result = .ok (name.holds o) := by
  cases h with
  | strings s t => rfl
  | numbers hv hw => exact compareValues_numbers hv hw name

/-- **The laws of comparison.**  All six comparisons of two strings, or of two
numbers, plain or of any types, give an answer, and so they do the other way round.  Exactly
one of less, equal and greater holds, unless "not a number" takes part: then the
values are unequal and nothing else.  The other three comparisons are put together
from those, and each is the mirror of one the other way round. -/
theorem compareValues_laws {v w : Value} (h : v.Comparable w) :
    ∃ answer mirrored : Comparison → Bool,
      (∀ name, (compareValues name v w).result = .ok (answer name)) ∧
      (∀ name, (compareValues name w v).result = .ok (mirrored name)) ∧
      (¬ (v.IsNan ∨ w.IsNan) →
        [answer .less, answer .equal, answer .greater].count true = 1) ∧
      (v.IsNan ∨ w.IsNan → ∀ name, answer name = true ↔ name = .notEqual) ∧
      answer .notEqual = !answer .equal ∧
      answer .lessEqual = (answer .less || answer .equal) ∧
      answer .greaterEqual = (answer .greater || answer .equal) ∧
      answer .less = mirrored .greater ∧ answer .greater = mirrored .less ∧
      answer .lessEqual = mirrored .greaterEqual ∧ answer .greaterEqual = mirrored .lessEqual ∧
      answer .equal = mirrored .equal ∧ answer .notEqual = mirrored .notEqual := by
  obtain ⟨o, ho⟩ := h.exists_orderedTo
  have hmirror : ∀ name : Comparison, name.holds o = name.mirror.holds (o.map Ordering.swap) := by
    intro name
    rw [Comparison.holds_swap]
    cases name <;> rfl
  refine ⟨(·.holds o), (·.holds (o.map Ordering.swap)), compareValues_eq ho,
    compareValues_eq ho.swap, ?_, ?_, Comparison.holds_notEqual o, Comparison.holds_lessEqual o,
    Comparison.holds_greaterEqual o, hmirror .less, hmirror .greater, hmirror .lessEqual,
    hmirror .greaterEqual, hmirror .equal, hmirror .notEqual⟩
  · intro hnan
    obtain ⟨o, rfl⟩ := Option.ne_none_iff_exists'.mp (mt ho.eq_none_iff.mp hnan)
    exact Comparison.count_holds_some o
  · intro hnan name
    obtain rfl := ho.eq_none_iff.mpr hnan
    exact Comparison.holds_none_iff

/-- The plain integer `2 ^ 32 + 5` is equal to the integer 5 of 32 bits, which it
wraps to, and so it is the other way round. -/
theorem compareValues_laws_wrapped :
    (Value.integer 4294967301).Comparable (.number (.int ⟨true, .w32⟩ ⟨5, by decide⟩)) ∧
      (compareValues .equal (.integer 4294967301)
        (.number (.int ⟨true, .w32⟩ ⟨5, by decide⟩))).result = .ok true ∧
      (compareValues .equal (.number (.int ⟨true, .w32⟩ ⟨5, by decide⟩))
        (.integer 4294967301)).result = .ok true := by
  have hplain : IntType.plain.Holds 4294967301 := by decide
  have hleft : (Value.integer 4294967301).asNumber "" = .ok (.integer 4294967301) :=
    Value.asNumber_integer hplain
  have hright : (Value.number (.int ⟨true, .w32⟩ ⟨5, by decide⟩)).asNumber "" =
      .ok (.int ⟨true, .w32⟩ ⟨5, by decide⟩) := rfl
  have hcomparable : (Value.integer 4294967301).Comparable
      (.number (.int ⟨true, .w32⟩ ⟨5, by decide⟩)) :=
    Or.inr ⟨"", _, _, hleft, hright⟩
  have horder : (Scalar.integer 4294967301).order (.int ⟨true, .w32⟩ ⟨5, by decide⟩) = some .eq :=
    Scalar.order_integer (by decide) hplain ⟨5, by decide⟩
  have hequal := compareValues_numbers hleft hright .equal
  rw [horder] at hequal
  obtain ⟨answer, mirrored, hanswer, hmirrored, -, -, -, -, -, -, -, -, -, heq, -⟩ :=
    compareValues_laws hcomparable
  have htrue : answer .equal = true := Except.ok.inj ((hanswer .equal).symm.trans hequal)
  exact ⟨hcomparable, hequal, by rw [hmirrored, ← heq, htrue]⟩

end CallLang
