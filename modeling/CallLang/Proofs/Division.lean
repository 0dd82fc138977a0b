/-
# `CallLang.Proofs.Division` — which divisors count as zero

A division is refused for its divisor, and never for anything else.  The divisor
is looked at in one way and compared in another: `Scalar.isZero` takes it as an
operand of its own type, whereas the predicate `(= d 0)` brings it into a common
type with the integer zero first.  Both come to the same
(`Scalar.equalsZero_iff_isZero`), on integers and on floating numbers of either sign,
subnormal, infinite or "not a number":

| | |
| :-- | :-- |
| the integer 0, both floating zeros, subnormal numbers | count as zero (`Scalar.CountsAsZero`) |
| all other numbers, "not a number" among them | are divided by |

So a program may rely on the predicate to guard a division (`Expr.guardedQuotient`).
-/
import CallLang.Proofs.Chains

namespace CallLang

/-! ## Numbers that count as zero -/

namespace Binary

variable {F : Format}

theorem rank?_signed_eq_zero_iff {s : Bool} {c : Fin (F.infinity + 1)} :
    (signed s c).rank? = some 0 ↔ c.val = 0 := by
  cases s <;> simp [rank?]

theorem rank?_flush_eq_zero_iff {s : Bool} {c : Fin (F.infinity + 1)} :
    (signed s c).flush.rank? = some 0 ↔ c.val < F.leastNormal := by
  have hpos : 0 < F.leastNormal := Nat.two_pow_pos _
  rw [flush, rank?_signed_eq_zero_iff]
  simp only [Format.flush]
  split
  next hlt => exact iff_of_true rfl hlt
  next hge => omega

end Binary

namespace Scalar

variable {x y : Scalar}

/-- The integer zero, zero with either sign, or a subnormal number. -/
inductive CountsAsZero : Scalar → Prop
  | int {n : Fixed .int64} : n.val = 0 → CountsAsZero (.int .int64 n)
  | float {negative : Bool} {c : Fin (Format.binary64.infinity + 1)} :
      c.val < Format.binary64.leastNormal → CountsAsZero (.float .double (.signed negative c))

theorem isZero_int {t : IntType} {n : Fixed t} : (Scalar.int t n).isZero ↔ n.val = 0 :=
  decide_eq_true_iff

theorem isZero_float {t : FloatType} {x : Binary t.format} :
    (Scalar.float t x).isZero ↔ (t.operand x).rank? = some 0 :=
  decide_eq_true_iff

theorem isZero_iff_countsAsZero (hx : x.Wide) : x.isZero ↔ x.CountsAsZero := by
  cases hx with
  | int n =>
      rw [isZero_int]
      refine ⟨.int, fun h => ?_⟩
      cases h
      assumption
  | float x =>
      refine (isZero_float (t := .double)).trans ?_
      cases x with
      | nan => exact iff_of_false nofun nofun
      | signed s c =>
          refine Binary.rank?_flush_eq_zero_iff.trans ⟨.float, fun h => ?_⟩
          cases h
          assumption

theorem order_zero_int (n : Fixed .int64) :
    (Scalar.int .int64 n).order (.int64 0) = some .eq ↔ (Scalar.int .int64 n).isZero := by
  have horder : (Scalar.int .int64 n).order (.int64 0) = some (compare n.val 0) := by
    rw [int64, order_eq, pair_int64]
    rfl
  rw [horder, Option.some.injEq, Int.compare_eq_eq, isZero_int]

theorem order_zero_float {t : FloatType} (x : Binary t.format) :
    (Scalar.float t x).order (.int64 0) = some .eq ↔ (Scalar.float t x).isZero := by
  have hzero : (Binary.ofInt 0 : Binary t.format).rank? = some 0 := by
    cases t <;> decide +kernel
  have horder : (Scalar.float t x).order (.int64 0) = (t.operand x).rank?.map (compare · 0) := by
    show (do
      let m ← (t.operand x).rank?
      let n ← (Binary.ofInt 0 : Binary t.format).rank?
      some (compare m n)) = _
    rw [hzero]
    cases (t.operand x).rank? <;> rfl
  rw [horder, isZero_float]
  cases (t.operand x).rank? <;> simp

/-- A number counts as zero exactly when it is in one place with the integer zero. -/
theorem order_zero_iff (hx : x.Wide) : x.order (.int64 0) = some .eq ↔ x.isZero := by
  cases hx with
  | int n => exact order_zero_int n
  | float x => exact order_zero_float (t := .double) x

/-! ## Folds of quotients -/

theorem step?_divide (x y : Scalar) : x.step? .divide y = some (kernel .divide x y) := rfl

theorem kernel_divide (hx : x.Wide) (hy : y.Wide) : ∃ z, kernel .divide x y = .float64 z := by
  cases hx with
  | int a =>
      cases hy with
      | int b =>
          simp only [kernel, pair_int64]
          exact ⟨_, rfl⟩
      | float b => exact ⟨_, rfl⟩
  | float a =>
      cases hy with
      | int b => exact ⟨_, rfl⟩
      | float b => exact ⟨_, rfl⟩

end Scalar

theorem foldOperands_divide_cons {x y : Scalar} {ys : List Scalar} (hy : ¬ y.isZero) :
    foldOperands .divide x (y :: ys) = foldOperands .divide (Scalar.kernel .divide x y) ys := by
  rw [foldOperands, if_neg fun h => hy h.2, Scalar.step?_divide]

theorem foldOperands_divide_of_zero {x : Scalar} {ys : List Scalar} (h : ∃ y ∈ ys, y.isZero) :
    foldOperands .divide x ys = .error .divisionByZero := by
  induction ys generalizing x with
  | nil =>
      obtain ⟨y, hy, -⟩ := h
      exact absurd hy List.not_mem_nil
  | cons y ys ih =>
      by_cases hy : y.isZero
      · exact if_pos ⟨rfl, hy⟩
      · have hrest : ∃ y ∈ ys, y.isZero := by
          simpa [hy] using h
        rw [foldOperands_divide_cons hy]
        exact ih hrest

theorem foldOperands_divide_of_not_zero {x : Scalar} {ys : List Scalar} (hx : x.Wide)
    (hys : ∀ y ∈ ys, y.Wide) (h : ∀ y ∈ ys, ¬ y.isZero) :
    ∃ z, foldOperands .divide x ys = .ok z ∧ (ys = [] → z = x) ∧
      (ys ≠ [] → ∃ w, z = .float64 w) := by
  induction ys generalizing x with
  | nil => exact ⟨x, rfl, fun _ => rfl, fun hne => absurd rfl hne⟩
  | cons y ys ih =>
      obtain ⟨hy, hrest⟩ := List.forall_mem_cons.mp hys
      obtain ⟨hnot, hnots⟩ := List.forall_mem_cons.mp h
      obtain ⟨w, hw⟩ := Scalar.kernel_divide hx hy
      obtain ⟨z, hz, hnil, hcons⟩ := ih (.float w) hrest hnots
      refine ⟨z, ?_, fun hnil => absurd hnil (List.cons_ne_nil y ys), fun _ => ?_⟩
      · rw [foldOperands_divide_cons hnot, hw]
        exact hz
      · by_cases hys : ys = []
        · exact ⟨w, hnil hys⟩
        · exact hcons hys

/-! ## The predicate for being equal -/

/-- The predicate for being equal finds the number equal to the integer zero. -/
def Scalar.EqualsZero (x : Scalar) : Prop :=
  (compareValues .equal (.number x) (.number (.int64 0))).result = .ok true

/-- The predicate agrees with the look that a division takes at its divisor. -/
theorem Scalar.equalsZero_iff_isZero {x : Scalar} (hx : x.Wide) : x.EqualsZero ↔ x.isZero := by
  have hequal : ∀ o, Comparison.equal.holds o = true ↔ o = some .eq := by
    rintro (_ | o)
    · exact iff_of_false nofun nofun
    · cases o <;> simp [Comparison.holds]
  rw [EqualsZero, compareValues_number, Except.ok.injEq, hequal, order_zero_iff hx]

/-! ## Calls on numbers -/

section Calls

variable {channel : Channel} {op : Arithmetic} {params : List Expr} {x : Scalar} {xs : List Scalar}

theorem EndIn.wide {ys : List Scalar} (h : EndIn channel params (ys.map .number)) :
    ∀ y ∈ ys, y.Wide := by
  intro y hy
  cases h.ordinary (.number y) (List.mem_map_of_mem hy) with
  | number hwide => exact hwide

variable (h : EndIn channel params ((x :: xs).map .number))

include h

theorem EndIn.params_ne_nil : params ≠ [] := by
  rintro rfl
  cases h

theorem eval_binary_of_endIn :
    (eval channel (.binary op params)).result = (foldOperands op x xs).map .number := by
  rw [eval_binary_of_ne_nil h.params_ne_nil, Outcome.bind_of_ok (evalOperands_of_endIn op h)]
  simp only [arithmeticResult]
  cases foldOperands op x xs <;> rfl

theorem printsRow_binary : PrintsRow channel params (eval channel (.binary op params)) := by
  have hoperands := evalOperands_of_endIn op h
  rw [eval_binary_of_ne_nil h.params_ne_nil]
  exact printsRow_bind hoperands (prints_evalOperands hoperands)
    (arithmeticResult_draws op (x :: xs))

theorem eval_divide_of_zero (hzero : ∃ y ∈ xs, y.isZero) :
    (eval channel (.binary .divide params)).result = .error .divisionByZero := by
  rw [eval_binary_of_endIn h, foldOperands_divide_of_zero hzero]
  rfl

theorem eval_divide_of_not_zero (hnot : ∀ y ∈ xs, ¬ y.isZero) :
    ∃ z, (eval channel (.binary .divide params)).result = .ok (.number z) ∧ (xs = [] → z = x) ∧
      (xs ≠ [] → ∃ w, z = .float64 w) := by
  obtain ⟨hx, hxs⟩ := List.forall_mem_cons.mp h.wide
  obtain ⟨z, hz, hform⟩ := foldOperands_divide_of_not_zero hx hxs hnot
  refine ⟨z, ?_, hform⟩
  rw [eval_binary_of_endIn h, hz]
  rfl

/-- A division of numbers is refused exactly for a divisor that counts as zero. -/
theorem eval_divide_refused_iff :
    (∃ err, (eval channel (.binary .divide params)).result = .error err ∧
      err.errorClass? = some .zeroDivision) ↔ ∃ y ∈ xs, y.isZero := by
  constructor
  · rintro ⟨err, herr, -⟩
    by_contra hnot
    obtain ⟨z, hz, -⟩ := eval_divide_of_not_zero h fun y hy hzero => hnot ⟨y, hy, hzero⟩
    cases hz.symm.trans herr
  · exact fun hzero => ⟨_, eval_divide_of_zero h hzero, rfl⟩

end Calls

/-! ## Guarded divisions -/

namespace Expr

/-- The test `(= d 0)`. -/
def zeroTest (d : Expr) : Expr :=
  .predicate .equal [d, .number "0"]

/-- The guarded division `(if (= d 0) x (/ y d))`. -/
def guardedQuotient (d x y : Expr) : Expr :=
  .conditional [d.zeroTest, x, .binary .divide [y, d]]

end Expr

theorem endIn_pair {channel : Channel} {p q : Expr} {v w : Value}
    (hp : (eval channel p).result = .ok v) (hq : (eval channel q).result = .ok w) :
    EndIn channel [p, q] [v, w] := by
  rw [← evaluate_eq_eval] at hp hq
  exact .cons hp (.cons hq .nil)

theorem eval_zeroTest {channel : Channel} {d : Expr} {m : Scalar}
    (hd : (eval channel d).result = .ok (.number m)) :
    (eval channel d.zeroTest).result = .ok (.boolean m.isZero) := by
  have hcount : 2 ≤ [d, .number "0"].length := Nat.le_refl 2
  have hends : EndIn channel [d, .number "0"] [.number m, .number (.int64 0)] :=
    endIn_pair hd rfl
  have hwide : ∀ y ∈ [m, .int64 0], y.Wide := EndIn.wide hends
  have hm : m.Wide := hwide m List.mem_cons_self
  have hnot : ¬ Comparison.equal.Rejects [.number m, .number (.int64 0)] := by
    rintro (hkinds | ⟨-, hequal, -⟩)
    · exact hkinds ⟨.number, by simp [Value.kind]⟩
    · exact hequal rfl
  obtain ⟨b, hb⟩ := (eval_predicate_ok_iff_not_rejects .equal hcount hends).mpr hnot
  have htrue := eval_predicate_true_iff .equal hcount hends
  rw [Comparison.Chains, List.isChain_pair, ← Scalar.EqualsZero, Scalar.equalsZero_iff_isZero hm,
    hb, Except.ok.injEq, Value.boolean.injEq] at htrue
  rw [Expr.zeroTest, hb, Bool.eq_iff_iff.mpr htrue]

/-- Behind a test that fails the guarded division ends in a floating number. -/
theorem eval_guardedQuotient {channel : Channel} {d y : Expr} {m n : Scalar}
    (hd : (eval channel d).result = .ok (.number m))
    (hy : (eval channel y).result = .ok (.number n)) (hm : ¬ m.isZero) (x : Expr) :
    ∃ z, (eval channel (.guardedQuotient d x y)).result = .ok (.number (.float64 z)) := by
  have hends : EndIn channel [y, d] ([n, m].map .number) := endIn_pair hy hd
  have htest : (eval channel d.zeroTest).result = .ok (.boolean false) := by
    rw [eval_zeroTest hd, Bool.eq_false_iff.mpr hm]
  have hdivisors : ∀ z ∈ [m], ¬ z.isZero := List.forall_mem_singleton.mpr hm
  obtain ⟨z, hz, -, hmore⟩ := eval_divide_of_not_zero hends hdivisors
  obtain ⟨w, rfl⟩ := hmore (List.cons_ne_nil m [])
  exact ⟨w, eval_conditional_eq_ok_iff.mpr ⟨_, _, _, false, rfl, htest, hz⟩⟩

/-- **Division by zero.**  A division of numbers prints what its operands print.  It
is refused exactly when one of its divisors is equal to zero, in the sense of the
predicate for being equal: an integer zero, or a floating number that is zero or
subnormal.  Else it ends in its only operand, or in a floating number.  So the test
`(= d 0)` guards a division by `d`: it never fails itself, and where it finds `d`
unequal to zero the guarded division ends in a floating number; where it finds it
equal the division alone would be refused. -/
theorem evaluate_divide (channel : Channel) :
    (∀ params x xs, EndIn channel params ((x :: xs).map .number) →
      PrintsRow channel params (evaluate channel (.binary .divide params)) ∧
      ((∃ err, (evaluate channel (.binary .divide params)).result = .error err ∧
          err.errorClass? = some .zeroDivision) ↔ ∃ y ∈ xs, y.EqualsZero) ∧
      ((¬ ∃ y ∈ xs, y.EqualsZero) →
        (xs = [] → (evaluate channel (.binary .divide params)).result = .ok (.number x)) ∧
        (xs ≠ [] → ∃ z, (evaluate channel (.binary .divide params)).result =
          .ok (.number (.float64 z)))) ∧
      (∀ y ∈ xs, y.EqualsZero ↔ y.CountsAsZero)) ∧
    (∀ d x y m n, (evaluate channel d).result = .ok (.number m) →
      (evaluate channel y).result = .ok (.number n) →
      (∃ b, (evaluate channel d.zeroTest).result = .ok (.boolean b)) ∧
      ((evaluate channel d.zeroTest).result = .ok (.boolean false) →
        ∃ z, (evaluate channel (.guardedQuotient d x y)).result = .ok (.number (.float64 z))) ∧
      ((evaluate channel d.zeroTest).result = .ok (.boolean true) →
        ∃ err, (evaluate channel (.binary .divide [y, d])).result = .error err ∧
          err.errorClass? = some .zeroDivision)) := by
  simp only [evaluate_eq_eval]
  refine ⟨?_, ?_⟩
  · intro params x xs h
    obtain ⟨-, hxs⟩ := List.forall_mem_cons.mp h.wide
    have hequal : ∀ y ∈ xs, y.EqualsZero ↔ y.isZero := fun y hy =>
      Scalar.equalsZero_iff_isZero (hxs y hy)
    have hsome : (∃ y ∈ xs, y.EqualsZero) ↔ ∃ y ∈ xs, y.isZero :=
      exists_congr fun y => and_congr_right (hequal y)
    rw [hsome]
    refine ⟨printsRow_binary h, eval_divide_refused_iff h, ?_, ?_⟩
    · intro hnot
      obtain ⟨z, hz, hsingle, hmore⟩ :=
        eval_divide_of_not_zero h fun y hy hzero => hnot ⟨y, hy, hzero⟩
      refine ⟨fun hnil => hsingle hnil ▸ hz, fun hne => ?_⟩
      obtain ⟨w, rfl⟩ := hmore hne
      exact ⟨w, hz⟩
    · intro y hy
      rw [hequal y hy, Scalar.isZero_iff_countsAsZero (hxs y hy)]
  · intro d x y m n hd hy
    have htest := eval_zeroTest hd
    have hends : EndIn channel [y, d] ([n, m].map .number) := endIn_pair hy hd
    refine ⟨⟨_, htest⟩, fun hfalse => ?_, fun htrue => ?_⟩
    · have hm : m.isZero = false := Value.boolean.inj (Except.ok.inj (htest.symm.trans hfalse))
      exact eval_guardedQuotient hd hy (Bool.eq_false_iff.mp hm) x
    · have hm : m.isZero = true := Value.boolean.inj (Except.ok.inj (htest.symm.trans htrue))
      exact (eval_divide_refused_iff hends).mpr ⟨m, List.mem_singleton_self m, hm⟩

/-- The least positive floating number, which is subnormal. -/
def Scalar.leastPositive : Scalar :=
  .float64 (.signed false ⟨1, by decide⟩)

theorem readNumber_leastPositive : readNumber "5e-324" = .ok .leastPositive := by
  have hnumeral : Numeral.ofText? "5e-324" =
      some ⟨false, ['5'], none, some ⟨true, ['3', '2', '4']⟩⟩ := rfl
  have hmagnitude : (⟨false, ['5'], none, some ⟨true, ['3', '2', '4']⟩⟩ : Numeral).magnitude =
      ⟨5, -324⟩ := rfl
  have hfloat : Decimal.toBinary false ⟨5, -324⟩ = .signed false ⟨1, by decide⟩ := by
    decide +kernel
  simp only [readNumber, hnumeral, Numeral.isInteger, hmagnitude, hfloat]
  rfl

/-- One divided by the least positive number is refused, and so the test finds that
number equal to zero; two guards the division by itself. -/
theorem evaluate_divide_leastPositive :
    EndIn .collect [.number "1", .number "5e-324"] ([.int64 1, .leastPositive].map .number) ∧
      (∃ err, (evaluate .collect (.binary .divide [.number "1", .number "5e-324"])).result =
        .error err ∧ err.errorClass? = some .zeroDivision) ∧
      (evaluate .collect (Expr.number "2").zeroTest).result = .ok (.boolean false) ∧
      ∃ z, (evaluate .collect (.guardedQuotient (.number "2") (.number "0") (.number "1"))).result =
        .ok (.number (.float64 z)) := by
  have hends : EndIn .collect [.number "1", .number "5e-324"]
      ([.int64 1, .leastPositive].map .number) :=
    endIn_pair rfl (eval_number_eq_ok_iff.mpr ⟨_, readNumber_leastPositive, rfl⟩)
  have hfalse : (evaluate .collect (Expr.number "2").zeroTest).result = .ok (.boolean false) := rfl
  obtain ⟨hdivisions, hguards⟩ := evaluate_divide .collect
  obtain ⟨-, hzero, -, hcounts⟩ := hdivisions _ _ _ hends
  have hone : (evaluate .collect (.number "1")).result = .ok (.number (.int64 1)) := rfl
  have htwo : (evaluate .collect (.number "2")).result = .ok (.number (.int64 2)) := rfl
  obtain ⟨-, hguarded, -⟩ := hguards (.number "2") (.number "0") (.number "1") _ _ htwo hone
  have hsubnormal : Scalar.leastPositive.CountsAsZero := .float (by decide)
  refine ⟨hends, hzero.mpr ⟨.leastPositive, List.mem_singleton_self _, ?_⟩, hfalse, hguarded hfalse⟩
  exact (hcounts _ (List.mem_singleton_self _)).mpr hsubnormal

end CallLang
