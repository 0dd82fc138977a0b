/-
# `CallLang.Proofs.Evaluation` — when an evaluation ends in a value

First the evaluator node by node, as equations; what is proved about
evaluations goes through these and opens `eval` no more.  Then, for each class
of node, one equivalence says when its evaluation ends in a value, in terms of
the evaluations of its parameters; for a row of parameters the values stand
beside the parameters one by one (`List.Forall₂`).  Programs make typed numbers,
booleans and strings only (`Value.Native`): the other values are those that a
caller hands in.
-/
import Mathlib.Data.List.Forall2
import CallLang.Eval
import CallLang.Proofs.Outcome
import CallLang.Proofs.Tree

namespace CallLang

/-! ## The evaluator, node by node -/

section Equations

variable {channel : Channel} {op : Arithmetic} {name : Comparison} {e : Expr} {params : List Expr}

theorem eval_number {text : String} :
    eval channel (.number text) = (do
      let x ← Outcome.ofExcept (readNumber text)
      pure (.number x)) := rfl

theorem eval_string {text : String} : eval channel (.string text) = pure (.string text) := rfl

theorem eval_binary :
    eval channel (.binary op params) = (do
      Outcome.ofExcept (checkArity op.label (OperatorName.arithmetic op).arity params.length)
      let operands ← evalOperands channel op params
      arithmeticResult op operands) := rfl

theorem eval_predicate :
    eval channel (.predicate name params) = (do
      Outcome.ofExcept (checkArity name.label (OperatorName.comparison name).arity params.length)
      let values ← evalAll channel params
      let holds ← compareRow name values
      pure (.boolean (holds.all id))) := rfl

theorem eval_conditional {test yes no : Expr} :
    eval channel (.conditional [test, yes, no]) = (do
      let v ← eval channel test
      let b ← Outcome.ofExcept (asTest v)
      if b then eval channel yes else eval channel no) := rfl

theorem eval_conditional_of_ne (h : params.length ≠ 3) :
    eval channel (.conditional params) = Outcome.fail (.arity "if" (.exactly 3 params.length)) := by
  match params, h with
  | [], _ | [_], _ | [_, _], _ | _ :: _ :: _ :: _ :: _, _ => rfl
  | [_, _, _], h => exact absurd rfl h

theorem eval_print :
    eval channel (.unary .print (some e)) = (do
      let v ← eval channel e
      channel.emit v
      pure v) := rfl

theorem eval_unary_of_ne {name : OperatorName} (h : name ≠ .print) :
    eval channel (.unary name (some e)) = (do
      Outcome.ofExcept (checkArity name.label name.arity 1)
      let _ ← eval channel e
      Outcome.fail (.unsupportedOperation name)) := by
  cases name with
  | print => exact absurd rfl h
  | comparison c => rfl
  | arithmetic a => rfl

theorem eval_unary_none {name : OperatorName} :
    eval channel (.unary name none) = (do
      Outcome.ofExcept (checkArity name.label name.arity 0)
      Outcome.fail (.unsupportedNode "NoneType")) := rfl

theorem eval_foreign {typeName : String} :
    eval channel (.foreign typeName) = Outcome.fail (.unsupportedNode typeName) := rfl

theorem evalOperands_nil : evalOperands channel op [] = pure [] := rfl

theorem evalOperands_cons :
    evalOperands channel op (e :: params) = (do
      let v ← eval channel e
      let x ← Outcome.ofExcept (v.asNumber op.label)
      (x :: ·) <$> evalOperands channel op params) := rfl

theorem evalAll_nil : evalAll channel [] = pure [] := rfl

theorem evalAll_cons :
    evalAll channel (e :: params) = (do
      let v ← eval channel e
      (v :: ·) <$> evalAll channel params) := rfl

end Equations

/-! ## Counts of parameters -/

/-- The counts of parameters that an arity admits. -/
def Arity.Admits (a : Arity) (count : Nat) : Prop :=
  a.least ≤ count ∧ ∀ most, a.most = some most → count ≤ most

theorem Arity.check_eq_none_iff {a : Arity} {count : Nat} :
    a.check count = none ↔ a.Admits count := by
  obtain ⟨least, most⟩ := a
  cases most with
  | none => simp [check, Admits]
  | some most =>
      by_cases hexact : most = least
      · subst hexact
        simp only [check, Admits, if_true, ite_eq_left_iff, Option.some.injEq, forall_eq',
          reduceCtorEq, imp_false, not_not]
        omega
      · simp only [check, Admits, Option.some.injEq, if_neg hexact, forall_eq']
        split <;> try split
        all_goals simp only [reduceCtorEq, true_iff, false_iff]; omega

theorem Arity.admits_unbounded_iff {least count : Nat} :
    (Arity.mk least none).Admits count ↔ least ≤ count := by
  simp only [Admits, reduceCtorEq, false_imp_iff, implies_true, and_true]

theorem checkArity_eq_ok_iff {label : String} {a : Arity} {count : Nat} {u : Unit} :
    checkArity label a count = .ok u ↔ a.Admits count := by
  rw [← Arity.check_eq_none_iff]
  unfold checkArity
  cases a.check count <;> simp

theorem checkArity_unbounded {label : String} {least count : Nat} (h : least ≤ count) :
    checkArity label ⟨least, none⟩ count = .ok () :=
  checkArity_eq_ok_iff.mpr (Arity.admits_unbounded_iff.mpr h)

/-! ## The values that programs make -/

/-- `v.Native k`: a typed number, a boolean or a string, of kind `k`. -/
inductive Value.Native : Value → Kind → Prop
  | number (x : Scalar) : Native (.number x) .number
  | boolean (b : Bool) : Native (.boolean b) .boolean
  | string (s : String) : Native (.string s) .string

namespace Value

theorem Native.kind_eq {v : Value} {k : Kind} (h : v.Native k) : v.kind = .ok k := by
  cases h <;> rfl

theorem Native.validate_eq {v : Value} {k : Kind} (h : v.Native k) (place : String) :
    v.validate place = .ok () := by
  simp only [validate, h.kind_eq]

theorem Native.result_emit {v : Value} {k : Kind} (h : v.Native k) (channel : Channel) :
    (channel.emit v).result = .ok () := by
  cases channel with
  | collect => rfl
  | write => cases h <;> rfl

theorem Native.asNumber_eq_ok_iff {v : Value} {k : Kind} (h : v.Native k) {place : String}
    {x : Scalar} : v.asNumber place = .ok x ↔ v = .number x := by
  cases h <;> simp [asNumber]

end Value

/-! ## Comparisons -/

/-- Two values are comparable exactly when they are of one kind, and booleans
only for being equal or not. -/
theorem compareValues_eq_ok_iff {name : Comparison} {v w : Value} {k l : Kind} (hv : v.Native k)
    (hw : w.Native l) :
    (∃ b, (compareValues name v w).result = .ok b) ↔
      l = k ∧ (k = .boolean → name = .equal ∨ name = .notEqual) := by
  cases hv <;> cases hw <;>
    simp only [compareValues, Value.kindOrFail, Value.kind, Except.mapError, Value.asNumber,
      Outcome.ofExcept_ok, pure_bind]
  all_goals cases name <;> simp

/-- Two values that are not compared are of two kinds, or they are booleans that
would have to be ordered. -/
theorem compareValues_faults {name : Comparison} {v w : Value} {k l : Kind} (hv : v.Native k)
    (hw : w.Native l) :
    Outcome.Ends (fun err => k ≠ l ∧ err = .mixedKinds name k l ∨
        (k = .boolean ∧ l = .boolean) ∧ (name ≠ .equal ∧ name ≠ .notEqual) ∧
          err = .unorderedBooleans name)
      (fun _ => True) (compareValues name v w) := by
  simp only [compareValues, Value.kindOrFail, hv.kind_eq, hw.kind_eq, Except.mapError,
    Outcome.ofExcept_ok, pure_bind]
  split
  next hkind => exact Or.inl ⟨hkind, rfl⟩
  next hkind =>
    obtain rfl : k = l := not_not.mp hkind
    cases hv with
    | number x =>
        cases hw with
        | number y => trivial
    | boolean a =>
        cases hw with
        | boolean b =>
            dsimp only
            split
            · trivial
            next hequal =>
              split
              · trivial
              next hnotEqual => exact Or.inr ⟨⟨rfl, rfl⟩, ⟨hequal, hnotEqual⟩, rfl⟩
    | string s =>
        cases hw with
        | string t => trivial

theorem comparePairs_eq_ok_iff {name : Comparison} {k : Kind} {v : Value} {ws : List Value}
    (hv : v.Native k) (hws : ∀ w ∈ ws, ∃ l, w.Native l) :
    (∃ bs, (comparePairs name v ws).result = .ok bs) ↔
      (∀ w ∈ ws, w.Native k) ∧ (ws ≠ [] → k = .boolean → name = .equal ∨ name = .notEqual) := by
  induction ws generalizing v with
  | nil => simp [comparePairs]
  | cons w ws ih =>
      obtain ⟨⟨l, hw⟩, hrest⟩ := List.forall_mem_cons.mp hws
      constructor
      · rintro ⟨bs, hbs⟩
        simp only [comparePairs, Outcome.result_bind_eq_ok_iff, Outcome.result_map_eq_ok_iff] at hbs
        obtain ⟨b, hb, bs', hbs', -⟩ := hbs
        obtain ⟨rfl, hname⟩ := (compareValues_eq_ok_iff hv hw).mp ⟨b, hb⟩
        have htail := ((ih hw hrest).mp ⟨bs', hbs'⟩).1
        exact ⟨List.forall_mem_cons.mpr ⟨hw, htail⟩, fun _ => hname⟩
      · rintro ⟨hall, hname⟩
        have hname := hname (List.cons_ne_nil _ _)
        obtain ⟨hwk, htail⟩ := List.forall_mem_cons.mp hall
        obtain ⟨b, hb⟩ := (compareValues_eq_ok_iff hv hwk).mpr ⟨rfl, hname⟩
        obtain ⟨bs, hbs⟩ := (ih hwk hrest).mpr ⟨htail, fun _ => hname⟩
        refine ⟨b :: bs, ?_⟩
        simp only [comparePairs, Outcome.result_bind_eq_ok_iff, Outcome.result_map_eq_ok_iff]
        exact ⟨b, hb, bs, hbs, rfl⟩

/-! ## Rows of parameters -/

theorem forall₂_mem_left {α β : Type} {R : α → β → Prop} {xs : List α} {ys : List β}
    (h : List.Forall₂ R xs ys) : ∀ x ∈ xs, ∃ y ∈ ys, R x y := by
  induction h with
  | nil => exact List.forall_mem_nil _
  | @cons x y xs ys hxy _ ih =>
      intro z hz
      rcases List.mem_cons.mp hz with rfl | hz
      · exact ⟨y, List.mem_cons_self, hxy⟩
      · obtain ⟨w, hw, hzw⟩ := ih z hz
        exact ⟨w, List.mem_cons_of_mem _ hw, hzw⟩

variable {channel : Channel}

theorem evalAll_eq_ok_iff {ps : List Expr} {vs : List Value} :
    (evalAll channel ps).result = .ok vs ↔
      List.Forall₂ (fun p v => (eval channel p).result = .ok v) ps vs := by
  induction ps generalizing vs with
  | nil => simp [evalAll_nil, eq_comm]
  | cons p ps ih =>
      simp only [evalAll_cons, Outcome.result_bind_eq_ok_iff, Outcome.result_map_eq_ok_iff, ih,
        List.forall₂_cons_left_iff]
      constructor
      · rintro ⟨v, hv, vs', hvs, rfl⟩
        exact ⟨v, vs', hv, hvs, rfl⟩
      · rintro ⟨v, vs', hv, hvs, rfl⟩
        exact ⟨v, hv, vs', hvs, rfl⟩

theorem evalOperands_eq_ok_iff {op : Arithmetic} {ps : List Expr} {xs : List Scalar} :
    (evalOperands channel op ps).result = .ok xs ↔
      List.Forall₂ (fun p x => ∃ v, (eval channel p).result = .ok v ∧ v.asNumber op.label = .ok x)
        ps xs := by
  induction ps generalizing xs with
  | nil => simp [evalOperands_nil, eq_comm]
  | cons p ps ih =>
      simp only [evalOperands_cons, Outcome.result_bind_eq_ok_iff, Outcome.result_map_eq_ok_iff,
        Outcome.result_ofExcept, ih, List.forall₂_cons_left_iff]
      constructor
      · rintro ⟨v, hv, x, hx, xs', hxs, rfl⟩
        exact ⟨x, xs', ⟨v, hv, hx⟩, hxs, rfl⟩
      · rintro ⟨x, xs', ⟨v, hv, hx⟩, hxs, rfl⟩
        exact ⟨v, hv, x, hx, xs', hxs, rfl⟩

/-! ## Nodes with as many parameters as they need -/

theorem eval_binary_of_ne_nil {op : Arithmetic} {params : List Expr} (h : params ≠ []) :
    eval channel (.binary op params) = evalOperands channel op params >>= arithmeticResult op := by
  have hcount : checkArity op.label (OperatorName.arithmetic op).arity params.length = .ok () :=
    checkArity_unbounded (List.length_pos_iff.mpr h)
  rw [eval_binary, hcount, Outcome.ofExcept_ok, pure_bind]

theorem eval_predicate_of_le {name : Comparison} {params : List Expr} (h : 2 ≤ params.length) :
    eval channel (.predicate name params) = (do
      let values ← evalAll channel params
      let holds ← compareRow name values
      pure (.boolean (holds.all id))) := by
  have hcount : checkArity name.label (OperatorName.comparison name).arity params.length = .ok () :=
    checkArity_unbounded h
  rw [eval_predicate, hcount, Outcome.ofExcept_ok, pure_bind]

/-! ## Nodes that end in a value -/

section Nodes

variable {v : Value}

theorem eval_number_eq_ok_iff {text : String} :
    (eval channel (.number text)).result = .ok v ↔
      ∃ x, readNumber text = .ok x ∧ .number x = v := by
  simp [eval_number]

theorem eval_string_eq_ok_iff {text : String} :
    (eval channel (.string text)).result = .ok v ↔ .string text = v := by
  simp [eval_string]

theorem eval_binary_eq_ok_iff {op : Arithmetic} {params : List Expr} :
    (eval channel (.binary op params)).result = .ok v ↔
      ∃ x xs y, (evalOperands channel op params).result = .ok (x :: xs) ∧
        foldOperands op x xs = .ok y ∧ .number y = v := by
  simp only [eval_binary, Outcome.result_bind_eq_ok_iff, Outcome.result_ofExcept,
    checkArity_eq_ok_iff, OperatorName.arity, Arity.admits_unbounded_iff]
  constructor
  · rintro ⟨-, -, xs, hxs, hresult⟩
    cases xs with
    | nil => simp [arithmeticResult] at hresult
    | cons x xs =>
        simp only [arithmeticResult, Outcome.result_bind_eq_ok_iff, Outcome.result_ofExcept,
          Outcome.result_pure, Except.ok.injEq] at hresult
        obtain ⟨-, -, y, hy, hv⟩ := hresult
        exact ⟨x, xs, y, hxs, hy, hv⟩
  · rintro ⟨x, xs, y, hxs, hy, hv⟩
    have hlen := (evalOperands_eq_ok_iff.mp hxs).length_eq
    refine ⟨(), ?_, x :: xs, hxs, ?_⟩
    · rw [hlen]
      exact Nat.le_add_left 1 _
    · simp [arithmeticResult, hy, hv]

theorem eval_predicate_eq_ok_iff {name : Comparison} {params : List Expr} :
    (eval channel (.predicate name params)).result = .ok v ↔
      2 ≤ params.length ∧ ∃ vs bs, (evalAll channel params).result = .ok vs ∧
        (compareRow name vs).result = .ok bs ∧ .boolean (bs.all id) = v := by
  simp only [eval_predicate, Outcome.result_bind_eq_ok_iff, Outcome.result_ofExcept,
    checkArity_eq_ok_iff, OperatorName.arity, Arity.admits_unbounded_iff, Outcome.result_pure,
    Except.ok.injEq]
  constructor
  · rintro ⟨-, hcount, vs, hvs, bs, hbs, hv⟩
    exact ⟨hcount, vs, bs, hvs, hbs, hv⟩
  · rintro ⟨hcount, vs, bs, hvs, hbs, hv⟩
    exact ⟨(), hcount, vs, hvs, bs, hbs, hv⟩

theorem asTest_eq_ok_iff {w : Value} {b : Bool} : asTest w = .ok b ↔ w = .boolean b := by
  cases w <;> simp [asTest, Value.kindOrFail, Value.kind, Except.mapError, bind, Except.bind]

theorem eval_conditional_eq_ok_iff {params : List Expr} :
    (eval channel (.conditional params)).result = .ok v ↔
      ∃ test yes no b, params = [test, yes, no] ∧ (eval channel test).result = .ok (.boolean b) ∧
        (eval channel (if b then yes else no)).result = .ok v := by
  constructor
  · intro h
    by_cases hlen : params.length = 3
    · obtain ⟨test, yes, no, rfl⟩ := List.length_eq_three.mp hlen
      simp only [eval_conditional, Outcome.result_bind_eq_ok_iff, Outcome.result_ofExcept,
        asTest_eq_ok_iff] at h
      obtain ⟨_, htest, b, rfl, hbranch⟩ := h
      exact ⟨test, yes, no, b, rfl, htest, by cases b <;> exact hbranch⟩
    · rw [eval_conditional_of_ne hlen] at h
      cases h
  · rintro ⟨test, yes, no, b, rfl, htest, hbranch⟩
    simp only [eval_conditional, Outcome.result_bind_eq_ok_iff, Outcome.result_ofExcept,
      asTest_eq_ok_iff]
    exact ⟨_, htest, b, rfl, by cases b <;> exact hbranch⟩

theorem eval_unary_eq_ok_iff {name : OperatorName} {param : Option Expr} :
    (eval channel (.unary name param)).result = .ok v ↔
      ∃ p, name = .print ∧ param = some p ∧ (eval channel p).result = .ok v ∧
        (channel.emit v).result = .ok () := by
  cases param with
  | none => simp [eval_unary_none]
  | some p =>
      by_cases hname : name = .print
      · subst hname
        simp only [eval_print, Outcome.result_bind_eq_ok_iff, Outcome.result_pure, Except.ok.injEq]
        constructor
        · rintro ⟨w, hw, u, hemit, rfl⟩
          exact ⟨p, trivial, rfl, hw, hemit⟩
        · rintro ⟨q, -, hq, hv, hemit⟩
          cases hq
          exact ⟨v, hv, (), hemit, rfl⟩
      · simp [eval_unary_of_ne hname, hname]

theorem eval_foreign_ne_ok {typeName : String} :
    (eval channel (.foreign typeName)).result ≠ .ok v := by
  simp [eval_foreign]

end Nodes

/-- Every value that an evaluation ends in is one that programs make. -/
theorem native_of_eval {e : Expr} {v : Value} (h : (eval channel e).result = .ok v) :
    ∃ k, v.Native k := by
  induction e using Expr.tree_induction generalizing v with
  | number text =>
      obtain ⟨x, -, rfl⟩ := eval_number_eq_ok_iff.mp h
      exact ⟨_, .number x⟩
  | string text =>
      obtain rfl := eval_string_eq_ok_iff.mp h
      exact ⟨_, .string text⟩
  | conditional params ih =>
      obtain ⟨test, yes, no, b, rfl, -, hbranch⟩ := eval_conditional_eq_ok_iff.mp h
      exact ih (if b then yes else no) (by cases b <;> simp) hbranch
  | predicate name params ih =>
      obtain ⟨-, vs, bs, -, -, rfl⟩ := eval_predicate_eq_ok_iff.mp h
      exact ⟨_, .boolean _⟩
  | binary op params ih =>
      obtain ⟨x, xs, y, -, -, rfl⟩ := eval_binary_eq_ok_iff.mp h
      exact ⟨_, .number y⟩
  | unary name param ih =>
      obtain ⟨p, -, rfl, hp, -⟩ := eval_unary_eq_ok_iff.mp h
      exact ih p rfl hp
  | foreign typeName => exact absurd h eval_foreign_ne_ok

end CallLang
