/-
# `CallLang.Proofs.Kinds` — the kinds of expressions, and what they promise

`HasKind` gives an expression the kind of its value before anything is
evaluated.  An expression with a kind can fail at its arithmetic only: by an
overflow or a division by zero (`eval_ends`).  Conversely an evaluation that
ends in a value has checked all kinds on its way, so that an expression without
conditionals has the kind of its value (`hasKind_of_eval`); a conditional leaves
the branch that it does not take unchecked.
-/
import CallLang.Proofs.Evaluation

namespace CallLang

/-- `HasKind e k`: the nodes of `e` have as many parameters as they need, of the
kinds that they need, and `e` itself is of kind `k`. -/
inductive HasKind : Expr → Kind → Prop
  | number (text : String) : HasKind (.number text) .number
  | string (text : String) : HasKind (.string text) .string
  | binary {op : Arithmetic} {params : List Expr} :
      params ≠ [] → (∀ p ∈ params, HasKind p .number) → HasKind (.binary op params) .number
  | predicate {name : Comparison} {params : List Expr} {k : Kind} :
      2 ≤ params.length → (∀ p ∈ params, HasKind p k) →
      (k = .boolean → name = .equal ∨ name = .notEqual) →
      HasKind (.predicate name params) .boolean
  | conditional {test yes no : Expr} {k : Kind} :
      HasKind test .boolean → HasKind yes k → HasKind no k →
      HasKind (.conditional [test, yes, no]) k
  | print {e : Expr} {k : Kind} : HasKind e k → HasKind (.unary .print (some e)) k

/-- The faults of arithmetic: an integer result that does not fit, and a divisor
that counts as zero. -/
def EvalError.IsArithmetic (e : EvalError) : Prop :=
  e.errorClass? = some .overflow ∨ e.errorClass? = some .zeroDivision

/-- Every number literal of the tree stands for a number. -/
def Expr.LiteralsRead (e : Expr) : Prop :=
  ∀ text, (Expr.number text).Within e → ∃ x, readNumber text = .ok x

theorem Expr.literalsRead_iff {e : Expr} :
    e.LiteralsRead ↔ (∀ text, e = .number text → ∃ x, readNumber text = .ok x) ∧
      ∀ p ∈ e.children, p.LiteralsRead := by
  constructor
  · intro h
    refine ⟨?_, ?_⟩
    · rintro text rfl
      exact h text .self
    · intro p hp text ht
      exact h text (.child hp ht)
  · rintro ⟨hself, hchildren⟩ text ht
    cases ht with
    | self => exact hself text rfl
    | child hp ht => exact hchildren _ hp text ht

theorem Expr.LiteralsRead.child {e p : Expr} (h : e.LiteralsRead) (hp : p ∈ e.children) :
    p.LiteralsRead :=
  (Expr.literalsRead_iff.mp h).2 p hp

variable {channel : Channel}

/-! ## A kind keeps its promise -/

open Outcome (Ends)

theorem foldOperands_ends (op : Arithmetic) (x : Scalar) (ys : List Scalar) :
    Ends EvalError.IsArithmetic (fun _ => True) (.ofExcept (foldOperands op x ys)) := by
  induction ys generalizing x with
  | nil => trivial
  | cons y ys ih =>
      unfold foldOperands
      split
      · exact Or.inr rfl
      · split
        · exact ih _
        · exact Or.inl rfl

theorem evalOperands_ends (op : Arithmetic) {ps : List Expr} {Q : EvalError → Prop}
    (h : ∀ p ∈ ps, Ends Q (·.Native .number) (eval channel p)) :
    Ends Q (·.length = ps.length) (evalOperands channel op ps) := by
  induction ps with
  | nil => rfl
  | cons p ps ih =>
      obtain ⟨hp, hps⟩ := List.forall_mem_cons.mp h
      rw [evalOperands_cons]
      refine hp.bind ?_
      intro v hv
      cases hv with
      | number x =>
          simp only [Value.asNumber, Outcome.ofExcept_ok, pure_bind]
          exact (ih hps).map fun xs hxs => by simp [hxs]

theorem evalAll_ends {ps : List Expr} {Q : EvalError → Prop} {P : Value → Prop}
    (h : ∀ p ∈ ps, Ends Q P (eval channel p)) :
    Ends Q (fun vs => vs.length = ps.length ∧ ∀ v ∈ vs, P v) (evalAll channel ps) := by
  induction ps with
  | nil => exact ⟨rfl, List.forall_mem_nil _⟩
  | cons p ps ih =>
      obtain ⟨hp, hps⟩ := List.forall_mem_cons.mp h
      rw [evalAll_cons]
      refine hp.bind ?_
      intro v hv
      refine (ih hps).map ?_
      rintro vs ⟨hlen, hvs⟩
      exact ⟨congrArg (· + 1) hlen, List.forall_mem_cons.mpr ⟨hv, hvs⟩⟩

theorem compareRow_ok {name : Comparison} {k : Kind} {vs : List Value}
    (hvs : ∀ v ∈ vs, v.Native k) (hname : k = .boolean → name = .equal ∨ name = .notEqual) :
    ∃ bs, (compareRow name vs).result = .ok bs := by
  cases vs with
  | nil => exact ⟨[], rfl⟩
  | cons v vs =>
      obtain ⟨hv, hrest⟩ := List.forall_mem_cons.mp hvs
      have hnative : ∀ w ∈ vs, ∃ l, w.Native l := fun w hw => ⟨k, hrest w hw⟩
      exact (comparePairs_eq_ok_iff hv hnative).mpr ⟨hrest, fun _ => hname⟩

/-- An expression with a kind ends in a value of that kind, or its arithmetic
fails. -/
theorem eval_ends {e : Expr} {k : Kind} (h : HasKind e k) (hlit : e.LiteralsRead) :
    Ends EvalError.IsArithmetic (·.Native k) (eval channel e) := by
  induction h with
  | number text =>
      obtain ⟨x, hx⟩ := hlit text .self
      exact Ends.of_ok (eval_number_eq_ok_iff.mpr ⟨x, hx, rfl⟩) (.number x)
  | string text => exact Ends.of_ok (eval_string_eq_ok_iff.mpr rfl) (.string text)
  | @binary op params hne _ ih =>
      have hops := evalOperands_ends op fun p hp => ih p hp (hlit.child hp)
      rw [eval_binary_of_ne_nil hne]
      refine hops.bind ?_
      intro xs hxs
      cases xs with
      | nil => exact absurd (List.length_eq_zero_iff.mp hxs.symm) hne
      | cons x xs =>
          have hfold := foldOperands_ends op x xs
          exact Ends.bind_ok rfl (hfold.bind fun y _ => Ends.pure (.number y))
  | @predicate name params k hcount _ hname ih =>
      have hvals := evalAll_ends fun p hp => ih p hp (hlit.child hp)
      rw [eval_predicate_of_le hcount]
      refine hvals.bind ?_
      rintro vs ⟨-, hvs⟩
      obtain ⟨bs, hbs⟩ := compareRow_ok hvs hname
      exact Ends.bind_ok hbs (Ends.pure (.boolean _))
  | @conditional test yes no k _ _ _ ihtest ihyes ihno =>
      have htest := ihtest (hlit.child (by simp [Expr.children]))
      have hyes := ihyes (hlit.child (by simp [Expr.children]))
      have hno := ihno (hlit.child (by simp [Expr.children]))
      rw [eval_conditional]
      refine htest.bind ?_
      intro v hv
      cases hv with
      | boolean b =>
          simp only [asTest, Outcome.ofExcept_ok, pure_bind]
          cases b with
          | true => exact hyes
          | false => exact hno
  | @print e k _ ih =>
      have hparam := ih (hlit.child (by simp [Expr.children]))
      rw [eval_print]
      refine hparam.bind ?_
      intro v hv
      exact Ends.bind_ok (hv.result_emit channel) (Ends.pure hv)

/-! ## A value keeps its kind -/

theorem compareRow_kind {name : Comparison} {vs : List Value} {bs : List Bool}
    (hnative : ∀ v ∈ vs, ∃ k, v.Native k) (hcount : 2 ≤ vs.length)
    (h : (compareRow name vs).result = .ok bs) :
    ∃ k, (∀ v ∈ vs, v.Native k) ∧ (k = .boolean → name = .equal ∨ name = .notEqual) := by
  match vs, hcount with
  | v :: w :: ws, _ =>
      obtain ⟨⟨k, hv⟩, hrest⟩ := List.forall_mem_cons.mp hnative
      obtain ⟨hall, hname⟩ := (comparePairs_eq_ok_iff hv hrest).mp ⟨bs, h⟩
      exact ⟨k, List.forall_mem_cons.mpr ⟨hv, hall⟩, hname (List.cons_ne_nil _ _)⟩

/-- Without conditionals every node of the tree is evaluated, so the kind of the
value is the kind of the tree. -/
theorem hasKind_of_eval {e : Expr} {v : Value} {k : Kind}
    (hall : ∀ params, ¬ (Expr.conditional params).Within e)
    (h : (eval channel e).result = .ok v) (hv : v.Native k) : HasKind e k := by
  induction e using Expr.tree_induction generalizing v k with
  | number text =>
      obtain ⟨x, -, rfl⟩ := eval_number_eq_ok_iff.mp h
      cases hv
      exact .number text
  | string text =>
      obtain rfl := eval_string_eq_ok_iff.mp h
      cases hv
      exact .string text
  | conditional params => exact absurd .self (hall params)
  | predicate name params ih =>
      obtain ⟨hcount, vs, bs, hvs, hbs, rfl⟩ := eval_predicate_eq_ok_iff.mp h
      cases hv
      have hrow := evalAll_eq_ok_iff.mp hvs
      have hnative : ∀ v ∈ vs, ∃ k, v.Native k := by
        intro v hv
        obtain ⟨p, -, hp⟩ := forall₂_mem_left hrow.flip v hv
        exact native_of_eval hp
      obtain ⟨k, hk, hname⟩ := compareRow_kind hnative (hrow.length_eq ▸ hcount) hbs
      refine .predicate hcount ?_ hname
      intro p hp
      obtain ⟨w, hw, hpw⟩ := forall₂_mem_left hrow p hp
      exact ih p hp (fun ps hps => hall ps (.child hp hps)) hpw (hk w hw)
  | binary op params ih =>
      obtain ⟨x, xs, y, hops, -, rfl⟩ := eval_binary_eq_ok_iff.mp h
      cases hv
      have hrow := evalOperands_eq_ok_iff.mp hops
      refine .binary ?_ ?_
      · rintro rfl
        cases hrow
      · intro p hp
        obtain ⟨z, -, w, hpw, hwz⟩ := forall₂_mem_left hrow p hp
        obtain ⟨l, hw⟩ := native_of_eval hpw
        obtain rfl := hw.asNumber_eq_ok_iff.mp hwz
        exact ih p hp (fun ps hps => hall ps (.child hp hps)) hpw (.number z)
  | unary name param ih =>
      obtain ⟨p, rfl, rfl, hp, -⟩ := eval_unary_eq_ok_iff.mp h
      exact .print (ih p rfl (fun ps hps => hall ps (.child (by simp [Expr.children]) hps)) hp hv)
  | foreign typeName => exact absurd h eval_foreign_ne_ok

/-! ## The two directions -/

/-- **Kinds are sound, and complete without conditionals.**  A tree of kind `k`
whose number literals can be read ends in a value of kind `k`, or in an overflow
or a division by zero; and a tree without conditionals that ends in a value has
the kind of the value. -/
theorem evaluate_kind (channel : Channel) (e : Expr) :
    (∀ k, HasKind e k → e.LiteralsRead →
      match (evaluate channel e).result with
      | .ok v => v.kind = .ok k
      | .error err => err.errorClass? = some .overflow ∨ err.errorClass? = some .zeroDivision) ∧
    ((∀ params, ¬ (Expr.conditional params).Within e) →
      ∀ v, (evaluate channel e).result = .ok v → ∃ k, v.kind = .ok k ∧ HasKind e k) := by
  constructor
  · intro k hk hlit
    have hends : Ends EvalError.IsArithmetic (·.kind = .ok k) (evaluate channel e) :=
      (eval_ends hk hlit).bind fun v hv =>
        Ends.bind_ok (hv.validate_eq "result") (Ends.pure hv.kind_eq)
    cases hres : (evaluate channel e).result with
    | ok v => simpa only [Ends, hres] using hends
    | error err => simpa only [Ends, hres, EvalError.IsArithmetic] using hends
  · intro hall v h
    simp only [evaluate, Outcome.result_bind_eq_ok_iff, Outcome.result_pure,
      Except.ok.injEq] at h
    obtain ⟨w, hw, -, -, rfl⟩ := h
    obtain ⟨k, hk⟩ := native_of_eval hw
    exact ⟨k, hk.kind_eq, hasKind_of_eval hall hw hk⟩

/-- The program `(= 7 7)`. -/
def Expr.equalSevens : Expr :=
  .predicate .equal [.number "7", .number "7"]

theorem evaluate_kind_equalSevens :
    HasKind .equalSevens .boolean ∧
      ∃ v, (evaluate .collect .equalSevens).result = .ok v ∧ v.kind = .ok .boolean := by
  obtain ⟨hsound, hcomplete⟩ := evaluate_kind .collect .equalSevens
  have hresult : (evaluate .collect .equalSevens).result = .ok (.boolean true) := rfl
  have hchild : ∀ p ∈ Expr.equalSevens.children, p = .number "7" := by
    simp [Expr.equalSevens, Expr.children]
  constructor
  · have hall : ∀ params, ¬ (Expr.conditional params).Within .equalSevens := by
      rintro params (_ | ⟨hp, hw⟩)
      rw [hchild _ hp] at hw
      rcases hw with _ | ⟨hq, -⟩
      exact absurd hq List.not_mem_nil
    obtain ⟨k, hk, hkind⟩ := hcomplete hall _ hresult
    cases hk
    exact hkind
  · have hkind : HasKind .equalSevens .boolean := by
      have hnumber : ∀ p ∈ Expr.equalSevens.children, HasKind p .number := by
        intro p hp
        rw [hchild p hp]
        exact .number "7"
      exact .predicate (Nat.le_refl 2) hnumber (by decide)
    have hread : Expr.equalSevens.LiteralsRead := by
      refine Expr.literalsRead_iff.mpr ⟨?_, ?_⟩
      · intro text htext
        cases htext
      · intro p hp
        rw [hchild p hp]
        refine Expr.literalsRead_iff.mpr ⟨?_, List.forall_mem_nil _⟩
        rintro text htext
        cases htext
        exact ⟨_, rfl⟩
    have hv := hsound .boolean hkind hread
    rw [hresult] at hv
    exact ⟨_, hresult, hv⟩

end CallLang
