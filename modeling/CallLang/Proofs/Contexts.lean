/-
# `CallLang.Proofs.Contexts` — what a program does with one of its parts

A context is a program with a hole in it.  Whatever is put into the hole, the
program does one of two things with it, and the context alone decides which:

    it never comes to the hole, and goes on and ends in the same way whatever
    is there;
    or it comes to the hole after some events, evaluates what is there, stops
    with its error if it fails, and else goes on with nothing but its value.

So a part is evaluated at most once, its prints stay together, and its errors
are not swallowed.  The first case is that of a branch that is not taken, of a
wrong number of parameters, and of a parameter behind one that fails.

The proof is an induction on the context.  `SingleUse` says of any evaluation
with a free part what is claimed of programs; it is kept by what goes on behind
(`SingleUse.bind`) and by what goes before (`SingleUse.behind`), and each node
of the evaluator is made of these two.
-/
import CallLang.Proofs.Evaluation

namespace CallLang

/-! ## Contexts -/

/-- An expression with one hole: at the root, among the parameters of a call,
or in the place of a unary operand. -/
inductive Context
  | hole
  | conditional (before : List Expr) (inner : Context) (behind : List Expr)
  | predicate (name : Comparison) (before : List Expr) (inner : Context) (behind : List Expr)
  | binary (op : Arithmetic) (before : List Expr) (inner : Context) (behind : List Expr)
  | unary (name : OperatorName) (inner : Context)

namespace Context

/-- The expression with `e` in the hole. -/
def plug : Context → Expr → Expr
  | .hole, e => e
  | .conditional before inner behind, e => .conditional (before ++ inner.plug e :: behind)
  | .predicate name before inner behind, e => .predicate name (before ++ inner.plug e :: behind)
  | .binary op before inner behind, e => .binary op (before ++ inner.plug e :: behind)
  | .unary name inner, e => .unary name (some (inner.plug e))

/-- The context with another context in its hole. -/
def comp : Context → Context → Context
  | .hole, d => d
  | .conditional before inner behind, d => .conditional before (inner.comp d) behind
  | .predicate name before inner behind, d => .predicate name before (inner.comp d) behind
  | .binary op before inner behind, d => .binary op before (inner.comp d) behind
  | .unary name inner, d => .unary name (inner.comp d)

theorem plug_comp (c d : Context) (e : Expr) : (c.comp d).plug e = c.plug (d.plug e) := by
  induction c with
  | hole => rfl
  | conditional before inner behind ih => simp only [comp, plug, ih]
  | predicate name before inner behind ih => simp only [comp, plug, ih]
  | binary op before inner behind ih => simp only [comp, plug, ih]
  | unary name inner ih => simp only [comp, plug, ih]

end Context

/-! ## Evaluations with a free part -/

/-- The same evaluation with some events before its own. -/
def Outcome.prepend {ε α : Type} (events : List Event) (x : Outcome ε α) : Outcome ε α :=
  ⟨events ++ x.events, x.result⟩

theorem Outcome.prepend_bind {ε α β : Type} (events : List Event) (x : Outcome ε α)
    (f : α → Outcome ε β) : x.prepend events >>= f = (x >>= f).prepend events := by
  cases hx : x.result with
  | ok a =>
      have hp : (x.prepend events).result = .ok a := hx
      rw [bind_of_ok hp, bind_of_ok hx]
      simp only [prepend, List.append_assoc]
  | error e =>
      have hp : (x.prepend events).result = .error e := hx
      rw [bind_of_error hp, bind_of_error hx]
      rfl

/-- `SingleUse channel f`: either `f` does not depend on its argument, or it
evaluates it once, after some events, and goes on with its value alone. -/
def SingleUse {β : Type} (channel : Channel) (f : Expr → Outcome EvalError β) : Prop :=
  (∃ y, ∀ a, f a = y) ∨
    ∃ (p : List Event) (k : Value → Outcome EvalError β), ∀ a,
      f a = (eval channel a >>= k).prepend p

namespace SingleUse

variable {channel : Channel} {α β : Type}

theorem const (y : Outcome EvalError β) : SingleUse channel fun _ => y :=
  Or.inl ⟨y, fun _ => rfl⟩

theorem hole : SingleUse channel (eval channel) := by
  refine Or.inr ⟨[], pure, ?_⟩
  intro a
  rw [bind_pure]
  rfl

theorem bind {f : Expr → Outcome EvalError α} (h : SingleUse channel f)
    (g : α → Outcome EvalError β) : SingleUse channel fun a => f a >>= g := by
  rcases h with ⟨y, hy⟩ | ⟨p, k, hk⟩
  · refine Or.inl ⟨y >>= g, ?_⟩
    intro a
    show f a >>= g = _
    rw [hy]
  · refine Or.inr ⟨p, fun v => k v >>= g, ?_⟩
    intro a
    show f a >>= g = _
    rw [hk, Outcome.prepend_bind, bind_assoc]

theorem map {f : Expr → Outcome EvalError α} (h : SingleUse channel f) (g : α → β) :
    SingleUse channel fun a => g <$> f a := by
  simpa only [map_eq_pure_bind] using h.bind fun x => pure (g x)

theorem behind (x : Outcome EvalError α) {f : α → Expr → Outcome EvalError β}
    (h : ∀ y, SingleUse channel (f y)) : SingleUse channel fun a => x >>= fun y => f y a := by
  cases hx : x.result with
  | error e =>
      refine Or.inl ⟨⟨x.events, .error e⟩, ?_⟩
      intro a
      exact Outcome.bind_of_error hx _
  | ok y =>
      rcases h y with ⟨z, hz⟩ | ⟨p, k, hk⟩
      · refine Or.inl ⟨z.prepend x.events, ?_⟩
        intro a
        show (x >>= fun y => f y a) = _
        rw [Outcome.bind_of_ok hx, hz]
        rfl
      · refine Or.inr ⟨x.events ++ p, k, ?_⟩
        intro a
        show (x >>= fun y => f y a) = _
        rw [Outcome.bind_of_ok hx, hk]
        simp only [Outcome.prepend, List.append_assoc]

end SingleUse

/-! ## Rows of parameters in two parts -/

section Rows

variable {channel : Channel} {op : Arithmetic}

theorem evalOperands_append (ps qs : List Expr) :
    evalOperands channel op (ps ++ qs) = (do
      let xs ← evalOperands channel op ps
      (xs ++ ·) <$> evalOperands channel op qs) := by
  induction ps with
  | nil => simp [evalOperands_nil]
  | cons p ps ih =>
      simp only [List.cons_append, evalOperands_cons, ih, map_eq_pure_bind, bind_assoc, pure_bind]

theorem evalAll_append (ps qs : List Expr) :
    evalAll channel (ps ++ qs) = (do
      let vs ← evalAll channel ps
      (vs ++ ·) <$> evalAll channel qs) := by
  induction ps with
  | nil => simp [evalAll_nil]
  | cons p ps ih =>
      simp only [List.cons_append, evalAll_cons, ih, map_eq_pure_bind, bind_assoc, pure_bind]

variable {f : Expr → Expr} (h : SingleUse channel fun a => eval channel (f a))

include h

theorem SingleUse.operands (before behind : List Expr) :
    SingleUse channel fun a => evalOperands channel op (before ++ f a :: behind) := by
  simp only [evalOperands_append, evalOperands_cons]
  exact .behind _ fun xs => (h.bind _).map _

theorem SingleUse.values (before behind : List Expr) :
    SingleUse channel fun a => evalAll channel (before ++ f a :: behind) := by
  simp only [evalAll_append, evalAll_cons]
  exact .behind _ fun vs => (h.bind _).map _

end Rows

/-! ## Node by node -/

section Nodes

variable {channel : Channel} {f : Expr → Expr}
  (h : SingleUse channel fun a => eval channel (f a))

include h

theorem SingleUse.binary (op : Arithmetic) (before behind : List Expr) :
    SingleUse channel fun a => eval channel (.binary op (before ++ f a :: behind)) := by
  simp only [eval_binary, List.length_append, List.length_cons]
  exact .behind _ fun _ => (h.operands before behind).bind _

theorem SingleUse.predicate (name : Comparison) (before behind : List Expr) :
    SingleUse channel fun a => eval channel (.predicate name (before ++ f a :: behind)) := by
  simp only [eval_predicate, List.length_append, List.length_cons]
  exact .behind _ fun _ => (h.values before behind).bind _

/-- Behind the test a conditional comes to one branch or to the other. -/
theorem SingleUse.conditional (before behind : List Expr) :
    SingleUse channel fun a => eval channel (.conditional (before ++ f a :: behind)) := by
  by_cases hcount : before.length + (behind.length + 1) = 3
  · match before, hcount with
    | [], hcount =>
        have hlen : behind.length = 2 := by simpa using hcount
        obtain ⟨yes, no, rfl⟩ := List.length_eq_two.mp hlen
        simp only [List.nil_append, eval_conditional]
        exact h.bind _
    | [test], hcount =>
        rw [List.length_singleton] at hcount
        have hlen : behind.length = 1 := by omega
        obtain ⟨no, rfl⟩ := List.length_eq_one_iff.mp hlen
        simp only [List.singleton_append, eval_conditional]
        refine .behind _ fun v => .behind _ fun b => ?_
        cases b with
        | true => exact h
        | false => exact .const _
    | [test, yes], hcount =>
        simp only [List.length_cons, List.length_nil] at hcount
        have hlen : behind.length = 0 := by omega
        obtain rfl := List.length_eq_zero_iff.mp hlen
        simp only [List.cons_append, List.nil_append, eval_conditional]
        refine .behind _ fun v => .behind _ fun b => ?_
        cases b with
        | true => exact .const _
        | false => exact h
    | _ :: _ :: _ :: _, hcount =>
        simp only [List.length_cons] at hcount
        omega
  · have hfail : ∀ a, eval channel (.conditional (before ++ f a :: behind)) =
        Outcome.fail (.arity "if" (.exactly 3 (before.length + (behind.length + 1)))) := by
      intro a
      have hlen : (before ++ f a :: behind).length = before.length + (behind.length + 1) := by
        rw [List.length_append, List.length_cons]
      rw [← hlen, eval_conditional_of_ne (hlen ▸ hcount)]
    simp only [hfail]
    exact .const _

theorem SingleUse.unary (name : OperatorName) :
    SingleUse channel fun a => eval channel (.unary name (some (f a))) := by
  by_cases hname : name = .print
  · subst hname
    simp only [eval_print]
    exact h.bind _
  · simp only [eval_unary_of_ne hname]
    exact .behind _ fun _ => h.bind _

end Nodes

theorem Context.singleUse (channel : Channel) (c : Context) :
    SingleUse channel fun a => eval channel (c.plug a) := by
  induction c with
  | hole => exact .hole
  | conditional before inner behind ih => exact ih.conditional before behind
  | predicate name before inner behind ih => exact ih.predicate name before behind
  | binary op before inner behind ih => exact ih.binary op before behind
  | unary name inner ih => exact ih.unary name

/-! ## Programs -/

/-- The check of the result never strikes: programs make values with a kind. -/
theorem evaluate_eq_eval (channel : Channel) (e : Expr) : evaluate channel e = eval channel e := by
  have hcheck : evaluate channel e = eval channel e >>= pure := by
    refine Outcome.bind_congr_of_ok ?_
    intro v hv
    obtain ⟨k, hk⟩ := native_of_eval hv
    rw [hk.validate_eq]
    rfl
  rw [hcheck, bind_pure]

namespace Context

/-- What is in the hole does not show at all. -/
def Ignores (channel : Channel) (c : Context) : Prop :=
  ∀ a b, evaluate channel (c.plug a) = evaluate channel (c.plug b)

/-- What is in the hole is evaluated once, behind the events `p`: if it fails,
the whole fails with its error, and if it has a value, the whole goes on as `k`
does with the value. -/
def UsesOnce (channel : Channel) (c : Context) : Prop :=
  ∃ (p : List Event) (k : Value → Outcome EvalError Value), ∀ a,
    (∀ error, (evaluate channel a).result = .error error →
      (evaluate channel (c.plug a)).result = .error error ∧
      (evaluate channel (c.plug a)).events = p ++ (evaluate channel a).events) ∧
    (∀ v, (evaluate channel a).result = .ok v →
      (evaluate channel (c.plug a)).result = (k v).result ∧
      (evaluate channel (c.plug a)).events = p ++ (evaluate channel a).events ++ (k v).events)

/-- The hole is in the branch that a conditional does not take, anywhere in the
program. -/
inductive Untaken (channel : Channel) : Context → Prop
  | yes {outer inner : Context} {test no : Expr} :
      (evaluate channel test).result = .ok (.boolean false) →
      Untaken channel (outer.comp (.conditional [test] inner [no]))
  | no {outer inner : Context} {test yes : Expr} :
      (evaluate channel test).result = .ok (.boolean true) →
      Untaken channel (outer.comp (.conditional [test, yes] inner []))

variable {channel : Channel} {c : Context}

theorem ignores_or_usesOnce (channel : Channel) (c : Context) :
    c.Ignores channel ∨ c.UsesOnce channel := by
  rcases c.singleUse channel with ⟨y, hy⟩ | ⟨p, k, hk⟩
  · refine Or.inl ?_
    intro a b
    rw [evaluate_eq_eval, evaluate_eq_eval]
    exact (hy a).trans (hy b).symm
  · refine Or.inr ⟨p, k, ?_⟩
    intro a
    have hplug : eval channel (c.plug a) = (eval channel a >>= k).prepend p := hk a
    simp only [evaluate_eq_eval, hplug]
    constructor
    · intro error h
      rw [Outcome.bind_of_error h]
      exact ⟨rfl, rfl⟩
    · intro v h
      rw [Outcome.bind_of_ok h]
      exact ⟨rfl, (List.append_assoc _ _ _).symm⟩

/-- Two expressions that fail differently tell the cases apart. -/
theorem UsesOnce.not_ignores (h : c.UsesOnce channel) : ¬ c.Ignores channel := by
  obtain ⟨p, k, hk⟩ := h
  intro hignores
  have hfail : ∀ text, readNumber text = .error (.notANumeral text) →
      (evaluate channel (c.plug (.number text))).result = .error (.notANumeral text) := by
    intro text htext
    refine ((hk (.number text)).1 _ ?_).1
    rw [evaluate_eq_eval, eval_number, htext]
    rfl
  have hboth := hfail "?" rfl
  rw [hignores _ (.number "!"), hfail "!" rfl] at hboth
  injection hboth with herror
  exact absurd herror (by decide)

/-- A program around a hole depends on the outcome of the hole only. -/
theorem evaluate_plug_congr {a b : Expr} (h : evaluate channel a = evaluate channel b) :
    evaluate channel (c.plug a) = evaluate channel (c.plug b) := by
  rcases c.singleUse channel with ⟨y, hy⟩ | ⟨p, k, hk⟩
  · rw [evaluate_eq_eval, evaluate_eq_eval]
    exact (hy a).trans (hy b).symm
  · rw [evaluate_eq_eval, evaluate_eq_eval] at h ⊢
    have ha : eval channel (c.plug a) = (eval channel a >>= k).prepend p := hk a
    have hb : eval channel (c.plug b) = (eval channel b >>= k).prepend p := hk b
    rw [ha, hb, h]

theorem Untaken.ignores (h : c.Untaken channel) : c.Ignores channel := by
  cases h with
  | @yes outer inner test no htest =>
      intro a b
      rw [plug_comp, plug_comp]
      refine evaluate_plug_congr ?_
      rw [evaluate_eq_eval] at htest
      simp only [evaluate_eq_eval, plug, List.singleton_append, eval_conditional,
        Outcome.bind_of_ok htest, asTest, Outcome.ofExcept_ok, pure_bind, Bool.false_eq_true,
        if_false]
  | @no outer inner test yes htest =>
      intro a b
      rw [plug_comp, plug_comp]
      refine evaluate_plug_congr ?_
      rw [evaluate_eq_eval] at htest
      simp only [evaluate_eq_eval, plug, List.cons_append, List.nil_append, eval_conditional,
        Outcome.bind_of_ok htest, asTest, Outcome.ofExcept_ok, pure_bind, if_true]

end Context

/-- **A program uses its parts once, and hides no error.**  For each context one
of two cases holds, and not both: what is in the hole does not show; or it is
evaluated once, behind events that are the same whatever it is, and the whole
ends with its error or goes on with its value.  In a branch that is not taken
the hole does not show. -/
theorem evaluate_context (channel : Channel) (c : Context) :
    (c.Ignores channel ∨ c.UsesOnce channel) ∧
    ¬ (c.Ignores channel ∧ c.UsesOnce channel) ∧
    (c.Untaken channel → c.Ignores channel) := by
  refine ⟨c.ignores_or_usesOnce channel, ?_, Context.Untaken.ignores⟩
  rintro ⟨hignores, huses⟩
  exact huses.not_ignores hignores

/-- The context `(+ 1 (if (= 7 7) 2 □))`. -/
def Context.untakenAddend : Context :=
  .binary .add [.number "1"]
    (.conditional [.predicate .equal [.number "7", .number "7"], .number "2"] .hole []) []

theorem evaluate_context_untakenAddend :
    Context.untakenAddend.Untaken .collect ∧ Context.untakenAddend.Ignores .collect := by
  have huntaken : Context.untakenAddend.Untaken .collect := by
    have hshape : Context.untakenAddend = (Context.binary .add [.number "1"] .hole []).comp
        (.conditional [.predicate .equal [.number "7", .number "7"], .number "2"] .hole []) := rfl
    rw [hshape]
    exact .no rfl
  exact ⟨huntaken, (evaluate_context .collect Context.untakenAddend).2.2 huntaken⟩

end CallLang
