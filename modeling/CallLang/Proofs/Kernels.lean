/-
# `CallLang.Proofs.Kernels` — the kernels that a session has made

A kernel is made deep inside an evaluation, and stays, whatever becomes of the
evaluation around it.  Which ones are made, and in which order, is said here by the
tree and by the values of its parts, in three steps.

| | |
| :-- | :-- |
| `Expr.evaluated` | the nodes that are evaluated at all, each behind its parameters |
| `Expr.kernels` | what one such node makes, once its parameters have values |
| `kernelHistory` | the two, for all the runs of a session one behind the other |

`eval_kernels` says that an evaluation makes just those kernels in just that order.
A session lists a kernel the first time and then no more, so that its lists are the
history without repetitions (`Session.tables_after`); they grow at the end, and
clearing leaves them alone.
-/
import CallLang.Proofs.Recency
import CallLang.Proofs.Rows

namespace CallLang

/-! ## The nodes that are evaluated -/

/-- Whether a value is a number. -/
def Value.isNumber (v : Value) : Bool :=
  match v.kind with
  | .ok .number => true
  | _ => false

namespace Expr

mutual

/-- The nodes of a tree that are evaluated, in the order in which their evaluations
end: what a node needs comes before it.  A node with a wrong number of parameters
comes to none of them, and a conditional comes to one branch. -/
def evaluated (channel : Channel) : Expr → List Expr
  | .binary op params => evaluatedWhile channel Value.isNumber params ++ [.binary op params]
  | .predicate name params =>
    (if 2 ≤ params.length then evaluatedWhile channel (fun _ => true) params else []) ++
      [.predicate name params]
  | .conditional [test, yes, no] =>
    evaluated channel test ++
      (match (evaluate channel test).result with
        | .ok (.boolean true) => evaluated channel yes
        | .ok (.boolean false) => evaluated channel no
        | _ => []) ++
      [.conditional [test, yes, no]]
  | .unary name (some param) =>
    (if name.arity.check 1 = none then evaluated channel param else []) ++
      [.unary name (some param)]
  | e => [e]

/-- The nodes of a row of trees that are evaluated, from left to right.  The row is
given up behind the first tree that fails, or whose value is not to go on with. -/
def evaluatedWhile (channel : Channel) (goesOn : Value → Bool) : List Expr → List Expr
  | [] => []
  | param :: params =>
    evaluated channel param ++
      match (evaluate channel param).result with
      | .ok v => if goesOn v then evaluatedWhile channel goesOn params else []
      | .error _ => []

end

/-! ## What a node makes -/

/-- Whether a tree ends in a number. -/
def endsInNumber (channel : Channel) (e : Expr) : Bool :=
  match (evaluate channel e).result with
  | .ok (.number _) => true
  | _ => false

end Expr

/-- How many pairs of neighbours are compared as numbers.  The row is given up behind
the first pair that cannot be compared. -/
def numberPairs (name : Comparison) : List Value → Nat
  | v :: w :: vs =>
    (if v.isNumber && w.isNumber then 1 else 0) +
      if (compareValues name v w).result.isOk then numberPairs name (w :: vs) else 0
  | _ => 0

/-- The kernels that a node itself asks for: arithmetic asks for its own once it has
operands and all of them are numbers, and a predicate for each pair of numbers that it
comes to compare. -/
def Expr.kernels (channel : Channel) : Expr → List Event
  | .binary op params =>
    if params ≠ [] ∧ params.all (endsInNumber channel) then [.arithmeticKernel op] else []
  | .predicate name params =>
    match (evalAll channel params).result with
    | .ok vs => List.replicate (numberPairs name vs) (.comparisonKernel name)
    | .error _ => []
  | _ => []

/-! ## Kernels among the events -/

namespace Outcome

variable {ε α β : Type} {x : Outcome ε α} {f : α → Outcome ε β}

/-- The kernels that an evaluation asks for, in order. -/
def kernels (x : Outcome ε α) : List Event :=
  x.events.filter fun event => !event.isPrint

@[simp] theorem kernels_pure (a : α) : (pure a : Outcome ε α).kernels = [] := rfl

@[simp] theorem kernels_fail (e : ε) : (fail e : Outcome ε α).kernels = [] := rfl

@[simp] theorem kernels_ofExcept (r : Except ε α) : (ofExcept r).kernels = [] := rfl

@[simp] theorem kernels_map (g : α → β) : (g <$> x).kernels = x.kernels := rfl

theorem kernels_bind_of_ok {a : α} (h : x.result = .ok a) :
    (x >>= f).kernels = x.kernels ++ (f a).kernels := by
  rw [bind_of_ok h]
  exact List.filter_append x.events (f a).events

theorem kernels_bind_of_error {e : ε} (h : x.result = .error e) :
    (x >>= f).kernels = x.kernels := by
  rw [bind_of_error h]
  rfl

theorem kernels_bind_silent (hf : ∀ a, x.result = .ok a → (f a).kernels = []) :
    (x >>= f).kernels = x.kernels := by
  cases h : x.result with
  | ok a => rw [kernels_bind_of_ok h, hf a h, List.append_nil]
  | error e => exact kernels_bind_of_error h

end Outcome

variable {channel : Channel}

theorem emit_kernels (v : Value) : (channel.emit v).kernels = [] := by
  cases channel with
  | collect => rfl
  | write =>
      rw [Channel.emit]
      exact Outcome.kernels_bind_silent fun _ _ => rfl

/-! ## Comparisons -/

section Comparisons

variable {name : Comparison} {v w : Value} {vs ws : List Value}

theorem compareValues_kernels {k l : Kind} (hv : v.Native k) (hw : w.Native l) :
    (compareValues name v w).kernels =
      List.replicate (if v.isNumber && w.isNumber then 1 else 0) (.comparisonKernel name) := by
  cases hv with
  | number x => cases hw <;> rfl
  | string s => cases hw <;> rfl
  | boolean a =>
      cases hw with
      | boolean b => cases name <;> rfl
      | number y => rfl
      | string t => rfl

theorem comparePairs_kernels (hv : ∃ k, v.Native k) (hws : ∀ w ∈ ws, ∃ l, w.Native l) :
    (comparePairs name v ws).kernels =
      List.replicate (numberPairs name (v :: ws)) (.comparisonKernel name) := by
  induction ws generalizing v with
  | nil => rfl
  | cons w ws ih =>
      obtain ⟨hw, hrest⟩ := List.forall_mem_cons.mp hws
      obtain ⟨⟨k, hk⟩, l, hl⟩ := And.intro hv hw
      rw [comparePairs, numberPairs, List.replicate_add, ← compareValues_kernels hk hl]
      cases h : (compareValues name v w).result with
      | ok b =>
          rw [Outcome.kernels_bind_of_ok h, Outcome.kernels_map, ih hw hrest]
          rfl
      | error err =>
          rw [Outcome.kernels_bind_of_error h]
          exact (List.append_nil _).symm

theorem compareRow_kernels (hvs : ∀ v ∈ vs, ∃ k, v.Native k) :
    (compareRow name vs).kernels =
      List.replicate (numberPairs name vs) (.comparisonKernel name) := by
  cases vs with
  | nil => rfl
  | cons v vs =>
      obtain ⟨hv, hrest⟩ := List.forall_mem_cons.mp hvs
      exact comparePairs_kernels hv hrest

/-- A row comes to compare two numbers: neighbours that are numbers, with nothing
before them that cannot be compared. -/
def ComparesNumbers (name : Comparison) (vs : List Value) : Prop :=
  ∃ front v w rest, vs = front ++ v :: w :: rest ∧ v.isNumber ∧ w.isNumber ∧
    ∃ bs, (compareRow name (front ++ [v])).result = .ok bs

theorem compareRow_cons_cons_eq_ok_iff :
    (∃ bs, (compareRow name (v :: w :: vs)).result = .ok bs) ↔
      (compareValues name v w).result.isOk ∧ ∃ bs, (compareRow name (w :: vs)).result = .ok bs := by
  simp only [compareRow, comparePairs, Outcome.result_bind_eq_ok_iff, Outcome.result_map_eq_ok_iff]
  constructor
  · rintro ⟨_, b, hb, bs, hbs, rfl⟩
    exact ⟨by rw [hb]; rfl, bs, hbs⟩
  · rintro ⟨hok, bs, hbs⟩
    cases hb : (compareValues name v w).result with
    | ok b => exact ⟨_, b, rfl, bs, hbs, rfl⟩
    | error err => rw [hb] at hok; cases hok

theorem comparesNumbers_cons_cons :
    ComparesNumbers name (v :: w :: vs) ↔
      v.isNumber ∧ w.isNumber ∨
        (compareValues name v w).result.isOk ∧ ComparesNumbers name (w :: vs) := by
  -- A row up to `x` starts with `w` if all of it does.
  have front_cons : ∀ {front rest : List Value} {x y : Value},
      w :: vs = front ++ x :: y :: rest → ∃ tail, front ++ [x] = w :: tail := by
    intro front rest x y h
    cases front with
    | nil => exact ⟨[], by rw [(List.cons.inj h).1]; rfl⟩
    | cons a front => exact ⟨front ++ [x], by rw [(List.cons.inj h).1]; rfl⟩
  constructor
  · rintro ⟨front, x, y, rest, hvs, hx, hy, hrow⟩
    cases front with
    | nil =>
        obtain ⟨rfl, htail⟩ := List.cons.inj hvs
        obtain ⟨rfl, -⟩ := List.cons.inj htail
        exact Or.inl ⟨hx, hy⟩
    | cons a front =>
        obtain ⟨rfl, htail⟩ := List.cons.inj hvs
        obtain ⟨tail, hfront⟩ := front_cons htail
        rw [List.cons_append, hfront, compareRow_cons_cons_eq_ok_iff, ← hfront] at hrow
        exact Or.inr ⟨hrow.1, front, x, y, rest, htail, hx, hy, hrow.2⟩
  · rintro (⟨hv, hw⟩ | ⟨hok, front, x, y, rest, htail, hx, hy, hrow⟩)
    · exact ⟨[], v, w, vs, rfl, hv, hw, [], rfl⟩
    · obtain ⟨tail, hfront⟩ := front_cons htail
      refine ⟨v :: front, x, y, rest, by rw [htail]; rfl, hx, hy, ?_⟩
      rw [List.cons_append, hfront, compareRow_cons_cons_eq_ok_iff, ← hfront]
      exact ⟨hok, hrow⟩

/-- The pairs that are counted are those that the row comes to compare. -/
theorem numberPairs_pos_iff : 0 < numberPairs name vs ↔ ComparesNumbers name vs := by
  have short : ∀ {us : List Value}, us.length < 2 → ¬ ComparesNumbers name us := by
    rintro us hlen ⟨front, v, w, rest, rfl, -⟩
    simp only [List.length_append, List.length_cons] at hlen
    omega
  induction vs with
  | nil => exact iff_of_false (Nat.lt_irrefl 0) (short (by decide))
  | cons v vs ih =>
      cases vs with
      | nil => exact iff_of_false (Nat.lt_irrefl 0) (short Nat.one_lt_two)
      | cons w vs =>
          have htail : 0 < numberPairs name (w :: vs) ↔ ComparesNumbers name (w :: vs) := ih
          rw [comparesNumbers_cons_cons, ← htail, numberPairs, Nat.add_pos_iff_pos_or_pos,
            ← Bool.and_eq_true]
          refine or_congr ?_ ?_
          · split <;> simp [*]
          · split <;> simp [*]

end Comparisons

/-! ## The kernels of an evaluation -/

namespace Expr

/-- The kernels that the evaluated nodes of a tree ask for. -/
def kernelRow (channel : Channel) (e : Expr) : List Event :=
  (e.evaluated channel).flatMap (kernels channel)

end Expr

section Rows

variable {ps : List Expr} (h : ∀ p ∈ ps, (eval channel p).kernels = p.kernelRow channel)

include h

theorem evalOperands_kernels (op : Arithmetic) :
    (evalOperands channel op ps).kernels =
      (Expr.evaluatedWhile channel Value.isNumber ps).flatMap (Expr.kernels channel) := by
  induction ps with
  | nil => rfl
  | cons p ps ih =>
      obtain ⟨hp, hps⟩ := List.forall_mem_cons.mp h
      rw [evalOperands_cons, Expr.evaluatedWhile, evaluate_eq_eval, List.flatMap_append,
        ← Expr.kernelRow, ← hp]
      cases hres : (eval channel p).result with
      | error err => exact (Outcome.kernels_bind_of_error hres).trans (List.append_nil _).symm
      | ok v =>
          obtain ⟨k, hk⟩ := native_of_eval hres
          rw [Outcome.kernels_bind_of_ok hres]
          cases hk with
          | number x => exact congrArg ((eval channel p).kernels ++ ·) (ih hps)
          | boolean b => rfl
          | string s => rfl

theorem evalAll_kernels :
    (evalAll channel ps).kernels =
      (Expr.evaluatedWhile channel (fun _ => true) ps).flatMap (Expr.kernels channel) := by
  induction ps with
  | nil => rfl
  | cons p ps ih =>
      obtain ⟨hp, hps⟩ := List.forall_mem_cons.mp h
      rw [evalAll_cons, Expr.evaluatedWhile, evaluate_eq_eval, List.flatMap_append,
        ← Expr.kernelRow, ← hp]
      cases hres : (eval channel p).result with
      | error err => exact (Outcome.kernels_bind_of_error hres).trans (List.append_nil _).symm
      | ok v =>
          rw [Outcome.kernels_bind_of_ok hres]
          exact congrArg ((eval channel p).kernels ++ ·) (ih hps)

end Rows

theorem Expr.endsInNumber_iff {e : Expr} :
    e.endsInNumber channel ↔ ∃ x, (evaluate channel e).result = .ok (.number x) := by
  unfold endsInNumber
  split
  next x h => exact iff_of_true rfl ⟨x, h⟩
  next h => exact iff_of_false Bool.false_ne_true fun ⟨x, hx⟩ => h x hx

theorem Expr.all_endsInNumber_iff {params : List Expr} :
    params.all (Expr.endsInNumber channel) ↔
      ∀ p ∈ params, ∃ x, (evaluate channel p).result = .ok (.number x) := by
  simp only [List.all_eq_true, Expr.endsInNumber_iff]

theorem evalOperands_isOk_iff {op : Arithmetic} {ps : List Expr} :
    (∃ xs, (evalOperands channel op ps).result = .ok xs) ↔
      ∀ p ∈ ps, ∃ x, (evaluate channel p).result = .ok (.number x) := by
  simp only [evaluate_eq_eval]
  induction ps with
  | nil => exact iff_of_true ⟨[], rfl⟩ (List.forall_mem_nil _)
  | cons p ps ih =>
      simp only [List.forall_mem_cons, ← ih, evalOperands_cons, Outcome.result_bind_eq_ok_iff,
        Outcome.result_map_eq_ok_iff, Outcome.result_ofExcept]
      constructor
      · rintro ⟨_, v, hv, x, hx, xs, hxs, rfl⟩
        obtain ⟨k, hk⟩ := native_of_eval hv
        obtain rfl := hk.asNumber_eq_ok_iff.mp hx
        exact ⟨⟨x, hv⟩, xs, hxs⟩
      · rintro ⟨⟨x, hx⟩, xs, hxs⟩
        exact ⟨_, .number x, hx, x, rfl, xs, hxs, rfl⟩

theorem arithmeticResult_kernels (op : Arithmetic) (x : Scalar) (xs : List Scalar) :
    (arithmeticResult op (x :: xs)).kernels = [.arithmeticKernel op] := by
  have hrecord : (Outcome.record (.arithmeticKernel op) : Outcome EvalError Unit).result = .ok () :=
    rfl
  rw [arithmeticResult, Outcome.kernels_bind_of_ok hrecord,
    Outcome.kernels_bind_silent fun _ _ => rfl]
  rfl

theorem eval_binary_kernels {op : Arithmetic} {params : List Expr}
    (h : ∀ p ∈ params, (eval channel p).kernels = p.kernelRow channel) :
    (eval channel (.binary op params)).kernels = (Expr.binary op params).kernelRow channel := by
  by_cases hnil : params = []
  · subst hnil
    rfl
  · have hall : (∃ xs, (evalOperands channel op params).result = .ok xs) ↔
        params ≠ [] ∧ params.all (Expr.endsInNumber channel) := by
      rw [evalOperands_isOk_iff, Expr.all_endsInNumber_iff]
      exact (and_iff_right hnil).symm
    rw [eval_binary_of_ne_nil hnil, Expr.kernelRow, Expr.evaluated, List.flatMap_append,
      List.flatMap_singleton, ← evalOperands_kernels h op, Expr.kernels]
    cases hres : (evalOperands channel op params).result with
    | error err =>
        have hnot : ¬ (params ≠ [] ∧ params.all (Expr.endsInNumber channel)) := by
          rw [← hall, hres]
          exact fun ⟨_, hxs⟩ => nomatch hxs
        rw [Outcome.kernels_bind_of_error hres, if_neg hnot, List.append_nil]
    | ok xs =>
        rw [Outcome.kernels_bind_of_ok hres, if_pos (hall.mp ⟨xs, hres⟩)]
        cases xs with
        | nil =>
            have hlen := (evalOperands_eq_ok_iff.mp hres).length_eq
            exact absurd (List.eq_nil_of_length_eq_zero hlen) hnil
        | cons x xs => rw [arithmeticResult_kernels]

theorem eval_predicate_kernels {name : Comparison} {params : List Expr}
    (h : ∀ p ∈ params, (eval channel p).kernels = p.kernelRow channel) :
    (eval channel (.predicate name params)).kernels =
      (Expr.predicate name params).kernelRow channel := by
  rw [Expr.kernelRow, Expr.evaluated, List.flatMap_append, List.flatMap_singleton]
  by_cases hcount : 2 ≤ params.length
  · rw [eval_predicate_of_le hcount, if_pos hcount, ← evalAll_kernels h, Expr.kernels]
    cases hres : (evalAll channel params).result with
    | error err => rw [Outcome.kernels_bind_of_error hres, List.append_nil]
    | ok vs =>
        have hnative : ∀ v ∈ vs, ∃ k, v.Native k := by
          intro v hv
          obtain ⟨p, -, hp⟩ := forall₂_mem_left (evalAll_eq_ok_iff.mp hres).flip v hv
          exact native_of_eval hp
        rw [Outcome.kernels_bind_of_ok hres, Outcome.kernels_bind_silent fun _ _ => rfl,
          compareRow_kernels hnative]
  · have hfew : ∀ vs, (evalAll channel params).result = .ok vs → numberPairs name vs = 0 := by
      intro vs hvs
      have hlen := (evalAll_eq_ok_iff.mp hvs).length_eq
      match vs with
      | [] | [_] => rfl
      | _ :: _ :: _ => simp only [List.length_cons] at hlen; omega
    have hnode : (Expr.predicate name params).kernels channel = [] := by
      rw [Expr.kernels]
      split
      next vs hvs => rw [hfew vs hvs, List.replicate_zero]
      next => rfl
    rw [if_neg hcount, hnode, eval_predicate]
    cases hcheck : checkArity name.label (OperatorName.comparison name).arity params.length with
    | ok u => exact absurd (Arity.admits_unbounded_iff.mp (checkArity_eq_ok_iff.mp hcheck)) hcount
    | error err => rfl

theorem Expr.evaluated_conditional_of_ne {params : List Expr} (h : params.length ≠ 3) :
    (Expr.conditional params).evaluated channel = [.conditional params] := by
  match params, h with
  | [], _ | [_], _ | [_, _], _ | _ :: _ :: _ :: _ :: _, _ => rfl
  | [_, _, _], h => exact absurd rfl h

theorem eval_conditional_kernels {params : List Expr}
    (h : ∀ p ∈ params, (eval channel p).kernels = p.kernelRow channel) :
    (eval channel (.conditional params)).kernels =
      (Expr.conditional params).kernelRow channel := by
  by_cases hlen : params.length = 3
  · obtain ⟨test, yes, no, rfl⟩ := List.length_eq_three.mp hlen
    have htest := h test (by simp)
    have hyes := h yes (by simp)
    have hno := h no (by simp)
    rw [Expr.kernelRow, Expr.evaluated, evaluate_eq_eval, List.append_assoc, List.flatMap_append,
      ← Expr.kernelRow, ← htest, eval_conditional]
    cases hres : (eval channel test).result with
    | error err => exact (Outcome.kernels_bind_of_error hres).trans (List.append_nil _).symm
    | ok v =>
        rw [Outcome.kernels_bind_of_ok hres]
        refine congrArg ((eval channel test).kernels ++ ·) ?_
        obtain ⟨k, hk⟩ := native_of_eval hres
        cases hk with
        | number x => rfl
        | string s => rfl
        | boolean b =>
            cases b with
            | true => simp [asTest, hyes, Expr.kernelRow, Expr.kernels]
            | false => simp [asTest, hno, Expr.kernelRow, Expr.kernels]
  · rw [eval_conditional_of_ne hlen, Expr.kernelRow, Expr.evaluated_conditional_of_ne hlen]
    rfl

theorem eval_unary_kernels {name : OperatorName} {p : Expr}
    (h : (eval channel p).kernels = p.kernelRow channel) :
    (eval channel (.unary name (some p))).kernels =
      (Expr.unary name (some p)).kernelRow channel := by
  have hnode : (Expr.unary name (some p)).kernelRow channel =
      if name.arity.check 1 = none then p.kernelRow channel else [] := by
    rw [Expr.kernelRow, Expr.evaluated, List.flatMap_append]
    split
    · exact List.append_nil _
    · rfl
  rw [hnode, ← h]
  cases name with
  | print =>
      rw [eval_print]
      exact Outcome.kernels_bind_silent fun v _ =>
        (Outcome.kernels_bind_silent fun _ _ => rfl).trans (emit_kernels v)
  | comparison name => rfl
  | arithmetic op =>
      have hcount : checkArity (OperatorName.arithmetic op).label
          (OperatorName.arithmetic op).arity 1 = .ok () := rfl
      rw [eval_unary_of_ne (by simp), hcount, Outcome.ofExcept_ok, pure_bind]
      exact Outcome.kernels_bind_silent fun _ _ => rfl

/-- **The kernels of an evaluation.**  An evaluation asks for the kernels that the nodes
ask for which are evaluated in it, in the order in which these are done. -/
theorem eval_kernels (channel : Channel) (e : Expr) :
    (eval channel e).kernels = e.kernelRow channel := by
  induction e using Expr.tree_induction with
  | number text =>
      rw [eval_number]
      exact Outcome.kernels_bind_silent fun _ _ => rfl
  | string text => rfl
  | conditional params ih => exact eval_conditional_kernels ih
  | predicate name params ih => exact eval_predicate_kernels ih
  | binary op params ih => exact eval_binary_kernels ih
  | unary name param ih =>
      cases param with
      | none =>
          rw [eval_unary_none]
          exact Outcome.kernels_bind_silent fun _ _ => rfl
      | some p => exact eval_unary_kernels (ih p rfl)
  | foreign typeName => rfl

/-! ## Lists of names that grow -/

section Names

variable {α : Type} [BEq α] [LawfulBEq α]

theorem insertNew_eraseDups (xs : List α) (x : α) :
    insertNew xs.eraseDups x = (xs ++ [x]).eraseDups := by
  rw [List.eraseDups_append, insertNew]
  by_cases hx : x ∈ xs
  · simp [hx, List.removeAll]
  · simp [hx, List.removeAll, List.eraseDups_cons]

/-- Inserting names one by one, each unless it is there already, leaves all of them in
the order of their first insertion. -/
theorem foldl_insertNew (xs ys : List α) :
    ys.foldl insertNew xs.eraseDups = (xs ++ ys).eraseDups := by
  induction ys generalizing xs with
  | nil => rw [List.foldl_nil, List.append_nil]
  | cons y ys ih =>
      rw [List.foldl_cons, insertNew_eraseDups, ih, List.append_assoc, List.singleton_append]

theorem eraseDups_prefix (xs ys : List α) : xs.eraseDups <+: (xs ++ ys).eraseDups := by
  rw [List.eraseDups_append]
  exact List.prefix_append _ _

end Names

/-! ## The lists of a session -/

/-- The arithmetic whose kernel an event asks for. -/
def Event.arithmetic? : Event → Option Arithmetic
  | .arithmeticKernel op => some op
  | _ => none

/-- The comparison whose kernel an event asks for. -/
def Event.comparison? : Event → Option Comparison
  | .comparisonKernel name => some name
  | _ => none

/-- The kernels that a step asks for: those of its program, if it runs one. -/
def Step.kernelRow : Step → List Event
  | .run channel source =>
    match parseSource source with
    | .ok e => e.kernelRow channel
    | .error _ => []
  | .clear => []
  | .kernels => []

/-- The kernels that a row of steps asks for, in order. -/
def kernelHistory (history : List Step) : List Event :=
  history.flatMap Step.kernelRow

theorem run_kernels (channel : Channel) (source : String) :
    (run channel source).kernels = (Step.run channel source).kernelRow := by
  cases hparse : parseSource source with
  | error error =>
      rw [run_of_parse_error hparse, Step.kernelRow, hparse]
      rfl
  | ok e =>
      rw [run_of_parse_ok hparse, Step.kernelRow, hparse]
      exact eval_kernels channel e

theorem Outcome.filterMap_kernels {ε α γ : Type} {g : Event → Option γ}
    (hprinted : ∀ v, g (.printed v) = none) (hwrote : ∀ text, g (.wrote text) = none)
    (x : Outcome ε α) :
    x.events.filterMap g = x.kernels.filterMap g := by
  rw [kernels, List.filterMap_filter]
  congr 1
  funext event
  cases event with
  | printed v => exact hprinted v
  | wrote text => exact hwrote text
  | arithmeticKernel | comparisonKernel => rfl

namespace Session

variable {s : Session}

theorem foldl_note_of_makes (hmakes : s.makesKernels) (events : List Event) :
    (events.foldl note s).makesKernels ∧
    (events.foldl note s).arithmetic =
      (events.filterMap Event.arithmetic?).foldl insertNew s.arithmetic ∧
    (events.foldl note s).comparisons =
      (events.filterMap Event.comparison?).foldl insertNew s.comparisons := by
  simp only [List.filterMap_eq_flatMap_toList]
  induction events generalizing s with
  | nil => exact ⟨hmakes, rfl, rfl⟩
  | cons event events ih =>
      have hnote : (s.note event).makesKernels ∧
          (s.note event).arithmetic = event.arithmetic?.toList.foldl insertNew s.arithmetic ∧
          (s.note event).comparisons = event.comparison?.toList.foldl insertNew s.comparisons := by
        cases event <;> simp [note, hmakes, Event.arithmetic?, Event.comparison?]
      obtain ⟨hstill, harithmetic, hcomparisons⟩ := ih hnote.1
      rw [List.foldl_cons, harithmetic, hcomparisons, hnote.2.1, hnote.2.2, List.flatMap_cons,
        List.flatMap_cons, List.foldl_append, List.foldl_append]
      exact ⟨hstill, rfl, rfl⟩

theorem foldl_note_of_not_makes (hmakes : s.makesKernels = false) (events : List Event) :
    events.foldl note s = s := by
  induction events with
  | nil => rfl
  | cons event events ih =>
      have hnote : s.note event = s := by simp [note, hmakes]
      rw [List.foldl_cons, hnote, ih]

theorem Sound.run_eq (h : s.Sound) (channel : Channel) (source : String) :
    ∃ programs, (s.run channel source).2 =
      (CallLang.run channel source).events.foldl note { s with programs } := by
  refine ⟨(s.programs.request parseSource source).2, ?_⟩
  rw [← h.run_answer channel source]
  rfl

theorem exists_after_run (settings : Settings) (history : List Step) (channel : Channel)
    (source : String) :
    ∃ programs, ((start settings).after history).after [.run channel source] =
      (CallLang.run channel source).events.foldl note
        { (start settings).after history with programs } := by
  have hsound : ((start settings).after history).Sound := (recent_after settings history).1.sound
  exact hsound.run_eq channel source

theorem filterMap_kernelRow {γ : Type} {g : Event → Option γ}
    (hprinted : ∀ v, g (.printed v) = none) (hwrote : ∀ text, g (.wrote text) = none)
    (channel : Channel) (source : String) :
    (CallLang.run channel source).events.filterMap g =
      (Step.run channel source).kernelRow.filterMap g := by
  rw [← run_kernels, Outcome.filterMap_kernels hprinted hwrote]

/-- The lists of a session that makes kernels are those that its steps have asked for,
each listed the first time. -/
theorem tables_after {settings : Settings} (hmakes : settings.makesKernels) (history : List Step) :
    ((start settings).after history).makesKernels ∧
    ((start settings).after history).arithmetic =
      ((kernelHistory history).filterMap Event.arithmetic?).eraseDups ∧
    ((start settings).after history).comparisons =
      ((kernelHistory history).filterMap Event.comparison?).eraseDups := by
  induction history using List.reverseRecOn with
  | nil => exact ⟨hmakes, rfl, rfl⟩
  | append_singleton history step ih =>
      obtain ⟨hstill, harithmetic, hcomparisons⟩ := ih
      have hhistory :
          kernelHistory (history ++ [step]) = kernelHistory history ++ step.kernelRow := by
        simp [kernelHistory]
      rw [after_append, hhistory, List.filterMap_append, List.filterMap_append]
      cases step with
      | run channel source =>
          obtain ⟨programs, hafter⟩ := exists_after_run settings history channel source
          have hcalls := filterMap_kernelRow (g := Event.arithmetic?) (fun _ => rfl) (fun _ => rfl)
            channel source
          have hpairs := filterMap_kernelRow (g := Event.comparison?) (fun _ => rfl) (fun _ => rfl)
            channel source
          rw [hafter, ← foldl_insertNew, ← foldl_insertNew, ← harithmetic, ← hcomparisons, ← hcalls,
            ← hpairs]
          exact foldl_note_of_makes (s := { (start settings).after history with programs }) hstill _
      | clear => simpa [Step.kernelRow] using ⟨hstill, harithmetic, hcomparisons⟩
      | kernels => simpa [Step.kernelRow] using ⟨hstill, harithmetic, hcomparisons⟩

theorem after_of_not_makes {settings : Settings} (hmakes : settings.makesKernels = false)
    (history : List Step) :
    ((start settings).after history).makesKernels = false ∧
    ((start settings).after history).arithmetic = [] ∧
    ((start settings).after history).comparisons = [] := by
  induction history using List.reverseRecOn with
  | nil => exact ⟨hmakes, rfl, rfl⟩
  | append_singleton history step ih =>
      rw [after_append]
      cases step with
      | run channel source =>
          obtain ⟨programs, hafter⟩ := exists_after_run settings history channel source
          rw [hafter,
            foldl_note_of_not_makes (s := { (start settings).after history with programs }) ih.1]
          exact ih
      | clear => exact ih
      | kernels => exact ih

end Session

/-! ## The names in the lists -/

/-- `Ran history channel e`: some step runs the program `e` on this channel. -/
def Ran (history : List Step) (channel : Channel) (e : Expr) : Prop :=
  ∃ source, .run channel source ∈ history ∧ parseSource source = .ok e

theorem mem_kernelHistory_iff {history : List Step} {event : Event} :
    event ∈ kernelHistory history ↔
      ∃ channel e, Ran history channel e ∧
        ∃ node ∈ e.evaluated channel, event ∈ node.kernels channel := by
  simp only [kernelHistory, List.mem_flatMap]
  constructor
  · rintro ⟨step, hstep, hevent⟩
    cases step with
    | run channel source =>
        simp only [Step.kernelRow] at hevent
        cases hparse : parseSource source with
        | error error => simp [hparse] at hevent
        | ok e =>
            rw [hparse] at hevent
            exact ⟨channel, e, ⟨source, hstep, hparse⟩, List.mem_flatMap.mp hevent⟩
    | clear => exact absurd hevent List.not_mem_nil
    | kernels => exact absurd hevent List.not_mem_nil
  · rintro ⟨channel, e, ⟨source, hstep, hparse⟩, hevent⟩
    refine ⟨_, hstep, ?_⟩
    simp only [Step.kernelRow, hparse]
    exact List.mem_flatMap.mpr hevent

namespace Expr

theorem arithmeticKernel_mem_kernels_iff {node : Expr} {op : Arithmetic} :
    .arithmeticKernel op ∈ node.kernels channel ↔
      ∃ params, node = .binary op params ∧ params ≠ [] ∧
        ∀ p ∈ params, ∃ x, (evaluate channel p).result = .ok (.number x) := by
  cases node with
  | binary op' params =>
      rw [kernels]
      constructor
      · intro hmem
        split at hmem
        next hall =>
          cases List.mem_singleton.mp hmem
          exact ⟨params, rfl, hall.1, all_endsInNumber_iff.mp hall.2⟩
        next => exact absurd hmem List.not_mem_nil
      · rintro ⟨_, heq, hne, hall⟩
        cases heq
        rw [if_pos ⟨hne, all_endsInNumber_iff.mpr hall⟩]
        exact List.mem_singleton_self _
  | predicate name params =>
      simp only [kernels]
      split <;> simp
  | _ => simp [kernels]

theorem comparisonKernel_mem_kernels_iff {node : Expr} {name : Comparison} :
    .comparisonKernel name ∈ node.kernels channel ↔
      ∃ params vs, node = .predicate name params ∧ EndIn channel params vs ∧
        ComparesNumbers name vs := by
  cases node with
  | predicate name' params =>
      simp only [kernels]
      constructor
      · intro hmem
        split at hmem
        next vs hvs =>
          obtain ⟨hcount, heq⟩ := List.mem_replicate.mp hmem
          cases heq
          have hend : EndIn channel params vs := by
            simpa only [EndIn, evaluate_eq_eval] using evalAll_eq_ok_iff.mp hvs
          exact ⟨params, vs, rfl, hend, numberPairs_pos_iff.mp (Nat.pos_of_ne_zero hcount)⟩
        next => exact absurd hmem List.not_mem_nil
      · rintro ⟨_, vs, heq, hend, hcompares⟩
        cases heq
        rw [evalAll_of_endIn hend]
        have hcount := Nat.pos_iff_ne_zero.mp (numberPairs_pos_iff.mpr hcompares)
        exact List.mem_replicate.mpr ⟨hcount, rfl⟩
  | binary op params =>
      simp only [kernels]
      split <;> simp
  | _ => simp [kernels]

end Expr

theorem mem_arithmetic_iff {history : List Step} {op : Arithmetic} :
    op ∈ (kernelHistory history).filterMap Event.arithmetic? ↔
      .arithmeticKernel op ∈ kernelHistory history := by
  rw [List.mem_filterMap]
  constructor
  · rintro ⟨event, hevent, hop⟩
    cases event with
    | arithmeticKernel op' => exact Option.some.inj hop ▸ hevent
    | _ => cases hop
  · exact fun h => ⟨_, h, rfl⟩

theorem mem_comparison_iff {history : List Step} {name : Comparison} :
    name ∈ (kernelHistory history).filterMap Event.comparison? ↔
      .comparisonKernel name ∈ kernelHistory history := by
  rw [List.mem_filterMap]
  constructor
  · rintro ⟨event, hevent, hname⟩
    cases event with
    | comparisonKernel name' => exact Option.some.inj hname ▸ hevent
    | _ => cases hname
  · exact fun h => ⟨_, h, rfl⟩

/-- **The kernels of a session.**  Let `s` be the session behind some steps, and `s'`
the one behind some more.  The lists of `s` are what a look at its kernels answers.
Where kernels are made, neither list has a name twice, and those of `s'` go on from
those of `s`.  An arithmetic name is in the list exactly if some run so far has
evaluated a call of it that has operands, all of them numbers; a comparison exactly if
some run has evaluated a call of it, with values for all its parameters, which came to
compare two numbers.  The names stand in the order in which they were first asked for.
Where kernels are not made, both lists are empty. -/
theorem session_kernels (settings : Settings) (before later : List Step) :
    let s := (Session.start settings).after before
    let s' := (Session.start settings).after (before ++ later)
    (∀ rest, ((Session.start settings).steps (before ++ .kernels :: rest))[before.length]? =
      some (.kernels s.arithmetic s.comparisons, s)) ∧
    (settings.makesKernels →
      (s.arithmetic.Nodup ∧ s.comparisons.Nodup) ∧
      (s.arithmetic <+: s'.arithmetic ∧ s.comparisons <+: s'.comparisons) ∧
      (∀ op, op ∈ s.arithmetic ↔
        ∃ channel e params, Ran before channel e ∧ .binary op params ∈ e.evaluated channel ∧
          params ≠ [] ∧ ∀ p ∈ params, ∃ x, (evaluate channel p).result = .ok (.number x)) ∧
      (∀ name, name ∈ s.comparisons ↔
        ∃ channel e params vs, Ran before channel e ∧ .predicate name params ∈ e.evaluated channel ∧
          EndIn channel params vs ∧ ComparesNumbers name vs) ∧
      s.arithmetic = ((kernelHistory before).filterMap Event.arithmetic?).eraseDups ∧
      s.comparisons = ((kernelHistory before).filterMap Event.comparison?).eraseDups) ∧
    (settings.makesKernels = false → s.arithmetic = [] ∧ s.comparisons = []) := by
  intro s s'
  refine ⟨fun rest => Session.getElem?_steps _ before .kernels rest, fun hmakes => ?_,
    fun hmakes => ?_⟩
  · obtain ⟨-, harithmetic, hcomparisons⟩ := Session.tables_after hmakes before
    obtain ⟨-, harithmetic', hcomparisons'⟩ := Session.tables_after hmakes (before ++ later)
    have hhistory : kernelHistory (before ++ later) = kernelHistory before ++ kernelHistory later :=
      List.flatMap_append
    rw [hhistory, List.filterMap_append] at harithmetic' hcomparisons'
    refine ⟨⟨?_, ?_⟩, ⟨?_, ?_⟩, ?_, ?_, harithmetic, hcomparisons⟩
    · exact harithmetic ▸ nodup_eraseDups _
    · exact hcomparisons ▸ nodup_eraseDups _
    · exact harithmetic ▸ harithmetic' ▸ eraseDups_prefix _ _
    · exact hcomparisons ▸ hcomparisons' ▸ eraseDups_prefix _ _
    · intro op
      rw [harithmetic, List.mem_eraseDups, mem_arithmetic_iff, mem_kernelHistory_iff]
      constructor
      · rintro ⟨channel, e, hran, node, hnode, hmem⟩
        obtain ⟨params, rfl, hne, hall⟩ := Expr.arithmeticKernel_mem_kernels_iff.mp hmem
        exact ⟨channel, e, params, hran, hnode, hne, hall⟩
      · rintro ⟨channel, e, params, hran, hnode, hne, hall⟩
        exact ⟨channel, e, hran, _, hnode,
          Expr.arithmeticKernel_mem_kernels_iff.mpr ⟨params, rfl, hne, hall⟩⟩
    · intro name
      rw [hcomparisons, List.mem_eraseDups, mem_comparison_iff, mem_kernelHistory_iff]
      constructor
      · rintro ⟨channel, e, hran, node, hnode, hmem⟩
        obtain ⟨params, vs, rfl, hend, hcompares⟩ := Expr.comparisonKernel_mem_kernels_iff.mp hmem
        exact ⟨channel, e, params, vs, hran, hnode, hend, hcompares⟩
      · rintro ⟨channel, e, params, vs, hran, hnode, hend, hcompares⟩
        exact ⟨channel, e, hran, _, hnode,
          Expr.comparisonKernel_mem_kernels_iff.mpr ⟨params, vs, rfl, hend, hcompares⟩⟩
  · exact (Session.after_of_not_makes hmakes before).2

/-- A quotient that is refused has made its kernel, and the branch that is not taken has
made none.  Clearing changes nothing, and a session without kernels lists none. -/
theorem session_kernels_refusedQuotient :
    let history := [Step.run .collect "(if (< 1 2) (/ 7 0) (* 1 2))", .clear]
    (run .collect "(if (< 1 2) (/ 7 0) (* 1 2))").result = .error (.eval .divisionByZero) ∧
    ((Session.start ⟨1, true⟩).after history).arithmetic = [.divide] ∧
    (∃ channel e params, Ran history channel e ∧ .binary .divide params ∈ e.evaluated channel ∧
      params ≠ [] ∧ ∀ p ∈ params, ∃ x, (evaluate channel p).result = .ok (.number x)) ∧
    ((Session.start ⟨1, true⟩).after history).comparisons <+: [.less, .equal] ∧
    ((Session.start ⟨1, false⟩).after history).arithmetic = [] := by
  intro history
  let later := [Step.run .write "(= 1 2)"]
  have hlist : ((Session.start ⟨1, true⟩).after history).arithmetic = [.divide] := rfl
  have hlater : ((Session.start ⟨1, true⟩).after (history ++ later)).comparisons =
      [.less, .equal] := rfl
  obtain ⟨-, ⟨-, hprefix⟩, hcalls, -⟩ := (session_kernels ⟨1, true⟩ history later).2.1 rfl
  refine ⟨rfl, hlist, (hcalls .divide).mp ?_, ?_, ?_⟩
  · rw [hlist]
    exact List.mem_singleton_self _
  · rw [← hlater]
    exact hprefix
  · exact ((session_kernels ⟨1, false⟩ history []).2.2 rfl).1

end CallLang
