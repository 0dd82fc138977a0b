/-
# `CallLang.Proofs.PrintOrder` — what is printed, and in which order

The prints of a tree stand in an order before anything is evaluated: from left
to right, and an inner print before the one around it (`Expr.printNodes`).  An
evaluation comes to them in that order.  It may leave some out, since a branch
is not taken or an error ends the whole; it makes none twice and none that is
not there, and each prints the value of its operand.

`Draws` says this of an evaluation and of a row of prints, with one thing more:
an evaluation that ends in a value has left none out, where nothing can be left
out but by an error.  It is kept when one evaluation goes on behind another
(`Draws.bind`), the rows of prints put one behind the other.
-/
import CallLang.Proofs.Contexts

namespace CallLang

/-! ## The prints of a tree -/

namespace Expr

mutual

/-- The prints of a tree that have an operand: from left to right, and an inner
one before the one around it. -/
def printNodes : Expr → List Expr
  | .conditional params => printNodesAll params
  | .predicate _ params => printNodesAll params
  | .binary _ params => printNodesAll params
  | .unary name (some param) =>
    printNodes param ++ if name = .print then [.unary .print (some param)] else []
  | _ => []

/-- The prints of a row of trees. -/
def printNodesAll : List Expr → List Expr
  | [] => []
  | param :: params => printNodes param ++ printNodesAll params

end

/-- No branch of the tree can be left out. -/
def Unconditional (e : Expr) : Prop :=
  ∀ params, ¬ (Expr.conditional params).Within e

theorem Unconditional.child {e p : Expr} (h : e.Unconditional) (hp : p ∈ e.children) :
    p.Unconditional :=
  fun params hin => h params (.child hp hin)

theorem Unconditional.of_children {e : Expr} (h : ∀ params, e ≠ .conditional params)
    (hchildren : ∀ p ∈ e.children, p.Unconditional) : e.Unconditional := by
  intro params hin
  cases hin with
  | self => exact h params rfl
  | child hp hin => exact hchildren _ hp params hin

theorem not_unconditional (params : List Expr) : ¬ (Expr.conditional params).Unconditional :=
  fun h => h params .self

end Expr

/-! ## The values that events print -/

/-- `Shown channel events vs`: apart from starting kernels, the events print the
values `vs`, in order. -/
inductive Shown : Channel → List Event → List Value → Prop
  | nil (channel : Channel) : Shown channel [] []
  | arithmeticKernel {channel : Channel} {events : List Event} {vs : List Value} (op : Arithmetic) :
      Shown channel events vs → Shown channel (.arithmeticKernel op :: events) vs
  | comparisonKernel {channel : Channel} {events : List Event} {vs : List Value}
      (name : Comparison) :
      Shown channel events vs → Shown channel (.comparisonKernel name :: events) vs
  | printed {events : List Event} {vs : List Value} (v : Value) :
      Shown .collect events vs → Shown .collect (.printed v :: events) (v :: vs)
  | wrote {events : List Event} {vs : List Value} {v : Value} {text : String} :
      v.text = .ok text → Shown .write events vs →
      Shown .write (.wrote (text ++ "\n") :: events) (v :: vs)

/-- What a caller sees of prints: the values themselves, or one line for each. -/
def Channel.Shows {ε α : Type} (channel : Channel) (x : Outcome ε α) (vs : List Value) : Prop :=
  match channel with
  | .collect => x.printed = vs
  | .write => ∃ texts, List.Forall₂ (fun v text => v.text = .ok text) vs texts ∧
      x.written = String.join (texts.map (· ++ "\n"))

variable {channel : Channel}

theorem Shown.append {events later : List Event} {vs ws : List Value}
    (h : Shown channel events vs) (h' : Shown channel later ws) :
    Shown channel (events ++ later) (vs ++ ws) := by
  induction h with
  | nil channel => exact h'
  | arithmeticKernel op _ ih => exact .arithmeticKernel op (ih h')
  | comparisonKernel name _ ih => exact .comparisonKernel name (ih h')
  | printed v _ ih => exact .printed v (ih h')
  | wrote htext _ ih => exact .wrote htext (ih h')

theorem Shown.shows {ε α : Type} {x : Outcome ε α} {vs : List Value}
    (h : Shown channel x.events vs) : channel.Shows x vs := by
  obtain ⟨events, result⟩ := x
  simp only at h
  induction h with
  | nil channel =>
      cases channel with
      | collect => rfl
      | write => exact ⟨[], .nil, rfl⟩
  | @arithmeticKernel channel _ _ _ _ ih | @comparisonKernel channel _ _ _ _ ih =>
      cases channel <;> exact ih
  | printed v _ ih => exact congrArg (v :: ·) ih
  | @wrote _ _ _ text htext _ ih =>
      obtain ⟨texts, htexts, hwritten⟩ := ih
      exact ⟨text :: texts, .cons htext htexts, by
        simpa [Outcome.written, String.join_cons] using congrArg ((text ++ "\n") ++ ·) hwritten⟩

/-! ## Evaluations that draw from a row of prints -/

/-- `PrintsAs channel node v`: the node is a print, and `v` is the value of its
operand. -/
def PrintsAs (channel : Channel) (node : Expr) (v : Value) : Prop :=
  ∃ p, node = .unary .print (some p) ∧ (eval channel p).result = .ok v

/-- `Draws channel nodes all x`: the evaluation `x` makes some of the prints
`nodes`, in their order and each once; under the condition `all` it makes all of
them if it ends in a value. -/
def Draws {α : Type} (channel : Channel) (nodes : List Expr) (all : Prop)
    (x : Outcome EvalError α) : Prop :=
  ∃ chosen vs, chosen.Sublist nodes ∧ List.Forall₂ (PrintsAs channel) chosen vs ∧
    Shown channel x.events vs ∧ (all → ∀ a, x.result = .ok a → chosen = nodes)

namespace Draws

variable {α β : Type} {nodes later : List Expr} {all : Prop}

theorem nothing {x : Outcome EvalError α} (h : Shown channel x.events []) :
    Draws channel [] all x :=
  ⟨[], [], .slnil, .nil, h, fun _ _ _ => rfl⟩

theorem pure (a : α) : Draws channel [] all (pure a) :=
  .nothing (.nil channel)

theorem ofExcept (r : Except EvalError α) : Draws channel [] all (.ofExcept r) :=
  .nothing (.nil channel)

theorem fail (err : EvalError) : Draws channel nodes all (.fail err : Outcome EvalError α) :=
  ⟨[], [], List.nil_sublist _, .nil, .nil channel, fun _ _ h => nomatch h⟩

/-- One evaluation after another draws from both rows. -/
theorem bind {x : Outcome EvalError α} {f : α → Outcome EvalError β}
    (hx : Draws channel nodes all x)
    (hf : ∀ a, x.result = .ok a → Draws channel later all (f a)) :
    Draws channel (nodes ++ later) all (x >>= f) := by
  obtain ⟨chosen, vs, hsub, hvs, hshown, hall⟩ := hx
  cases hres : x.result with
  | ok a =>
      obtain ⟨chosen', vs', hsub', hvs', hshown', hall'⟩ := hf a hres
      rw [Outcome.bind_of_ok hres]
      refine ⟨chosen ++ chosen', vs ++ vs', hsub.append hsub', ?_, hshown.append hshown', ?_⟩
      · exact List.rel_append hvs hvs'
      · intro h b hb
        rw [hall h a hres, hall' h b hb]
  | error err =>
      rw [Outcome.bind_of_error hres]
      exact ⟨chosen, vs, hsub.trans (List.sublist_append_left _ _), hvs, hshown,
        fun _ _ h => nomatch h⟩

theorem behind {x : Outcome EvalError α} {f : α → Outcome EvalError β}
    (hx : Draws channel [] all x)
    (hf : ∀ a, x.result = .ok a → Draws channel nodes all (f a)) :
    Draws channel nodes all (x >>= f) :=
  hx.bind hf

theorem bind_silent {x : Outcome EvalError α} {f : α → Outcome EvalError β}
    (hx : Draws channel nodes all x) (hf : ∀ a, Draws channel [] all (f a)) :
    Draws channel nodes all (x >>= f) := by
  have h := hx.bind fun a _ => hf a
  rwa [List.append_nil] at h

theorem map {x : Outcome EvalError α} (hx : Draws channel nodes all x) (f : α → β) :
    Draws channel nodes all (f <$> x) := by
  rw [map_eq_pure_bind]
  exact hx.bind_silent fun _ => .pure _

theorem mono {all' : Prop} {x : Outcome EvalError α} (hx : Draws channel nodes all x)
    (h : all' → all) : Draws channel nodes all' x := by
  obtain ⟨chosen, vs, hsub, hvs, hshown, hall⟩ := hx
  exact ⟨chosen, vs, hsub, hvs, hshown, fun h' => hall (h h')⟩

theorem widen {x : Outcome EvalError α} (hx : Draws channel nodes all x)
    (h : nodes.Sublist later) (hnot : ¬ all) : Draws channel later all x := by
  obtain ⟨chosen, vs, hsub, hvs, hshown, -⟩ := hx
  exact ⟨chosen, vs, hsub.trans h, hvs, hshown, fun hall => absurd hall hnot⟩

end Draws

/-! ## Parts that print nothing -/

section Silent

variable {all : Prop}

theorem compareValues_draws (name : Comparison) (v w : Value) :
    Draws channel [] all (compareValues name v w) := by
  unfold compareValues
  refine (Draws.ofExcept _).behind fun k _ => (Draws.ofExcept _).behind fun l _ => ?_
  split
  · exact .fail _
  · split
    · split
      · exact .pure _
      · split
        · exact .pure _
        · exact .fail _
    · exact .pure _
    · have hkernel : Draws channel [] all (.record (.comparisonKernel name)) :=
        .nothing (.comparisonKernel name (.nil channel))
      refine hkernel.behind fun _ _ => ?_
      exact (Draws.ofExcept _).behind fun x _ => (Draws.ofExcept _).behind fun y _ => .pure _

theorem comparePairs_draws (name : Comparison) (v : Value) (ws : List Value) :
    Draws channel [] all (comparePairs name v ws) := by
  induction ws generalizing v with
  | nil => exact .pure _
  | cons w ws ih => exact (compareValues_draws name v w).behind fun b _ => (ih w).map _

theorem compareRow_draws (name : Comparison) (vs : List Value) :
    Draws channel [] all (compareRow name vs) := by
  cases vs with
  | nil => exact .pure _
  | cons v vs => exact comparePairs_draws name v vs

theorem arithmeticResult_draws (op : Arithmetic) (xs : List Scalar) :
    Draws channel [] all (arithmeticResult op xs) := by
  cases xs with
  | nil => exact .fail _
  | cons x xs =>
      have hkernel : Draws channel [] all (.record (.arithmeticKernel op)) :=
        .nothing (.arithmeticKernel op (.nil channel))
      exact hkernel.behind fun _ _ => (Draws.ofExcept _).behind fun y _ => .pure _

end Silent

/-! ## Rows of parameters -/

section Rows

variable {all : Prop} {ps : List Expr}
  (h : ∀ p ∈ ps, Draws channel p.printNodes all (eval channel p))

include h

theorem evalOperands_draws (op : Arithmetic) :
    Draws channel (Expr.printNodesAll ps) all (evalOperands channel op ps) := by
  induction ps with
  | nil => exact .pure _
  | cons p ps ih =>
      obtain ⟨hp, hps⟩ := List.forall_mem_cons.mp h
      rw [evalOperands_cons]
      exact hp.bind fun v _ => (Draws.ofExcept _).behind fun x _ => (ih hps).map _

theorem evalAll_draws : Draws channel (Expr.printNodesAll ps) all (evalAll channel ps) := by
  induction ps with
  | nil => exact .pure _
  | cons p ps ih =>
      obtain ⟨hp, hps⟩ := List.forall_mem_cons.mp h
      rw [evalAll_cons]
      exact hp.bind fun v _ => (ih hps).map _

end Rows

/-! ## Trees -/

theorem emit_draws {all : Prop} {p : Expr} {v : Value} (h : (eval channel p).result = .ok v) :
    Draws channel [.unary .print (some p)] all (channel.emit v) := by
  have hnode : List.Forall₂ (PrintsAs channel) [.unary .print (some p)] [v] :=
    .cons ⟨p, rfl, h⟩ .nil
  refine ⟨_, [v], List.Sublist.refl _, hnode, ?_, fun _ _ _ => rfl⟩
  cases channel with
  | collect => exact .printed v (.nil _)
  | write =>
      obtain ⟨k, hk⟩ := native_of_eval h
      cases hk with
      | number x => exact .wrote (v := .number x) rfl (.nil _)
      | boolean b => exact .wrote (v := .boolean b) rfl (.nil _)
      | string s => exact .wrote (v := .string s) rfl (.nil _)

/-- An evaluation draws from the prints of its tree. -/
theorem eval_draws (channel : Channel) (e : Expr) :
    Draws channel e.printNodes e.Unconditional (eval channel e) := by
  induction e using Expr.tree_induction with
  | number text =>
      rw [eval_number]
      exact (Draws.ofExcept _).behind fun x _ => .pure _
  | string text => exact .pure _
  | conditional params ih =>
      have hnot := Expr.not_unconditional params
      have hchild : ∀ p ∈ params, Draws channel p.printNodes (Expr.conditional params).Unconditional
          (eval channel p) := fun p hp => (ih p hp).mono fun h => absurd h hnot
      by_cases hlen : params.length = 3
      · obtain ⟨test, yes, no, rfl⟩ := List.length_eq_three.mp hlen
        rw [eval_conditional]
        refine (hchild test (by simp)).bind fun v _ => (Draws.ofExcept _).behind fun b _ => ?_
        cases b with
        | true =>
            refine (hchild yes (by simp)).widen ?_ hnot
            simp [Expr.printNodesAll]
        | false =>
            refine (hchild no (by simp)).widen ?_ hnot
            simp [Expr.printNodesAll]
      · rw [eval_conditional_of_ne hlen]
        exact .fail _
  | predicate name params ih =>
      have hchild : ∀ p ∈ params, Draws channel p.printNodes
          (Expr.predicate name params).Unconditional (eval channel p) :=
        fun p hp => (ih p hp).mono fun h => h.child hp
      have hvals := evalAll_draws hchild
      rw [eval_predicate]
      refine (Draws.ofExcept _).behind fun _ _ => hvals.bind_silent fun vs => ?_
      exact (compareRow_draws name vs).bind_silent fun bs => .pure _
  | binary op params ih =>
      have hchild : ∀ p ∈ params, Draws channel p.printNodes (Expr.binary op params).Unconditional
          (eval channel p) := fun p hp => (ih p hp).mono fun h => h.child hp
      have hops := evalOperands_draws hchild op
      rw [eval_binary]
      refine (Draws.ofExcept _).behind fun _ _ => hops.bind_silent fun xs => ?_
      exact arithmeticResult_draws op xs
  | unary name param ih =>
      cases param with
      | none =>
          rw [eval_unary_none]
          exact (Draws.ofExcept _).behind fun _ _ => .fail _
      | some p =>
          have hp := (ih p rfl).mono fun h : (Expr.unary name (some p)).Unconditional =>
            h.child (List.mem_singleton.mpr rfl)
          by_cases hname : name = .print
          · subst hname
            rw [eval_print]
            exact hp.bind fun v hv => (emit_draws hv).bind_silent fun _ => .pure v
          · rw [eval_unary_of_ne hname]
            refine (Draws.ofExcept _).behind fun _ _ => hp.bind fun v _ => .fail _
  | foreign typeName => exact .fail _

/-- What is handed over to be printed is the value of some operand. -/
theorem exists_eval_of_mem_printed {e : Expr} {v : Value}
    (h : v ∈ (eval .collect e).printed) : ∃ p, (eval .collect p).result = .ok v := by
  obtain ⟨chosen, vs, -, hvs, hshown, -⟩ := eval_draws .collect e
  obtain rfl : (eval .collect e).printed = vs := hshown.shows
  obtain ⟨node, -, p, -, hp⟩ := forall₂_mem_left hvs.flip v h
  exact ⟨p, hp⟩

/-- **Prints come in the order of the tree.**  The values that are printed,
whether the evaluation ends in a value or in an error, are the values of the
operands of some prints of the tree, in their order and each print once.  A tree
without conditionals that ends in a value has made all of its prints. -/
theorem evaluate_print_order (channel : Channel) (e : Expr) :
    ∃ chosen vs, chosen.Sublist e.printNodes ∧
      List.Forall₂ (fun node v => ∃ p, node = .unary .print (some p) ∧
        (evaluate channel p).result = .ok v) chosen vs ∧
      channel.Shows (evaluate channel e) vs ∧
      ((∀ params, ¬ (Expr.conditional params).Within e) →
        ∀ v, (evaluate channel e).result = .ok v → chosen = e.printNodes) := by
  obtain ⟨chosen, vs, hsub, hvs, hshown, hall⟩ := eval_draws channel e
  refine ⟨chosen, vs, hsub, ?_, ?_, ?_⟩
  · simp only [evaluate_eq_eval]
    exact hvs
  · rw [evaluate_eq_eval]
    exact hshown.shows
  · rw [evaluate_eq_eval]
    exact hall

/-- The program `(print (+ (print 1) 2))`. -/
def Expr.printsTwice : Expr :=
  .unary .print (some (.binary .add [.unary .print (some (.number "1")), .number "2"]))

theorem evaluate_print_order_printsTwice :
    (∀ params, ¬ (Expr.conditional params).Within .printsTwice) ∧
      (evaluate .collect .printsTwice).result = .ok (.number (.int64 3)) ∧
      List.Forall₂ (fun node v => ∃ p, node = Expr.unary .print (some p) ∧
          (evaluate .collect p).result = .ok v)
        [Expr.unary .print (some (.number "1")), Expr.printsTwice]
        (evaluate .collect .printsTwice).printed := by
  have hnumber : ∀ text, (Expr.number text).Unconditional :=
    fun text => .of_children (fun _ h => nomatch h) (List.forall_mem_nil _)
  have hone : (Expr.unary .print (some (.number "1"))).Unconditional :=
    .of_children (fun _ h => nomatch h) (List.forall_mem_singleton.mpr (hnumber "1"))
  have hsum : (Expr.binary .add [.unary .print (some (.number "1")), .number "2"]).Unconditional :=
    .of_children (fun _ h => nomatch h)
      (List.forall_mem_cons.mpr ⟨hone, List.forall_mem_singleton.mpr (hnumber "2")⟩)
  have hall : Expr.printsTwice.Unconditional :=
    .of_children (fun _ h => nomatch h) (List.forall_mem_singleton.mpr hsum)
  have hresult : (evaluate .collect .printsTwice).result = .ok (.number (.int64 3)) := rfl
  obtain ⟨chosen, vs, -, hvs, hshows, hwhole⟩ := evaluate_print_order .collect .printsTwice
  obtain rfl := hwhole hall _ hresult
  obtain rfl : (evaluate .collect .printsTwice).printed = vs := hshows
  exact ⟨hall, hresult, hvs⟩

end CallLang
