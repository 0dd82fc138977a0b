/-
# `CallLang.Proofs.Exact` — arithmetic on unbounded integers, and how far it is followed

A tree of integer literals, sums, differences, products and prints has a value
in the unbounded integers (`Expr.exactValue`), and a row of steps that lead to
it: each result of a fold on its way, and each print (`Expr.exactSteps`).  The
evaluator follows that row as long as its integers fit 64 bits
(`eval_follows`).  It ends in the exact value when all of them fit; at the first
that does not, it stops with an overflow under the name of that fold.

Sums that leave the range and come back are refused like the others, since the
steps count and not the total.
-/
import Mathlib.Data.List.TakeWhile
import CallLang.Proofs.Evaluation
import CallLang.Proofs.Wrap

namespace CallLang

/-! ## Exact evaluation -/

/-- An operation on unbounded integers; division has none and is not used. -/
def Arithmetic.onIntegers : Arithmetic → Int → Int → Int
  | .add, a, b => a + b
  | .subtract, a, b => a - b
  | .multiply, a, b => a * b
  | .divide, a, _ => a

/-- The left fold of an operation over a row of integers. -/
def Arithmetic.foldRow (op : Arithmetic) : List Int → Int
  | [] => 0
  | a :: bs => bs.foldl op.onIntegers a

/-- A step of an exact evaluation: a fold arrives at an integer, or an integer
is printed. -/
inductive ExactStep
  | folded (op : Arithmetic) (n : Int)
  | printed (n : Int)
  deriving DecidableEq, Repr

namespace ExactStep

/-- A result of a fold fits when it is a 64-bit integer; a print always does. -/
def Fits : ExactStep → Prop
  | folded _ n => IntType.int64.Holds n
  | printed _ => True

instance : DecidablePred Fits
  | folded _ n => inferInstanceAs (Decidable (IntType.int64.Holds n))
  | printed _ => inferInstanceAs (Decidable True)

/-- The integers that a row of steps prints. -/
def prints (steps : List ExactStep) : List Int :=
  steps.filterMap fun
    | printed n => some n
    | folded _ _ => none

/-- The steps of a left fold, from the result so far. -/
def ofFold (op : Arithmetic) (acc : Int) : List Int → List ExactStep
  | [] => []
  | b :: bs => folded op (op.onIntegers acc b) :: ofFold op (op.onIntegers acc b) bs

/-- The steps of a left fold over a row. -/
def ofRow (op : Arithmetic) : List Int → List ExactStep
  | [] => []
  | a :: bs => ofFold op a bs

@[simp] theorem prints_append (steps later : List ExactStep) :
    prints (steps ++ later) = prints steps ++ prints later :=
  List.filterMap_append

end ExactStep

namespace Expr

mutual

/-- The value of a tree in the unbounded integers. -/
def exactValue : Expr → Int
  | .number text => ((Numeral.ofText? text).map Numeral.toInt).getD 0
  | .binary op params => op.foldRow (exactValues params)
  | .unary _ (some param) => exactValue param
  | _ => 0

/-- The values of a row of trees. -/
def exactValues : List Expr → List Int
  | [] => []
  | param :: params => exactValue param :: exactValues params

end

mutual

/-- The steps of an exact evaluation: those of the operands from left to right,
then those of the node itself. -/
def exactSteps : Expr → List ExactStep
  | .binary op params => exactStepsAll params ++ ExactStep.ofRow op (exactValues params)
  | .unary _ (some param) => exactSteps param ++ [.printed (exactValue param)]
  | _ => []

/-- The steps of a row of trees. -/
def exactStepsAll : List Expr → List ExactStep
  | [] => []
  | param :: params => exactSteps param ++ exactStepsAll params

end

/-- A tree of integer literals that can be read, of sums, differences and
products of at least one operand, and of prints. -/
inductive IsInteger : Expr → Prop
  | number {text : String} {m : Numeral} {x : Scalar} :
      Numeral.ofText? text = some m → m.isInteger → readNumber text = .ok x →
      IsInteger (.number text)
  | binary {op : Arithmetic} {params : List Expr} :
      op ≠ .divide → params ≠ [] → (∀ p ∈ params, IsInteger p) → IsInteger (.binary op params)
  | print {e : Expr} : IsInteger e → IsInteger (.unary .print (some e))

theorem IsInteger.pair {op : Arithmetic} {d e : Expr} (hop : op ≠ .divide) (hd : d.IsInteger)
    (he : e.IsInteger) : (Expr.binary op [d, e]).IsInteger :=
  .binary hop (List.cons_ne_nil _ _)
    (List.forall_mem_cons.mpr ⟨hd, List.forall_mem_singleton.mpr he⟩)

end Expr

/-! ## 64-bit integers among the values -/

/-- `x.IsInt64 n`: the number is the 64-bit integer `n`. -/
def Scalar.IsInt64 (x : Scalar) (n : Int) : Prop :=
  ∃ a : Fixed .int64, a.val = n ∧ x = .int .int64 a

/-- `v.IsInt64 n`: the value is the 64-bit integer `n`. -/
def Value.IsInt64 (v : Value) (n : Int) : Prop :=
  ∃ x : Scalar, x.IsInt64 n ∧ v = .number x

theorem isInt64_of_readNumber {text : String} {m : Numeral} {x : Scalar}
    (hm : Numeral.ofText? text = some m) (hint : m.isInteger) (h : readNumber text = .ok x) :
    x.IsInt64 m.toInt := by
  simp only [readNumber, hm, hint, if_true] at h
  split at h
  · cases h
  · split at h
    next hfits =>
        cases h
        exact ⟨.wrap .int64 m.toInt, IntType.wrap_eq_self hfits, rfl⟩
    next => cases h

theorem Arithmetic.exact?_of_ne_divide {op : Arithmetic} (h : op ≠ .divide) :
    op.exact? = some op.onIntegers := by
  cases op with
  | divide => exact absurd rfl h
  | _ => rfl

/-- A step on 64-bit integers gives the exact result where that fits, and nothing
where it does not. -/
theorem step?_int64 {op : Arithmetic} (hop : op ≠ .divide) (a b : Fixed .int64) :
    (Scalar.int .int64 a).step? op (.int .int64 b) =
      if h : IntType.int64.Holds (op.onIntegers a.val b.val) then some (.int .int64 ⟨_, h⟩)
      else none :=
  Scalar.step?_int (Arithmetic.exact?_of_ne_divide hop) (by decide) (by decide) rfl a b

/-! ## Following exact steps -/

/-- `Shows channel events ns`: apart from starting kernels, the events print the
integers `ns`, in order. -/
inductive Shows : Channel → List Event → List Int → Prop
  | nil (channel : Channel) : Shows channel [] []
  | kernel {channel : Channel} {events : List Event} {ns : List Int} (op : Arithmetic) :
      Shows channel events ns → Shows channel (.arithmeticKernel op :: events) ns
  | printed {events : List Event} {v : Value} {n : Int} {ns : List Int} :
      v.IsInt64 n → Shows .collect events ns → Shows .collect (.printed v :: events) (n :: ns)
  | wrote {events : List Event} {ns : List Int} (n : Int) :
      Shows .write events ns → Shows .write (.wrote (integerText n ++ "\n") :: events) (n :: ns)

variable {channel : Channel}

theorem Shows.append {events later : List Event} {ns ms : List Int} (h : Shows channel events ns)
    (h' : Shows channel later ms) : Shows channel (events ++ later) (ns ++ ms) := by
  induction h with
  | nil channel => exact h'
  | kernel op _ ih => exact .kernel op (ih h')
  | printed hv _ ih => exact .printed hv (ih h')
  | wrote n _ ih => exact .wrote n (ih h')

/-- `Follows channel steps P x`: when all steps fit, the evaluation `x` ends in a
value with the property `P`; else it ends in an overflow at the first step that
does not fit.  It prints what the steps up to there print. -/
inductive Follows {α : Type} (channel : Channel) (steps : List ExactStep) (P : α → Prop)
    (x : Outcome EvalError α) : Prop
  | value {a : α} : (∀ s ∈ steps, s.Fits) → x.result = .ok a → P a →
      Shows channel x.events (ExactStep.prints steps) → Follows channel steps P x
  | overflow {before after : List ExactStep} {op : Arithmetic} {n : Int} :
      steps = before ++ .folded op n :: after → (∀ s ∈ before, s.Fits) →
      ¬ IntType.int64.Holds n → x.result = .error (.integerOverflow op) →
      Shows channel x.events (ExactStep.prints before) → Follows channel steps P x

namespace Follows

variable {α β : Type} {steps later : List ExactStep} {P : α → Prop} {Q : β → Prop}

theorem pure {a : α} (h : P a) : Follows channel [] P (pure a) :=
  .value (List.forall_mem_nil _) rfl h (.nil channel)

theorem kernel (op : Arithmetic) :
    Follows channel [] (fun _ => True) (Outcome.record (.arithmeticKernel op)) :=
  .value (List.forall_mem_nil _) rfl trivial (.kernel op (.nil channel))

theorem bind {x : Outcome EvalError α} {f : α → Outcome EvalError β}
    (hx : Follows channel steps P x) (hf : ∀ a, P a → Follows channel later Q (f a)) :
    Follows channel (steps ++ later) Q (x >>= f) := by
  cases hx with
  | @value a hfits hok ha hshows =>
      rw [Outcome.bind_of_ok hok]
      cases hf a ha with
      | value hfits' hok' hb hshows' =>
          refine .value (List.forall_mem_append.mpr ⟨hfits, hfits'⟩) hok' hb ?_
          rw [ExactStep.prints_append]
          exact hshows.append hshows'
      | @overflow before after op n hsplit hfits' hn herr hshows' =>
          have hsplit' : steps ++ later = (steps ++ before) ++ .folded op n :: after := by
            rw [hsplit, List.append_assoc]
          refine .overflow hsplit' (List.forall_mem_append.mpr ⟨hfits, hfits'⟩) hn herr ?_
          rw [ExactStep.prints_append]
          exact hshows.append hshows'
  | @overflow before after op n hsplit hfits hn herr hshows =>
      rw [Outcome.bind_of_error herr]
      have hsplit' : steps ++ later = before ++ .folded op n :: (after ++ later) := by
        rw [hsplit, List.append_assoc, List.cons_append]
      exact .overflow hsplit' hfits hn rfl hshows

theorem bind_last {x : Outcome EvalError α} {f : α → Outcome EvalError β}
    (hx : Follows channel steps P x) (hf : ∀ a, P a → Follows channel [] Q (f a)) :
    Follows channel steps Q (x >>= f) := by
  have h := hx.bind hf
  rwa [List.append_nil] at h

theorem map {x : Outcome EvalError α} {f : α → β} (hx : Follows channel steps P x)
    (hf : ∀ a, P a → Q (f a)) : Follows channel steps Q (f <$> x) := by
  rw [map_eq_pure_bind]
  exact hx.bind_last fun a ha => .pure (hf a ha)

theorem folded {x : Outcome EvalError α} {op : Arithmetic} {n : Int}
    (hn : IntType.int64.Holds n) (hx : Follows channel steps P x) :
    Follows channel (.folded op n :: steps) P x := by
  have hstep : Follows channel [.folded op n] (fun _ : Unit => True) (Pure.pure ()) :=
    .value (List.forall_mem_singleton.mpr hn) rfl trivial (.nil channel)
  exact hstep.bind fun _ _ => hx

end Follows

/-! ## The evaluator follows exact evaluation -/

/-- A fold of 64-bit integers, step by step. -/
theorem foldOperands_follows {op : Arithmetic} (hop : op ≠ .divide) {x : Scalar} {a : Int}
    (hx : x.IsInt64 a) {ys : List Scalar} {bs : List Int}
    (hys : List.Forall₂ Scalar.IsInt64 ys bs) :
    Follows channel (ExactStep.ofFold op a bs) (·.IsInt64 (bs.foldl op.onIntegers a))
      (.ofExcept (foldOperands op x ys)) := by
  induction hys generalizing x a with
  | nil => exact .pure hx
  | @cons y b ys bs hy _ ih =>
      obtain ⟨a, rfl, rfl⟩ := hx
      obtain ⟨b, rfl, rfl⟩ := hy
      have hdiv : ¬ (op = .divide ∧ (Scalar.int .int64 b).isZero) := by
        rintro ⟨rfl, -⟩
        exact hop rfl
      simp only [foldOperands, if_neg hdiv, step?_int64 hop]
      by_cases hn : IntType.int64.Holds (op.onIntegers a.val b.val)
      · simp only [dif_pos hn]
        exact .folded hn (ih ⟨⟨_, hn⟩, rfl, rfl⟩)
      · simp only [dif_neg hn]
        exact .overflow (List.nil_append _).symm (List.forall_mem_nil _) hn rfl (.nil channel)

theorem evalOperands_follows (op : Arithmetic) {ps : List Expr}
    (h : ∀ p ∈ ps, Follows channel p.exactSteps (·.IsInt64 p.exactValue) (eval channel p)) :
    Follows channel (Expr.exactStepsAll ps)
      (fun xs => List.Forall₂ Scalar.IsInt64 xs (Expr.exactValues ps))
      (evalOperands channel op ps) := by
  induction ps with
  | nil => exact .pure .nil
  | cons p ps ih =>
      simp only [evalOperands_cons, Expr.exactStepsAll, Expr.exactValues]
      obtain ⟨hp, hps⟩ := List.forall_mem_cons.mp h
      refine hp.bind ?_
      rintro v ⟨x, hx, rfl⟩
      simp only [Value.asNumber, Outcome.ofExcept_ok, pure_bind]
      exact (ih hps).map fun xs hxs => .cons hx hxs

theorem arithmeticResult_follows {op : Arithmetic} (hop : op ≠ .divide) {xs : List Scalar}
    {ns : List Int} (hne : ns ≠ []) (h : List.Forall₂ Scalar.IsInt64 xs ns) :
    Follows channel (ExactStep.ofRow op ns) (·.IsInt64 (op.foldRow ns))
      (arithmeticResult op xs) := by
  cases h with
  | nil => exact absurd rfl hne
  | @cons x a xs ns hx hxs =>
      simp only [arithmeticResult, ExactStep.ofRow, Arithmetic.foldRow]
      refine (Follows.kernel op).bind ?_
      intro _ _
      exact (foldOperands_follows hop hx hxs).bind_last fun y hy => .pure ⟨y, hy, rfl⟩

theorem emit_follows {v : Value} {n : Int} (hv : v.IsInt64 n) :
    Follows channel [.printed n] (fun _ => True) (channel.emit v) := by
  have hfits : ∀ s ∈ [ExactStep.printed n], s.Fits := List.forall_mem_singleton.mpr trivial
  cases channel with
  | collect => exact .value hfits rfl trivial (.printed hv (.nil _))
  | write =>
      obtain ⟨x, ⟨a, rfl, rfl⟩, rfl⟩ := hv
      exact .value hfits rfl trivial (.wrote a.val (.nil _))

theorem eval_follows {e : Expr} (h : e.IsInteger) :
    Follows channel e.exactSteps (·.IsInt64 e.exactValue) (eval channel e) := by
  induction h with
  | @number text m x hm hint hx =>
      simp only [eval_number, hx, Outcome.ofExcept_ok, pure_bind, Expr.exactSteps,
        Expr.exactValue, hm]
      exact .pure ⟨x, isInt64_of_readNumber hm hint hx, rfl⟩
  | @binary op params hop hne _ ih =>
      rw [eval_binary_of_ne_nil hne]
      simp only [Expr.exactSteps, Expr.exactValue]
      refine (evalOperands_follows op ih).bind ?_
      intro xs hxs
      refine arithmeticResult_follows hop ?_ hxs
      obtain ⟨p, ps, rfl⟩ := List.exists_cons_of_ne_nil hne
      exact List.cons_ne_nil _ _
  | @print e _ ih =>
      rw [eval_print]
      simp only [Expr.exactSteps, Expr.exactValue]
      refine ih.bind ?_
      intro v hv
      exact (emit_follows hv).bind_last fun _ _ => .pure hv

theorem evaluate_follows (channel : Channel) {e : Expr} (h : e.IsInteger) :
    Follows channel e.exactSteps (·.IsInt64 e.exactValue) (evaluate channel e) := by
  refine (eval_follows h).bind_last ?_
  rintro v ⟨x, hx, rfl⟩
  exact .pure ⟨x, hx, rfl⟩

/-! ## What comes out -/

/-- The steps before the first one that does not fit. -/
def ExactStep.followed (steps : List ExactStep) : List ExactStep :=
  steps.takeWhile (·.Fits)

/-- The end of an evaluation is decided by the first step that does not fit. -/
theorem Follows.result {α : Type} {steps : List ExactStep} {P : α → Prop}
    {x : Outcome EvalError α} (h : Follows channel steps P x) :
    match steps.find? (¬ ·.Fits) with
    | none => ∃ a, x.result = .ok a ∧ P a
    | some (.folded op _) => x.result = .error (.integerOverflow op)
    | some (.printed _) => False := by
  cases h with
  | value hfits hok ha _ =>
      rw [List.find?_eq_none.mpr fun s hs => by simpa using hfits s hs]
      exact ⟨_, hok, ha⟩
  | @overflow before after op n hsplit hfits hn herr _ =>
      have hbefore : before.find? (¬ ·.Fits) = none :=
        List.find?_eq_none.mpr fun s hs => by simpa using hfits s hs
      have hfirst : steps.find? (¬ ·.Fits) = some (.folded op n) := by
        rw [hsplit, List.find?_append, hbefore, Option.none_or]
        exact List.find?_cons_of_pos (decide_eq_true hn)
      rw [hfirst]
      exact herr

theorem Follows.shows {α : Type} {steps : List ExactStep} {P : α → Prop}
    {x : Outcome EvalError α} (h : Follows channel steps P x) :
    Shows channel x.events (ExactStep.prints (ExactStep.followed steps)) := by
  cases h with
  | value hfits _ _ hshows =>
      rwa [ExactStep.followed, List.takeWhile_eq_self_iff.mpr fun s hs => by simpa using hfits s hs]
  | @overflow before after op n hsplit hfits hn _ hshows =>
      have hstop : (ExactStep.folded op n :: after).takeWhile (·.Fits) = [] :=
        List.takeWhile_cons_of_neg fun h => hn (of_decide_eq_true h)
      rw [ExactStep.followed, hsplit,
        List.takeWhile_append_of_pos fun s hs => by simpa using hfits s hs,
        hstop, List.append_nil]
      exact hshows

theorem Shows.printed_eq {events : List Event} {ns : List Int} (h : Shows .collect events ns)
    {α : Type} (result : Except EvalError α) :
    List.Forall₂ Value.IsInt64 (Outcome.printed ⟨events, result⟩) ns := by
  generalize hch : Channel.collect = channel at h
  induction h with
  | nil _ => exact .nil
  | kernel op _ ih => exact ih hch
  | printed hv _ ih => exact .cons hv (ih hch)
  | wrote => cases hch

theorem Shows.written_eq {events : List Event} {ns : List Int} (h : Shows .write events ns)
    {α : Type} (result : Except EvalError α) :
    Outcome.written ⟨events, result⟩ = String.join (ns.map fun n => integerText n ++ "\n") := by
  generalize hch : Channel.write = channel at h
  unfold Outcome.written
  congr 1
  induction h with
  | nil _ => rfl
  | kernel op _ ih => exact ih hch
  | printed => cases hch
  | wrote n _ ih => exact congrArg _ (ih hch)

/-- **Integer arithmetic is exact, or reported as an overflow.**  When every
result on the way fits 64 bits, the value is the exact one; else the report names
the operation of the first result that does not.  Either way the prints are the
exact ones up to there. -/
theorem evaluate_exact {e : Expr} (h : e.IsInteger) :
    (∀ channel, match e.exactSteps.find? (¬ ·.Fits) with
      | none => ∃ v, (evaluate channel e).result = .ok v ∧ v.IsInt64 e.exactValue
      | some (.folded op _) => ∃ err, (evaluate channel e).result = .error err ∧
          err.errorClass? = some .overflow ∧ err.message = "Integer overflow in " ++ op.label ++ "."
      | some (.printed _) => False) ∧
    List.Forall₂ Value.IsInt64 (evaluate .collect e).printed
      (ExactStep.prints (ExactStep.followed e.exactSteps)) ∧
    (evaluate .write e).written =
      String.join ((ExactStep.prints (ExactStep.followed e.exactSteps)).map
        fun n => integerText n ++ "\n") := by
  refine ⟨?_, ?_, ?_⟩
  · intro channel
    have hend := (evaluate_follows channel h).result
    split at hend
    · exact hend
    · exact ⟨_, hend, rfl, rfl⟩
    · exact hend
  · exact (evaluate_follows _ h).shows.printed_eq _
  · exact (evaluate_follows _ h).shows.written_eq _

/-- A tree whose exact value is the greatest 64-bit integer.  A product and a sum
reach it, and then it is passed on the way. -/
def Expr.passingGreatest : Expr :=
  .binary .subtract
    [.unary .print (some (.binary .add
      [.binary .multiply [.number "4294967296", .number "2147483647"], .number "4294967295"])),
      .number "-1", .number "1"]

theorem evaluate_passingGreatest :
    Expr.passingGreatest.exactValue = 9223372036854775807 ∧
    (∃ err, (evaluate .collect .passingGreatest).result = .error err ∧
      err.errorClass? = some .overflow ∧ err.message = "Integer overflow in SUBTRACT.") ∧
    List.Forall₂ Value.IsInt64 (evaluate .collect .passingGreatest).printed [9223372036854775807] ∧
    (evaluate .write .passingGreatest).written = "9223372036854775807\n" := by
  have hproduct :
      (Expr.binary .multiply [.number "4294967296", .number "2147483647"]).IsInteger :=
    .pair (by decide) (.number rfl rfl rfl) (.number rfl rfl rfl)
  have hsum : (Expr.binary .add
      [.binary .multiply [.number "4294967296", .number "2147483647"],
        .number "4294967295"]).IsInteger :=
    .pair (by decide) hproduct (.number rfl rfl rfl)
  have hone : ∀ text ∈ ["-1", "1"], (Expr.number text).IsInteger := by
    refine List.forall_mem_cons.mpr ⟨.number rfl rfl rfl, List.forall_mem_singleton.mpr ?_⟩
    exact .number rfl rfl rfl
  have hint : Expr.passingGreatest.IsInteger := by
    refine .binary (by decide) (List.cons_ne_nil _ _) (List.forall_mem_cons.mpr ⟨.print hsum, ?_⟩)
    exact List.forall_mem_map.mpr hone
  obtain ⟨hresult, hprinted, hwritten⟩ := evaluate_exact hint
  exact ⟨by decide, hresult .collect, hprinted, hwritten⟩

end CallLang
