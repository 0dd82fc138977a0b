/-
# `CallLang.Proofs.Stack` — what a bounded stack changes in a run

A run on a stack is the run itself, or it is broken off: then it has done the
first part of what the run does, and ended in the host's error
(`Outcome.Curtails`).  Broken off it is only where more is nested than the stack
has room for (`Stack.TooSmall`), which two measures say:

| | |
| :-- | :-- |
| `ParseState.peak` | how many calls are open at once, at most, while the tokens are read |
| `Expr.depth` | how many expressions stand there at most, each within the one before |

While a text is parsed, the first decides alone (`feedWithin_eq`).  An evaluation
may end before it comes to where the tree is deepest, or leave that out; so the
second says only when the room is enough (`evalWithin_curtails`).  One law for what
is done in turn carries this through the nodes (`Outcome.Curtails.bind`), and an
induction on the room carries it through the tree.
-/
import CallLang.Proofs.Evaluation
import CallLang.Proofs.Moves
import CallLang.Stack

namespace CallLang

/-! ## Outcomes that are broken off -/

namespace Outcome

variable {ε ε' α β : Type} {may : Prop}

/-- `x.Curtails may y`: the host does `y`; or, if it `may`, it breaks `y` off. -/
inductive Curtails (may : Prop) : Outcome (HostError ε) α → Outcome ε α → Prop
  | same (y : Outcome ε α) : Curtails may y.onHost y
  | brokenOff {events : List Event} {y : Outcome ε α} :
      may → events <+: y.events → Curtails may ⟨events, .error .stackExhausted⟩ y

namespace Curtails

variable {x : Outcome (HostError ε) α} {y : Outcome ε α}

theorem pure (a : α) : Curtails may (Pure.pure a : Outcome (HostError ε) α) (Pure.pure a) :=
  .same (.pure a)

theorem mono {may' : Prop} (h : Curtails may x y) (hmay : may → may') : Curtails may' x y := by
  cases h with
  | same => exact .same y
  | brokenOff hbroken hevents => exact .brokenOff (hmay hbroken) hevents

theorem events_prefix_bind (y : Outcome ε α) (g : α → Outcome ε β) :
    y.events <+: (y >>= g).events := by
  cases hy : y.result with
  | ok a =>
      rw [bind_of_ok hy]
      exact List.prefix_append _ _
  | error e =>
      have hevents : (y >>= g).events = y.events := by rw [bind_of_error hy]
      exact hevents ▸ List.prefix_rfl

theorem bind {f : α → Outcome (HostError ε) β} {g : α → Outcome ε β} (hx : Curtails may x y)
    (hf : ∀ a, Curtails may (f a) (g a)) : Curtails may (x >>= f) (y >>= g) := by
  cases hx with
  | same =>
      cases hy : y.result with
      | ok a =>
          have hx : y.onHost.result = .ok a := result_mapError_eq_ok_iff.mpr hy
          rw [bind_of_ok hx, bind_of_ok hy]
          have hrest := hf a
          generalize f a = z at hrest ⊢
          cases hrest with
          | same => exact .same ⟨y.events ++ (g a).events, (g a).result⟩
          | brokenOff hmay hevents =>
              exact .brokenOff hmay ((List.prefix_append_right_inj _).mpr hevents)
      | error e =>
          have hx : y.onHost.result = .error (.language e) :=
            result_mapError_eq_error_iff.mpr ⟨e, hy, rfl⟩
          rw [bind_of_error hx, bind_of_error hy]
          exact .same ⟨y.events, .error e⟩
  | brokenOff hmay hevents =>
      rw [bind_of_error rfl]
      exact .brokenOff hmay (hevents.trans (events_prefix_bind y g))

theorem mapM {f : α → Outcome (HostError ε) β} {g : α → Outcome ε β} {as : List α}
    (h : ∀ a ∈ as, Curtails may (f a) (g a)) : Curtails may (as.mapM f) (as.mapM g) := by
  induction as with
  | nil => exact .pure []
  | cons a as ih =>
      obtain ⟨ha, has⟩ := List.forall_mem_cons.mp h
      rw [List.mapM_cons, List.mapM_cons]
      exact ha.bind fun b => (ih has).bind fun bs => .pure (b :: bs)

theorem mapError {f : ε → ε'} (h : Curtails may x y) :
    Curtails may (x.mapError (·.map f)) (y.mapError f) := by
  cases h with
  | same =>
      obtain ⟨events, result⟩ := y
      cases result with
      | ok a => exact .same ⟨events, .ok a⟩
      | error e => exact .same ⟨events, .error (f e)⟩
  | brokenOff hmay hevents => exact .brokenOff hmay hevents

end Curtails
end Outcome

open Outcome (Curtails)

/-! ## Parsing -/

namespace ParseState

/-- How many calls are open at once, at most, while tokens are read. -/
def peak (s : ParseState) : List Token → Nat
  | [] => s.height
  | t :: ts =>
    match s.step t with
    | .more s' => max s.height (s'.peak ts)
    | _ => s.height

theorem peak_of_moves {s s' : ParseState} {t : Token} (h : Moves s t s') (ts : List Token) :
    s.peak (t :: ts) = max s.height (s'.peak ts) := by
  simp only [peak, step_of_moves h]

theorem height_le_peak (s : ParseState) (ts : List Token) : s.height ≤ s.peak ts := by
  cases ts with
  | nil => exact Nat.le_refl _
  | cons t ts =>
      unfold peak
      split
      · exact Nat.le_max_left _ _
      · exact Nat.le_refl _

/-- A parse is broken off exactly where more calls are open than there is room for. -/
theorem feedWithin_eq {room : Nat} {s : ParseState} (hs : s.height ≤ room) (k : Nat)
    (ts : List Token) :
    s.feedWithin room k ts =
      if room < s.peak ts then .error .stackExhausted
      else (s.feed k ts).mapError .language := by
  induction ts generalizing s k with
  | nil =>
      have hpeak : s.peak [] = s.height := rfl
      rw [hpeak, if_neg (Nat.not_lt.mpr hs)]
      rfl
  | cons t ts ih =>
      unfold feedWithin peak feed
      cases s.step t with
      | more s' =>
          have hpeak := s'.height_le_peak ts
          simp only
          by_cases hroom : room < s'.height
          · rw [if_pos hroom, if_pos (by omega)]
          · rw [if_neg hroom, ih (by omega)]
            have hiff : room < max s.height (s'.peak ts) ↔ room < s'.peak ts := by omega
            simp only [hiff]
      | done e =>
          simp only [if_neg (Nat.not_lt.mpr hs)]
          rfl
      | fail error =>
          simp only [if_neg (Nat.not_lt.mpr hs)]
          rfl

end ParseState

/-- How many calls of a source text are open at once, at most, while it is parsed. -/
def nesting (source : String) : Nat :=
  ParseState.start.peak (tokenize source)

theorem parseSourceWithin_eq (room : Nat) (source : String) :
    parseSourceWithin room source =
      if room < nesting source then .error .stackExhausted
      else (parseSource source).mapError .language := by
  rw [parseSourceWithin, ParseState.feedWithin_eq (Nat.zero_le room), parseSource, parse,
    parseWithRest, nesting]
  split
  · rfl
  · cases ParseState.start.feed 0 (tokenize source) <;> rfl

/-! ## Evaluation -/

namespace Expr

mutual

/-- How many expressions stand in an expression at most, each within the one
before. -/
def depth : Expr → Nat
  | .conditional params => depthAll params + 1
  | .predicate _ params => depthAll params + 1
  | .binary _ params => depthAll params + 1
  | .unary _ (some param) => depth param + 1
  | _ => 1

/-- The greatest depth in a row of expressions. -/
def depthAll : List Expr → Nat
  | [] => 0
  | param :: params => max (depth param) (depthAll params)

end

theorem depth_pos (e : Expr) : 0 < e.depth := by
  unfold depth
  split <;> exact Nat.succ_pos _

theorem depth_le_depthAll {p : Expr} {params : List Expr} (h : p ∈ params) :
    p.depth ≤ depthAll params := by
  induction params with
  | nil => exact absurd h List.not_mem_nil
  | cons q params ih =>
      rcases List.mem_cons.mp h with rfl | h
      · exact Nat.le_max_left _ _
      · exact Nat.le_trans (ih h) (Nat.le_max_right _ _)

theorem depth_lt_of_mem_children {e p : Expr} (h : p ∈ e.children) : p.depth < e.depth := by
  cases e with
  | number | string | foreign => exact absurd h List.not_mem_nil
  | conditional params | predicate _ params | binary _ params =>
      exact Nat.lt_succ_of_le (depth_le_depthAll h)
  | unary name param =>
      cases param with
      | none => exact absurd h List.not_mem_nil
      | some q =>
          obtain rfl := List.mem_singleton.mp h
          exact Nat.lt_succ_self _

end Expr

variable {channel : Channel}

theorem evalAll_eq_mapM (params : List Expr) :
    evalAll channel params = params.mapM (eval channel) := by
  induction params with
  | nil => rfl
  | cons p params ih => simp only [evalAll_cons, List.mapM_cons, ih, map_eq_pure_bind]

theorem evalOperands_eq_mapM (op : Arithmetic) (params : List Expr) :
    evalOperands channel op params =
      params.mapM (fun param => eval channel param >>= fun v =>
        Outcome.ofExcept (v.asNumber op.label)) := by
  induction params with
  | nil => rfl
  | cons p params ih =>
      simp only [evalOperands_cons, List.mapM_cons, ih, bind_assoc, map_eq_pure_bind]

/-- A node is broken off only where one of the expressions in it is. -/
theorem evalNode_curtails {may : Prop} {enter : Expr → Outcome (HostError EvalError) Value}
    {e : Expr} (h : ∀ p ∈ e.children, Curtails may (enter p) (eval channel p)) :
    Curtails may (evalNode channel enter e) (eval channel e) := by
  cases e with
  | number text =>
      rw [eval_number]
      exact (Curtails.same _).bind fun x => .pure _
  | string text => exact .pure _
  | conditional params =>
      by_cases hlen : params.length = 3
      · obtain ⟨test, yes, no, rfl⟩ := List.length_eq_three.mp hlen
        rw [eval_conditional]
        refine (h test (by simp [Expr.children])).bind fun v => (Curtails.same _).bind fun b => ?_
        cases b with
        | true => exact h yes (by simp [Expr.children])
        | false => exact h no (by simp [Expr.children])
      · rw [eval_conditional_of_ne hlen]
        match params, hlen with
        | [], _ | [_], _ | [_, _], _ | _ :: _ :: _ :: _ :: _, _ => exact .same _
        | [_, _, _], hlen => exact absurd rfl hlen
  | predicate name params =>
      rw [eval_predicate, evalAll_eq_mapM]
      refine (Curtails.same _).bind fun _ => (Curtails.mapM h).bind fun values => ?_
      exact (Curtails.same _).bind fun holds => .pure _
  | binary op params =>
      rw [eval_binary, evalOperands_eq_mapM]
      refine (Curtails.same _).bind fun _ => Curtails.bind (Curtails.mapM ?_) fun xs => .same _
      exact fun p hp => (h p hp).bind fun v => .same _
  | unary name param =>
      cases param with
      | none => exact (Curtails.same _).bind fun _ => .same _
      | some p =>
          have hp := h p (List.mem_singleton.mpr rfl)
          cases name with
          | print =>
              exact (Curtails.same _).bind fun _ => hp.bind fun v =>
                (Curtails.same _).bind fun _ => .pure v
          | comparison _ | arithmetic _ =>
              exact (Curtails.same _).bind fun _ => hp.bind fun v => .same _
  | foreign typeName => exact .same _

/-- An evaluation is broken off only if the tree is deeper than the room. -/
theorem evalWithin_curtails (room : Nat) (e : Expr) :
    Curtails (room < e.depth) (evalWithin channel room e) (eval channel e) := by
  induction room generalizing e with
  | zero => exact .brokenOff e.depth_pos List.nil_prefix
  | succ room ih =>
      refine evalNode_curtails fun p hp => (ih p).mono fun hroom => ?_
      exact Nat.lt_of_le_of_lt hroom (Expr.depth_lt_of_mem_children hp)

/-! ## Runs -/

/-- More is nested in the source text than the stack has room for: in the text
itself, or in the tree that it stands for. -/
def Stack.TooSmall (stack : Stack) (source : String) : Prop :=
  stack.parsing < nesting source ∨
    ∃ e, parseSource source = .ok e ∧ stack.evaluating < e.depth

section Runs

variable {stack : Stack} {source : String}

/-- **A stack changes nothing but how far a run comes.**  A run on a stack is the
run of the source text, or its first part, up to where the stack is used up; and
this only where more is nested than the stack has room for. -/
theorem runWithin_curtails (stack : Stack) (channel : Channel) (source : String) :
    Curtails (stack.TooSmall source) (runWithin stack channel source) (run channel source) := by
  rw [runWithin, parseSourceWithin_eq]
  by_cases hparsing : stack.parsing < nesting source
  · rw [if_pos hparsing]
    exact .brokenOff (Or.inl hparsing) List.nil_prefix
  · rw [if_neg hparsing, run]
    cases hparse : parseSource source with
    | error error => exact .same (Outcome.fail (RunError.parse error))
    | ok e =>
        have heval : Curtails (stack.evaluating < e.depth)
            (evalWithin channel stack.evaluating e) (eval channel e) :=
          evalWithin_curtails stack.evaluating e
        have hevaluate := heval.bind fun v =>
          (Curtails.same (Outcome.ofExcept (v.validate "result"))).bind fun _ => .pure v
        exact (hevaluate.mono fun hdeep => Or.inr ⟨e, hparse, hdeep⟩).mapError

/-- On a stack with room enough a run is the run. -/
theorem runWithin_eq_run (h : ¬ stack.TooSmall source) :
    runWithin stack channel source = (run channel source).onHost := by
  have hcurtails := runWithin_curtails stack channel source
  generalize runWithin stack channel source = x at hcurtails ⊢
  cases hcurtails with
  | same => rfl
  | brokenOff hsmall _ => exact absurd hsmall h

theorem runWithin_of_parsing_lt (h : stack.parsing < nesting source) :
    runWithin stack channel source = .fail .stackExhausted := by
  rw [runWithin, parseSourceWithin_eq, if_pos h]
  rfl

end Runs

/-- The first print is done before the second sum has no room left. -/
example : (runWithin ⟨3, 3⟩ .write "(+ (print 1) (print (+ 2 3)))").written = "1\n" := by
  decide +kernel

end CallLang
