/-
# `CallLang.Proofs.Prints` — a print changes nothing but the events

A print hands its value on.  So nothing that a program computes depends on where
its prints go, or on whether they are there at all.  Both are said of the events
alone: `Outcome.translate` puts a row of events in the place of each event and
leaves the end of an evaluation as it is.  It goes through an evaluation part by
part (`Outcome.translate_bind`), and where the starts of kernels stay, it goes
through the tree node by node.  Two translations are used.

| | |
| :-- | :-- |
| `Event.muted` | leaves every print out, as if the tree had none (`eval_erase`) |
| `Event.spoken` | writes out what was handed over, as the other channel does (`eval_write`) |

Kernels start in the same order with prints and without, and on both channels.
-/
import CallLang.Proofs.Endings

namespace CallLang

/-! ## Prints among the events -/

/-- Whether an event is a print, on either channel. -/
def Event.isPrint : Event → Bool
  | .printed _ => true
  | .wrote _ => true
  | .arithmeticKernel _ => false
  | .comparisonKernel _ => false

namespace Outcome

variable {ε ε' α β : Type} {x : Outcome ε α} {f : α → Outcome ε β}

/-- The prints of an evaluation, in order. -/
def prints (x : Outcome ε α) : List Event :=
  x.events.filter Event.isPrint

theorem prints_map (g : α → β) : (g <$> x).prints = x.prints := rfl

theorem prints_bind_of_ok {a : α} (h : x.result = .ok a) :
    (x >>= f).prints = x.prints ++ (f a).prints := by
  rw [bind_of_ok h]
  exact List.filter_append x.events (f a).events

theorem filterMap_prints {γ : Type} {g : Event → Option γ}
    (harithmetic : ∀ op, g (.arithmeticKernel op) = none)
    (hcomparison : ∀ name, g (.comparisonKernel name) = none) (x : Outcome ε α) :
    x.prints.filterMap g = x.events.filterMap g := by
  rw [prints, List.filterMap_filter]
  congr 1
  funext event
  cases event with
  | printed | wrote => rfl
  | arithmeticKernel op => exact (harithmetic op).symm
  | comparisonKernel name => exact (hcomparison name).symm

theorem seen_eq_of_prints_eq {y : Outcome ε' β} (h : x.prints = y.prints) :
    x.printed = y.printed ∧ x.written = y.written := by
  constructor
  · rw [printed, printed, ← filterMap_prints (fun _ => rfl) (fun _ => rfl), h,
      filterMap_prints (fun _ => rfl) (fun _ => rfl)]
  · rw [written, written, ← filterMap_prints (fun _ => rfl) (fun _ => rfl), h,
      filterMap_prints (fun _ => rfl) (fun _ => rfl)]

end Outcome

/-! ## Events in other words -/

namespace Outcome

variable {ε α β : Type} {f : Event → List Event}

/-- The same evaluation with a row of events in the place of each event. -/
def translate (f : Event → List Event) (x : Outcome ε α) : Outcome ε α :=
  ⟨x.events.flatMap f, x.result⟩

@[simp] theorem translate_pure (a : α) : (pure a : Outcome ε α).translate f = pure a := rfl

@[simp] theorem translate_ofExcept (r : Except ε α) : (ofExcept r).translate f = ofExcept r := rfl

@[simp] theorem translate_fail (e : ε) : (fail e : Outcome ε α).translate f = fail e := rfl

/-- A translation goes through an evaluation part by part. -/
@[simp] theorem translate_bind (x : Outcome ε α) (g : α → Outcome ε β) :
    (x >>= g).translate f = x.translate f >>= fun a => (g a).translate f := by
  cases hx : x.result with
  | ok a =>
      have ht : (x.translate f).result = .ok a := hx
      rw [bind_of_ok hx, bind_of_ok ht]
      simp only [translate, List.flatMap_append]
  | error e =>
      have ht : (x.translate f).result = .error e := hx
      rw [bind_of_error hx, bind_of_error ht]
      rfl

@[simp] theorem translate_map (x : Outcome ε α) (g : α → β) :
    (g <$> x).translate f = g <$> x.translate f := by
  rw [map_eq_pure_bind, map_eq_pure_bind, translate_bind]
  rfl

end Outcome

open Outcome (translate_bind)

/-- The starts of kernels stay as they are. -/
structure Event.KeepsKernels (f : Event → List Event) : Prop where
  arithmetic (op : Arithmetic) : f (.arithmeticKernel op) = [.arithmeticKernel op]
  comparison (name : Comparison) : f (.comparisonKernel name) = [.comparisonKernel name]

variable {channel channel' : Channel} {f : Event → List Event}

theorem Shown.flatMap_eq_self {events : List Event} (h : Shown channel events [])
    (hf : Event.KeepsKernels f) : events.flatMap f = events := by
  generalize hvs : ([] : List Value) = vs at h
  induction h with
  | nil => rfl
  | arithmeticKernel op _ ih => rw [List.flatMap_cons, hf.arithmetic, ih hvs, List.singleton_append]
  | comparisonKernel name _ ih =>
      rw [List.flatMap_cons, hf.comparison, ih hvs, List.singleton_append]
  | printed => cases hvs
  | wrote => cases hvs

theorem Draws.translate_eq_self {α : Type} {all : Prop} {x : Outcome EvalError α}
    (h : Draws channel [] all x) (hf : Event.KeepsKernels f) : x.translate f = x := by
  obtain ⟨chosen, vs, hsub, hvs, hshown, -⟩ := h
  obtain rfl := List.eq_nil_of_sublist_nil hsub
  cases hvs
  have hevents := hshown.flatMap_eq_self hf
  rw [Outcome.translate, hevents]

/-! ## Node by node

The tree that is evaluated may change along with its events: `g` stands for a
change of trees, which has been seen to agree with `f` on all parameters. -/

section Nodes

variable {g : Expr → Expr} {ps : List Expr}
  (h : ∀ p ∈ ps, eval channel' (g p) = (eval channel p).translate f)

include h

theorem evalOperands_translate (op : Arithmetic) :
    evalOperands channel' op (ps.map g) = (evalOperands channel op ps).translate f := by
  induction ps with
  | nil => rfl
  | cons p ps ih =>
      obtain ⟨hp, hps⟩ := List.forall_mem_cons.mp h
      rw [List.map_cons, evalOperands_cons, evalOperands_cons, hp, ih hps]
      simp

theorem evalAll_translate :
    evalAll channel' (ps.map g) = (evalAll channel ps).translate f := by
  induction ps with
  | nil => rfl
  | cons p ps ih =>
      obtain ⟨hp, hps⟩ := List.forall_mem_cons.mp h
      rw [List.map_cons, evalAll_cons, evalAll_cons, hp, ih hps]
      simp

theorem eval_binary_translate (hf : Event.KeepsKernels f) (op : Arithmetic) :
    eval channel' (.binary op (ps.map g)) = (eval channel (.binary op ps)).translate f := by
  have hresult : ∀ xs, (arithmeticResult op xs).translate f = arithmeticResult op xs := by
    intro xs
    have hdraws : Draws channel [] True (arithmeticResult op xs) := arithmeticResult_draws op xs
    exact hdraws.translate_eq_self hf
  rw [eval_binary, eval_binary, List.length_map, evalOperands_translate h]
  simp [hresult]

theorem eval_predicate_translate (hf : Event.KeepsKernels f) (name : Comparison) :
    eval channel' (.predicate name (ps.map g)) =
      (eval channel (.predicate name ps)).translate f := by
  have hrow : ∀ vs, (compareRow name vs).translate f = compareRow name vs := by
    intro vs
    have hdraws : Draws channel [] True (compareRow name vs) := compareRow_draws name vs
    exact hdraws.translate_eq_self hf
  rw [eval_predicate, eval_predicate, List.length_map, evalAll_translate h]
  simp [hrow]

theorem eval_conditional_translate :
    eval channel' (.conditional (ps.map g)) = (eval channel (.conditional ps)).translate f := by
  by_cases hlen : ps.length = 3
  · obtain ⟨test, yes, no, rfl⟩ := List.length_eq_three.mp hlen
    have htest := h test (by simp)
    have hyes := h yes (by simp)
    have hno := h no (by simp)
    simp only [List.map_cons, List.map_nil, eval_conditional, htest, translate_bind]
    congr 1
    funext v
    congr 1
    funext b
    cases b with
    | true => exact hyes
    | false => exact hno
  · have hlen' : (ps.map g).length ≠ 3 := by rwa [List.length_map]
    rw [eval_conditional_of_ne hlen, eval_conditional_of_ne hlen', List.length_map]
    rfl

end Nodes

theorem eval_unary_translate {g : Expr → Expr} {p : Expr} {name : OperatorName}
    (h : eval channel' (g p) = (eval channel p).translate f) (hname : name ≠ .print) :
    eval channel' (.unary name (some (g p))) =
      (eval channel (.unary name (some p))).translate f := by
  rw [eval_unary_of_ne hname, eval_unary_of_ne hname, h]
  simp

/-! ## Trees without their prints -/

namespace Expr

mutual

/-- The tree with the operand of each print in the place of the print.  A print
without an operand stays. -/
def erase : Expr → Expr
  | .conditional params => .conditional (eraseAll params)
  | .predicate name params => .predicate name (eraseAll params)
  | .binary op params => .binary op (eraseAll params)
  | .unary name (some param) =>
    if name = .print then erase param else .unary name (some (erase param))
  | e => e

/-- A row of trees without their prints. -/
def eraseAll : List Expr → List Expr
  | [] => []
  | param :: params => erase param :: eraseAll params

end

theorem eraseAll_eq_map (params : List Expr) : eraseAll params = params.map erase := by
  induction params with
  | nil => rfl
  | cons param params ih => rw [eraseAll, ih, List.map_cons]

theorem erase_print (e : Expr) : (Expr.unary .print (some e)).erase = e.erase := by
  rw [erase, if_pos rfl]

theorem erase_unary_of_ne {name : OperatorName} (h : name ≠ .print) (e : Expr) :
    (Expr.unary name (some e)).erase = .unary name (some e.erase) := by
  rw [erase, if_neg h]

theorem printNodesAll_eq_nil {params : List Expr} (h : ∀ p ∈ params, p.printNodes = []) :
    printNodesAll params = [] := by
  induction params with
  | nil => rfl
  | cons param params ih =>
      obtain ⟨hparam, hparams⟩ := List.forall_mem_cons.mp h
      rw [printNodesAll, hparam, ih hparams, List.append_nil]

theorem printNodes_erase (e : Expr) : e.erase.printNodes = [] := by
  have hall : ∀ params : List Expr, (∀ p ∈ params, p.erase.printNodes = []) →
      printNodesAll (eraseAll params) = [] := by
    intro params h
    rw [eraseAll_eq_map]
    exact printNodesAll_eq_nil (List.forall_mem_map.mpr h)
  induction e using Expr.tree_induction with
  | number text => rfl
  | string text => rfl
  | conditional params ih => exact hall params ih
  | predicate name params ih => exact hall params ih
  | binary op params ih => exact hall params ih
  | unary name param ih =>
      cases param with
      | none => rfl
      | some p =>
          by_cases hname : name = .print
          · subst hname
            rw [erase_print]
            exact ih p rfl
          · rw [erase_unary_of_ne hname, printNodes, ih p rfl, if_neg hname, List.append_nil]
  | foreign typeName => rfl

end Expr

/-- What is left of an event when prints are left out. -/
def Event.muted : Event → List Event
  | .printed _ => []
  | .wrote _ => []
  | event => [event]

theorem Event.keepsKernels_muted : Event.KeepsKernels Event.muted :=
  ⟨fun _ => rfl, fun _ => rfl⟩

theorem Outcome.prints_muted {ε α : Type} (x : Outcome ε α) :
    (x.translate Event.muted).prints = [] := by
  rw [prints, translate, List.filter_flatMap, List.flatMap_eq_nil_iff]
  intro event _
  cases event <;> rfl

/-- What draws from no prints prints nothing. -/
theorem Draws.prints_eq_nil {channel : Channel} {α : Type} {all : Prop} {x : Outcome EvalError α}
    (h : Draws channel [] all x) : x.prints = [] := by
  rw [← h.translate_eq_self Event.keepsKernels_muted, Outcome.prints_muted]

theorem Value.Native.emit_muted {v : Value} {k : Kind} (h : v.Native k) (channel : Channel) :
    (channel.emit v).translate Event.muted = pure () := by
  cases channel with
  | collect => rfl
  | write => cases h <;> rfl

/-- Without its prints a tree is evaluated as with them, the prints left out. -/
theorem eval_erase (channel : Channel) (e : Expr) :
    eval channel e.erase = (eval channel e).translate Event.muted := by
  induction e using Expr.tree_induction with
  | number text =>
      show eval channel (.number text) = _
      rw [eval_number]
      simp
  | string text => rfl
  | conditional params ih =>
      rw [Expr.erase, Expr.eraseAll_eq_map]
      exact eval_conditional_translate ih
  | predicate name params ih =>
      rw [Expr.erase, Expr.eraseAll_eq_map]
      exact eval_predicate_translate ih Event.keepsKernels_muted name
  | binary op params ih =>
      rw [Expr.erase, Expr.eraseAll_eq_map]
      exact eval_binary_translate ih Event.keepsKernels_muted op
  | unary name param ih =>
      cases param with
      | none =>
          show eval channel (.unary name none) = _
          rw [eval_unary_none]
          simp
      | some p =>
          by_cases hname : name = .print
          · subst hname
            rw [Expr.erase_print, ih p rfl, eval_print, translate_bind]
            -- The value of the operand is handed on, whatever the print does with it.
            have hsilent : (eval channel p).translate Event.muted >>= (fun v =>
                (channel.emit v >>= fun _ => pure v).translate Event.muted) =
                (eval channel p).translate Event.muted >>= pure := by
              refine Outcome.bind_congr_of_ok ?_
              intro v hv
              obtain ⟨k, hk⟩ := native_of_eval hv
              rw [translate_bind, hk.emit_muted channel]
              rfl
            rw [hsilent, bind_pure]
          · rw [Expr.erase_unary_of_ne hname]
            exact eval_unary_translate (ih p rfl) hname
  | foreign typeName => rfl

/-- **Prints can be taken out.**  The tree without its prints has none left, prints
nothing, and ends as the tree with them: in the same value or in the same error. -/
theorem evaluate_erase (channel : Channel) (e : Expr) :
    e.erase.printNodes = [] ∧
    (evaluate channel e.erase).printed = [] ∧
    (evaluate channel e.erase).written = "" ∧
    (evaluate channel e.erase).result = (evaluate channel e).result := by
  rw [evaluate_eq_eval, evaluate_eq_eval, eval_erase]
  have hnone : ((eval channel e).translate Event.muted).prints =
      (pure () : Outcome EvalError Unit).prints := Outcome.prints_muted _
  obtain ⟨hprinted, hwritten⟩ := Outcome.seen_eq_of_prints_eq hnone
  exact ⟨e.printNodes_erase, hprinted, hwritten, rfl⟩

/-! ## Prints on the other channel -/

/-- What the other channel does with an event: it writes out as a line what was
handed over. -/
def Event.spoken : Event → List Event
  | .printed v =>
    match v.text with
    | .ok text => [.wrote (text ++ "\n")]
    | .error _ => []
  | event => [event]

theorem Event.keepsKernels_spoken : Event.KeepsKernels Event.spoken :=
  ⟨fun _ => rfl, fun _ => rfl⟩

theorem Value.Native.text_eq {v : Value} {k : Kind} (h : v.Native k) :
    ∃ text, v.text = .ok text := by
  cases h <;> exact ⟨_, rfl⟩

theorem Value.Native.emit_spoken {v : Value} {k : Kind} (h : v.Native k) :
    Channel.write.emit v = (Channel.collect.emit v).translate Event.spoken := by
  cases h <;> rfl

/-- On the channel that writes, a tree is evaluated as on the one that collects,
the prints written out. -/
theorem eval_write (e : Expr) :
    eval .write e = (eval .collect e).translate Event.spoken := by
  induction e using Expr.tree_induction with
  | number text =>
      rw [eval_number, eval_number]
      simp
  | string text => rfl
  | conditional params ih => simpa only [List.map_id'] using eval_conditional_translate ih
  | predicate name params ih =>
      simpa only [List.map_id'] using eval_predicate_translate ih Event.keepsKernels_spoken name
  | binary op params ih =>
      simpa only [List.map_id'] using eval_binary_translate ih Event.keepsKernels_spoken op
  | unary name param ih =>
      cases param with
      | none =>
          rw [eval_unary_none, eval_unary_none]
          simp
      | some p =>
          by_cases hname : name = .print
          · subst hname
            rw [eval_print, eval_print, ih p rfl, translate_bind]
            refine Outcome.bind_congr_of_ok ?_
            intro v hv
            obtain ⟨k, hk⟩ := native_of_eval hv
            rw [translate_bind, hk.emit_spoken]
            rfl
          · exact eval_unary_translate (g := fun e => e) (ih p rfl) hname
  | foreign typeName => rfl

/-- The values handed over are the values written out. -/
theorem Shown.spoken {events : List Event} {vs : List Value} (h : Shown .collect events vs)
    (hvs : ∀ v ∈ vs, ∃ text, v.text = .ok text) :
    Shown .write (events.flatMap Event.spoken) vs := by
  generalize hchannel : Channel.collect = channel at h
  induction h with
  | nil => exact .nil .write
  | arithmeticKernel op _ ih => exact .arithmeticKernel op (ih hvs hchannel)
  | comparisonKernel name _ ih => exact .comparisonKernel name (ih hvs hchannel)
  | @printed events vs v _ ih =>
      obtain ⟨⟨text, htext⟩, hrest⟩ := List.forall_mem_cons.mp hvs
      have hline : Event.spoken (.printed v) = [.wrote (text ++ "\n")] := by
        rw [Event.spoken, htext]
      rw [List.flatMap_cons, hline]
      exact .wrote htext (ih hrest hchannel)
  | wrote => cases hchannel

theorem exists_shown (e : Expr) : ∃ vs, Shown .collect (eval .collect e).events vs ∧
    Shown .write (eval .write e).events vs := by
  obtain ⟨chosen, vs, -, hprints, hshown, -⟩ := eval_draws .collect e
  have htexts : ∀ v ∈ vs, ∃ text, v.text = .ok text := by
    intro v hv
    obtain ⟨node, -, p, -, hp⟩ := forall₂_mem_left hprints.flip v hv
    obtain ⟨k, hk⟩ := native_of_eval hp
    exact hk.text_eq
  refine ⟨vs, hshown, ?_⟩
  rw [eval_write]
  exact hshown.spoken htexts

/-- **The two channels agree.**  A source text ends in the same way on both, and
what is written out is the text of each value that is handed over, in order and
each on a line of its own.  Each of these values has a text. -/
theorem run_channels (source : String) :
    (run .write source).result = (run .collect source).result ∧
    ∃ texts, List.Forall₂ (fun v text => v.text = .ok text) (run .collect source).printed texts ∧
      (run .write source).written = String.join (texts.map (· ++ "\n")) := by
  cases hparse : parseSource source with
  | error error =>
      rw [run_of_parse_error hparse, run_of_parse_error hparse]
      exact ⟨rfl, [], .nil, rfl⟩
  | ok e =>
      obtain ⟨vs, hcollect, hwrite⟩ := exists_shown e
      rw [run_of_parse_ok hparse, run_of_parse_ok hparse]
      refine ⟨?_, ?_⟩
      · rw [eval_write]
        rfl
      · obtain rfl : (eval .collect e).printed = vs := hcollect.shows
        exact hwrite.shows

end CallLang
