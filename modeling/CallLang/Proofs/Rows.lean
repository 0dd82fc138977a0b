/-
# `CallLang.Proofs.Rows` — calls whose parameters all end in values

Arithmetic and predicates evaluate all their parameters before anything else is
done with them.  Where these end in values (`EndIn`), what the call prints is
settled: it is what the parameters print, from left to right (`PrintsRow`).  What
the call makes of the values prints nothing, and so nothing is lost when it
refuses them.
-/
import CallLang.Proofs.Prints

namespace CallLang

variable {channel : Channel} {params : List Expr} {vs : List Value}

/-- `EndIn channel params vs`: the parameters end in the values `vs`, one by one. -/
def EndIn (channel : Channel) (params : List Expr) (vs : List Value) : Prop :=
  List.Forall₂ (fun p v => (evaluate channel p).result = .ok v) params vs

/-- `PrintsRow channel params x`: what `x` prints is what the parameters print, from
left to right. -/
def PrintsRow {α : Type} (channel : Channel) (params : List Expr) (x : Outcome EvalError α) :
    Prop :=
  x.printed = params.flatMap (fun p => (evaluate channel p).printed) ∧
    x.written = String.join (params.map fun p => (evaluate channel p).written)

/-! ## Prints of a row -/

theorem join_flatMap {α : Type} (f : α → List String) (xs : List α) :
    String.join (xs.flatMap f) = String.join (xs.map fun a => String.join (f a)) := by
  induction xs with
  | nil => rfl
  | cons a xs ih => rw [List.flatMap_cons, String.join_append, List.map_cons, String.join_cons, ih]

theorem printsRow_of_prints {α : Type} {x : Outcome EvalError α}
    (h : x.prints = params.flatMap fun p => (eval channel p).prints) :
    PrintsRow channel params x := by
  have hrow : x.prints = (Outcome.mk (ε := EvalError)
      (params.flatMap fun p => (eval channel p).events) (.ok ())).prints := by
    rw [h]
    exact List.filter_flatMap.symm
  obtain ⟨hprinted, hwritten⟩ := Outcome.seen_eq_of_prints_eq hrow
  simp only [PrintsRow, evaluate_eq_eval]
  refine ⟨hprinted.trans List.filterMap_flatMap, hwritten.trans ?_⟩
  rw [Outcome.written, List.filterMap_flatMap, join_flatMap]
  rfl

/-- Behind the row nothing more is printed. -/
theorem printsRow_bind {α β : Type} {x : Outcome EvalError α} {f : α → Outcome EvalError β} {a : α}
    (hx : x.result = .ok a)
    (hprints : x.prints = params.flatMap fun p => (eval channel p).prints)
    (hf : Draws channel [] True (f a)) : PrintsRow channel params (x >>= f) := by
  refine printsRow_of_prints ?_
  rw [Outcome.prints_bind_of_ok hx, hprints, hf.prints_eq_nil, List.append_nil]

/-! ## Parameters that end in values -/

namespace EndIn

theorem native (h : EndIn channel params vs) : ∀ v ∈ vs, ∃ k, v.Native k := by
  intro v hv
  obtain ⟨p, -, hp⟩ := forall₂_mem_left h.flip v hv
  rw [evaluate_eq_eval] at hp
  exact native_of_eval hp

theorem ordinary (h : EndIn channel params vs) : ∀ v ∈ vs, v.Ordinary := by
  intro v hv
  obtain ⟨p, -, hp⟩ := forall₂_mem_left h.flip v hv
  rw [evaluate_eq_eval] at hp
  exact ordinary_of_eval hp

end EndIn

theorem evalAll_of_endIn (h : EndIn channel params vs) :
    (evalAll channel params).result = .ok vs := by
  rw [evalAll_eq_ok_iff]
  simpa only [EndIn, evaluate_eq_eval] using h

theorem evalOperands_of_endIn {xs : List Scalar} (op : Arithmetic)
    (h : EndIn channel params (xs.map .number)) :
    (evalOperands channel op params).result = .ok xs := by
  rw [evalOperands_eq_ok_iff]
  rw [EndIn, List.forall₂_map_right_iff] at h
  simp only [evaluate_eq_eval] at h
  exact h.imp fun p x hx => ⟨.number x, hx, rfl⟩

theorem prints_evalAll (h : (evalAll channel params).result = .ok vs) :
    (evalAll channel params).prints = params.flatMap fun p => (eval channel p).prints := by
  rw [evalAll_eq_ok_iff] at h
  induction h with
  | nil => rfl
  | cons hp _ ih =>
      rw [evalAll_cons, Outcome.prints_bind_of_ok hp, Outcome.prints_map, ih, List.flatMap_cons]

theorem prints_evalOperands {op : Arithmetic} {xs : List Scalar}
    (h : (evalOperands channel op params).result = .ok xs) :
    (evalOperands channel op params).prints =
      params.flatMap fun p => (eval channel p).prints := by
  rw [evalOperands_eq_ok_iff] at h
  induction h with
  | nil => rfl
  | cons hp _ ih =>
      obtain ⟨v, hv, hx⟩ := hp
      rw [evalOperands_cons, Outcome.prints_bind_of_ok hv, hx, Outcome.ofExcept_ok, pure_bind,
        Outcome.prints_map, ih, List.flatMap_cons]

end CallLang
