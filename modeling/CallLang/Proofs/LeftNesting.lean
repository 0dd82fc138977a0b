/-
# `CallLang.Proofs.LeftNesting` — arithmetic on many operands nests to the left

A call on a row of operands is the call on the result of its first `k` operands
and the others:

    (- 10 3 2 1)    ~    (- (- 10 3) 2 1)

whatever the operation and the types of the numbers, since a fold over a row in
two parts goes on from the result of the first (`foldOperands_append`).

The two calls need not fail alike: the nested one folds its first operands before
it comes to the others, so that a sum out of range is reported where the flat one
still finds a string.  They are compared where they end in a value.  There both
say the same of their operands, `FoldsTo`.
-/
import CallLang.Proofs.Prints

namespace CallLang

variable {channel : Channel} {op : Arithmetic} {ps qs : List Expr} {v : Value}

/-! ## Folds in two parts -/

/-- A fold over a row in two parts goes on from the result of the first. -/
theorem foldOperands_append (op : Arithmetic) (x : Scalar) (ys zs : List Scalar) :
    foldOperands op x (ys ++ zs) = (do
      let w ← foldOperands op x ys
      foldOperands op w zs) := by
  induction ys generalizing x with
  | nil => rfl
  | cons y ys ih =>
      simp only [List.cons_append, foldOperands]
      split
      · rfl
      · split
        · exact ih _
        · rfl

theorem foldOperands_append_eq_ok_iff {x z : Scalar} {ys zs : List Scalar} :
    foldOperands op x (ys ++ zs) = .ok z ↔
      ∃ w, foldOperands op x ys = .ok w ∧ foldOperands op w zs = .ok z := by
  rw [foldOperands_append]
  cases foldOperands op x ys <;> simp [bind, Except.bind]

/-! ## Operands in two parts -/

theorem evalOperands_append_eq_ok_iff {xs : List Scalar} :
    (evalOperands channel op (ps ++ qs)).result = .ok xs ↔
      ∃ ys zs, (evalOperands channel op ps).result = .ok ys ∧
        (evalOperands channel op qs).result = .ok zs ∧ ys ++ zs = xs := by
  simp only [evalOperands_append, Outcome.result_bind_eq_ok_iff, Outcome.result_map_eq_ok_iff]
  constructor
  · rintro ⟨ys, hys, zs, hzs, hxs⟩
    exact ⟨ys, zs, hys, hzs, hxs⟩
  · rintro ⟨ys, zs, hys, hzs, hxs⟩
    exact ⟨ys, hys, zs, hzs, hxs⟩

theorem evalOperands_cons_eq_ok_iff {e : Expr} {xs : List Scalar} :
    (evalOperands channel op (e :: ps)).result = .ok xs ↔
      ∃ x ys, (eval channel e).result = .ok (.number x) ∧
        (evalOperands channel op ps).result = .ok ys ∧ x :: ys = xs := by
  simp only [evalOperands_cons, Outcome.result_bind_eq_ok_iff, Outcome.result_map_eq_ok_iff,
    Outcome.result_ofExcept]
  constructor
  · rintro ⟨v, hv, x, hx, ys, hys, hxs⟩
    obtain ⟨k, hk⟩ := native_of_eval hv
    obtain rfl := hk.asNumber_eq_ok_iff.mp hx
    exact ⟨x, ys, hv, hys, hxs⟩
  · rintro ⟨x, ys, hx, hys, hxs⟩
    exact ⟨.number x, hx, x, rfl, ys, hys, hxs⟩

theorem exists_cons_of_evalOperands {xs : List Scalar} (hps : ps ≠ [])
    (h : (evalOperands channel op ps).result = .ok xs) : ∃ y ys, xs = y :: ys := by
  have hlen := (evalOperands_eq_ok_iff.mp h).length_eq
  refine List.exists_cons_of_ne_nil ?_
  rintro rfl
  exact hps (List.length_eq_zero_iff.mp hlen)

/-! ## The flat call and the nested one -/

/-- `FoldsTo channel op ps qs z`: all operands end in numbers, and the fold over
those of `ps` and then over those of `qs` arrives at `z`. -/
def FoldsTo (channel : Channel) (op : Arithmetic) (ps qs : List Expr) (z : Scalar) : Prop :=
  ∃ x xs w ys, (evalOperands channel op ps).result = .ok (x :: xs) ∧
    foldOperands op x xs = .ok w ∧ (evalOperands channel op qs).result = .ok ys ∧
    foldOperands op w ys = .ok z

theorem eval_flat_eq_ok_iff (hps : ps ≠ []) :
    (eval channel (.binary op (ps ++ qs))).result = .ok v ↔
      ∃ z, FoldsTo channel op ps qs z ∧ .number z = v := by
  rw [eval_binary_eq_ok_iff]
  constructor
  · rintro ⟨x, xs, z, hops, hfold, hv⟩
    obtain ⟨us, ys, hus, hys, hsplit⟩ := evalOperands_append_eq_ok_iff.mp hops
    obtain ⟨u, us, rfl⟩ := exists_cons_of_evalOperands hps hus
    obtain ⟨rfl, rfl⟩ := List.cons.inj hsplit
    obtain ⟨w, hw, hz⟩ := foldOperands_append_eq_ok_iff.mp hfold
    exact ⟨z, ⟨u, us, w, ys, hus, hw, hys, hz⟩, hv⟩
  · rintro ⟨z, ⟨x, xs, w, ys, hxs, hw, hys, hz⟩, hv⟩
    have hops := evalOperands_append_eq_ok_iff.mpr ⟨x :: xs, ys, hxs, hys, rfl⟩
    have hfold := foldOperands_append_eq_ok_iff.mpr ⟨w, hw, hz⟩
    exact ⟨x, xs ++ ys, z, hops, hfold, hv⟩

theorem eval_nested_eq_ok_iff :
    (eval channel (.binary op (.binary op ps :: qs))).result = .ok v ↔
      ∃ z, FoldsTo channel op ps qs z ∧ .number z = v := by
  rw [eval_binary_eq_ok_iff]
  constructor
  · rintro ⟨w, ys, z, hops, hz, hv⟩
    obtain ⟨w', ys', hinner, hys, hsplit⟩ := evalOperands_cons_eq_ok_iff.mp hops
    obtain ⟨rfl, rfl⟩ := List.cons.inj hsplit
    obtain ⟨x, xs, w, hxs, hw, hnumber⟩ := eval_binary_eq_ok_iff.mp hinner
    obtain rfl := Value.number.inj hnumber
    exact ⟨z, ⟨x, xs, w, ys', hxs, hw, hys, hz⟩, hv⟩
  · rintro ⟨z, ⟨x, xs, w, ys, hxs, hw, hys, hz⟩, hv⟩
    have hinner := eval_binary_eq_ok_iff.mpr ⟨x, xs, w, hxs, hw, rfl⟩
    have hops := evalOperands_cons_eq_ok_iff.mpr ⟨w, ys, hinner, hys, rfl⟩
    exact ⟨w, ys, z, hops, hz, hv⟩

/-! ## Their prints -/

theorem prints_binary (h : (eval channel (.binary op ps)).result = .ok v) :
    (eval channel (.binary op ps)).prints = (evalOperands channel op ps).prints := by
  obtain ⟨x, xs, z, hops, -, -⟩ := eval_binary_eq_ok_iff.mp h
  have hps : ps ≠ [] := by
    rintro rfl
    cases hops
  have hsilent : Draws channel [] True (arithmeticResult op (x :: xs)) :=
    arithmeticResult_draws op (x :: xs)
  rw [eval_binary_of_ne_nil hps, Outcome.prints_bind_of_ok hops, hsilent.prints_eq_nil,
    List.append_nil]

theorem prints_flat (hps : ps ≠ []) (h : (eval channel (.binary op (ps ++ qs))).result = .ok v) :
    (eval channel (.binary op (ps ++ qs))).prints =
      (evalOperands channel op ps).prints ++ (evalOperands channel op qs).prints := by
  obtain ⟨z, ⟨x, xs, w, ys, hxs, -⟩, -⟩ := (eval_flat_eq_ok_iff hps).mp h
  rw [prints_binary h, evalOperands_append, Outcome.prints_bind_of_ok hxs, Outcome.prints_map]

theorem prints_operand {e : Expr} {x : Scalar} (h : (eval channel e).result = .ok (.number x)) :
    (evalOperands channel op (e :: ps)).prints =
      (eval channel e).prints ++ (evalOperands channel op ps).prints := by
  rw [evalOperands_cons, Outcome.prints_bind_of_ok h]
  rfl

theorem prints_nested (h : (eval channel (.binary op (.binary op ps :: qs))).result = .ok v) :
    (eval channel (.binary op (.binary op ps :: qs))).prints =
      (evalOperands channel op ps).prints ++ (evalOperands channel op qs).prints := by
  obtain ⟨z, ⟨x, xs, w, ys, hxs, hw, -⟩, -⟩ := eval_nested_eq_ok_iff.mp h
  have hinner : (eval channel (.binary op ps)).result = .ok (.number w) :=
    eval_binary_eq_ok_iff.mpr ⟨x, xs, w, hxs, hw, rfl⟩
  rw [prints_binary h, prints_operand hinner, prints_binary hinner]

/-! ## One operand -/

theorem eval_single_eq_ok_iff {e : Expr} :
    (eval channel (.binary op [e])).result = .ok v ↔
      (eval channel e).result = .ok v ∧ ∃ x, v = .number x := by
  rw [eval_binary_eq_ok_iff]
  constructor
  · rintro ⟨x, xs, y, hops, hy, hv⟩
    obtain ⟨z, zs, hz, hzs, hsplit⟩ := evalOperands_cons_eq_ok_iff.mp hops
    cases hzs
    obtain ⟨rfl, rfl⟩ := List.cons.inj hsplit
    obtain rfl := Except.ok.inj hy
    exact ⟨hv ▸ hz, z, hv.symm⟩
  · rintro ⟨hv, x, rfl⟩
    exact ⟨x, [], x, evalOperands_cons_eq_ok_iff.mpr ⟨x, [], hv, rfl, rfl⟩, rfl, rfl⟩

theorem prints_single {e : Expr} (h : (eval channel (.binary op [e])).result = .ok v) :
    (eval channel (.binary op [e])).prints = (eval channel e).prints := by
  obtain ⟨hv, x, rfl⟩ := eval_single_eq_ok_iff.mp h
  rw [prints_binary h, prints_operand hv, evalOperands_nil]
  exact List.append_nil _

/-! ## The law -/

/-- The call on a row of operands with the first `k` of them nested to the left. -/
def Expr.nestLeft (op : Arithmetic) (k : Nat) (params : List Expr) : Expr :=
  .binary op (.binary op (params.take k) :: params.drop k)

/-- **Arithmetic nests to the left.**  Wherever a row of operands is cut, the call
on the row ends in a value exactly when the call nested there does, in the same
value and with the same prints.  A call on one operand ends in the number that the
operand ends in. -/
theorem evaluate_nestLeft (channel : Channel) (op : Arithmetic) {params : List Expr} {k : Nat}
    (hleast : 1 ≤ k) (hmost : k ≤ params.length) :
    (∀ v, (evaluate channel (.binary op params)).result = .ok v ↔
      (evaluate channel (.nestLeft op k params)).result = .ok v) ∧
    (∀ v, (evaluate channel (.binary op params)).result = .ok v →
      (evaluate channel (.binary op params)).printed =
        (evaluate channel (.nestLeft op k params)).printed ∧
      (evaluate channel (.binary op params)).written =
        (evaluate channel (.nestLeft op k params)).written) ∧
    (∀ e x, (evaluate channel e).result = .ok (.number x) →
      (evaluate channel (.binary op [e])).result = .ok (.number x) ∧
      (evaluate channel (.binary op [e])).printed = (evaluate channel e).printed ∧
      (evaluate channel (.binary op [e])).written = (evaluate channel e).written) := by
  have hfirst : params.take k ≠ [] := by
    intro hnil
    have hlen := List.length_take_of_le hmost
    rw [hnil, List.length_nil] at hlen
    omega
  have hflat : Expr.binary op params = .binary op (params.take k ++ params.drop k) := by
    rw [List.take_append_drop]
  have hresult : ∀ v, (eval channel (.binary op params)).result = .ok v ↔
      (eval channel (.nestLeft op k params)).result = .ok v := by
    intro v
    rw [hflat, eval_flat_eq_ok_iff hfirst]
    exact eval_nested_eq_ok_iff.symm
  simp only [evaluate_eq_eval]
  refine ⟨hresult, ?_, ?_⟩
  · intro v hv
    have hnested := (hresult v).mp hv
    refine Outcome.seen_eq_of_prints_eq ?_
    rw [Expr.nestLeft, prints_nested hnested]
    rw [hflat] at hv ⊢
    exact prints_flat hfirst hv
  · intro e x hx
    have hsingle : (eval channel (.binary op [e])).result = .ok (.number x) :=
      eval_single_eq_ok_iff.mpr ⟨hx, x, rfl⟩
    exact ⟨hsingle, Outcome.seen_eq_of_prints_eq (prints_single hsingle)⟩

/-- The operands of `(- 10 (print 3) 2 1)`. -/
def loweredOperands : List Expr :=
  [.number "10", .unary .print (some (.number "3")), .number "2", .number "1"]

theorem evaluate_nestLeft_lowered :
    1 ≤ 2 ∧ 2 ≤ loweredOperands.length ∧
      (evaluate .write (.binary .subtract loweredOperands)).result = .ok (.number (.int64 4)) ∧
      (evaluate .write (.nestLeft .subtract 2 loweredOperands)).result =
        .ok (.number (.int64 4)) ∧
      (evaluate .write (.nestLeft .subtract 2 loweredOperands)).written = "3\n" := by
  have hleast : 1 ≤ 2 := by decide
  have hmost : 2 ≤ loweredOperands.length := by decide
  obtain ⟨hresult, hprints, -⟩ := evaluate_nestLeft .write .subtract hleast hmost
  have hvalue : (evaluate .write (.binary .subtract loweredOperands)).result =
      .ok (.number (.int64 4)) := rfl
  have hwritten : (evaluate .write (.binary .subtract loweredOperands)).written = "3\n" := rfl
  exact ⟨hleast, hmost, hvalue, (hresult _).mp hvalue, (hprints _ hvalue).2 ▸ hwritten⟩

end CallLang
