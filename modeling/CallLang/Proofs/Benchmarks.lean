/-
# `CallLang.Proofs.Benchmarks` — what the timed programs stand for, and their values

A timed program is known by its family and size: the expression that its text stands for
(`Benchmark.tree`), and the value of that in closed form (`Benchmark.value`).

| program | expression | value |
| :-- | :-- | :-- |
| wide sum | one sum of the numbers below `n` | `n * (n - 1) / 2` |
| deep sum | `n` sums, one in the other | `n` |
| nested conditionals | `n` conditionals, each in the first branch of the next | `1` |

The text is the written form of the expression (`Benchmark.toList_source`), and so it is
read back whole.  What a text repeats in front of its core and behind it are layers around
the core, as the calls of the expression are: one induction on the size, for any layer,
puts the two together (`Expr.written_iterate`).
-/
import Mathlib.Algebra.BigOperators.Intervals
import Mathlib.Algebra.BigOperators.Ring.Finset
import CallLang.Proofs.Sums
import CallLang.Timing.Benchmark

namespace CallLang

variable {channel : Channel} {e : Expr}

/-! ## The expressions -/

namespace Expr

/-- One more than an expression: `(+ 1 e)`. -/
def oneMore (e : Expr) : Expr :=
  .binary .add [.number "1", e]

/-- An expression behind a test that holds: `(if (< 1 2) e 0)`. -/
def ifLess (e : Expr) : Expr :=
  .conditional [.predicate .less [.number "1", .number "2"], e, .number "0"]

end Expr

namespace Benchmark

/-- The expression that a timed program stands for. -/
def tree (b : Benchmark) (n : Nat) : Expr :=
  match b with
  | .wideSum => .binary .add ((List.range n).map fun (i : Nat) => .number (integerText i))
  | .deepSum => Expr.oneMore^[n] (.number "0")
  | .nestedIf => Expr.ifLess^[n] (.number "1")

/-- The value of a timed program, in closed form. -/
def value (b : Benchmark) (n : Nat) : Nat :=
  match b with
  | .wideSum => n * (n - 1) / 2
  | .deepSum => n
  | .nestedIf => 1

end Benchmark

/-! ## Texts in layers -/

theorem repeated_succ (n : Nat) (text : String) :
    repeated (n + 1) text = text ++ repeated n text := by
  rw [repeated, List.replicate_succ, String.join_cons, repeated]

theorem repeated_succ' (n : Nat) (text : String) :
    repeated (n + 1) text = repeated n text ++ text := by
  rw [repeated, List.replicate_succ', String.join_append, String.join_cons, String.join_nil,
    String.append_empty, repeated]

namespace Expr

/-- Texts repeated in front of a core and behind it are layers around it. -/
theorem written_iterate {layer : Expr → Expr} {front back : String}
    (h : ∀ e, (layer e).written = front.toList ++ e.written ++ back.toList) (e : Expr) (n : Nat) :
    (layer^[n] e).written =
      (repeated n front).toList ++ e.written ++ (repeated n back).toList := by
  induction n with
  | zero => exact (List.append_nil _).symm
  | succ n ih =>
      -- the outermost layer has the first text in front and the last one behind
      rw [Function.iterate_succ_apply', h, ih, repeated_succ n front, repeated_succ' n back]
      simp only [String.toList_append, List.append_assoc]

theorem written_oneMore (e : Expr) :
    e.oneMore.written = "(+ 1 ".toList ++ e.written ++ ")".toList := by
  simp [oneMore, written, writtenAll, callText, Operator.text, Arithmetic.sign]

theorem written_ifLess (e : Expr) :
    e.ifLess.written = "(if (< 1 2) ".toList ++ e.written ++ " 0)".toList := by
  simp [ifLess, written, writtenAll, callText, Operator.text, Comparison.sign]

theorem writtenAll_eq_intercalate {params : List Expr} (h : params ≠ []) :
    writtenAll params = ' ' :: [' '].intercalate (params.map written) := by
  induction params with
  | nil => exact absurd rfl h
  | cons p params ih =>
      cases params with
      | nil => simp [writtenAll]
      | cons q params =>
          rw [writtenAll, ih (List.cons_ne_nil q params)]
          simp [List.intercalate_cons_cons]

end Expr

namespace Benchmark

variable {b : Benchmark} {n : Nat}

theorem numbers_ne_nil (hn : 1 ≤ n) :
    (List.range n).map (fun (i : Nat) => Expr.number (integerText i)) ≠ [] := by
  simpa using Nat.one_le_iff_ne_zero.mp hn

theorem toList_source (b : Benchmark) (hn : 1 ≤ n) :
    (b.source n).toList = (b.tree n).written := by
  cases b with
  | wideSum =>
      rw [tree, Expr.written, Expr.writtenAll_eq_intercalate (numbers_ne_nil hn)]
      simp [source, CallLang.wideSum, Expr.callText, Operator.text, Arithmetic.sign, Expr.written,
        Function.comp_def]
  | deepSum =>
      rw [tree, Expr.written_iterate Expr.written_oneMore]
      simp [source, CallLang.deepSum, Expr.written]
  | nestedIf =>
      rw [tree, Expr.written_iterate Expr.written_ifLess]
      simp [source, CallLang.nestedIf, Expr.written]

end Benchmark

/-! ## The sums -/

namespace Benchmark

variable {n : Nat}

theorem isSum_wideSum (hn : 1 ≤ n) : (wideSum.tree n).IsSum :=
  .add (numbers_ne_nil hn) (List.forall_mem_map.mpr fun k _ => .number k)

theorem exactValue_wideSum (n : Nat) : (wideSum.tree n).exactValue = wideSum.value n := by
  have hgauss : (List.range n).sum = n * (n - 1) / 2 := by
    rw [← Finset.sum_range_id, Finset.sum_eq_multiset_sum, Multiset.map_id', Finset.range_val,
      ← Multiset.coe_range, Multiset.sum_coe]
  have hvalues : ((List.range n).map fun (i : Nat) => Expr.number (integerText i)).map
      Expr.exactValue = (List.range n).map Nat.cast := by
    rw [List.map_map]
    refine List.map_congr_left ?_
    intro k _
    rw [Function.comp_apply, Expr.exactValue_integerText]
  rw [tree, Expr.exactValue_add, hvalues, value, ← hgauss, Nat.cast_list_sum]

theorem isSum_deepSum (n : Nat) : (deepSum.tree n).IsSum := by
  refine Function.Iterate.rec Expr.IsSum (.number 0) ?_ n
  intro e he
  refine .add (List.cons_ne_nil _ _) ?_
  exact List.forall_mem_cons.mpr ⟨.number 1, List.forall_mem_singleton.mpr he⟩

theorem exactValue_deepSum (n : Nat) : (deepSum.tree n).exactValue = deepSum.value n := by
  simp only [tree, value]
  induction n with
  | zero => exact Expr.exactValue_integerText 0
  | succ n ih =>
      have hone : (Expr.number "1").exactValue = 1 := Expr.exactValue_integerText 1
      rw [Function.iterate_succ_apply', Expr.oneMore, Expr.exactValue_add, List.map_cons,
        List.map_singleton, List.sum_cons, List.sum_singleton, ih, hone]
      omega

end Benchmark

/-! ## The nested conditionals -/

namespace Expr

theorem eval_ifLess {v : Value} (h : (eval channel e).result = .ok v) :
    (eval channel e.ifLess).result = .ok v := by
  have htest : (eval channel (.predicate .less [.number "1", .number "2"])).result =
      .ok (.boolean true) := rfl
  exact eval_conditional_eq_ok_iff.mpr ⟨_, _, _, true, rfl, htest, h⟩

theorem IsParam.ifLess (h : e.IsParam) : e.ifLess.IsParam := by
  have hnumber : ∀ k : Nat, (Expr.number (integerText k)).IsParam :=
    fun k => (IsSum.number k).isParam
  have htest : (Expr.predicate .less [.number "1", .number "2"]).IsParam := by
    refine .call (.predicate ?_)
    exact List.forall_mem_cons.mpr ⟨hnumber 1, List.forall_mem_singleton.mpr (hnumber 2)⟩
  refine .call (.conditional (List.forall_mem_cons.mpr ⟨htest, ?_⟩))
  exact List.forall_mem_cons.mpr ⟨h, List.forall_mem_singleton.mpr (hnumber 0)⟩

theorem printNodes_ifLess (e : Expr) : e.ifLess.printNodes = e.printNodes := by
  simp [ifLess, printNodes, printNodesAll]

end Expr

/-! ## Runs -/

theorem Expr.IsParam.isProgram (h : e.IsParam) (hchildren : e.children ≠ []) : e.IsProgram := by
  cases h with
  | number _ | string _ => exact absurd rfl hchildren
  | call h => exact h

theorem Expr.seen_eq_nil (h : e.printNodes = []) :
    (eval channel e).printed = [] ∧ (eval channel e).written = "" := by
  have hdraws := eval_draws channel e
  rw [h] at hdraws
  have hnone : (eval channel e).prints = (pure () : Outcome EvalError Unit).prints :=
    hdraws.prints_eq_nil
  exact Outcome.seen_eq_of_prints_eq hnone

namespace Benchmark

variable {n : Nat}

theorem isParam_tree (b : Benchmark) (hn : 1 ≤ n) : (b.tree n).IsParam := by
  cases b with
  | wideSum => exact (isSum_wideSum hn).isParam
  | deepSum => exact (isSum_deepSum n).isParam
  | nestedIf =>
      have hcore : (Expr.number "1").IsParam := (Expr.IsSum.number 1).isParam
      exact Function.Iterate.rec Expr.IsParam hcore (fun _ he => he.ifLess) n

theorem children_tree_ne_nil (b : Benchmark) (hn : 1 ≤ n) : (b.tree n).children ≠ [] := by
  obtain ⟨m, rfl⟩ := Nat.exists_eq_add_of_le' hn
  cases b with
  | wideSum => exact numbers_ne_nil hn
  | deepSum | nestedIf =>
      rw [tree, Function.iterate_succ_apply']
      exact List.cons_ne_nil _ _

theorem printNodes_tree (b : Benchmark) (hn : 1 ≤ n) : (b.tree n).printNodes = [] := by
  cases b with
  | wideSum => exact (isSum_wideSum hn).printNodes_eq_nil
  | deepSum => exact (isSum_deepSum n).printNodes_eq_nil
  | nestedIf =>
      refine Function.Iterate.rec (fun e : Expr => e.printNodes = []) rfl ?_ n
      intro e he
      rw [e.printNodes_ifLess, he]

theorem exists_value_tree (b : Benchmark) (hn : 1 ≤ n) (h : b.value n < 2 ^ 63)
    (channel : Channel) :
    ∃ v, (eval channel (b.tree n)).result = .ok v ∧ v.IsInt64 (b.value n) := by
  cases b with
  | wideSum => exact (isSum_wideSum hn).exists_value channel (exactValue_wideSum n) h
  | deepSum => exact (isSum_deepSum n).exists_value channel (exactValue_deepSum n) h
  | nestedIf =>
      have hcore : (Expr.number "1").exactValue = (1 : Nat) := Expr.exactValue_integerText 1
      obtain ⟨v, hv, hone⟩ := (Expr.IsSum.number 1).exists_value channel hcore h
      refine ⟨v, ?_, hone⟩
      exact Function.Iterate.rec (fun e => (eval channel e).result = .ok v) hv
        (fun _ he => Expr.eval_ifLess he) n

theorem lt_of_value_tree (b : Benchmark) (hn : 1 ≤ n) {v : Value}
    (h : (eval channel (b.tree n)).result = .ok v) : b.value n < 2 ^ 63 := by
  cases b with
  | wideSum => exact (isSum_wideSum hn).lt_of_value (exactValue_wideSum n) h
  | deepSum => exact (isSum_deepSum n).lt_of_value (exactValue_deepSum n) h
  | nestedIf => exact Nat.one_lt_two_pow (by decide)

/-- The text of a timed program is read to its end. -/
theorem parseWithRest_source (b : Benchmark) (hn : 1 ≤ n) :
    parseWithRest (tokenize (b.source n)) = .ok (b.tree n, (tokenize (b.source n)).length) := by
  have hderives := ((b.isParam_tree hn).isProgram (b.children_tree_ne_nil hn)).derives
  rw [← toList_source b hn, String.ofList_toList] at hderives
  have hread := parseWithRest_append hderives []
  rwa [List.append_nil] at hread

end Benchmark

/-- **The timed programs.**  The text of a timed program whose size is not zero is read to
its end, and stands for the expression of its family and size.  Run, it ends in its value,
as a 64-bit integer; where 64 bits do not hold that, it ends in no value.  It prints
nothing. -/
theorem benchmark_runs (b : Benchmark) {n : Nat} (hn : 1 ≤ n) :
    parseWithRest (tokenize (b.source n)) = .ok (b.tree n, (tokenize (b.source n)).length) ∧
    ∀ channel,
      (b.value n < 2 ^ 63 →
        ∃ v, (run channel (b.source n)).result = .ok v ∧ v.IsInt64 (b.value n)) ∧
      (2 ^ 63 ≤ b.value n → ∀ v, (run channel (b.source n)).result ≠ .ok v) ∧
      (run channel (b.source n)).printed = [] ∧ (run channel (b.source n)).written = "" := by
  have hparse := b.parseWithRest_source hn
  have hread : parseSource (b.source n) = .ok (b.tree n) := by
    rw [parseSource, parse, hparse]
    rfl
  refine ⟨hparse, ?_⟩
  intro channel
  rw [run_of_parse_ok hread]
  refine ⟨?_, ?_, Expr.seen_eq_nil (b.printNodes_tree hn)⟩
  · intro hfits
    obtain ⟨v, hv, hvalue⟩ := b.exists_value_tree hn hfits channel
    exact ⟨v, Outcome.result_mapError_eq_ok_iff.mpr hv, hvalue⟩
  · intro hlarge v hv
    have hlt := b.lt_of_value_tree hn (Outcome.result_mapError_eq_ok_iff.mp hv)
    omega

/-- Two conditionals, one in the other; the greatest wide sum that 64 bits hold; and the
next one, which they do not. -/
theorem benchmark_runs_edges :
    parseWithRest (tokenize "(if (< 1 2) (if (< 1 2) 1 0) 0)") =
      .ok (.conditional [.predicate .less [.number "1", .number "2"],
        .conditional [.predicate .less [.number "1", .number "2"], .number "1", .number "0"],
        .number "0"], 19) ∧
    (1 ≤ 4294967296 ∧ Benchmark.wideSum.value 4294967296 < 2 ^ 63 ∧
      ∃ v, (run .write (Benchmark.wideSum.source (4294967296 : Nat))).result = .ok v ∧
        v.IsInt64 9223372034707292160) ∧
    (1 ≤ 4294967297 ∧ 2 ^ 63 ≤ Benchmark.wideSum.value 4294967297 ∧
      ∀ v, (run .write (Benchmark.wideSum.source (4294967297 : Nat))).result ≠ .ok v) := by
  refine ⟨(benchmark_runs .nestedIf (n := 2) (by decide)).1, ⟨by decide, by decide, ?_⟩,
    by decide, by decide, ?_⟩
  · have hvalue : Benchmark.wideSum.value 4294967296 = 9223372034707292160 := by decide
    obtain ⟨hfits, -⟩ := (benchmark_runs .wideSum (n := 4294967296) (by decide)).2 .write
    rw [hvalue] at hfits
    exact hfits (by decide)
  · obtain ⟨-, hlarge, -⟩ := (benchmark_runs .wideSum (n := 4294967297) (by decide)).2 .write
    exact hlarge (by decide)

end CallLang
