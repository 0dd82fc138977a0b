/-
# `CallLang.Proofs.Chains` — predicates on a row of values

A predicate compares each of its values with the next one, all the way to the
end: a pair for which it fails does not keep a later one from being refused.  So
although it looks at neighbours only,

  * it refuses the row for what holds of the row as a whole, that its values are
    not of one kind, or are booleans which are to be ordered (`Comparison.Rejects`);
    the report is about the leftmost pair of neighbours at which that shows
    (`Comparison.RefusesRow`);
  * where neighbours are in order, all values are, since the relations on integers
    and on texts are transitive (`Comparison.isChain_relates_iff`).  Being unequal is
    not, and says something of neighbours only.
-/
import Mathlib.Data.Int.Order.Basic
import Mathlib.Data.List.Chain
import Mathlib.Data.List.Lex
import Mathlib.Order.Lattice
import CallLang.Proofs.Order
import CallLang.Proofs.Rows
import CallLang.Proofs.Wrap

namespace CallLang

/-! ## Neighbours that cannot be compared -/

namespace Comparison

variable {name : Comparison} {v w : Value} {vs ws : List Value}

/-- `name.Refuses v w report`: the values are of two kinds, or they are booleans and
the comparison orders; the report says which. -/
inductive Refuses (name : Comparison) (v w : Value) : String → Prop
  | mixed {k l : Kind} : v.kind = .ok k → w.kind = .ok l → k ≠ l →
      Refuses name v w (name.label ++ " cannot compare " ++ k.label ++ " with " ++ l.label ++ ".")
  | booleans : v.kind = .ok .boolean → w.kind = .ok .boolean → name ≠ .equal → name ≠ .notEqual →
      Refuses name v w (name.label ++ " is not defined for booleans.")

/-- `name.RefusesRow vs report`: there are neighbours in the row that cannot be
compared, and the report is about the leftmost ones. -/
inductive RefusesRow (name : Comparison) : List Value → String → Prop
  | here {v w : Value} {vs : List Value} {report : String} :
      name.Refuses v w report → RefusesRow name (v :: w :: vs) report
  | later {v w : Value} {vs : List Value} {report : String} :
      (∀ other, ¬ name.Refuses v w other) → RefusesRow name (w :: vs) report →
      RefusesRow name (v :: w :: vs) report

/-- `name.Rejects vs`: the values are not all of one kind, or all of them are
booleans and the comparison orders. -/
def Rejects (name : Comparison) (vs : List Value) : Prop :=
  (¬ ∃ k, ∀ v ∈ vs, v.kind = .ok k) ∨
    (∀ v ∈ vs, v.kind = .ok .boolean) ∧ name ≠ .equal ∧ name ≠ .notEqual

/-- The comparison holds of each value and the next one. -/
def Chains (name : Comparison) (vs : List Value) : Prop :=
  vs.IsChain fun v w => (compareValues name v w).result = .ok true

end Comparison

open Outcome (Ends)

namespace Value.Native

variable {v w : Value} {k l : Kind} {name : Comparison} {report : String}

theorem kind_eq_ok_iff (hv : v.Native k) : v.kind = .ok l ↔ l = k := by
  rw [hv.kind_eq, Except.ok.injEq, eq_comm]

theorem not_refuses (hv : v.Native k) (hw : w.Native k)
    (hname : k = .boolean → name = .equal ∨ name = .notEqual) : ¬ name.Refuses v w report := by
  intro h
  cases h with
  | mixed hk hl hne => exact hne ((hv.kind_eq_ok_iff.mp hk).trans (hw.kind_eq_ok_iff.mp hl).symm)
  | booleans hk _ hequal hnotEqual =>
      obtain rfl := hv.kind_eq_ok_iff.mp hk
      exact (hname rfl).elim hequal hnotEqual

end Value.Native

section Neighbours

variable {name : Comparison} {v w : Value} {k l : Kind}

theorem compareValues_refuses (hv : v.Native k) (hw : w.Native l) :
    Ends (fun err => err.errorClass? = some .kind ∧ name.Refuses v w err.message)
      (fun _ => ∀ report, ¬ name.Refuses v w report) (compareValues name v w) := by
  have hfaults : Ends (fun err => err.errorClass? = some .kind ∧ name.Refuses v w err.message)
      (fun _ => True) (compareValues name v w) := by
    refine (compareValues_faults hv hw).mono ?_
    rintro err (⟨hkind, rfl⟩ | ⟨⟨rfl, rfl⟩, ⟨hequal, hnotEqual⟩, rfl⟩)
    · exact ⟨rfl, .mixed hv.kind_eq hw.kind_eq hkind⟩
    · exact ⟨rfl, .booleans hv.kind_eq hw.kind_eq hequal hnotEqual⟩
  refine hfaults.of_result fun b hb report => ?_
  obtain ⟨rfl, hname⟩ := (compareValues_eq_ok_iff hv hw).mp ⟨b, hb⟩
  exact hv.not_refuses hw hname

/-- A row is compared to its end, or refused for the leftmost neighbours that cannot
be compared. -/
theorem comparePairs_refuses {ws : List Value} (hv : ∃ k, v.Native k)
    (hws : ∀ w ∈ ws, ∃ l, w.Native l) :
    Ends (fun err => err.errorClass? = some .kind ∧ name.RefusesRow (v :: ws) err.message)
      (fun _ => True) (comparePairs name v ws) := by
  induction ws generalizing v with
  | nil => trivial
  | cons w ws ih =>
      obtain ⟨hw, hrest⟩ := List.forall_mem_cons.mp hws
      obtain ⟨k, hk⟩ := hv
      obtain ⟨l, hl⟩ := hw
      have hpair : Ends
          (fun err => err.errorClass? = some .kind ∧ name.RefusesRow (v :: w :: ws) err.message)
          (fun _ => ∀ report, ¬ name.Refuses v w report) (compareValues name v w) :=
        (compareValues_refuses hk hl).mono fun err h => ⟨h.1, .here h.2⟩
      refine hpair.bind fun b hnot => ?_
      have hlater : Ends
          (fun err => err.errorClass? = some .kind ∧ name.RefusesRow (v :: w :: ws) err.message)
          (fun _ => True) (comparePairs name w ws) :=
        (ih ⟨l, hl⟩ hrest).mono fun err h => ⟨h.1, .later hnot h.2⟩
      exact hlater.map fun _ _ => trivial

theorem comparePairs_ok_iff_not_rejects {ws : List Value} (hv : v.Native k)
    (hws : ∀ w ∈ ws, ∃ l, w.Native l) (hne : ws ≠ []) :
    (∃ bs, (comparePairs name v ws).result = .ok bs) ↔ ¬ name.Rejects (v :: ws) := by
  rw [comparePairs_eq_ok_iff hv hws]
  constructor
  · rintro ⟨hall, hname⟩ (hkinds | ⟨hbooleans, hequal, hnotEqual⟩)
    · exact hkinds ⟨k, List.forall_mem_cons.mpr ⟨hv.kind_eq, fun w hw => (hall w hw).kind_eq⟩⟩
    · have hboolean := hv.kind_eq_ok_iff.mp (hbooleans v List.mem_cons_self)
      exact (hname hne hboolean.symm).elim hequal hnotEqual
  · intro hnot
    obtain ⟨hkinds, hbooleans⟩ := not_or.mp hnot
    obtain ⟨k', hall⟩ := not_not.mp hkinds
    obtain rfl := hv.kind_eq_ok_iff.mp (hall v List.mem_cons_self)
    refine ⟨?_, ?_⟩
    · intro w hw
      obtain ⟨l, hl⟩ := hws w hw
      obtain rfl := hl.kind_eq_ok_iff.mp (hall w (List.mem_cons_of_mem v hw))
      exact hl
    · rintro - rfl
      by_contra hname
      exact hbooleans ⟨hall, not_or.mp hname⟩

theorem comparePairs_all_iff {ws : List Value} :
    (∃ bs, (comparePairs name v ws).result = .ok bs ∧ bs.all id) ↔ name.Chains (v :: ws) := by
  induction ws generalizing v with
  | nil => exact iff_of_true ⟨[], rfl, rfl⟩ (.singleton v)
  | cons w ws ih =>
      rw [Comparison.Chains, List.isChain_cons_cons, ← Comparison.Chains, ← ih]
      simp only [comparePairs, Outcome.result_bind_eq_ok_iff, Outcome.result_map_eq_ok_iff]
      constructor
      · rintro ⟨_, ⟨b, hb, bs, hbs, rfl⟩, hall⟩
        obtain ⟨rfl, hrest⟩ := (Bool.and_eq_true _ _).mp (List.all_cons ▸ hall)
        exact ⟨hb, bs, hbs, hrest⟩
      · rintro ⟨hb, bs, hbs, hall⟩
        exact ⟨true :: bs, ⟨true, hb, bs, hbs, rfl⟩, hall⟩

end Neighbours

/-! ## From neighbours to all pairs -/

namespace Comparison

variable {α : Type}

/-- The relation that a comparison stands for on values in order. -/
def Relates [LT α] [LE α] : Comparison → α → α → Prop
  | .equal, a, b => a = b
  | .notEqual, a, b => a ≠ b
  | .less, a, b => a < b
  | .lessEqual, a, b => a ≤ b
  | .greater, a, b => a > b
  | .greaterEqual, a, b => a ≥ b

variable [LinearOrder α] {name : Comparison}

theorem holds_iff_relates {o : Ordering} {a b : α} (hlt : o = .lt ↔ a < b) (heq : o = .eq ↔ a = b) :
    name.holds (some o) ↔ name.Relates a b := by
  cases o with
  | lt =>
      have h : a < b := hlt.mp rfl
      cases name <;> simp [holds, Relates, h, h.le, h.ne, h.not_gt, h.not_ge]
  | eq =>
      obtain rfl : a = b := heq.mp rfl
      cases name <;> simp [holds, Relates]
  | gt =>
      have hle : b ≤ a := not_lt.mp (mt hlt.mpr (by decide))
      have h : b < a := lt_of_le_of_ne hle (mt (heq.mpr ∘ Eq.symm) (by decide))
      cases name <;> simp [holds, Relates, h, h.le, h.ne', h.not_gt, h.not_ge]

/-- Where neighbours are related, all are: each relation but being unequal is
transitive. -/
theorem isChain_relates_iff (hname : name ≠ .notEqual) {xs : List α} :
    xs.IsChain name.Relates ↔ xs.Pairwise name.Relates := by
  have htrans : ∀ a b c : α, name.Relates a b → name.Relates b c → name.Relates a c := by
    intro a b c
    cases name with
    | equal => exact Eq.trans
    | notEqual => exact absurd rfl hname
    | less => exact lt_trans
    | lessEqual => exact le_trans
    | greater => exact fun hab hbc => lt_trans hbc hab
    | greaterEqual => exact fun hab hbc => le_trans hbc hab
  have : Trans (α := α) name.Relates name.Relates name.Relates := ⟨htrans _ _ _⟩
  exact List.isChain_iff_pairwise

end Comparison

/-- The code points of a text. -/
def codePoints (s : String) : List Nat :=
  s.toList.map Char.toNat

theorem map_toNat_lt_iff {cs ds : List Char} :
    cs.map Char.toNat < ds.map Char.toNat ↔ cs < ds := by
  induction cs generalizing ds with
  | nil => cases ds <;> simp
  | cons c cs ih =>
      cases ds with
      | nil => simp
      | cons d ds =>
          have hchar : c.toNat < d.toNat ↔ c < d := Iff.rfl
          rw [List.map_cons, List.map_cons, List.cons_lt_cons_iff, List.cons_lt_cons_iff, ih, hchar,
            Char.toNat_inj]

theorem codePoints_lt_iff {s t : String} : codePoints s < codePoints t ↔ s < t :=
  map_toNat_lt_iff

theorem codePoints_inj {s t : String} : codePoints s = codePoints t ↔ s = t := by
  rw [codePoints, codePoints, (List.map_injective_iff.mpr fun _ _ => Char.toNat_inj.mp).eq_iff,
    String.toList_inj]

section Rows

variable {name : Comparison}

theorem compareValues_int64 {a b : Fixed .int64} :
    (compareValues name (.number (.int .int64 a)) (.number (.int .int64 b))).result = .ok true ↔
      name.Relates a.val b.val := by
  have horder : (Scalar.int .int64 a).order (.int .int64 b) = some (compare a.val b.val) := by
    rw [Scalar.order_eq, Scalar.pair_int64]
    rfl
  rw [compareValues_number, horder, Except.ok.injEq]
  exact Comparison.holds_iff_relates Int.compare_eq_lt Int.compare_eq_eq

theorem compareValues_string {s t : String} :
    (compareValues name (.string s) (.string t)).result = .ok true ↔
      name.Relates (codePoints s) (codePoints t) := by
  rw [compareValues_eq (.strings s t) name, Except.ok.injEq]
  refine Comparison.holds_iff_relates ?_ ?_
  · rw [codePoints_lt_iff]
    exact compareOfLessAndEq_eq_lt
  · rw [codePoints_inj]
    exact Std.compare_eq_iff_eq

theorem chains_map_iff {α β : Type} [LinearOrder β] {f : α → Value} {g : α → β}
    (hname : name ≠ .notEqual)
    (h : ∀ a b, (compareValues name (f a) (f b)).result = .ok true ↔ name.Relates (g a) (g b))
    (xs : List α) : name.Chains (xs.map f) ↔ (xs.map g).Pairwise name.Relates := by
  rw [← Comparison.isChain_relates_iff hname, Comparison.Chains, List.isChain_map, List.isChain_map]
  exact List.IsChain.iff h

end Rows

/-! ## The law of predicates -/

section Predicates

variable {channel : Channel} (name : Comparison) {params : List Expr} {vs : List Value}
  (hcount : 2 ≤ params.length) (h : EndIn channel params vs)

include hcount h

theorem printsRow_predicate :
    PrintsRow channel params (eval channel (.predicate name params)) := by
  have hvalues := evalAll_of_endIn h
  rw [eval_predicate_of_le hcount]
  have hsilent : Draws channel [] True (do
      let bs ← compareRow name vs
      pure (Value.boolean (bs.all id))) := (compareRow_draws name vs).bind_silent fun _ => .pure _
  exact printsRow_bind hvalues (prints_evalAll hvalues) hsilent

theorem eval_predicate_refuses :
    Ends (fun err => err.errorClass? = some .kind ∧ name.RefusesRow vs err.message)
      (fun _ => True) (eval channel (.predicate name params)) := by
  rw [eval_predicate_of_le hcount]
  refine Ends.bind_ok (evalAll_of_endIn h) ?_
  have hrow : Ends (fun err => err.errorClass? = some .kind ∧ name.RefusesRow vs err.message)
      (fun _ => True) (compareRow name vs) := by
    cases vs with
    | nil => trivial
    | cons v vs =>
        obtain ⟨hv, hrest⟩ := List.forall_mem_cons.mp h.native
        exact comparePairs_refuses hv hrest
  exact hrow.bind fun bs _ => Ends.pure trivial

/-- What the predicate comes to is what the row of its values comes to. -/
theorem eval_predicate_row_iff {v : Value} :
    (eval channel (.predicate name params)).result = .ok v ↔
      ∃ bs, (compareRow name vs).result = .ok bs ∧ .boolean (bs.all id) = v := by
  rw [eval_predicate_eq_ok_iff]
  constructor
  · rintro ⟨-, vs', bs, hvs', hbs, hv⟩
    obtain rfl := Except.ok.inj (hvs'.symm.trans (evalAll_of_endIn h))
    exact ⟨bs, hbs, hv⟩
  · rintro ⟨bs, hbs, hv⟩
    exact ⟨hcount, vs, bs, evalAll_of_endIn h, hbs, hv⟩

theorem EndIn.exists_cons : ∃ v w ws, vs = v :: w :: ws := by
  rw [h.length_eq] at hcount
  match vs, hcount with
  | v :: w :: ws, _ => exact ⟨v, w, ws, rfl⟩

theorem eval_predicate_ok_iff_not_rejects :
    (∃ b, (eval channel (.predicate name params)).result = .ok (.boolean b)) ↔
      ¬ name.Rejects vs := by
  obtain ⟨v, w, ws, rfl⟩ := h.exists_cons hcount
  obtain ⟨⟨k, hv⟩, hrest⟩ := List.forall_mem_cons.mp h.native
  rw [← comparePairs_ok_iff_not_rejects hv hrest (List.cons_ne_nil w ws)]
  constructor
  · rintro ⟨b, hb⟩
    obtain ⟨bs, hbs, -⟩ := (eval_predicate_row_iff name hcount h).mp hb
    exact ⟨bs, hbs⟩
  · rintro ⟨bs, hbs⟩
    exact ⟨_, (eval_predicate_row_iff name hcount h).mpr ⟨bs, hbs, rfl⟩⟩

theorem eval_predicate_true_iff :
    (eval channel (.predicate name params)).result = .ok (.boolean true) ↔ name.Chains vs := by
  obtain ⟨v, w, ws, rfl⟩ := h.exists_cons hcount
  rw [eval_predicate_row_iff name hcount h, ← comparePairs_all_iff]
  simp only [compareRow, Value.boolean.injEq]

/-- **Predicates on a row of values.**  Where all parameters end in values, a
predicate prints what they print.  It refuses the values if they are not of one
kind, or are booleans to be ordered, and reports the leftmost neighbours at which
that shows; else it ends in a boolean, which says whether the comparison holds of
all neighbours.  On integers, and on texts by their code points, that is to say of
all pairs, unless the comparison is for being unequal. -/
theorem evaluate_predicate_row :
    PrintsRow channel params (evaluate channel (.predicate name params)) ∧
    ((∃ err, (evaluate channel (.predicate name params)).result = .error err ∧
        err.errorClass? = some .kind) ↔ name.Rejects vs) ∧
    (∀ err, (evaluate channel (.predicate name params)).result = .error err →
      err.errorClass? = some .kind ∧ name.RefusesRow vs err.message) ∧
    (¬ name.Rejects vs → ∃ b, (evaluate channel (.predicate name params)).result =
      .ok (.boolean b) ∧ (b = true ↔ name.Chains vs)) ∧
    (name ≠ .notEqual → ∀ ns : List (Fixed .int64), vs = ns.map (fun n => .number (.int .int64 n)) →
      ((evaluate channel (.predicate name params)).result = .ok (.boolean true) ↔
        (ns.map fun n => n.val).Pairwise name.Relates)) ∧
    (name ≠ .notEqual → ∀ ss : List String, vs = ss.map .string →
      ((evaluate channel (.predicate name params)).result = .ok (.boolean true) ↔
        (ss.map codePoints).Pairwise name.Relates)) := by
  have hends := eval_predicate_refuses name hcount h
  have hok := eval_predicate_ok_iff_not_rejects name hcount h
  have htrue := eval_predicate_true_iff name hcount h
  simp only [evaluate_eq_eval]
  refine ⟨printsRow_predicate name hcount h, ?_, fun err => hends.of_error, ?_, ?_, ?_⟩
  · constructor
    · rintro ⟨err, herr, -⟩
      by_contra hnot
      obtain ⟨b, hb⟩ := hok.mpr hnot
      exact nomatch hb.symm.trans herr
    · intro hrejects
      cases hres : (eval channel (.predicate name params)).result with
      | ok v =>
          obtain ⟨bs, -, rfl⟩ := (eval_predicate_row_iff name hcount h).mp hres
          exact absurd hrejects (hok.mp ⟨_, hres⟩)
      | error err => exact ⟨err, rfl, (hends.of_error hres).1⟩
  · intro hnot
    obtain ⟨b, hb⟩ := hok.mpr hnot
    refine ⟨b, hb, ?_⟩
    rw [← htrue, hb, Except.ok.injEq, Value.boolean.injEq]
  · rintro hname ns rfl
    rw [htrue]
    exact chains_map_iff hname (fun a b => compareValues_int64) ns
  · rintro hname ss rfl
    rw [htrue]
    exact chains_map_iff hname (fun s t => compareValues_string) ss

end Predicates

/-- The parameters of `(< 2 1 (print "a"))`. -/
def fallingThenText : List Expr :=
  [.number "2", .number "1", .unary .print (some (.string "a"))]

/-- The pair that is not in order comes first, and does not hide the text behind it. -/
theorem evaluate_predicate_row_fallingThenText :
    2 ≤ fallingThenText.length ∧
      EndIn .write fallingThenText [.number (.int64 2), .number (.int64 1), .string "a"] ∧
      (evaluate .write (.predicate .less fallingThenText)).written = "a\n" ∧
      ∃ err, (evaluate .write (.predicate .less fallingThenText)).result = .error err ∧
        err.errorClass? = some .kind ∧
        Comparison.less.RefusesRow [.number (.int64 2), .number (.int64 1), .string "a"]
          "LESS_THAN cannot compare number with string." := by
  have hcount : 2 ≤ fallingThenText.length := by decide
  have hends : EndIn .write fallingThenText
      [.number (.int64 2), .number (.int64 1), .string "a"] :=
    .cons rfl (.cons rfl (.cons rfl .nil))
  obtain ⟨⟨-, hwritten⟩, -, hreports, -⟩ := evaluate_predicate_row .less hcount hends
  have herr : (evaluate .write (.predicate .less fallingThenText)).result =
      .error (.mixedKinds .less .number .string) := rfl
  obtain ⟨hclass, hreport⟩ := hreports _ herr
  exact ⟨hcount, hends, hwritten, _, herr, hclass, hreport⟩

end CallLang
