/-
# `CallLang.Proofs.Endings` — how the run of a source text can end

An evaluation has guards for trees and values that a caller may hand in: nodes
of unknown classes, number texts that are none, values without a kind.  A source
text runs into none of them.  Besides, the host breaks a run off where its stack is
used up, and in no other case (`runWithin_endings`).  Two facts carry this:

| | |
| :-- | :-- |
| `Value.Ordinary` | the values of any tree are strings, booleans, and 64-bit numbers |
| `EvalError.Fault` | a tree that was read from a text fails for one of nine reasons |

The first is kept by each kernel.  The second needs what the reader of source
texts promises of its trees (`Expr.IsParam`): a number in them is a numeral, and
the one operator with a single operand is the print.
-/
import CallLang.Proofs.Kinds
import CallLang.Proofs.PrintOrder
import CallLang.Proofs.RoundTrip
import CallLang.Proofs.Stack
import CallLang.Proofs.Wrap
import CallLang.Run

namespace CallLang

/-! ## The values of programs -/

/-- A number of 64 bits. -/
inductive Scalar.Wide : Scalar → Prop
  | int (n : Fixed .int64) : Wide (.int .int64 n)
  | float (x : Binary Format.binary64) : Wide (.float .double x)

/-- A string, a boolean, or a number of 64 bits. -/
inductive Value.Ordinary : Value → Prop
  | string (s : String) : Ordinary (.string s)
  | boolean (b : Bool) : Ordinary (.boolean b)
  | number {x : Scalar} : x.Wide → Ordinary (.number x)

theorem wide_of_readNumber {text : String} {x : Scalar} (h : readNumber text = .ok x) :
    x.Wide := by
  unfold readNumber at h
  split at h
  · cases h
  · split at h
    · split at h
      · cases h
      · split at h
        · cases h
          exact .int _
        · cases h
    · simp only at h
      split at h
      · cases h
        exact .float _
      · cases h

namespace Scalar

variable {op : Arithmetic} {x y z : Scalar}

theorem Wide.kernel (hx : x.Wide) (hy : y.Wide) : (kernel op x y).Wide := by
  cases hx with
  | int a =>
      cases hy with
      | int b =>
          simp only [Scalar.kernel, pair_int64]
          cases op with
          | divide => exact .float _
          | add | subtract | multiply => exact .int _
      | float b => exact .float _
  | float a =>
      cases hy with
      | int b => exact .float _
      | float b => exact .float _

theorem eq_kernel_of_step? (h : x.step? op y = some z) : z = Scalar.kernel op x y := by
  unfold step? at h
  simp only at h
  split at h
  · split at h
    · exact (Option.some.inj h).symm
    · cases h
  · exact (Option.some.inj h).symm

end Scalar

theorem wide_of_foldOperands {op : Arithmetic} {x z : Scalar} {ys : List Scalar} (hx : x.Wide)
    (hys : ∀ y ∈ ys, y.Wide) (h : foldOperands op x ys = .ok z) : z.Wide := by
  induction ys generalizing x with
  | nil =>
      obtain rfl := Except.ok.inj h
      exact hx
  | cons y ys ih =>
      obtain ⟨hy, hrest⟩ := List.forall_mem_cons.mp hys
      unfold foldOperands at h
      split at h
      · cases h
      · split at h
        next w hstep =>
            have hw : w.Wide := by
              rw [Scalar.eq_kernel_of_step? hstep]
              exact hx.kernel hy
            exact ih hw hrest h
        next => cases h

variable {channel : Channel}

/-- Every value that an evaluation ends in is a string, a boolean, or a number of
64 bits. -/
theorem ordinary_of_eval {e : Expr} {v : Value} (h : (eval channel e).result = .ok v) :
    v.Ordinary := by
  induction e using Expr.tree_induction generalizing v with
  | number text =>
      obtain ⟨x, hx, rfl⟩ := eval_number_eq_ok_iff.mp h
      exact .number (wide_of_readNumber hx)
  | string text =>
      obtain rfl := eval_string_eq_ok_iff.mp h
      exact .string text
  | conditional params ih =>
      obtain ⟨test, yes, no, b, rfl, -, hbranch⟩ := eval_conditional_eq_ok_iff.mp h
      exact ih (if b then yes else no) (by cases b <;> simp) hbranch
  | predicate name params ih =>
      obtain ⟨-, vs, bs, -, -, rfl⟩ := eval_predicate_eq_ok_iff.mp h
      exact .boolean _
  | binary op params ih =>
      obtain ⟨x, xs, y, hops, hfold, rfl⟩ := eval_binary_eq_ok_iff.mp h
      have hwide : ∀ z ∈ x :: xs, z.Wide := by
        intro z hz
        have hrow := (evalOperands_eq_ok_iff.mp hops).flip
        obtain ⟨p, hp, v, hv, hvz⟩ := forall₂_mem_left hrow z hz
        obtain ⟨k, hk⟩ := native_of_eval hv
        obtain rfl := hk.asNumber_eq_ok_iff.mp hvz
        cases ih p hp hv with
        | number hwide => exact hwide
      obtain ⟨hx, hxs⟩ := List.forall_mem_cons.mp hwide
      exact .number (wide_of_foldOperands hx hxs hfold)
  | unary name param ih =>
      obtain ⟨p, -, rfl, hp, -⟩ := eval_unary_eq_ok_iff.mp h
      exact ih p rfl hp
  | foreign typeName => exact absurd h eval_foreign_ne_ok

/-! ## The faults of programs -/

/-- The reasons for which a program can fail, when `texts` are the number texts
in it. -/
inductive EvalError.Fault (texts : String → Prop) : EvalError → Prop
  | arity (label : String) (fault : ArityFault) : Fault texts (.arity label fault)
  | outOfRange (text : String) : Fault texts (.numeralOutOfRange text)
  | tooManyDigits {text : String} {m : Numeral} :
      texts text → Numeral.ofText? text = some m → m.isInteger →
      maxIntegerDigits < m.whole.length → Fault texts (.tooManyDigits m.whole.length)
  | operand (op : Arithmetic) (k : Kind) : Fault texts (.notANumber op.label k)
  | test (k : Kind) : Fault texts (.notABoolean k)
  | mixedKinds (name : Comparison) (k l : Kind) : Fault texts (.mixedKinds name k l)
  | unordered (name : Comparison) : Fault texts (.unorderedBooleans name)
  | division : Fault texts .divisionByZero
  | overflow (op : Arithmetic) : Fault texts (.integerOverflow op)

open EvalError (Fault)
open Outcome (Ends)

section Faults

variable {texts : String → Prop}

theorem readNumber_ends {text : String} (htext : texts text) (hnum : IsNumeral text.toList) :
    Ends (Fault texts) (fun _ => True) (.ofExcept (readNumber text)) := by
  have hread : (Numeral.ofText? text).isSome := by
    rw [Numeral.ofText?, dropFinalNewline_of_isWordChar hnum.isWordChar.2]
    exact Numeral.read?_isSome_iff.mpr hnum
  obtain ⟨m, hm⟩ := Option.isSome_iff_exists.mp hread
  simp only [readNumber, hm]
  split
  next hint =>
    split
    next hlong => exact Fault.tooManyDigits htext hm hint hlong
    next =>
      split
      · trivial
      · exact Fault.outOfRange text
  next =>
    split
    · trivial
    · exact Fault.outOfRange text

theorem checkArity_ends (label : String) (a : Arity) (count : Nat) :
    Ends (Fault texts) (fun _ => True) (.ofExcept (checkArity label a count)) := by
  unfold checkArity
  split
  · trivial
  · exact Fault.arity label _

theorem EvalError.IsArithmetic.fault {err : EvalError} (h : err.IsArithmetic) :
    Fault texts err := by
  cases err with
  | divisionByZero => exact .division
  | integerOverflow op => exact .overflow op
  | _ => rcases h with h | h <;> cases h

theorem arithmeticResult_ends (op : Arithmetic) (xs : List Scalar) :
    Ends (Fault texts) (fun _ => True) (arithmeticResult op xs) := by
  cases xs with
  | nil => exact Fault.arity op.label _
  | cons x xs =>
      have hfold : Ends (Fault texts) (fun _ => True) (.ofExcept (foldOperands op x xs)) :=
        (foldOperands_ends op x xs).mono fun err h => h.fault
      exact Ends.bind_ok rfl (hfold.bind fun y _ => Ends.pure trivial)

theorem compareValues_ends {name : Comparison} {v w : Value} {k l : Kind} (hv : v.Native k)
    (hw : w.Native l) : Ends (Fault texts) (fun _ => True) (compareValues name v w) := by
  refine (compareValues_faults hv hw).mono ?_
  rintro err (⟨-, rfl⟩ | ⟨-, -, rfl⟩)
  · exact .mixedKinds name k l
  · exact .unordered name

theorem comparePairs_ends {name : Comparison} {v : Value} {ws : List Value}
    (hv : ∃ k, v.Native k) (hws : ∀ w ∈ ws, ∃ k, w.Native k) :
    Ends (Fault texts) (fun _ => True) (comparePairs name v ws) := by
  induction ws generalizing v with
  | nil => trivial
  | cons w ws ih =>
      obtain ⟨hw, hrest⟩ := List.forall_mem_cons.mp hws
      obtain ⟨k, hk⟩ := hv
      obtain ⟨l, hl⟩ := hw
      exact (compareValues_ends hk hl).bind fun b _ => (ih ⟨l, hl⟩ hrest).map fun _ _ => trivial

theorem compareRow_ends {name : Comparison} {vs : List Value} (hvs : ∀ v ∈ vs, ∃ k, v.Native k) :
    Ends (Fault texts) (fun _ => True) (compareRow name vs) := by
  cases vs with
  | nil => trivial
  | cons v vs =>
      obtain ⟨hv, hrest⟩ := List.forall_mem_cons.mp hvs
      exact comparePairs_ends hv hrest

theorem asNumber_ends {op : Arithmetic} {v : Value} {k : Kind} (hv : v.Native k) :
    Ends (Fault texts) (fun _ => True) (.ofExcept (v.asNumber op.label)) := by
  cases hv with
  | number x => trivial
  | boolean b => exact Fault.operand op .boolean
  | string s => exact Fault.operand op .string

theorem asTest_ends {v : Value} {k : Kind} (hv : v.Native k) :
    Ends (Fault texts) (fun _ => True) (.ofExcept (asTest v)) := by
  cases hv with
  | number x => exact Fault.test .number
  | boolean b => trivial
  | string s => exact Fault.test .string

/-! ### Rows of parameters, and trees -/

theorem evalOperands_faults (op : Arithmetic) {ps : List Expr}
    (h : ∀ p ∈ ps, Ends (Fault texts) (fun v => ∃ k, v.Native k) (eval channel p)) :
    Ends (Fault texts) (fun _ => True) (evalOperands channel op ps) := by
  induction ps with
  | nil => trivial
  | cons p ps ih =>
      obtain ⟨hp, hps⟩ := List.forall_mem_cons.mp h
      rw [evalOperands_cons]
      refine hp.bind ?_
      rintro v ⟨k, hv⟩
      exact (asNumber_ends hv).bind fun x _ => (ih hps).map fun _ _ => trivial

/-- A tree that was read from a text fails for one of the reasons for which
programs fail. -/
theorem eval_faults {e : Expr} (he : e.IsParam)
    (htexts : ∀ text, (Expr.number text).Within e → texts text) :
    Ends (Fault texts) (fun v => ∃ k, v.Native k) (eval channel e) := by
  induction e using Expr.tree_induction with
  | number text =>
      cases he with
      | number hnum =>
          have hread := readNumber_ends (htexts text .self) hnum
          exact hread.bind fun x _ => Ends.pure ⟨_, .number x⟩
      | call h => cases h
  | string text => exact Ends.pure ⟨_, .string text⟩
  | conditional params ih =>
      have hchild := fun p hp => ih p hp (he.child hp) fun text ht => htexts text (.child hp ht)
      by_cases hlen : params.length = 3
      · obtain ⟨test, yes, no, rfl⟩ := List.length_eq_three.mp hlen
        rw [eval_conditional]
        refine (hchild test (by simp)).bind ?_
        rintro v ⟨k, hv⟩
        refine (asTest_ends hv).bind fun b _ => ?_
        cases b with
        | true => exact hchild yes (by simp)
        | false => exact hchild no (by simp)
      · rw [eval_conditional_of_ne hlen]
        exact Fault.arity "if" _
  | predicate name params ih =>
      have hvals := evalAll_ends fun p hp =>
        ih p hp (he.child hp) fun text ht => htexts text (.child hp ht)
      rw [eval_predicate]
      refine (checkArity_ends _ _ _).bind fun _ _ => hvals.bind ?_
      rintro vs ⟨-, hvs⟩
      exact (compareRow_ends hvs).bind fun bs _ => Ends.pure ⟨_, .boolean _⟩
  | binary op params ih =>
      have hops := evalOperands_faults op fun p hp =>
        ih p hp (he.child hp) fun text ht => htexts text (.child hp ht)
      refine Ends.of_result (P := fun _ => True) ?_ fun _ hv => native_of_eval hv
      rw [eval_binary]
      refine (checkArity_ends _ _ _).bind fun _ _ => hops.bind fun xs _ => ?_
      exact arithmeticResult_ends op xs
  | unary name param ih =>
      cases he with
      | call h =>
          cases h with
          | print hparam =>
              cases param with
              | none => exact Fault.arity "PRINT" _
              | some p =>
                  have hp := ih p rfl (hparam p rfl) fun text ht =>
                    htexts text (.child (List.mem_singleton.mpr rfl) ht)
                  rw [eval_print]
                  refine hp.bind ?_
                  rintro v ⟨k, hv⟩
                  exact Ends.bind_ok (hv.result_emit channel) (Ends.pure ⟨k, hv⟩)
  | foreign typeName =>
      cases he with
      | call h => cases h

end Faults

/-! ## What is reported -/

/-- The beginnings of the reports of faults that no program has. -/
def foreignReports : List String :=
  ["Invalid numeric literal", "Unsupported runtime type", "Expected a scalar", "result: "]

/-- A text that begins neither as one of those reports nor with one of them. -/
def Apart (text : String) : Prop :=
  ∀ start ∈ foreignReports, ¬ start.toList <+: text.toList ∧ ¬ text.toList <+: start.toList

instance (text : String) : Decidable (Apart text) :=
  inferInstanceAs (Decidable (∀ start ∈ foreignReports, _))

theorem Apart.append {text : String} (h : Apart text) (more : String) :
    ∀ start ∈ foreignReports, ¬ start.toList <+: (text ++ more).toList := by
  intro start hstart hprefix
  obtain ⟨hleft, hright⟩ := h start hstart
  rw [String.toList_append] at hprefix
  rcases List.prefix_or_prefix_of_prefix hprefix (List.prefix_append _ _) with h | h
  · exact hleft h
  · exact hright h

theorem Arithmetic.apart_label (op : Arithmetic) : Apart op.label := by
  cases op <;> decide

theorem Comparison.apart_label (name : Comparison) : Apart name.label := by
  cases name <;> decide

theorem EvalError.Fault.opening {texts : String → Prop} {err : EvalError} (h : err.Fault texts)
    (hclass : err.errorClass? = some .kind) :
    ∃ opening more, Apart opening ∧ err.message = opening ++ more := by
  cases h with
  | arity | tooManyDigits | division | overflow => cases hclass
  | outOfRange text => exact ⟨"Numeric literal out of range: ", _, by decide, String.append_assoc⟩
  | operand op k => exact ⟨op.label, _, op.apart_label, String.append_assoc⟩
  | test k => exact ⟨"if expects a boolean predicate, got ", _, by decide, String.append_assoc⟩
  | mixedKinds name k l =>
      refine ⟨name.label, " cannot compare " ++ (k.label ++ (" with " ++ (l.label ++ "."))),
        name.apart_label, ?_⟩
      show name.label ++ " cannot compare " ++ k.label ++ " with " ++ l.label ++ "." = _
      simp only [String.append_assoc]
  | unordered name => exact ⟨name.label, " is not defined for booleans.", name.apart_label, rfl⟩

/-- A fault is an integer with too many digits, or it belongs to one of four classes. -/
theorem EvalError.Fault.class_cases {texts : String → Prop} {err : EvalError}
    (h : err.Fault texts) :
    (∃ text m, texts text ∧ Numeral.ofText? text = some m ∧ m.isInteger ∧
      maxIntegerDigits < m.whole.length ∧ err = .tooManyDigits m.whole.length) ∨
    err.errorClass? ∈ [some .arity, some .kind, some .zeroDivision, some .overflow] := by
  cases h with
  | @tooManyDigits text m htext hm hint hlong =>
      exact Or.inl ⟨text, m, htext, hm, hint, hlong, rfl⟩
  | _ => exact Or.inr (by simp [errorClass?])

/-! ## Runs -/

section Runs

variable {source : String}

theorem run_of_parse_error {error : ParseError} (h : parseSource source = .error error) :
    run channel source = .fail (.parse error) := by
  rw [run, h]
  rfl

theorem run_of_parse_ok {e : Expr} (h : parseSource source = .ok e) :
    run channel source = (eval channel e).mapError .eval := by
  rw [run, h, ← evaluate_eq_eval]
  rfl

end Runs

/-- The ends of a run that fails by itself, with the error `err`.  The text is no
program, and nothing is printed; or the evaluation fails, with an error of one of
four classes, and its report does not begin as those do that are kept for trees and
values of other origin; or an integer literal has more than 4300 digits. -/
def RunError.Expected (source : String) (printed : List Value) (err : RunError) : Prop :=
  ((∃ error, parseSource source = .error error ∧ err = .parse error) ∧ printed = [] ∧
    err.errorClass? ∈ [some .grammar, some .unexpectedEnd, some .unhandledToken]) ∨
  ((∃ e error, parseSource source = .ok e ∧ err = .eval error) ∧
    err.errorClass? ∈ [some .arity, some .kind, some .zeroDivision, some .overflow] ∧
    (err.errorClass? = some .kind →
      ∀ start ∈ foreignReports, ¬ start.toList <+: err.message.toList)) ∨
  (∃ e text m, parseSource source = .ok e ∧ (Expr.number text).Within e ∧
    Numeral.ofText? text = some m ∧ m.isInteger ∧ 4300 < m.whole.length ∧
    err = .eval (.tooManyDigits m.whole.length))

/-- A run with room enough ends in a string, a boolean or a 64-bit number, or fails
as expected; and it prints such values only. -/
theorem run_expected (source : String) :
    (∀ v, (run .collect source).result = .ok v → v.Ordinary) ∧
    (∀ v ∈ (run .collect source).printed, v.Ordinary) ∧
    (∀ err, (run .collect source).result = .error err →
      err.Expected source (run .collect source).printed) := by
  cases hparse : parseSource source with
  | error error =>
      rw [run_of_parse_error hparse]
      refine ⟨fun v h => (nomatch h), List.forall_mem_nil _, ?_⟩
      intro err herr
      obtain rfl := Except.error.inj herr
      refine Or.inl ⟨⟨error, hparse, rfl⟩, rfl, ?_⟩
      cases error <;> simp [RunError.errorClass?, ParseError.diagnostic, Diagnostic.unhandledToken,
        Diagnostic.unexpectedEnd]
  | ok e =>
      rw [run_of_parse_ok hparse]
      refine ⟨?_, ?_, ?_⟩
      · intro v h
        have heval : (eval .collect e).result = .ok v := Outcome.result_mapError_eq_ok_iff.mp h
        exact ordinary_of_eval heval
      · intro v hv
        obtain ⟨p, hp⟩ := exists_eval_of_mem_printed hv
        exact ordinary_of_eval hp
      · intro err herr
        obtain ⟨error, herror, rfl⟩ := Outcome.result_mapError_eq_error_iff.mp herr
        have hparam : e.IsParam := .call (isProgram_of_parseSource hparse)
        have hfault : error.Fault fun text => (Expr.number text).Within e :=
          (eval_faults hparam fun _ hin => hin).of_error herror
        rcases hfault.class_cases with ⟨text, m, hin, hm, hint, hlong, rfl⟩ | hclass
        · exact Or.inr (Or.inr ⟨e, text, m, hparse, hin, hm, hint, hlong, rfl⟩)
        · refine Or.inr (Or.inl ⟨⟨e, error, hparse, rfl⟩, hclass, fun hkind => ?_⟩)
          obtain ⟨opening, more, hapart, hmessage⟩ := hfault.opening hkind
          show ∀ start ∈ foreignReports, ¬ start.toList <+: error.message.toList
          rw [hmessage]
          exact hapart.append more

/-! ## Runs on a stack -/

theorem printed_mono {events events' : List Event} {ε ε' α α' : Type}
    {result : Except ε α} {result' : Except ε' α'} (h : events <+: events') :
    Outcome.printed ⟨events, result⟩ ⊆ Outcome.printed ⟨events', result'⟩ :=
  (h.filterMap _).subset

/-- **How a run ends.**  On any stack, a run ends in a string, a boolean or a 64-bit
number, or fails as expected, or the host breaks it off; and it prints such values
only.  The host breaks it off only where more is nested than the stack has room
for. -/
theorem runWithin_endings (stack : Stack) (source : String) :
    (∀ v, (runWithin stack .collect source).result = .ok v → v.Ordinary) ∧
    (∀ v ∈ (runWithin stack .collect source).printed, v.Ordinary) ∧
    (∀ err, (runWithin stack .collect source).result = .error (.language err) →
      err.Expected source (runWithin stack .collect source).printed) ∧
    ((runWithin stack .collect source).result = .error .stackExhausted →
      stack.TooSmall source) := by
  obtain ⟨hvalue, hprinted, hfails⟩ := run_expected source
  have hcurtails := runWithin_curtails stack .collect source
  generalize runWithin stack .collect source = x at hcurtails ⊢
  cases hcurtails with
  | same =>
      refine ⟨fun v hv => ?_, hprinted, fun err herr => ?_, fun hbroken => ?_⟩
      · exact hvalue v (Outcome.result_mapError_eq_ok_iff.mp hv)
      · obtain ⟨error, herror, heq⟩ := Outcome.result_mapError_eq_error_iff.mp herr
        obtain rfl := HostError.language.inj heq
        exact hfails err herror
      · obtain ⟨error, -, heq⟩ := Outcome.result_mapError_eq_error_iff.mp hbroken
        cases heq
  | brokenOff hsmall hevents =>
      refine ⟨fun v hv => ?_, fun v hv => ?_, fun err herr => ?_, fun _ => hsmall⟩
      · cases hv
      · exact hprinted v (printed_mono hevents hv)
      · cases herr

/-- The operand `"a"` is refused behind a print, as no number. -/
theorem runWithin_endings_stringOperand :
    (runWithin ⟨9, 9⟩ .collect "(+ (print 1) \"a\")").result =
        .error (.language (.eval (.notANumber "ADD" .string))) ∧
      (∀ v ∈ (runWithin ⟨9, 9⟩ .collect "(+ (print 1) \"a\")").printed, v.Ordinary) ∧
      (RunError.eval (.notANumber "ADD" .string)).errorClass? ∈
        [some .arity, some .kind, some .zeroDivision, some .overflow] := by
  have herr : (runWithin ⟨9, 9⟩ .collect "(+ (print 1) \"a\")").result =
      .error (.language (.eval (.notANumber "ADD" .string))) := rfl
  obtain ⟨-, hprinted, hfails, -⟩ := runWithin_endings ⟨9, 9⟩ "(+ (print 1) \"a\")"
  refine ⟨herr, hprinted, ?_⟩
  rcases hfails _ herr with
    ⟨⟨error, -, heq⟩, -, -⟩ | ⟨-, hclass, -⟩ | ⟨e, text, m, -, -, -, -, -, heq⟩
  · cases heq
  · exact hclass
  · cases heq

/-! ### A text that uses up the stack -/

/-- So many sums, each opened in the one before, and none of them closed. -/
def unclosedSums (n : Nat) : String :=
  String.join (List.replicate n "(+")

theorem toList_unclosedSums (n : Nat) :
    (unclosedSums n).toList = (List.replicate n ['(', '+']).flatten := by
  rw [unclosedSums, String.toList_join, List.flatMap_def, List.map_replicate]
  rfl

theorem scan_openSum (n pos : Nat) :
    scan .between pos (List.replicate (n + 1) ['(', '+']).flatten =
      delimiterToken .openParen pos '(' :: wordToken (pos + 1) ['+'] ::
        scan .between (pos + 2) (List.replicate n ['(', '+']).flatten := by
  have hedge : ∀ c ∈ (List.replicate n ['(', '+']).flatten.head?, ¬ IsWordChar c := by
    cases n with
    | zero => exact nofun
    | succ n => exact edge_of_delimits .openParen _
  have hword : ∀ c ∈ ['+'], IsWordChar c := List.forall_mem_singleton.mpr (by decide)
  rw [List.replicate_succ, List.flatten_cons, List.cons_append, scan_delimiter .openParen,
    scan_word (List.cons_ne_nil _ _) hword hedge]
  rfl

theorem peak_openSum {s : ParseState} {outer : List Frame}
    (hopen : ∀ pos, Moves s (delimiterToken .openParen pos '(') (.operator outer)) (n pos : Nat) :
    s.peak (scan .between pos (List.replicate (n + 1) ['(', '+']).flatten) =
      max s.height (outer.length + 1 + n) := by
  have hsum : ∀ pos (outer : List Frame), Moves (.operator outer) (wordToken pos ['+'])
      (.params ⟨.named (.arithmetic .add), []⟩ outer) := fun pos outer => .operator rfl rfl
  -- The first paren opens the leading call, any other one a call in the one before: the state
  -- is kept general, and all that is known of it is what the paren leads to.
  induction n generalizing s outer pos with
  | zero =>
      have hend : scan .between (pos + 2) [] = [] := rfl
      rw [scan_openSum, ParseState.peak_of_moves (hopen pos), ParseState.peak_of_moves (hsum _ _),
        List.replicate_zero, List.flatten_nil, hend]
      simp only [ParseState.height, ParseState.peak]
      omega
  | succ n ih =>
      rw [scan_openSum, ParseState.peak_of_moves (hopen pos), ParseState.peak_of_moves (hsum _ _),
        ih fun pos => .openCall rfl]
      simp only [ParseState.height, List.length_cons]
      omega

theorem nesting_unclosedSums (n : Nat) : nesting (unclosedSums n) = n := by
  rw [nesting, tokenize, toList_unclosedSums]
  cases n with
  | zero => rfl
  | succ n =>
      rw [peak_openSum fun pos => .start rfl]
      simp only [ParseState.height, List.length_nil]
      omega

theorem result_runWithin_unclosedSums {stack : Stack} {n : Nat} (h : stack.parsing < n) :
    (runWithin stack channel (unclosedSums n)).result = .error .stackExhausted := by
  have hsmall : stack.parsing < nesting (unclosedSums n) := by rwa [nesting_unclosedSums]
  rw [runWithin_of_parsing_lt hsmall]
  rfl

/-- A parser that keeps two of a thousand places for each open call has room for five
hundred of them, and breaks off at the next. -/
theorem runWithin_unclosedSums :
    (runWithin ⟨500, 500⟩ .collect (unclosedSums 501)).result = .error .stackExhausted ∧
    ¬ ((∃ v, (runWithin ⟨500, 500⟩ .collect (unclosedSums 501)).result = .ok v) ∨
      ∃ err, (runWithin ⟨500, 500⟩ .collect (unclosedSums 501)).result =
        .error (.language err)) := by
  have hbroken : (runWithin ⟨500, 500⟩ .collect (unclosedSums 501)).result =
      .error .stackExhausted :=
    result_runWithin_unclosedSums (Nat.lt_succ_self 500)
  refine ⟨hbroken, ?_⟩
  rw [hbroken]
  rintro (⟨v, hv⟩ | ⟨err, herr⟩)
  · cases hv
  · cases herr

end CallLang
