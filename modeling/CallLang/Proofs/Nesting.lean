/-
# `CallLang.Proofs.Nesting` — calls within calls, by recursion and by a counter

Three readers find the call that a row of tokens starts with.  They differ in
what they keep of the calls that are open:

| | |
| :-- | :-- |
| `descend` | nothing; a call in a call is read by recursion, at the place where it starts |
| `parseWithRest` | a stack of the open calls, each with the parameters read so far |
| `DepthState.scan` | how many calls are open, and nothing of what is read |

`parseWithRest_nesting` says that they agree, on the place where the call ends and
on every error.  The stack holds what the recursion has still to do: where a
reader by recursion answers, the parser goes on with the calls around
(`feed_readCall`).  The counter is the height of the stack: `ParseState.depth`
forgets the rest of it, and one token does to what is left what the scan does
(`step_depth`).
-/
import CallLang.Proofs.Grammar

namespace CallLang

/-! ## Reading by recursion -/

/-- What a reader makes of the tokens from the place `i` on: what it has read, and
the place behind it. -/
abbrev Reading (α : Type) (i : Nat) : Type :=
  Except ParseError (α × { j : Nat // i < j })

/-- The same reading from an earlier place, with more made of it. -/
def Reading.extend {α β : Type} {i j : Nat} (h : i ≤ j) (f : α → β) (r : Reading α j) :
    Reading β i :=
  Except.map (fun (a, k) => (f a, ⟨k.val, Nat.lt_of_le_of_lt h k.property⟩)) r

section Descent

variable (tokens : List Token)

/-- Reads a string up to the quote that closes it.  The words so far are kept
newest first. -/
def readString (words : List String) (i : Nat) : Reading String i :=
  if h : i < tokens.length then
    if tokens[i].kind = .quote then .ok (" ".intercalate words.reverse, ⟨i + 1, Nat.lt_succ_self i⟩)
    else (readString (tokens[i].text :: words) (i + 1)).extend (Nat.le_succ i) id
  else .error .unexpectedEnd
termination_by tokens.length - i

mutual

/-- Reads a call behind its open paren: an operator, and parameters. -/
def readCall (i : Nat) : Reading Expr i :=
  if h : i < tokens.length then
    if tokens[i].kind = .symbol then
      match Operator.ofText? tokens[i].text with
      | some op => (readParams (i + 1)).extend (Nat.le_succ i) (Expr.call op)
      | none => .error (.unknownOperator tokens[i])
    else .error (.missingOperator tokens[i])
  else .error .unexpectedEnd
termination_by tokens.length - i

/-- Reads parameters up to the close paren of their call. -/
def readParams (i : Nat) : Reading (List Expr) i :=
  if h : i < tokens.length then
    match tokens[i].kind with
    | .number => (readParams (i + 1)).extend (Nat.le_succ i) (.number tokens[i].text :: ·)
    | .quote =>
      match readString tokens [] (i + 1) with
      | .error error => .error error
      | .ok (text, ⟨j, hj⟩) => (readParams j).extend (by omega) (.string text :: ·)
    | .openParen =>
      match readCall (i + 1) with
      | .error error => .error error
      | .ok (e, ⟨j, hj⟩) => (readParams j).extend (by omega) (e :: ·)
    | .closeParen => .ok ([], ⟨i + 1, Nat.lt_succ_self i⟩)
    | .symbol => .error (.unhandledToken tokens[i])
    | .unhandled => .error (.unhandledToken tokens[i])
  else .error .unexpectedEnd
termination_by tokens.length - i

end

end Descent

/-- Reads the call that the tokens start with, by recursion, and finds the place
behind it. -/
def descend (tokens : List Token) : Except ParseError (Expr × Nat) :=
  match tokens with
  | [] => .error (.noInitialCall none)
  | t :: _ =>
    if t.kind = .openParen then Except.map (fun (e, j) => (e, j.val)) (readCall tokens 1)
    else .error (.noInitialCall (some t))

/-! ## The stack is what the recursion has still to do -/

/-- Goes on behind a reading; its error is the answer. -/
def Reading.goOn {α β : Type} {i : Nat} (r : Reading α i)
    (f : α → Nat → Except ParseError β) : Except ParseError β :=
  r.bind fun (a, j) => f a j.val

theorem Reading.goOn_extend {α β γ : Type} {i j : Nat} (h : i ≤ j) (f : α → β) (r : Reading α j)
    (g : β → Nat → Except ParseError γ) : (r.extend h f).goOn g = r.goOn fun a => g (f a) := by
  cases r <;> rfl

namespace ParseState

variable (tokens : List Token)

/-- Goes on behind a call: it is a parameter of the call around it, or there is
none around it and all is read. -/
def resume (outer : List Frame) (e : Expr) (j : Nat) : Except ParseError (Expr × Nat) :=
  match outer with
  | [] => .ok (e, j)
  | next :: outer => (params (next.add e) outer).feed j (tokens.drop j)

theorem feed_readString (words : List String) (top : Frame) (outer : List Frame) (i : Nat) :
    (string words top outer).feed i (tokens.drop i)
      = (readString tokens words i).goOn fun text j =>
          (params (top.add (.string text)) outer).feed j (tokens.drop j) := by
  fun_induction readString tokens words i with
  | case1 words i h hk =>
      rw [List.drop_eq_getElem_cons h, feed_of_moves (.closeString hk)]
      rfl
  | case2 words i h hk ih =>
      rw [List.drop_eq_getElem_cons h, feed_of_moves (.word hk), ih, Reading.goOn_extend]
      rfl
  | case3 words i h =>
      rw [List.drop_eq_nil_of_le (Nat.le_of_not_lt h)]
      rfl

mutual

theorem feed_readCall (outer : List Frame) (i : Nat) :
    (operator outer).feed i (tokens.drop i)
      = (readCall tokens i).goOn (resume tokens outer) := by
  rw [readCall]
  split
  next h =>
    rw [List.drop_eq_getElem_cons h]
    split
    next hk =>
      split
      next op hop =>
        rw [feed_of_moves (.operator hk (Operator.ofText?_eq_some_iff.mp hop)),
          feed_readParams ⟨op, []⟩ outer (i + 1), Reading.goOn_extend]
        simp only [Frame.close_addAll]
      next hop =>
        exact feed_of_stops (.otherOperator hk (Operator.ofText?_eq_none_iff.mp hop)) _ _
    next hk => exact feed_of_stops (.noOperator hk) _ _
  next h =>
    rw [List.drop_eq_nil_of_le (Nat.le_of_not_lt h)]
    rfl
termination_by tokens.length - i

theorem feed_readParams (top : Frame) (outer : List Frame) (i : Nat) :
    (params top outer).feed i (tokens.drop i)
      = (readParams tokens i).goOn fun ps => resume tokens outer (top.addAll ps).close := by
  rw [readParams]
  split
  next h =>
    rw [List.drop_eq_getElem_cons h]
    split
    next hk =>
      rw [feed_of_moves (.number hk), feed_readParams _ outer (i + 1), Reading.goOn_extend]
      simp only [Frame.addAll_add]
    next hk =>
      rw [feed_of_moves (.openString hk), feed_readString]
      cases readString tokens [] (i + 1) with
      | error error => rfl
      | ok answer =>
          obtain ⟨text, j, hj⟩ := answer
          have hrest := feed_readParams (top.add (.string text)) outer j
          simp only [Frame.addAll_add] at hrest
          simp only [Reading.goOn_extend]
          exact hrest
    next hk =>
      rw [feed_of_moves (.openCall hk), feed_readCall (top :: outer) (i + 1)]
      cases readCall tokens (i + 1) with
      | error error => rfl
      | ok answer =>
          obtain ⟨e, j, hj⟩ := answer
          have hrest := feed_readParams (top.add e) outer j
          simp only [Frame.addAll_add] at hrest
          simp only [Reading.goOn_extend]
          exact hrest
    next hk =>
      cases outer with
      | nil =>
          have hdone : (params top []).step tokens[i] = .done top.close :=
            step_eq_done_iff.mpr ⟨top, rfl, hk, rfl⟩
          exact feed_of_done hdone _ _
      | cons next outer => exact feed_of_moves (.closeCall hk) _ _
    next hk => exact feed_of_stops (.noParameter (Or.inl hk)) _ _
    next hk => exact feed_of_stops (.noParameter (Or.inr hk)) _ _
  next h =>
    rw [List.drop_eq_nil_of_le (Nat.le_of_not_lt h)]
    rfl
termination_by tokens.length - i

end

end ParseState

theorem descend_eq_parseWithRest (tokens : List Token) : descend tokens = parseWithRest tokens := by
  cases tokens with
  | nil => rfl
  | cons t ts =>
      simp only [descend, parseWithRest]
      split
      next hk =>
        rw [ParseState.feed_of_moves (.start hk)]
        refine Eq.trans ?_ (ParseState.feed_readCall (t :: ts) [] 1).symm
        cases readCall (t :: ts) 1 <;> rfl
      next hk => exact (ParseState.feed_of_stops (.start hk) 0 ts).symm

/-! ## Reading by a counter -/

/-- What a scan knows that counts the open calls. -/
inductive DepthState
  | start
  | operator (depth : Nat)
  | params (depth : Nat)
  | string (depth : Nat)
  deriving DecidableEq, Repr

/-- What one token leads to. -/
inductive DepthStep
  | more (state : DepthState)
  | accept
  | reject (report : Diagnostic)

namespace DepthState

/-- Reads one token. -/
def step (s : DepthState) (t : Token) : DepthStep :=
  match s with
  | .start =>
    if t.kind = .openParen then .more (.operator 1)
    else .reject ⟨.grammar, "No initial call expression found.", some t⟩
  | .operator depth =>
    if t.kind ≠ .symbol then .reject ⟨.grammar, "Missing operator in call expression.", some t⟩
    else if t.text ∈ Operator.all.map Operator.text then .more (.params depth)
    else .reject ⟨.grammar, "Unknown operator: " ++ t.text ++ ".", some t⟩
  | .params depth =>
    match t.kind with
    | .number => .more (.params depth)
    | .quote => .more (.string depth)
    | .openParen => .more (.operator (depth + 1))
    | .closeParen => if depth = 1 then .accept else .more (.params (depth - 1))
    | .symbol => .reject ⟨.unhandledToken, "Unhandled token: " ++ t.text ++ ".", some t⟩
    | .unhandled => .reject ⟨.unhandledToken, "Unhandled token: " ++ t.text ++ ".", some t⟩
  | .string depth => if t.kind = .quote then .more (.params depth) else .more (.string depth)

/-- What is reported when the tokens run out here. -/
def atEnd : DepthState → Diagnostic
  | .start => ⟨.grammar, "No initial call expression found.", none⟩
  | _ => ⟨.unexpectedEnd, "Unexpected eof.", none⟩

/-- Reads tokens until one is accepted as the last of the call, or rejected;
`count` tokens were read before. -/
def scan (s : DepthState) (count : Nat) : List Token → Except Diagnostic Nat
  | [] => .error s.atEnd
  | t :: ts =>
    match s.step t with
    | .more s' => s'.scan (count + 1) ts
    | .accept => .ok (count + 1)
    | .reject report => .error report

end DepthState

/-! ## The counter is the height of the stack -/

/-- What a state is to one who counts: every open call but the one on top stands
in `outer`. -/
def ParseState.depth : ParseState → DepthState
  | .start => .start
  | .operator outer => .operator (outer.length + 1)
  | .params _ outer => .params (outer.length + 1)
  | .string _ _ outer => .string (outer.length + 1)

/-- What a step is to one who counts. -/
def ParseStep.depth : ParseStep → DepthStep
  | .more s => .more s.depth
  | .done _ => .accept
  | .fail error => .reject error.diagnostic

namespace ParseState

/-- One token does to the counter what it does to the stack. -/
theorem step_depth (s : ParseState) (t : Token) : s.depth.step t = (s.step t).depth := by
  cases hstep : s.step t with
  | more s' =>
      cases step_eq_more_iff.mp hstep with
      | start hk | number hk | openString hk | openCall hk | closeCall hk | word hk
      | closeString hk => simp [depth, DepthState.step, ParseStep.depth, hk]
      | @operator _ op outer hk hop =>
          have hmem : t.text ∈ Operator.all.map Operator.text :=
            List.mem_map.mpr ⟨op, Operator.mem_all op, hop⟩
          simp only [depth, DepthState.step, ParseStep.depth, hk, hmem, if_true, not_true_eq_false,
            ne_eq, if_false]
  | done e =>
      obtain ⟨top, rfl, hk, -⟩ := step_eq_done_iff.mp hstep
      simp [depth, DepthState.step, ParseStep.depth, hk]
  | fail error =>
      cases step_eq_fail_iff.mp hstep with
      | start hk | noOperator hk =>
          simp [depth, DepthState.step, ParseStep.depth, ParseError.diagnostic, hk]
      | otherOperator hk hop =>
          have hmem : t.text ∉ Operator.all.map Operator.text := by
            intro hmem
            obtain ⟨op, -, heq⟩ := List.mem_map.mp hmem
            exact hop op heq
          simp only [depth, DepthState.step, ParseStep.depth, ParseError.diagnostic, hk, hmem,
            not_true_eq_false, ne_eq, if_false]
      | noParameter hk =>
          rcases hk with hk | hk
          · simp only [depth, DepthState.step, hk]
            rfl
          · simp only [depth, DepthState.step, hk]
            rfl

theorem feed_depth (s : ParseState) (k : Nat) (ts : List Token) :
    ((s.feed k ts).map (·.2)).mapError ParseError.diagnostic = s.depth.scan k ts := by
  induction ts generalizing s k with
  | nil => cases s <;> rfl
  | cons t ts ih =>
      simp only [feed, DepthState.scan, step_depth]
      cases s.step t with
      | more s' => exact ih s' (k + 1)
      | done e => rfl
      | fail error => rfl

end ParseState

/-- **Recursion, a stack and a counter read alike.**  A reader that goes into each
call by recursion answers as the parser does, tree, place and error.  So does a
scan that keeps the number of open calls and no more, as to the place behind the
call and to the report: its class, its message, and its token. -/
theorem parseWithRest_nesting (ts : List Token) :
    descend ts = parseWithRest ts ∧
    ((parseWithRest ts).map (·.2)).mapError ParseError.diagnostic = DepthState.start.scan 0 ts :=
  ⟨descend_eq_parseWithRest ts, ParseState.feed_depth .start 0 ts⟩

end CallLang
