/-
# `CallLang.Proofs.Grammar` — what the parser accepts, as a grammar

The parser keeps a stack of open calls and moves it token by token.  The
grammar knows no stack:

    call   ::=  '(' operator param* ')'
    param  ::=  number  |  quote word* quote  |  call

where the words of a string are tokens of any kind but the quote.  `Derives`
writes this down, with the expression that each phrase stands for, and
`parseWithRest_iff_derives` says that the parser reads exactly the phrases of
the grammar.

Two inductions tie the two together.  Forwards, over a derivation: the parser,
waiting for a parameter, reads a derived phrase and has added its expression to
the call on top (`feed_param`).  Backwards, over the tokens of a run: a state
with open calls still demands a close paren for each of them, and
`Completes` says of which rows of tokens it gets them.
-/
import CallLang.Proofs.Moves

namespace CallLang

/-! ## The grammar -/

/-- `op.Names params e`: the operator names the node `e` over the parameters.  A
print holds the first of them only. -/
inductive Operator.Names : Operator → List Expr → Expr → Prop
  | conditional (params : List Expr) : Names .conditional params (.conditional params)
  | predicate (name : Comparison) (params : List Expr) :
      Names (.named (.comparison name)) params (.predicate name params)
  | binary (name : Arithmetic) (params : List Expr) :
      Names (.named (.arithmetic name)) params (.binary name params)
  | print (first : Expr) (others : List Expr) :
      Names (.named .print) (first :: others) (.unary .print (some first))
  | printNothing : Names (.named .print) [] (.unary .print none)

mutual

/-- `Derives ts e`: the tokens `ts` are one call, which stands for `e`. -/
inductive Derives : List Token → Expr → Prop
  | call {o s c : Token} {op : Operator} {ts : List Token} {params : List Expr} {e : Expr} :
      o.kind = .openParen → s.kind = .symbol → op.text = s.text →
      DerivesParams ts params → op.Names params e → c.kind = .closeParen →
      Derives (o :: s :: (ts ++ [c])) e

/-- The tokens are one parameter. -/
inductive DerivesParam : List Token → Expr → Prop
  | number {t : Token} : t.kind = .number → DerivesParam [t] (.number t.text)
  | string {q r : Token} {ws : List Token} :
      q.kind = .quote → (∀ w ∈ ws, w.kind ≠ .quote) → r.kind = .quote →
      DerivesParam (q :: (ws ++ [r])) (.string (" ".intercalate (ws.map (·.text))))
  | call {ts : List Token} {e : Expr} : Derives ts e → DerivesParam ts e

/-- The tokens are parameters, one after another. -/
inductive DerivesParams : List Token → List Expr → Prop
  | nil : DerivesParams [] []
  | cons {ts us : List Token} {e : Expr} {es : List Expr} :
      DerivesParam ts e → DerivesParams us es → DerivesParams (ts ++ us) (e :: es)

end

/-- The parser builds the node that the operator names. -/
theorem Operator.names_iff {op : Operator} {params : List Expr} {e : Expr} :
    op.Names params e ↔ .call op params = e := by
  constructor
  · intro h
    cases h <;> rfl
  · rintro rfl
    match op, params with
    | .conditional, params => exact .conditional params
    | .named (.comparison name), params => exact .predicate name params
    | .named (.arithmetic name), params => exact .binary name params
    | .named .print, [] => exact .printNothing
    | .named .print, first :: others => exact .print first others

theorem Operator.names_call (op : Operator) (params : List Expr) :
    op.Names params (.call op params) :=
  names_iff.mpr rfl

/-! ## Frames with several parameters more -/

/-- Adds parameters to an open call, one after another. -/
def Frame.addAll (f : Frame) (params : List Expr) : Frame :=
  { f with params := params.reverse ++ f.params }

@[simp] theorem Frame.addAll_add (f : Frame) (e : Expr) (es : List Expr) :
    (f.add e).addAll es = f.addAll (e :: es) := by
  simp [addAll, add]

@[simp] theorem Frame.close_addAll (op : Operator) (params : List Expr) :
    (Frame.addAll ⟨op, []⟩ params).close = .call op params := by
  simp [addAll, close]

/-! ## Reading a derived phrase -/

namespace ParseState

theorem feed_words {top : Frame} {outer : List Frame} {ws : List Token}
    (h : ∀ w ∈ ws, w.kind ≠ .quote) (k : Nat) (words : List String) (rest : List Token) :
    (string words top outer).feed k (ws ++ rest)
      = (string ((ws.map (·.text)).reverse ++ words) top outer).feed (k + ws.length) rest := by
  induction ws generalizing k words with
  | nil => rfl
  | cons w ws ih =>
      obtain ⟨hw, hws⟩ := List.forall_mem_cons.mp h
      rw [List.cons_append, feed_of_moves (.word hw), ih hws]
      simp [Nat.add_assoc, Nat.add_comm 1]

mutual

theorem feed_call : ∀ {ts : List Token} {e : Expr}, Derives ts e →
    ∀ (top : Frame) (outer : List Frame) (k : Nat) (rest : List Token),
      (params top outer).feed k (ts ++ rest)
        = (params (top.add e) outer).feed (k + ts.length) rest
  | _, _, .call ho hs hop hps hnode hc, top, outer, k, rest => by
      obtain rfl := Operator.names_iff.mp hnode
      rw [List.cons_append, feed_of_moves (.openCall ho), List.cons_append,
        feed_of_moves (.operator hs hop), List.append_assoc, feed_params hps,
        List.singleton_append, feed_of_moves (.closeCall hc), Frame.close_addAll]
      congr 1
      simp only [List.length_cons, List.length_append, List.length_nil]
      omega

theorem feed_param : ∀ {ts : List Token} {e : Expr}, DerivesParam ts e →
    ∀ (top : Frame) (outer : List Frame) (k : Nat) (rest : List Token),
      (params top outer).feed k (ts ++ rest)
        = (params (top.add e) outer).feed (k + ts.length) rest
  | _, _, .number ht, _, _, k, rest => feed_of_moves (.number ht) k rest
  | _, _, .string hq hws hr, top, outer, k, rest => by
      rw [List.cons_append, feed_of_moves (.openString hq), List.append_assoc, feed_words hws,
        List.singleton_append, feed_of_moves (.closeString hr), List.append_nil,
        List.reverse_reverse]
      congr 1
      simp only [List.length_cons, List.length_append, List.length_nil]
      omega
  | _, _, .call h, top, outer, k, rest => feed_call h top outer k rest

theorem feed_params : ∀ {ts : List Token} {es : List Expr}, DerivesParams ts es →
    ∀ {top : Frame} {outer : List Frame} {k : Nat} {rest : List Token},
      (params top outer).feed k (ts ++ rest)
        = (params (top.addAll es) outer).feed (k + ts.length) rest
  | _, _, .nil, _, _, _, _ => rfl
  | _, _, .cons h hs, _, _, _, _ => by
      rw [List.append_assoc, feed_param h, feed_params hs, Frame.addAll_add, List.length_append,
        Nat.add_assoc]

end

/-- A derived call at the front of a row of tokens is what the parser reads
from it. -/
theorem feed_start {ts : List Token} {e : Expr} (h : Derives ts e) (k : Nat)
    (rest : List Token) : start.feed k (ts ++ rest) = .ok (e, k + ts.length) := by
  cases h with
  | @call o s c op us ps e ho hs hop hps hnode hc =>
      obtain rfl := Operator.names_iff.mp hnode
      have hclose : (params (Frame.addAll ⟨op, []⟩ ps) []).step c = .done (.call op ps) :=
        step_eq_done_iff.mpr ⟨_, rfl, hc, Frame.close_addAll op ps⟩
      rw [List.cons_append, feed_of_moves (.start ho), List.cons_append,
        feed_of_moves (.operator hs hop), List.append_assoc, feed_params hps,
        List.singleton_append, feed_of_done hclose]
      congr 2
      simp only [List.length_cons, List.length_append, List.length_nil]
      omega

end ParseState

/-! ## What an open state demands of the tokens -/

/-- `Finishes e top outer ts`: the tokens `ts` are the parameters that the call
on top still gets and its close paren, then the same for every call around it,
and `e` is the outermost call. -/
inductive Finishes (e : Expr) : Frame → List Frame → List Token → Prop
  | last {top : Frame} {ts : List Token} {params : List Expr} {c : Token} :
      DerivesParams ts params → c.kind = .closeParen → (top.addAll params).close = e →
      Finishes e top [] (ts ++ [c])
  | next {top next : Frame} {outer : List Frame} {ts us : List Token} {params : List Expr}
      {c : Token} :
      DerivesParams ts params → c.kind = .closeParen →
      Finishes e (next.add (top.addAll params).close) outer us →
      Finishes e top (next :: outer) (ts ++ c :: us)

/-- `Completes e s ts`: from the state `s` on, the tokens `ts` complete the
call `e`. -/
inductive Completes (e : Expr) : ParseState → List Token → Prop
  | start {ts : List Token} : Derives ts e → Completes e .start ts
  | operator {outer : List Frame} {s : Token} {op : Operator} {ts : List Token} :
      s.kind = .symbol → op.text = s.text → Finishes e ⟨op, []⟩ outer ts →
      Completes e (.operator outer) (s :: ts)
  | params {top : Frame} {outer : List Frame} {ts : List Token} :
      Finishes e top outer ts → Completes e (.params top outer) ts
  | string {words : List String} {top : Frame} {outer : List Frame} {ws ts : List Token}
      {r : Token} :
      (∀ w ∈ ws, w.kind ≠ .quote) → r.kind = .quote →
      Finishes e (top.add (.string (" ".intercalate (words.reverse ++ ws.map (·.text))))) outer ts →
      Completes e (.string words top outer) (ws ++ r :: ts)

variable {e : Expr}

theorem Finishes.param {top : Frame} {outer : List Frame} {ts us : List Token} {p : Expr}
    (hp : DerivesParam ts p) (h : Finishes e (top.add p) outer us) :
    Finishes e top outer (ts ++ us) := by
  cases h with
  | last hps hc he =>
      rw [← List.append_assoc]
      exact .last (.cons hp hps) hc (by rwa [Frame.addAll_add] at he)
  | next hps hc hrest =>
      rw [← List.append_assoc]
      exact .next (.cons hp hps) hc (by rwa [Frame.addAll_add] at hrest)

theorem Finishes.openCall {top : Frame} {outer : List Frame} {o s : Token} {op : Operator}
    {us : List Token} (ho : o.kind = .openParen) (hs : s.kind = .symbol) (hop : op.text = s.text)
    (h : Finishes e ⟨op, []⟩ (top :: outer) us) : Finishes e top outer (o :: s :: us) := by
  cases h with
  | @next _ _ _ ts us ps c hps hc hrest =>
      have hcall : DerivesParam (o :: s :: (ts ++ [c])) (.call op ps) :=
        .call (.call ho hs hop hps (op.names_call ps) hc)
      rw [Frame.close_addAll] at hrest
      simpa using Finishes.param hcall hrest

theorem Completes.of_moves {s s' : ParseState} {t : Token} {ts : List Token}
    (hmove : Moves s t s') (h : Completes e s' ts) : Completes e s (t :: ts) := by
  cases hmove with
  | start ho =>
      cases h with
      | operator hs hop hfin =>
          cases hfin with
          | last hps hc he =>
              rw [Frame.close_addAll] at he
              exact .start (.call ho hs hop hps (Operator.names_iff.mpr he) hc)
  | operator hs hop =>
      cases h with
      | params hfin => exact .operator hs hop hfin
  | number hk =>
      cases h with
      | params hfin => exact .params (Finishes.param (.number hk) hfin)
  | openString hq =>
      cases h with
      | string hws hr hfin =>
          have hp := Finishes.param (.string hq hws hr) hfin
          exact .params (by simpa using hp)
  | openCall ho =>
      cases h with
      | operator hs hop hfin => exact .params (hfin.openCall ho hs hop)
  | closeCall hc =>
      cases h with
      | params hfin => exact .params (.next .nil hc hfin)
  | @word _ words top outer hw =>
      cases h with
      | @string _ _ _ ws us r hws hr hfin =>
          have hall : ∀ v ∈ t :: ws, v.kind ≠ .quote := List.forall_mem_cons.mpr ⟨hw, hws⟩
          exact Completes.string hall hr (by simpa using hfin)
  | @closeString _ words top outer hq =>
      cases h with
      | params hfin =>
          have hnone : ∀ v ∈ ([] : List Token), v.kind ≠ .quote := List.forall_mem_nil _
          exact Completes.string hnone hq (by simpa using hfin)

theorem Completes.of_done {s : ParseState} {t : Token} (hstep : s.step t = .done e) :
    Completes e s [t] := by
  obtain ⟨top, rfl, hc, he⟩ := ParseState.step_eq_done_iff.mp hstep
  exact .params (.last .nil hc he)

/-- A run that reads a call reads tokens that complete it, and counts them. -/
theorem ParseState.completes_of_feed {s : ParseState} {k n : Nat} {ts : List Token}
    (h : s.feed k ts = .ok (e, n)) :
    ∃ used rest, ts = used ++ rest ∧ n = k + used.length ∧ Completes e s used := by
  induction ts generalizing s k with
  | nil => exact absurd h (by simp [feed])
  | cons t ts ih =>
      cases hstep : s.step t with
      | more s' =>
          have hmove := step_eq_more_iff.mp hstep
          rw [feed_of_moves hmove] at h
          obtain ⟨used, rest, hts, hn, hc⟩ := ih h
          refine ⟨t :: used, rest, ?_, ?_, hc.of_moves hmove⟩
          · rw [hts, List.cons_append]
          · rw [hn, List.length_cons]
            omega
      | done e' =>
          rw [feed_of_done hstep] at h
          injection h with h
          injection h with he hn
          subst he
          exact ⟨[t], ts, rfl, hn.symm, .of_done hstep⟩
      | fail error =>
          rw [feed_of_fail hstep] at h
          cases h

/-! ## The parser reads the grammar -/

/-- A derived call is read from the front of a row of tokens, whatever follows
it. -/
theorem parseWithRest_append {ts : List Token} (h : Derives ts e) (rest : List Token) :
    parseWithRest (ts ++ rest) = .ok (e, ts.length) := by
  have hread := ParseState.feed_start h 0 rest
  rwa [Nat.zero_add] at hread

theorem derives_of_parseWithRest {ts : List Token} {n : Nat} (h : parseWithRest ts = .ok (e, n)) :
    n ≤ ts.length ∧ Derives (ts.take n) e := by
  obtain ⟨used, rest, hts, hn, hc⟩ := ParseState.completes_of_feed h
  rw [Nat.zero_add] at hn
  subst hts hn
  cases hc with
  | start hd => exact ⟨by simp, by simpa using hd⟩

theorem derives_of_parseSource {source : String} (h : parseSource source = .ok e) :
    ∃ n, Derives ((tokenize source).take n) e := by
  unfold parseSource parse at h
  cases hread : parseWithRest (tokenize source) with
  | error error =>
      rw [hread] at h
      cases h
  | ok answer =>
      obtain ⟨e', n⟩ := answer
      rw [hread] at h
      obtain rfl : e' = e := Except.ok.inj h
      exact ⟨n, (derives_of_parseWithRest hread).2⟩

theorem parseWithRest_of_derives_take {ts : List Token} {n : Nat} (hn : n ≤ ts.length)
    (h : Derives (ts.take n) e) : parseWithRest ts = .ok (e, n) := by
  have hread := parseWithRest_append h (ts.drop n)
  rwa [List.take_append_drop, List.length_take, Nat.min_eq_left hn] at hread

/-- **The parser reads exactly the grammar.**  It answers with a call and a
number of tokens exactly when that many tokens at the front are derived as that
call.  So a row of tokens stands for one call at most, and one call at most
stands at its front. -/
theorem parseWithRest_iff_derives (ts : List Token) :
    (∀ e n, parseWithRest ts = .ok (e, n) ↔ n ≤ ts.length ∧ Derives (ts.take n) e) ∧
    (∀ e e', Derives ts e → Derives ts e' → e = e') ∧
    (∀ e e' n n', n ≤ ts.length → n' ≤ ts.length →
      Derives (ts.take n) e → Derives (ts.take n') e' → n = n' ∧ e = e') := by
  have unique : ∀ {e e' : Expr} {n n' : Nat}, parseWithRest ts = .ok (e, n) →
      parseWithRest ts = .ok (e', n') → n = n' ∧ e = e' := by
    intro e e' n n' h h'
    injection h.symm.trans h' with heq
    injection heq with he hn
    exact ⟨hn, he⟩
  refine ⟨?_, ?_, ?_⟩
  · intro e n
    constructor
    · exact derives_of_parseWithRest
    · rintro ⟨hn, h⟩
      exact parseWithRest_of_derives_take hn h
  · intro e e' h h'
    have hall := parseWithRest_append h []
    have hall' := parseWithRest_append h' []
    rw [List.append_nil] at hall hall'
    exact (unique hall hall').2
  · intro e e' n n' hn hn' h h'
    exact unique (parseWithRest_of_derives_take hn h) (parseWithRest_of_derives_take hn' h')

end CallLang
