/-
# `CallLang.Proofs.Refusal` — where a row of tokens is refused, and why

A row of tokens leads the parser from state to state (`Leads`).  It may do so to
the end of the row; or there is a first token that does not lead on, which
completes the outermost call or is refused (`leads_or_stops`).  What comes
behind such a token is not read, so it changes nothing.

From every state but the first one some tokens complete a call
(`exists_completion`): a quote if a string is open, an operator if one is
missing, and a close paren for each open call.  So a row that ends early could
have gone on well, and a row that is refused could not: the two kinds of failure
are told apart by what may follow.
-/
import CallLang.Proofs.Coverage
import CallLang.Proofs.Moves

namespace CallLang

/-! ## From state to state -/

/-- `Leads s ts s'`: the tokens `ts`, one after another, lead from the state `s`
to the state `s'`. -/
inductive Leads : ParseState → List Token → ParseState → Prop
  | nil {s : ParseState} : Leads s [] s
  | cons {s s' s'' : ParseState} {t : Token} {ts : List Token} :
      Moves s t s' → Leads s' ts s'' → Leads s (t :: ts) s''

theorem Moves.ne_start {s s' : ParseState} {t : Token} (h : Moves s t s') : s' ≠ .start := by
  cases h <;> exact fun heq => nomatch heq

theorem Leads.ne_start {s s' : ParseState} {ts : List Token} (h : Leads s ts s')
    (hne : ts ≠ []) : s' ≠ .start := by
  induction h with
  | nil => exact absurd rfl hne
  | @cons s s' s'' t ts hmove hrest ih =>
      cases ts with
      | nil =>
          cases hrest
          exact hmove.ne_start
      | cons u us => exact ih (List.cons_ne_nil u us)

namespace ParseState

theorem feed_of_leads {s s' : ParseState} {ts : List Token} (h : Leads s ts s') (k : Nat)
    (rest : List Token) : s.feed k (ts ++ rest) = s'.feed (k + ts.length) rest := by
  induction h generalizing k with
  | nil => rfl
  | cons hmove _ ih =>
      rw [List.cons_append, feed_of_moves hmove, ih, List.length_cons, Nat.add_assoc,
        Nat.add_comm 1]

theorem leads_or_stops (s : ParseState) (ts : List Token) :
    (∃ s', Leads s ts s') ∨
    ∃ used t rest s', ts = used ++ t :: rest ∧ Leads s used s' ∧
      ((∃ e, s'.step t = .done e) ∨ ∃ error, s'.step t = .fail error) := by
  induction ts generalizing s with
  | nil => exact Or.inl ⟨s, .nil⟩
  | cons t ts ih =>
      cases hstep : s.step t with
      | more s' =>
          have hmove := step_eq_more_iff.mp hstep
          rcases ih s' with ⟨s'', hleads⟩ | ⟨used, u, rest, s'', rfl, hleads, hstop⟩
          · exact Or.inl ⟨s'', .cons hmove hleads⟩
          · exact Or.inr ⟨t :: used, u, rest, s'', rfl, .cons hmove hleads, hstop⟩
      | done e => exact Or.inr ⟨[], t, ts, s, rfl, .nil, Or.inl ⟨e, hstep⟩⟩
      | fail error => exact Or.inr ⟨[], t, ts, s, rfl, .nil, Or.inr ⟨error, hstep⟩⟩

/-! ## Every open state can be completed -/

theorem exists_completion_params (top : Frame) (outer : List Frame) (k : Nat) :
    ∃ us e n, (params top outer).feed k us = .ok (e, n) := by
  induction outer generalizing top k with
  | nil =>
      have hclose : (params top []).step ⟨.closeParen, ")", 0, 0⟩ = .done top.close := rfl
      exact ⟨_, _, _, feed_of_done hclose k []⟩
  | cons next outer ih =>
      obtain ⟨us, e, n, hus⟩ := ih (next.add top.close) (k + 1)
      have hclose : Moves (params top (next :: outer)) ⟨.closeParen, ")", 0, 0⟩
          (params (next.add top.close) outer) := .closeCall rfl
      exact ⟨_ :: us, e, n, by rw [feed_of_moves hclose, hus]⟩

/-- Behind the first paren some tokens complete the call, whatever has been read
so far. -/
theorem exists_completion {s : ParseState} (h : s ≠ .start) (k : Nat) :
    ∃ us e n, s.feed k us = .ok (e, n) := by
  cases s with
  | start => exact absurd rfl h
  | operator outer =>
      obtain ⟨us, e, n, hus⟩ := exists_completion_params ⟨.conditional, []⟩ outer (k + 1)
      have hop : Moves (operator outer) ⟨.symbol, "if", 0, 0⟩ (params ⟨.conditional, []⟩ outer) :=
        .operator rfl rfl
      exact ⟨_ :: us, e, n, by rw [feed_of_moves hop, hus]⟩
  | params top outer => exact exists_completion_params top outer k
  | string words top outer =>
      obtain ⟨us, e, n, hus⟩ := exists_completion_params
        (top.add (.string (" ".intercalate words.reverse))) outer (k + 1)
      have hquote : Moves (string words top outer) ⟨.quote, "\"", 0, 0⟩
          (params (top.add (.string (" ".intercalate words.reverse))) outer) := .closeString rfl
      exact ⟨_ :: us, e, n, by rw [feed_of_moves hquote, hus]⟩

end ParseState

/-! ## What is reported -/

/-- A report of something that must not stand where it stands. -/
def Diagnostic.IsRefusal (d : Diagnostic) : Prop :=
  d.errorClass = .grammar ∨ d.errorClass = .unhandledToken

/-- `Refuses ts d`: the tokens are no program, and `d` is what is reported. -/
def Refuses (ts : List Token) (d : Diagnostic) : Prop :=
  ∃ error, parse ts = .error error ∧ error.diagnostic = d

/-- The tokens are no program, and it is reported that they end too early. -/
def EndsEarly (ts : List Token) : Prop :=
  ∃ d, Refuses ts d ∧ d.errorClass = .unexpectedEnd

theorem ParseState.diagnostic_of_fail {s : ParseState} {t : Token} {error : ParseError}
    (h : s.step t = .fail error) :
    error.diagnostic.IsRefusal ∧ error.diagnostic.token = some t := by
  cases step_eq_fail_iff.mp h with
  | start | noOperator | otherOperator => exact ⟨Or.inl rfl, rfl⟩
  | noParameter => exact ⟨Or.inr rfl, rfl⟩

theorem Diagnostic.IsRefusal.ne_unexpectedEnd {d : Diagnostic} (h : d.IsRefusal) :
    d.errorClass ≠ .unexpectedEnd := by
  rcases h with h | h <;> rw [h] <;> exact fun heq => nomatch heq

section Parse

variable {ts used : List Token} {t : Token} {s : ParseState}

theorem parse_of_leads (h : Leads .start ts s) : parse ts = .error s.atEnd := by
  have hread := ParseState.feed_of_leads h 0 []
  rw [List.append_nil] at hread
  simp only [parse, parseWithRest, hread, ParseState.feed, Except.map]

theorem parse_of_done {e : Expr} (h : Leads .start used s) (hstep : s.step t = .done e)
    (rest : List Token) : parse (used ++ t :: rest) = .ok e := by
  simp only [parse, parseWithRest, ParseState.feed_of_leads h, ParseState.feed_of_done hstep,
    Except.map]

theorem parse_of_fail {error : ParseError} (h : Leads .start used s)
    (hstep : s.step t = .fail error) (rest : List Token) :
    parse (used ++ t :: rest) = .error error := by
  simp only [parse, parseWithRest, ParseState.feed_of_leads h, ParseState.feed_of_fail hstep,
    Except.map]

theorem refuses_of_leads (hne : ts ≠ []) (h : Leads .start ts s) {d : Diagnostic} :
    Refuses ts d ↔ d = .unexpectedEnd := by
  have hend : s.atEnd = .unexpectedEnd := by
    cases s with
    | start => exact absurd rfl (h.ne_start hne)
    | operator | params | string => rfl
  have hparse := parse_of_leads h
  rw [hend] at hparse
  constructor
  · rintro ⟨error, herror, rfl⟩
    injection hparse.symm.trans herror with heq
    rw [← heq]
    rfl
  · rintro rfl
    exact ⟨_, hparse, rfl⟩

theorem endsEarly_of_leads (hne : ts ≠ []) (h : Leads .start ts s) : EndsEarly ts :=
  ⟨_, (refuses_of_leads hne h).mpr rfl, rfl⟩

theorem exists_parse_of_leads (hne : ts ≠ []) (h : Leads .start ts s) :
    ∃ us e, parse (ts ++ us) = .ok e := by
  obtain ⟨us, e, n, hus⟩ := ParseState.exists_completion (h.ne_start hne) (0 + ts.length)
  refine ⟨us, e, ?_⟩
  simp only [parse, parseWithRest, ParseState.feed_of_leads h, hus, Except.map]

/-- A row of tokens leads on, or it is a program, or there is a first token that
is refused. -/
theorem parse_cases (ts : List Token) :
    (∃ s, Leads .start ts s) ∨ (∃ e, parse ts = .ok e) ∨
    ∃ used t rest s error, ts = used ++ t :: rest ∧ Leads .start used s ∧
      s.step t = .fail error := by
  rcases ParseState.leads_or_stops .start ts with
    hleads | ⟨used, t, rest, s, rfl, hleads, ⟨e, hdone⟩ | ⟨error, hfail⟩⟩
  · exact Or.inl hleads
  · exact Or.inr (Or.inl ⟨e, parse_of_done hleads hdone rest⟩)
  · exact Or.inr (Or.inr ⟨used, t, rest, s, error, rfl, hleads, hfail⟩)

/-- Behind a refused token nothing helps. -/
theorem refuses_of_fail {error : ParseError} (h : Leads .start used s)
    (hstep : s.step t = .fail error) (rest : List Token) {d : Diagnostic} :
    Refuses (used ++ t :: rest) d ↔ error.diagnostic = d := by
  constructor
  · rintro ⟨error', hparse, rfl⟩
    rw [parse_of_fail h hstep] at hparse
    injection hparse with heq
    rw [heq]
  · intro hd
    exact ⟨error, parse_of_fail h hstep rest, hd⟩

theorem Refuses.cases (hne : ts ≠ []) {d : Diagnostic} (h : Refuses ts d) :
    (∃ s, Leads .start ts s ∧ d = .unexpectedEnd) ∨
    ∃ used t rest s error, ts = used ++ t :: rest ∧ Leads .start used s ∧
      s.step t = .fail error ∧ error.diagnostic = d := by
  rcases parse_cases ts with ⟨s, hleads⟩ | ⟨e, hok⟩ | ⟨used, t, rest, s, error, rfl, hleads, hfail⟩
  · exact Or.inl ⟨s, hleads, (refuses_of_leads hne hleads).mp h⟩
  · obtain ⟨error, hparse, -⟩ := h
    rw [hok] at hparse
    cases hparse
  · have hd := (refuses_of_fail hleads hfail rest).mp h
    exact Or.inr ⟨used, t, rest, s, error, rfl, hleads, hfail, hd⟩

theorem EndsEarly.leads (hne : ts ≠ []) (h : EndsEarly ts) : ∃ s, Leads .start ts s := by
  obtain ⟨d, hd, hclass⟩ := h
  rcases hd.cases hne with ⟨s, hleads, -⟩ | ⟨used, t, rest, s, error, -, -, hfail, rfl⟩
  · exact ⟨s, hleads⟩
  · exact absurd hclass (ParseState.diagnostic_of_fail hfail).1.ne_unexpectedEnd

/-- Tokens end early exactly if they are no program and others behind them make
them one. -/
theorem endsEarly_iff (hne : ts ≠ []) :
    EndsEarly ts ↔ (∀ e, parse ts ≠ .ok e) ∧ ∃ us e, parse (ts ++ us) = .ok e := by
  constructor
  · intro h
    obtain ⟨s, hleads⟩ := h.leads hne
    refine ⟨?_, exists_parse_of_leads hne hleads⟩
    intro e he
    rw [parse_of_leads hleads] at he
    cases he
  · rintro ⟨hno, us, e, hok⟩
    rcases parse_cases ts with
      ⟨s, hleads⟩ | ⟨e', hok'⟩ | ⟨used, t, rest, s, error, rfl, hleads, hfail⟩
    · exact endsEarly_of_leads hne hleads
    · exact absurd hok' (hno e')
    · rw [List.append_assoc, List.cons_append, parse_of_fail hleads hfail] at hok
      cases hok

theorem Diagnostic.extract_span {source : String} {d : Diagnostic} (h : d.token = some t)
    (hmem : t ∈ tokenize source) :
    ∃ a b, d.start = some a ∧ d.stop = some b ∧ source.toList.extract a b = t.text.toList := by
  refine ⟨t.pos, t.stop, ?_, ?_, (tokenAt_of_mem_tokenize hmem).spells.2.2.symm⟩
  · rw [Diagnostic.start, h, Option.map_some]
  · rw [Diagnostic.stop, h, Option.map_some]

end Parse

/-- **A row of tokens is refused at its first bad token, and ends early exactly
if more could help.**  It ends early if it is no program but some tokens behind
it make it one.  Any other refusal is at a token of the row: with that token it
is refused in the same way whatever follows, and without it the row ends early.
If the tokens are those of a source text, the report says where in the text the
token stands. -/
theorem parse_refusal {ts : List Token} (hne : ts ≠ []) :
    (EndsEarly ts ↔ (∀ e, parse ts ≠ .ok e) ∧ ∃ us e, parse (ts ++ us) = .ok e) ∧
    (∀ d, Refuses ts d → d = .unexpectedEnd ∨ d.IsRefusal) ∧
    (∀ d, Refuses ts d → d.IsRefusal →
      ∃ i t, ts[i]? = some t ∧ d.token = some t ∧
        (∀ us, Refuses (ts.take (i + 1) ++ us) d) ∧
        (0 < i → EndsEarly (ts.take i)) ∧
        (∀ source, ts = tokenize source →
          ∃ a b, d.start = some a ∧ d.stop = some b ∧
            source.toList.extract a b = t.text.toList)) := by
  refine ⟨endsEarly_iff hne, ?_, ?_⟩
  · intro d hd
    rcases hd.cases hne with ⟨-, -, hend⟩ | ⟨used, t, rest, s, error, -, -, hfail, rfl⟩
    · exact Or.inl hend
    · exact Or.inr (ParseState.diagnostic_of_fail hfail).1
  · intro d hd hrefusal
    rcases hd.cases hne with ⟨-, -, rfl⟩ | ⟨used, t, rest, s, error, rfl, hleads, hfail, rfl⟩
    · exact absurd rfl hrefusal.ne_unexpectedEnd
    · obtain ⟨-, htoken⟩ := ParseState.diagnostic_of_fail hfail
      refine ⟨used.length, t, by simp, htoken, ?_, ?_, ?_⟩
      · intro us
        have htake : (used ++ t :: rest).take (used.length + 1) = used ++ [t] := by
          rw [List.append_cons]
          exact List.take_left' (by simp)
        rw [htake, List.append_assoc, List.singleton_append]
        exact (refuses_of_fail hleads hfail us).mpr rfl
      · intro hpos
        rw [List.take_left]
        exact endsEarly_of_leads (List.length_pos_iff.mp hpos) hleads
      · intro source hsource
        have hmem : t ∈ tokenize source := by simp [← hsource]
        exact Diagnostic.extract_span htoken hmem

/-- The word of `(+ x)` is no parameter, and no text behind it makes it one. -/
theorem parse_refusal_strayWord :
    tokenize "(+ x)" ≠ [] ∧ ∃ i, (tokenize "(+ x)")[i]? = some ⟨.symbol, "x", 3, 4⟩ ∧
      ∀ us, Refuses ((tokenize "(+ x)").take (i + 1) ++ us)
        (.unhandledToken ⟨.symbol, "x", 3, 4⟩) := by
  have hne : tokenize "(+ x)" ≠ [] := by decide
  have hparse : Refuses (tokenize "(+ x)") (.unhandledToken ⟨.symbol, "x", 3, 4⟩) :=
    ⟨_, rfl, rfl⟩
  obtain ⟨i, t, hi, ht, hall, -, -⟩ := (parse_refusal hne).2.2 _ hparse (Or.inr rfl)
  obtain rfl : (⟨.symbol, "x", 3, 4⟩ : Token) = t := Option.some.inj ht
  exact ⟨hne, i, hi, hall⟩

end CallLang
