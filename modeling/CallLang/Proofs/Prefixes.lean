/-
# `CallLang.Proofs.Prefixes` — a call, and the tokens that are cut off from it

The parser answers at the token that completes the outermost call, and that is a
close paren.  Up to there one token after another has led it on, so tokens that
stop earlier have led it on as well, and end too early
(`parse_take_of_leads`).  Tokens behind the call are not read.  So a call has one
length: no shorter row of its tokens is a call, and no longer row is another one.
-/
import CallLang.Proofs.Grammar
import CallLang.Proofs.Refusal

namespace CallLang

section Prefixes

variable {ts : List Token} {e : Expr} {n : Nat}

theorem Leads.take {s s' : ParseState} (h : Leads s ts s') (k : Nat) :
    ∃ m, Leads s (ts.take k) m := by
  induction h generalizing k with
  | nil => exact ⟨_, by simpa using Leads.nil⟩
  | cons hmove _ ih =>
      cases k with
      | zero => exact ⟨_, .nil⟩
      | succ k =>
          obtain ⟨m, hm⟩ := ih k
          exact ⟨m, .cons hmove hm⟩

theorem parse_take_of_leads {s : ParseState} (h : Leads .start ts s) {k : Nat} (hpos : 0 < k)
    (hk : k ≤ ts.length) : parse (ts.take k) = .error .unexpectedEnd := by
  obtain ⟨m, hm⟩ := h.take k
  have hne : ts.take k ≠ [] := List.ne_nil_of_length_pos (by rw [List.length_take]; omega)
  rw [parse_of_leads hm]
  cases m with
  | start => exact absurd rfl (hm.ne_start hne)
  | operator | params | string => rfl

/-- All tokens of a call but the last lead on. -/
theorem exists_leads_of_parseWithRest (h : parseWithRest ts = .ok (e, n)) :
    ∃ s, Leads .start (ts.take (n - 1)) s := by
  rcases ParseState.leads_or_stops .start ts with
    ⟨s, hleads⟩ | ⟨used, t, rest, s, rfl, hleads, hstop⟩
  · exact hleads.take (n - 1)
  · have hread := ParseState.feed_of_leads hleads 0 (t :: rest)
    rcases hstop with ⟨e', hdone⟩ | ⟨error, hfail⟩
    · rw [ParseState.feed_of_done hdone, Nat.zero_add] at hread
      injection hread.symm.trans h with heq
      injection heq with _ hlength
      refine ⟨s, ?_⟩
      rwa [← hlength, Nat.add_sub_cancel, List.take_left]
    · rw [ParseState.feed_of_fail hfail] at hread
      cases hread.symm.trans h

theorem Derives.exists_ends (h : Derives ts e) :
    3 ≤ ts.length ∧ ∃ c, ts[ts.length - 1]? = some c ∧ c.kind = .closeParen := by
  cases h with
  | @call o s c op us ps _ _ _ _ _ _ hc =>
      refine ⟨by simp, c, ?_, hc⟩
      rw [← List.getLast?_eq_getElem?, ← List.cons_append, ← List.cons_append]
      exact List.getLast?_concat

/-- **A call is read from its own tokens, and from no fewer.**  The tokens that
are read are three at least, and the last is a close paren.  Whatever follows
them, the answer is the same.  Any fewer of them, but for none, are no program:
they end too early. -/
theorem parseWithRest_minimal (h : parseWithRest ts = .ok (e, n)) :
    3 ≤ n ∧ n ≤ ts.length ∧
    (∃ c, ts[n - 1]? = some c ∧ c.kind = .closeParen) ∧
    (∀ us, parseWithRest (ts.take n ++ us) = .ok (e, n)) ∧
    ∀ k, 1 ≤ k → k < n → parse (ts.take k) = .error .unexpectedEnd := by
  obtain ⟨hn, hcall⟩ := derives_of_parseWithRest h
  have hlength : (ts.take n).length = n := by rw [List.length_take, Nat.min_eq_left hn]
  obtain ⟨hthree, c, hlast, hclose⟩ := hcall.exists_ends
  rw [hlength] at hthree hlast
  refine ⟨hthree, hn, ⟨c, ?_, hclose⟩, ?_, ?_⟩
  · rwa [List.getElem?_take_of_lt (by omega)] at hlast
  · intro us
    have hread := parseWithRest_append hcall us
    rwa [hlength] at hread
  · intro k hpos hk
    obtain ⟨s, hleads⟩ := exists_leads_of_parseWithRest h
    have hcut := parse_take_of_leads hleads hpos (by rw [List.length_take]; omega)
    rwa [List.take_take, Nat.min_eq_left (Nat.le_sub_one_of_lt hk)] at hcut

end Prefixes

/-- Of the ten tokens of `(+ 1 (print "a"))` nine are too few, and a stray paren
behind them is not read. -/
theorem parseWithRest_minimal_nested :
    parseWithRest (tokenize "(+ 1 (print \"a\")))") =
        .ok (.binary .add [.number "1", .unary .print (some (.string "a"))], 10) ∧
      parse ((tokenize "(+ 1 (print \"a\")))").take 9) = .error .unexpectedEnd := by
  have hread : parseWithRest (tokenize "(+ 1 (print \"a\")))") =
      .ok (.binary .add [.number "1", .unary .print (some (.string "a"))], 10) := rfl
  exact ⟨hread, (parseWithRest_minimal hread).2.2.2.2 9 (by decide) (by decide)⟩

end CallLang
