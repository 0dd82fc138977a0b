/-
# `CallLang.Proofs.Moves` — what one token does to the parser

`ParseState.step` decides by the state and then by the kind of the token.  Here
its answers are listed: `Moves` has a rule for each pair of states that one
token can lead between, and `step_eq_more_iff` says that there is no other;
only the last close paren completes a call (`step_eq_done_iff`); and `Stops` has
a rule for each error (`step_eq_fail_iff`).  What is proved about runs goes
through these rules and opens `step` no more.
-/
import CallLang.Parse

namespace CallLang

/-- `Moves s t s'`: the token `t` leads from the state `s` to the state `s'`. -/
inductive Moves : ParseState → Token → ParseState → Prop
  | start {t : Token} : t.kind = .openParen → Moves .start t (.operator [])
  | operator {t : Token} {op : Operator} {outer : List Frame} :
      t.kind = .symbol → op.text = t.text →
      Moves (.operator outer) t (.params ⟨op, []⟩ outer)
  | number {t : Token} {top : Frame} {outer : List Frame} :
      t.kind = .number →
      Moves (.params top outer) t (.params (top.add (.number t.text)) outer)
  | openString {t : Token} {top : Frame} {outer : List Frame} :
      t.kind = .quote → Moves (.params top outer) t (.string [] top outer)
  | openCall {t : Token} {top : Frame} {outer : List Frame} :
      t.kind = .openParen → Moves (.params top outer) t (.operator (top :: outer))
  | closeCall {t : Token} {top next : Frame} {outer : List Frame} :
      t.kind = .closeParen →
      Moves (.params top (next :: outer)) t (.params (next.add top.close) outer)
  | word {t : Token} {words : List String} {top : Frame} {outer : List Frame} :
      t.kind ≠ .quote →
      Moves (.string words top outer) t (.string (t.text :: words) top outer)
  | closeString {t : Token} {words : List String} {top : Frame} {outer : List Frame} :
      t.kind = .quote →
      Moves (.string words top outer) t
        (.params (top.add (.string (" ".intercalate words.reverse))) outer)

/-- `Stops s t error`: the token `t` is refused in the state `s`, with this error. -/
inductive Stops : ParseState → Token → ParseError → Prop
  | start {t : Token} : t.kind ≠ .openParen → Stops .start t (.noInitialCall (some t))
  | noOperator {t : Token} {outer : List Frame} :
      t.kind ≠ .symbol → Stops (.operator outer) t (.missingOperator t)
  | otherOperator {t : Token} {outer : List Frame} :
      t.kind = .symbol → (∀ op : Operator, op.text ≠ t.text) →
      Stops (.operator outer) t (.unknownOperator t)
  | noParameter {t : Token} {top : Frame} {outer : List Frame} :
      t.kind = .symbol ∨ t.kind = .unhandled → Stops (.params top outer) t (.unhandledToken t)

namespace ParseState

theorem step_of_moves {s s' : ParseState} {t : Token} (h : Moves s t s') :
    s.step t = .more s' := by
  cases h with
  | start h | number h | openString h | openCall h | closeString h => simp [step, h]
  | operator h hop => simp [step, h, Operator.ofText?_eq_some_iff.mpr hop]
  | closeCall h => simp [step, h, ParseState.closeCall]
  | word h => simp [step, h]

theorem moves_of_step {s s' : ParseState} {t : Token} (h : s.step t = .more s') :
    Moves s t s' := by
  cases s with
  | start =>
      simp only [step] at h
      split at h
      next hk => cases h; exact .start hk
      next => cases h
  | operator outer =>
      simp only [step] at h
      split at h
      next hk =>
        split at h
        next op hop => cases h; exact .operator hk (Operator.ofText?_eq_some_iff.mp hop)
        next => cases h
      next => cases h
  | params top outer =>
      simp only [step] at h
      split at h
      next hk => cases h; exact .number hk
      next hk => cases h; exact .openString hk
      next hk => cases h; exact .openCall hk
      next hk =>
        cases outer with
        | nil => cases h
        | cons next outer => cases h; exact .closeCall hk
      next => cases h
      next => cases h
  | string words top outer =>
      simp only [step] at h
      split at h
      next hk => cases h; exact .closeString hk
      next hk => cases h; exact .word hk

/-- The rules of `Moves` are all the ways in which a token leads on. -/
theorem step_eq_more_iff {s s' : ParseState} {t : Token} : s.step t = .more s' ↔ Moves s t s' :=
  ⟨moves_of_step, step_of_moves⟩

theorem step_eq_done_iff {s : ParseState} {t : Token} {e : Expr} :
    s.step t = .done e ↔ ∃ top, s = .params top [] ∧ t.kind = .closeParen ∧ top.close = e := by
  constructor
  · intro h
    cases s with
    | start =>
        simp only [step] at h
        split at h <;> cases h
    | operator outer =>
        simp only [step] at h
        split at h
        · split at h <;> cases h
        · cases h
    | params top outer =>
        simp only [step] at h
        split at h <;> try cases h
        next hk =>
          cases outer with
          | nil => cases h; exact ⟨top, rfl, hk, rfl⟩
          | cons next outer => cases h
    | string words top outer =>
        simp only [step] at h
        split at h <;> cases h
  · rintro ⟨top, rfl, hk, rfl⟩
    simp [step, hk, ParseState.closeCall]

theorem step_of_stops {s : ParseState} {t : Token} {error : ParseError} (h : Stops s t error) :
    s.step t = .fail error := by
  cases h with
  | start h | noOperator h => simp [step, h]
  | otherOperator h hop => simp [step, h, Operator.ofText?_eq_none_iff.mpr hop]
  | noParameter h => rcases h with h | h <;> simp [step, h]

/-- The rules of `Stops` are all the ways in which a token is refused. -/
theorem step_eq_fail_iff {s : ParseState} {t : Token} {error : ParseError} :
    s.step t = .fail error ↔ Stops s t error := by
  refine ⟨fun h => ?_, step_of_stops⟩
  cases s with
  | start =>
      simp only [step] at h
      split at h
      next => cases h
      next hk => cases h; exact .start hk
  | operator outer =>
      simp only [step] at h
      split at h
      next hk =>
        split at h
        next => cases h
        next hop => cases h; exact .otherOperator hk (Operator.ofText?_eq_none_iff.mp hop)
      next hk => cases h; exact .noOperator hk
  | params top outer =>
      simp only [step] at h
      split at h <;> try cases h
      next => cases outer <;> cases h
      next hk => exact .noParameter (Or.inl hk)
      next hk => exact .noParameter (Or.inr hk)
  | string words top outer =>
      simp only [step] at h
      split at h <;> cases h

/-! ## Runs -/

theorem feed_of_moves {s s' : ParseState} {t : Token} (h : Moves s t s') (k : Nat)
    (ts : List Token) : s.feed k (t :: ts) = s'.feed (k + 1) ts := by
  simp only [feed, step_of_moves h]

theorem feed_of_done {s : ParseState} {t : Token} {e : Expr} (h : s.step t = .done e) (k : Nat)
    (ts : List Token) : s.feed k (t :: ts) = .ok (e, k + 1) := by
  simp only [feed, h]

theorem feed_of_fail {s : ParseState} {t : Token} {error : ParseError}
    (h : s.step t = .fail error) (k : Nat) (ts : List Token) :
    s.feed k (t :: ts) = .error error := by
  simp only [feed, h]

theorem feed_of_stops {s : ParseState} {t : Token} {error : ParseError} (h : Stops s t error)
    (k : Nat) (ts : List Token) : s.feed k (t :: ts) = .error error :=
  feed_of_fail (step_of_stops h) k ts

end ParseState

end CallLang
